import DataflowSim.Graph.Peeling

/-!
# What a halving adds

A turn of the last loop adds an id only when the largest part has three nodes that the traversal
reaches and the first of them is no load.
-/

namespace DataflowSim.Graph

open ControlTree (LoopHierarchy)

namespace ChanGraph

variable {g : ChanGraph} {f : String → Nat} {parts : List (List String)}

/-! ## Halving -/

/-- The nodes of a part, in the order of the traversal, make two parts. -/
def Splits (g : ChanGraph) (order : List String) : Prop :=
  3 ≤ order.length ∧ ∀ n ∈ order.head?, (g.node n).nodeOp ≠ "Load"

instance (order : List String) : Decidable (g.Splits order) :=
  inferInstanceAs (Decidable (_ ∧ _))

theorem drop_splitPoint_eq_nil_iff {order : List String} (size : order.length < 2 ^ 64) :
    order.drop (g.splitPoint order + 1) = [] ↔ ¬ g.Splits order := by
  rw [List.drop_eq_nil_iff]
  cases order with
  | nil => simp [Splits]
  | cons n order =>
    simp only [splitPoint, Splits, List.findIdx_cons, List.length_cons, decrement, List.head?_cons,
      Option.mem_def, Option.some.injEq, forall_eq'] at size ⊢
    by_cases load : (g.node n).nodeOp = "Load"
    · simp only [load, decide_true, cond_true]
      simp
      omega
    · simp only [load, decide_false, cond_false, ne_eq, not_false_eq_true, and_true]
      split_ifs <;> omega

theorem maxNodesubgraphId_lt (h : parts ≠ []) : maxNodesubgraphId parts < parts.length := by
  suffices bound : ∀ (l : List (List String)) (k : Nat) (best : Nat × Nat), best.2 < k + l.length →
      ((l.zipIdx k).foldl (fun best p => if best.1 < p.1.length then (p.1.length, p.2) else best)
        best).2 < k + l.length by
    have pos : 0 < parts.length := List.length_pos_iff.mpr h
    simpa [maxNodesubgraphId] using bound parts 0 (0, 0) (by simpa using pos)
  intro l
  induction l with
  | nil => intro k best h; simpa using h
  | cons p l ih =>
    intro k best h
    rw [List.length_cons] at h ⊢
    have start : (if best.1 < p.length then (p.length, k) else best).2 < k + 1 + l.length := by
      split_ifs
      · change k < k + 1 + l.length
        omega
      · omega
    have next := ih (k + 1) _ start
    rw [List.zipIdx_cons, List.foldl_cons]
    exact next.trans_eq (by omega)

/-- The parts after a turn. -/
def halveParts (g : ChanGraph) (parts : List (List String)) (order : List String) :
    List (List String) :=
  parts.set (maxNodesubgraphId parts) (order.take (g.splitPoint order + 1)) ++
    [order.drop (g.splitPoint order + 1)]

/-- Each of so many turns makes two parts of one. -/
def Divisible (g : ChanGraph) : Nat → List (List String) → Prop
  | 0, _ => True
  | turns + 1, parts =>
    ∃ order, g.bfsTraverseNodes (parts.getD (maxNodesubgraphId parts) []) = some order ∧
      g.Splits order ∧ g.Divisible turns (g.halveParts parts order)

/-- The parts list nodes by their ids. -/
structure Parted (g : ChanGraph) (f : String → Nat) (parts : List (List String)) : Prop where
  nonempty : parts ≠ []
  below : ∀ n ∈ g.nodes, f n < parts.length
  once : ∀ part ∈ parts, part.Nodup
  listed : ∀ i part, parts[i]? = some part → ∀ n ∈ part, n ∈ g.nodes ∧ f n = i

/-- The ids after a turn. -/
def halveIds (g : ChanGraph) (parts : List (List String)) (order : List String) (f : String → Nat)
    (n : String) : Nat :=
  if n ∈ order.drop (g.splitPoint order + 1) then parts.length
  else if n ∈ order.take (g.splitPoint order + 1) then maxNodesubgraphId parts
  else f n

section
variable {order : List String}

theorem Parted.of_getD (h : g.Parted f parts) {i : Nat} {n : String} (mem : n ∈ parts.getD i []) :
    n ∈ g.nodes ∧ f n = i := by
  cases found : parts[i]? with
  | none => simp [found] at mem
  | some part =>
    rw [List.getD_eq_getElem?_getD, found] at mem
    exact h.listed i part found n mem

theorem Parted.nodup_getD (h : g.Parted f parts) (i : Nat) : (parts.getD i []).Nodup := by
  cases found : parts[i]? with
  | none => simp [found]
  | some part =>
    rw [List.getD_eq_getElem?_getD, found]
    exact h.once part (List.mem_of_getElem? found)

theorem Parted.of_order (h : g.Parted f parts)
    (reached : ∀ n ∈ order, n ∈ parts.getD (maxNodesubgraphId parts) []) {n : String} (mem : n ∈ order) :
    n ∈ g.nodes ∧ f n = maxNodesubgraphId parts := h.of_getD (reached n mem)

theorem Parted.halveIds_eq (h : g.Parted f parts)
    (reached : ∀ n ∈ order, n ∈ parts.getD (maxNodesubgraphId parts) []) (n : String) :
    g.halveIds parts order f n =
      if n ∈ order.drop (g.splitPoint order + 1) then parts.length else f n := by
  unfold halveIds
  by_cases stays : n ∈ order.take (g.splitPoint order + 1)
  · rw [if_pos stays, (h.of_order reached (List.mem_of_mem_take stays)).2]
  · rw [if_neg stays]

theorem halve_eq (h : g.Parted f parts)
    (run : g.bfsTraverseNodes (parts.getD (maxNodesubgraphId parts) []) = some order)
    (known : ∀ n ∈ order, n ∈ g.nodes) :
    halve ⟨g.withIds f, parts, parts.length - 1⟩ =
      some ⟨g.withIds (g.halveIds parts order f), g.halveParts parts order,
        (g.halveParts parts order).length - 1⟩ := by
  have pos : 0 < parts.length := List.length_pos_iff.mpr h.nonempty
  have number : parts.length - 1 + 1 = parts.length := by omega
  have length : (g.halveParts parts order).length - 1 = parts.length := by simp [halveParts]
  have traversed : (g.withIds f).bfsTraverseNodes (parts.getD (maxNodesubgraphId parts) []) =
    some order := run
  have stay : ∀ n ∈ order.take (g.splitPoint order + 1), n ∈ g.nodes :=
    fun n mem => known n (List.mem_of_mem_take mem)
  have moved : ∀ n ∈ order.drop (g.splitPoint order + 1), n ∈ g.nodes :=
    fun n mem => known n (List.mem_of_mem_drop mem)
  have split : (g.withIds f).splitPoint order = g.splitPoint order := rfl
  simp only [halve, traversed, Option.bind_eq_bind, Option.bind_some, split, number,
    assignSubgraph_withIds stay, assignSubgraph_withIds moved, length]
  rfl

theorem Parted.halve (h : g.Parted f parts)
    (reached : ∀ n ∈ order, n ∈ parts.getD (maxNodesubgraphId parts) []) (nodup : order.Nodup) :
    g.Parted (g.halveIds parts order f) (g.halveParts parts order) := by
  have inside := maxNodesubgraphId_lt h.nonempty
  have length : (g.halveParts parts order).length = parts.length + 1 := by simp [halveParts]
  refine ⟨by simp [halveParts], fun n mem => ?_, ?_, fun i part place n mem => ?_⟩
  · have old := h.below n mem
    rw [h.halveIds_eq reached, length]
    split_ifs <;> omega
  · refine List.forall_mem_append.mpr ⟨fun part mem => ?_, ?_⟩
    · rcases List.mem_or_eq_of_mem_set mem with old | rfl
      · exact h.once part old
      · exact nodup.sublist (List.take_sublist _ _)
    · simpa using nodup.sublist (List.drop_sublist _ _)
  · rw [h.halveIds_eq reached]
    rcases Nat.lt_trichotomy i parts.length with old | rfl | outside
    · rw [halveParts, List.getElem?_append_left (by simpa using old), List.getElem?_set] at place
      split_ifs at place with here
      · obtain rfl := Option.some.inj place
        obtain ⟨known, value⟩ := h.of_order reached (List.mem_of_mem_take mem)
        have stays : n ∉ order.drop (g.splitPoint order + 1) :=
          fun there => List.disjoint_take_drop nodup le_rfl mem there
        exact ⟨known, by rw [if_neg stays, value, here]⟩
      · obtain ⟨known, value⟩ := h.listed i part place n mem
        have stays : n ∉ order.drop (g.splitPoint order + 1) := fun there =>
          here ((h.of_order reached (List.mem_of_mem_drop there)).2.symm.trans value)
        exact ⟨known, by rw [if_neg stays, value]⟩
    · obtain rfl : order.drop (g.splitPoint order + 1) = part := by
        simpa [halveParts] using place
      exact ⟨(h.of_order reached (List.mem_of_mem_drop mem)).1, if_pos mem⟩
    · rw [List.getElem?_eq_none (by omega)] at place
      cases place

/-- A turn uses one id more when it splits the part. -/
theorem Parted.card_halve (h : g.Parted f parts) (size : g.nodes.length < 2 ^ 64)
    (reached : ∀ n ∈ order, n ∈ parts.getD (maxNodesubgraphId parts) []) (nodup : order.Nodup) :
    (Labels.used g.nodes (g.halveIds parts order f)).card =
      (Labels.used g.nodes f).card + if g.Splits order then 1 else 0 := by
  have known : ∀ n ∈ order, n ∈ g.nodes := fun n mem => (h.of_order reached mem).1
  have short : order.length < 2 ^ 64 := by
    have fewer : order.length ≤ g.nodes.length :=
      (List.subperm_of_subset nodup known).length_le
    omega
  have moves := drop_splitPoint_eq_nil_iff (g := g) short
  rw [Labels.used_congr fun n _ => h.halveIds_eq reached n,
    Labels.card_used_move (fun n mem => known n (List.mem_of_mem_drop mem))
      (fun n mem => (h.below n mem).ne) ?_]
  · simp only [moves, ite_not]
  · intro n mem
    obtain ⟨first, rest, rfl⟩ := List.exists_cons_of_ne_nil (List.ne_nil_of_mem (List.mem_of_mem_drop mem))
    refine ⟨first, known first List.mem_cons_self, fun there => ?_, ?_⟩
    · rw [List.drop_succ_cons] at there
      exact (List.nodup_cons.mp nodup).1 (List.mem_of_mem_drop there)
    · rw [(h.of_order reached List.mem_cons_self).2,
        (h.of_order reached (List.mem_of_mem_drop mem)).2]

end

theorem halveTimes_succ (turns : Nat) (s : Halving) :
    halveTimes (turns + 1) s = (halve s).bind (halveTimes turns) := by
  rw [halveTimes, List.range_succ_eq_map, List.foldlM_cons, Option.bind_eq_bind]
  exact Option.bind_congr fun t _ => by rw [List.foldlM_map, halveTimes]

/-- So many turns add at most so many ids, and exactly so many when each of them splits a part. -/
theorem halveTimes_eq (size : g.nodes.length < 2 ^ 64) {turns : Nat} (h : g.Parted f parts) :
    ∃ f' parts', halveTimes turns ⟨g.withIds f, parts, parts.length - 1⟩ =
        some ⟨g.withIds f', parts', parts'.length - 1⟩ ∧
      g.Parted f' parts' ∧ parts'.length = parts.length + turns ∧
      (Labels.used g.nodes f').card ≤ (Labels.used g.nodes f).card + turns ∧
      ((Labels.used g.nodes f').card = (Labels.used g.nodes f).card + turns ↔
        g.Divisible turns parts) := by
  induction turns generalizing f parts with
  | zero => exact ⟨f, parts, rfl, h, rfl, le_rfl, by simp [Divisible]⟩
  | succ turns ih =>
    obtain ⟨order, run, nodup, reached⟩ := @bfsTraverseNodes_eq_some g
      (parts.getD (maxNodesubgraphId parts) []) (h.nodup_getD _) fun n mem => (h.of_getD mem).1
    have one := halve_eq h run fun n mem => (h.of_order reached mem).1
    have card := h.card_halve size reached nodup
    obtain ⟨f', parts', rest, parted, length, most, all⟩ := ih (h.halve reached nodup)
    have longer : (g.halveParts parts order).length = parts.length + 1 := by simp [halveParts]
    refine ⟨f', parts', ?_, parted, by omega, ?_, ?_⟩
    · rw [halveTimes_succ, one, Option.bind_some, rest]
    · split_ifs at card <;> omega
    · rw [Divisible]
      constructor
      · intro total
        have splits : g.Splits order := by
          by_contra none
          rw [if_neg none] at card
          omega
        rw [if_pos splits] at card
        exact ⟨order, run, splits, all.mp (by omega)⟩
      · rintro ⟨order', run', splits, later⟩
        obtain rfl := Option.some.inj (run.symm.trans run')
        rw [if_pos splits] at card
        have := all.mpr later
        omega

/-! ## The parts that the regions make -/

/-- The parts by id, of the nodes that have been entered. -/
def entered (g : ChanGraph) (f : String → Nat) (partitionCnt : Nat) (done : List String) : Halving where
  graph := g.withIds fun n => if n ∈ done then decrement (f n) else f n
  subgraphNodes := (List.range (partitionCnt + 1)).map fun i => done.filter fun n => decrement (f n) = i
  graphNum := partitionCnt

theorem enterPart_entered {partitionCnt : Nat} {done : List String} {n : String} (new : n ∉ done)
    (known : n ∈ g.nodes) :
    enterPart (g.entered f partitionCnt done) n =
      if decrement (f n) < partitionCnt + 1 then some (g.entered f partitionCnt (done ++ [n]))
      else none := by
  have found : (g.entered f partitionCnt done).graph.getNode n =
      some ((g.entered f partitionCnt done).graph.node n) := getNode_of_mem known
  have old : ((g.entered f partitionCnt done).graph.node n).subgraphId = f n := by
    simp [entered, new]
  have length : (g.entered f partitionCnt done).subgraphNodes.length = partitionCnt + 1 := by
    simp [entered]
  rw [enterPart, found, Option.bind_eq_bind, Option.bind_some]
  dsimp only
  rw [old, length]
  split_ifs with inside
  · congr 1
    have graph : (g.entered f partitionCnt done).graph.setNode n
        { (g.entered f partitionCnt done).graph.node n with subgraphId := decrement (f n) } =
        (g.entered f partitionCnt (done ++ [n])).graph := by
      rw [entered, setNode_withIds, entered]
      congr 1
      funext m
      grind [Function.update_apply]
    have lists : (g.entered f partitionCnt done).subgraphNodes.modify (decrement (f n)) (· ++ [n]) =
        (g.entered f partitionCnt (done ++ [n])).subgraphNodes := by
      refine List.ext_getElem (by simp [entered]) fun i _ _ => ?_
      simp only [entered, List.getElem_modify, List.getElem_map, List.getElem_range,
        List.filter_append, List.filter_singleton]
      by_cases here : decrement (f n) = i <;> simp [here]
    rw [graph, lists]
    rfl
  · rfl

theorem startHalving_eq {partitionCnt : Nat} :
    startHalving partitionCnt (g.withIds f) =
      if ∀ n ∈ g.nodes, decrement (f n) < partitionCnt + 1 then
        some (g.entered f partitionCnt g.nodes)
      else none := by
  suffices from_here : ∀ rest done, done ++ rest = g.nodes →
      rest.foldlM enterPart (g.entered f partitionCnt done) =
        if ∀ n ∈ rest, decrement (f n) < partitionCnt + 1 then
          some (g.entered f partitionCnt g.nodes)
        else none by
    have start : (⟨g.withIds f, List.replicate (partitionCnt + 1) [], partitionCnt⟩ : Halving) =
        g.entered f partitionCnt [] := by simp [entered]
    rw [startHalving, start]
    exact from_here g.nodes [] rfl
  intro rest
  induction rest with
  | nil =>
    intro done split
    rw [if_pos (by simp), ← split, List.append_nil]
    rfl
  | cons n rest ih =>
    intro done split
    have nodup := g.nodup
    rw [← split] at nodup
    have new : n ∉ done := fun old =>
      List.disjoint_of_nodup_append nodup old List.mem_cons_self
    have known : n ∈ g.nodes := by simp [← split]
    rw [List.foldlM_cons, enterPart_entered new known]
    by_cases inside : decrement (f n) < partitionCnt + 1
    · rw [if_pos inside, Option.bind_eq_bind, Option.bind_some, ih (done ++ [n]) (by simp [← split])]
      simp only [List.forall_mem_cons, inside, true_and]
    · rw [if_neg inside, if_neg fun all => inside (all n List.mem_cons_self)]
      rfl

theorem entered_parted {partitionCnt : Nat}
    (below : ∀ n ∈ g.nodes, decrement (f n) < partitionCnt + 1) :
    g.Parted (fun n => if n ∈ g.nodes then decrement (f n) else f n)
      (g.entered f partitionCnt g.nodes).subgraphNodes := by
  refine ⟨by simp [entered], fun n mem => ?_, ?_, fun i part place n mem => ?_⟩
  · simpa [entered, mem] using below n mem
  · simp only [entered, List.mem_map]
    rintro _ ⟨i, -, rfl⟩
    exact g.nodup.filter _
  · simp only [entered, List.getElem?_map, Option.map_eq_some_iff] at place
    obtain ⟨j, there, rfl⟩ := place
    obtain ⟨inside, value⟩ := List.getElem?_eq_some_iff.mp there
    obtain rfl : i = j := by simpa using value
    obtain ⟨known, value⟩ := List.mem_filter.mp mem
    exact ⟨known, by simpa [known] using value⟩

/-- The turns of the last loop, from the ids of the regions on. -/
theorem halveTimes_ids (size : g.nodes.length < 2 ^ 64) {c n : Nat} (few : c < n - 1)
    (start : ∀ x ∈ g.nodes, decrement (f x) < c + 1) :
    ∃ f', ((startHalving c (g.withIds f)).bind fun s =>
        (halveTimes (n - 1 - c) s).map Halving.graph) = some (g.withIds f') ∧
      (Labels.Exactly g.nodes f' n ↔
        Labels.Exactly g.nodes (fun x => decrement (f x)) (c + 1) ∧
          g.Divisible (n - 1 - c) (g.entered f c g.nodes).subgraphNodes) := by
  obtain ⟨f', parts', run, parted, length, most, all⟩ :=
    @halveTimes_eq _ _ _ size (n - 1 - c) (entered_parted start)
  have count : (g.entered f c g.nodes).subgraphNodes.length = c + 1 := by simp [entered]
  have state : (⟨g.withIds fun x => if x ∈ g.nodes then decrement (f x) else f x,
      (g.entered f c g.nodes).subgraphNodes, (g.entered f c g.nodes).subgraphNodes.length - 1⟩ :
      Halving) = g.entered f c g.nodes := by
    rw [count]
    rfl
  refine ⟨f', by rw [startHalving_eq, if_pos start, Option.bind_some, ← state, run, Option.map_some],
    ?_⟩
  have total : parts'.length = n := by omega
  have few' := Labels.card_used_le start
  rw [Labels.used_congr fun x (mem : x ∈ g.nodes) => if_pos mem] at most all
  rw [Labels.exactly_iff_card (total ▸ parted.below), Labels.exactly_iff_card start, ← all]
  omega

end ChanGraph

end DataflowSim.Graph
