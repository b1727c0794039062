import DataflowSim.Graph.Traverse
import DataflowSim.Library.Precedence

/-!
# The sequence of the nodes region by region

`bfsTraverseNodesWithCtrlRegionSequence` of `graph.cpp`. The nodes are listed region by region and
then moved behind their predecessors. The regions come in the order of an `unordered_map`, which is
a parameter here.
-/

namespace DataflowSim.Graph

namespace ChanGraph

/-- `maxIter`: the position of the last predecessor, or the begin of the list; the position of a
name that is not in the list is the end. -/
def maxIter (g : ChanGraph) (nodes : List String) (n : String) : Nat :=
  ((g.node n).allPre.map nodes.idxOf).foldl max 0

/-- A node that stands before a predecessor is moved behind the last of them, and the position is
looked at again. -/
def adjustLoop (g : ChanGraph) : Nat → Nat → List String → Option (List String)
  | 0, iter, nodes => if iter < nodes.length then none else some nodes
  | fuel + 1, iter, nodes =>
    match nodes[iter]? with
    | none => some nodes
    | some n =>
      let last := g.maxIter nodes n
      if iter < last then
        -- behind the end there is nothing to insert at
        if last < nodes.length then
          g.adjustLoop fuel iter ((nodes.insertIdx (last + 1) n).eraseIdx iter)
        else none
      else g.adjustLoop fuel (iter + 1) nodes

/-- The nodes of each region in the order of the traversal. -/
def nodesByRegion (g : ChanGraph) (order simNodes : List String) : List String :=
  order.flatMap fun r => simNodes.filter fun n => (g.node n).controlRegionName = r

def bfsTraverseNodesWithCtrlRegionSequence (order : List String) (fuel : Nat) (g : ChanGraph) :
    Option (List String) := do
  let simNodes ← g.bfsTraverseNodes g.nodes
  if simNodes.all fun n => (g.node n).controlRegionName ∈ g.controlTree.regions then
    g.adjustLoop fuel 0 (g.nodesByRegion order simNodes)
  else none

/-! ## Acyclic graphs -/

/-- No node comes before itself. -/
def Acyclic (g : ChanGraph) : Prop :=
  ∀ n, ¬ Relation.TransGen (fun p n => n ∈ g.nodes ∧ p ∈ (g.node n).allPre) n n

/-- A predecessor is a node, and has the node among its successors. -/
def Mutual (g : ChanGraph) : Prop :=
  ∀ n ∈ g.nodes, ∀ p ∈ (g.node n).allPre, p ∈ g.nodes ∧ n ∈ (g.node p).allNext

variable {g : ChanGraph}

theorem Acyclic.of_rank {rank : String → Nat}
    (lower : ∀ n ∈ g.nodes, ∀ p ∈ (g.node n).allPre, rank p < rank n) : g.Acyclic := by
  intro n cycle
  have up : ∀ {m}, Relation.TransGen (fun p n => n ∈ g.nodes ∧ p ∈ (g.node n).allPre) n m →
      rank n < rank m := by
    intro m path
    induction path with
    | single edge => exact lower _ edge.1 _ edge.2
    | tail _ edge ih => exact ih.trans (lower _ edge.1 _ edge.2)
  exact (up cycle).false

theorem exists_rank (edges : g.Mutual) (acyclic : g.Acyclic) :
    ∃ rank : String → Nat, (∀ n, rank n ≤ g.nodes.length) ∧
      ∀ n ∈ g.nodes, ∀ p ∈ (g.node n).allPre, rank p < rank n := by
  obtain ⟨rank, low, lower⟩ := @Precedence.exists_rank _ (fun n => (g.node n).allPre)
    g.nodes.toFinset
    (fun n mem p before => by simpa using (edges n (by simpa using mem) p before).1)
    (by simpa [Acyclic] using acyclic)
  refine ⟨rank, fun n => (low n).trans (List.toFinset_card_le _), fun n mem => ?_⟩
  exact lower n (by simpa using mem)

/-- Without cycles the traversal reaches every node. -/
theorem bfsTraverseNodes_perm (edges : g.Mutual) (acyclic : g.Acyclic) :
    ∃ simNodes, g.bfsTraverseNodes g.nodes = some simNodes ∧ simNodes.Perm g.nodes := by
  obtain ⟨rank, -, lower⟩ := exists_rank edges acyclic
  obtain ⟨simNodes, run, once, inside⟩ := bfsTraverseNodes_eq_some g.nodup fun n mem => mem
  refine ⟨simNodes, run, (List.perm_ext_iff_of_nodup once g.nodup).mpr fun n => ⟨inside n, ?_⟩⟩
  intro mem
  induction k : rank n using Nat.strong_induction_on generalizing n with
  | _ k ih =>
    rw [mem_bfsTraverseNodes_iff run]
    by_cases root : ∀ p ∈ (g.node n).allPre, p ∉ g.nodes
    · exact ⟨n, mem, root, .refl⟩
    · push Not at root
      obtain ⟨p, before, known⟩ := root
      have reached := ih (rank p) (k ▸ lower n mem p before) p known rfl
      obtain ⟨r, start, none, path⟩ := (mem_bfsTraverseNodes_iff run).mp reached
      exact ⟨r, start, none, path.tail ⟨(edges n mem p before).2, mem⟩⟩

/-! ## The loop -/

theorem le_foldl_max {l : List Nat} {m i : Nat} : l.foldl max m ≤ i ↔ m ≤ i ∧ ∀ k ∈ l, k ≤ i := by
  induction l generalizing m with
  | nil => simp
  | cons k l ih => grind

theorem maxIter_le_iff {nodes : List String} {n : String} {i : Nat} :
    g.maxIter nodes n ≤ i ↔ ∀ p ∈ (g.node n).allPre, nodes.idxOf p ≤ i := by
  simp [maxIter, le_foldl_max]

theorem exists_of_lt_maxIter {nodes : List String} {n : String} {i : Nat}
    (later : i < g.maxIter nodes n) : ∃ p ∈ (g.node n).allPre, nodes.idxOf p = g.maxIter nodes n := by
  have attained : ¬ g.maxIter nodes n ≤ g.maxIter nodes n - 1 := by omega
  rw [maxIter_le_iff] at attained
  push Not at attained
  obtain ⟨p, before, high⟩ := attained
  exact ⟨p, before, le_antisymm (maxIter_le_iff.mp le_rfl p before) (by omega)⟩

theorem insertIdx_length {α : Type*} (front tail : List α) (a : α) :
    (front ++ tail).insertIdx front.length a = front ++ a :: tail := by
  induction front with
  | nil => simp
  | cons b front ih => simp [ih]

/-- A node in front of a predecessor is moved behind it. -/
theorem moved_eq (done mid tail : List String) (n p : String) :
    ((done ++ n :: (mid ++ p :: tail)).insertIdx (done.length + 1 + mid.length + 1) n).eraseIdx
      done.length = done ++ (mid ++ p :: n :: tail) := by
  have place : done.length + 1 + mid.length + 1 = (done ++ n :: (mid ++ [p])).length := by
    simp only [List.length_append, List.length_cons, List.length_nil]
    omega
  have split : done ++ n :: (mid ++ p :: tail) = (done ++ n :: (mid ++ [p])) ++ tail := by simp
  rw [place, split, insertIdx_length]
  simp [List.eraseIdx_append_of_length_le]

/-- A predecessor at or before the position of a node stands before it. -/
theorem mem_of_idxOf_le {done rest : List String} {n p : String} (ne : p ≠ n)
    (low : (done ++ n :: rest).idxOf p ≤ done.length) : p ∈ done := by
  by_contra new
  rw [List.idxOf_append_of_notMem new, List.idxOf_cons_ne _ ne.symm] at low
  omega

/-- A predecessor behind the position splits the rest, and none of those behind the last one is
a predecessor. -/
theorem split_of_lt {done rest : List String} {n p : String} (once : (done ++ n :: rest).Nodup)
    (known : p ∈ done ++ n :: rest) (later : done.length < (done ++ n :: rest).idxOf p) :
    ∃ mid tail, rest = mid ++ p :: tail ∧
      (done ++ n :: rest).idxOf p = done.length + 1 + mid.length ∧
      ∀ q ∈ tail, (done ++ n :: rest).idxOf p < (done ++ n :: rest).idxOf q := by
  have new : p ∉ done := fun old => by
    rw [List.idxOf_append_of_mem old] at later
    exact later.not_ge (List.idxOf_lt_length_of_mem old).le
  have ne : p ≠ n := by
    rintro rfl
    simp [List.idxOf_append_of_notMem new] at later
  obtain ⟨mid, tail, rfl⟩ := List.append_of_mem (show p ∈ rest by grind)
  have apart : ∀ q ∈ p :: tail, q ∉ done ++ n :: mid := fun q there here => by
    have split : done ++ n :: (mid ++ p :: tail) = (done ++ n :: mid) ++ p :: tail := by simp
    exact List.disjoint_of_nodup_append (split ▸ once) here there
  have place : ∀ q ∈ p :: tail, (done ++ n :: (mid ++ p :: tail)).idxOf q =
      done.length + 1 + mid.length + (p :: tail).idxOf q := fun q there => by
    have split : done ++ n :: (mid ++ p :: tail) = (done ++ n :: mid) ++ p :: tail := by simp
    rw [split, List.idxOf_append_of_notMem (apart q there)]
    grind
  refine ⟨mid, tail, rfl, by simpa using place p List.mem_cons_self, fun q there => ?_⟩
  have other : p ≠ q := by grind
  rw [place p List.mem_cons_self, place q (List.mem_cons_of_mem p there), List.idxOf_cons_self,
    List.idxOf_cons_ne _ other]
  omega

/-- The nodes before the position are in order; those behind it pay for the moves. -/
theorem adjustLoop_ordered {rank : String → Nat} {height width : Nat} (low : ∀ n, rank n ≤ height)
    {done rest : List String}
    (lower : ∀ n ∈ done ++ rest, ∀ p ∈ (g.node n).allPre, p ∈ done ++ rest ∧ rank p < rank n)
    (once : (done ++ rest).Nodup) (short : rest.length ≤ width)
    (ordered : Precedence.Ordered (fun n => (g.node n).allPre) done) :
    ∃ fuel l, g.adjustLoop fuel done.length (done ++ rest) = some l ∧ l.Perm (done ++ rest) ∧
      Precedence.Ordered (fun n => (g.node n).allPre) l := by
  -- the rest gets shorter, or as long and cheaper
  induction len : rest.length generalizing done rest with
  | zero =>
    obtain rfl := List.eq_nil_of_length_eq_zero len
    exact ⟨0, done, by simp [adjustLoop], by simp, ordered⟩
  | succ k shorter =>
    induction c : Precedence.cost (fun n => (g.node n).allPre)
        (fun n => (width + 1) ^ (height - rank n)) rest using Nat.strong_induction_on
        generalizing rest with
    | _ c cheaper =>
      obtain ⟨n, rest, rfl⟩ := List.exists_cons_of_length_eq_add_one len
      have here : (done ++ n :: rest)[done.length]? = some n := by simp
      have mem : n ∈ done ++ n :: rest := by simp
      by_cases stays : g.maxIter (done ++ n :: rest) n ≤ done.length
      · have all : ∀ p ∈ (g.node n).allPre, p ∈ done := fun p before => by
          have ne : p ≠ n := fun eq => (lower n mem p before).2.ne (by rw [eq])
          exact mem_of_idxOf_le ne (maxIter_le_iff.mp stays p before)
        have width' : rest.length ≤ width := by grind
        rw [List.append_cons] at lower once ⊢
        obtain ⟨fuel, l, run, perm, final⟩ := shorter lower once width' (ordered.concat all) (by grind)
        refine ⟨fuel + 1, l, ?_, perm, final⟩
        rw [← List.append_cons] at run ⊢
        simpa [adjustLoop, here, stays.not_gt] using run
      · obtain ⟨p, before, last⟩ := exists_of_lt_maxIter (not_le.mp stays)
        have known := (lower n mem p before).1
        obtain ⟨mid, tail, rfl, place, behind⟩ := split_of_lt once known (last ▸ not_le.mp stays)
        have perm : (done ++ (mid ++ p :: n :: tail)).Perm (done ++ n :: (mid ++ p :: tail)) := by
          refine List.Perm.append_left done ?_
          simpa using (@List.perm_middle _ n (mid ++ [p]) tail)
        have paid := @Precedence.cost_move_lt _ (fun n => (g.node n).allPre) _ rank width height n p
          mid tail low (fun b there after => (lower b (by grind) n after).2) (by grind) before
          fun q earlier there => (behind q there).not_ge (maxIter_le_iff.mp last.ge q earlier)
        obtain ⟨fuel, l, run, perm', final⟩ := cheaper _ (c ▸ paid) (by simpa [perm.mem_iff] using lower)
          (perm.nodup_iff.mpr once) (by grind) (by grind) rfl
        refine ⟨fuel + 1, l, ?_, perm'.trans perm, final⟩
        have inside := List.idxOf_lt_length_of_mem known
        rw [adjustLoop, here]
        dsimp only
        rw [if_pos (not_le.mp stays), ← last, if_pos inside, place, moved_eq]
        exact run

/-- In an acyclic graph the sequence ends: it has every node once, behind its predecessors. -/
theorem bfsTraverseNodesWithCtrlRegionSequence_ordered (g : ChanGraph) (placed : g.Placed)
    (edges : g.Mutual) (acyclic : g.Acyclic) {order : List String}
    (iteration : order.Perm g.controlTree.regions) :
    ∃ fuel l, g.bfsTraverseNodesWithCtrlRegionSequence order fuel = some l ∧ l.Perm g.nodes ∧
      ∀ n ∈ l, ∀ p ∈ (g.node n).allPre, l.idxOf p < l.idxOf n := by
  obtain ⟨simNodes, traversed, perm⟩ := bfsTraverseNodes_perm edges acyclic
  obtain ⟨rank, low, lower⟩ := exists_rank edges acyclic
  have declared : ∀ n ∈ simNodes, (g.node n).controlRegionName ∈ g.controlTree.regions :=
    fun n mem => placed n (perm.mem_iff.mp mem)
  have regions := (Adjacency.perm_flatMap_filter (iteration.nodup_iff.mpr g.controlTree.nodup)
    (perm.nodup_iff.mpr g.nodup) fun n mem => iteration.mem_iff.mpr (declared n mem)).trans perm
  obtain ⟨fuel, l, run, same, ordered⟩ := @adjustLoop_ordered g rank _ _ low []
    (g.nodesByRegion order simNodes)
    (fun n mem p before => ⟨regions.mem_iff.mpr (edges n (regions.mem_iff.mp mem) p before).1,
      lower n (regions.mem_iff.mp mem) p before⟩)
    (regions.nodup_iff.mpr g.nodup) le_rfl Precedence.ordered_nil
  refine ⟨fuel, l, ?_, same.trans regions, fun n mem p before => ordered.idxOf_lt mem before⟩
  have all : simNodes.all (fun n => (g.node n).controlRegionName ∈ g.controlTree.regions) = true := by
    simpa using declared
  rw [bfsTraverseNodesWithCtrlRegionSequence, traversed, Option.bind_eq_bind, Option.bind_some,
    if_pos all]
  exact run

theorem row_nodup : ["a", "b", "c"].Nodup := by decide

theorem row_regions_nodup : ["outer", "inner"].Nodup := by decide

/-- Three nodes in a row, the last of them in an inner region. -/
def row : ChanGraph where
  nodes := ["a", "b", "c"]
  node
    | "a" => { controlRegionName := "outer", nextNodes := fun | .data => ["b"] | _ => [] }
    | "b" => { controlRegionName := "outer", preNodes := fun | .data => ["a"] | _ => []
               nextNodes := fun | .active => ["c"] | _ => [] }
    | "c" => { controlRegionName := "inner", preNodes := fun | .active => ["b"] | _ => [] }
    | _ => {}
  controlTree := ⟨["outer", "inner"], fun _ => {}, row_regions_nodup⟩
  nodup := row_nodup

/-- The inner region comes first in the map, and its node is moved behind the others. -/
example : row.nodesByRegion ["inner", "outer"] row.nodes = ["c", "a", "b"] ∧
    row.bfsTraverseNodesWithCtrlRegionSequence ["inner", "outer"] 4 = some ["a", "b", "c"] := by
  decide +kernel

theorem bfsTraverseNodesWithCtrlRegionSequence_ordered_row :
    ∃ fuel l, row.bfsTraverseNodesWithCtrlRegionSequence ["inner", "outer"] fuel = some l ∧
      l.Perm row.nodes ∧ ∀ n ∈ l, ∀ p ∈ (row.node n).allPre, l.idxOf p < l.idxOf n :=
  bfsTraverseNodesWithCtrlRegionSequence_ordered row (by unfold Placed; decide +kernel)
    (by unfold Mutual; decide +kernel)
    (@Acyclic.of_rank row row.nodes.idxOf (by decide +kernel)) (by decide)

end ChanGraph

end DataflowSim.Graph
