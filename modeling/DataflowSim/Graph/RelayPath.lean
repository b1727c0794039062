import DataflowSim.Graph.Relay

/-!
# The loops between two nodes

What `ctrlRegionPath` finds in a tree whose regions nest: without its ends it is the loops on the
way from the one node to the other. From outside of all loops it lists them in the opposite
order.
-/

namespace DataflowSim.Graph

namespace ControlTree

/-- The two directions of the tree agree. -/
structure Nested (t : ControlTree) : Prop extends WellFormed t where
  above : ∀ c ∈ t.regions, (t.region c).upperControlRegion ∈ t.regions →
    c ∈ (t.region (t.region c).upperControlRegion).lowerControlRegion

/-- What the branches hand on keeps the ranks of the tree. -/
structure Handed (t : ControlTree) (rank : String → Nat) (region : String → ControlRegion) :
    Prop where
  upper : ∀ r, (region r).upperControlRegion = (t.region r).upperControlRegion
  grown : ∀ r, (t.region r).lowerControlRegion ⊆ (region r).lowerControlRegion
  ranked : ∀ r ∈ t.regions, ∀ c ∈ (region r).lowerControlRegion, rank c < rank r

theorem Handed.mergeBranch {t : ControlTree} (nested : t.Nested) {rank : String → Nat}
    {region region' : String → ControlRegion} {name : String} (declared : name ∈ t.regions)
    (h : t.Handed rank region) (run : t.mergeBranch region name = some region') :
    t.Handed rank region' := by
  unfold ControlTree.mergeBranch at run
  dsimp only at run
  split_ifs at run with branch upper
  · obtain rfl := Option.some.inj run
    set above := (region name).upperControlRegion with ha
    have below : rank name < rank above := by
      refine h.ranked above upper name (h.grown above ?_)
      rw [ha, h.upper name] at upper ⊢
      exact nested.above name declared upper
    refine ⟨fun r => ?_, fun r c mem => ?_, fun r there c mem => ?_⟩
    · by_cases here : r = above
      · subst here
        simpa using h.upper above
      · rw [Function.update_of_ne here]
        exact h.upper r
    · by_cases here : r = above
      · subst here
        simpa using .inl (h.grown above mem)
      · rw [Function.update_of_ne here]
        exact h.grown r mem
    · by_cases here : r = above
      · subst here
        rw [Function.update_self] at mem
        rcases List.mem_append.mp mem with old | new
        · exact h.ranked above there c old
        · exact (h.ranked name declared c new).trans below
      · rw [Function.update_of_ne here] at mem
        exact h.ranked r there c mem
  · exact Option.some.inj run ▸ h

/-- A region has a lower rank than what lists it and than what it names as its upper region. -/
structure Upward (t : ControlTree) (rank : String → Nat) (region : String → ControlRegion) :
    Prop where
  lower : ∀ r ∈ t.regions, ∀ c ∈ (region r).lowerControlRegion, rank c < rank r
  upper : ∀ r ∈ t.regions, (region r).upperControlRegion ∈ t.regions →
    rank r < rank (region r).upperControlRegion

theorem Handed.upward {t : ControlTree} (nested : t.Nested) {rank : String → Nat}
    {region : String → ControlRegion} (h : t.Handed rank region) : t.Upward rank region := by
  refine ⟨h.ranked, fun r mem upper => h.ranked _ upper r (h.grown _ ?_)⟩
  rw [h.upper r] at upper ⊢
  exact nested.above r mem upper

theorem Upward.setUpper {t : ControlTree} {rank : String → Nat}
    {region region' : String → ControlRegion} {name : String} (declared : name ∈ t.regions)
    (h : t.Upward rank region) (run : t.setUpper region name = some region') :
    t.Upward rank region' := by
  unfold ControlTree.setUpper at run
  split_ifs at run with loop
  · refine Run.invariant_of_mem (P := t.Upward rank) (fun lower listed s s' kept one => ?_) h run
    have below := h.lower name declared lower listed
    split_ifs at one with there
    obtain rfl := Option.some.inj one
    refine ⟨fun r mem c inside => ?_, fun r mem => ?_⟩
    · by_cases here : r = lower
      · subst here
        rw [Function.update_self] at inside
        exact kept.lower r mem c inside
      · rw [Function.update_of_ne here] at inside
        exact kept.lower r mem c inside
    · by_cases here : r = lower
      · subst here
        rw [Function.update_self]
        exact fun _ => below
      · rw [Function.update_of_ne here]
        exact kept.upper r mem
  · exact Option.some.inj run ▸ h

end ControlTree

namespace ControlTree.LoopHierarchy

/-- Loops are nested in no circle. -/
def Ranked (H : LoopHierarchy) : Prop :=
  ∃ rank : String → Nat, ∀ r ∈ H.loops, H.upper r ∈ H.loops → rank r < rank (H.upper r)

end ControlTree.LoopHierarchy

open ControlTree (LoopHierarchy)

/-- The loops of a tree whose regions nest do so too. -/
theorem ControlTree.genLoopHierarchy_ranked {t : ControlTree} (nested : t.Nested) {fuel : Nat}
    {H : LoopHierarchy} (run : t.genLoopHierarchy fuel = some H) : H.Ranked := by
  obtain ⟨rank, ranked⟩ := nested.ranked
  simp only [genLoopHierarchy, Option.bind_eq_bind, Option.bind_eq_some_iff, Option.some.injEq] at run
  obtain ⟨bfs, traversed, merged, first, final, second, rfl⟩ := run
  have start : t.Handed rank t.region := ⟨fun _ => rfl, fun _ _ mem => mem, ranked⟩
  have handed : t.Handed rank merged := Run.invariant_of_mem (fun name mem s s' kept one =>
    kept.mergeBranch nested (bfsLoop_declared traversed name (List.mem_reverse.mp mem)) one) start first
  have done : t.Upward rank final := Run.invariant_of_mem (fun name mem s s' kept one =>
    kept.setUpper mem one) (handed.upward nested) second
  exact ⟨rank, fun r mem upper => done.upper r (List.mem_filter.mp mem).1 (List.mem_filter.mp upper).1⟩

/-- The types and the upper regions are those of the tree, and what is listed is declared. -/
def ControlTree.Merged (t : ControlTree) (region : String → ControlRegion) : Prop :=
  ∀ r ∈ t.regions, (region r).controlType = (t.region r).controlType ∧
    (region r).upperControlRegion = (t.region r).upperControlRegion ∧
    ∀ c ∈ (region r).lowerControlRegion, c ∈ t.regions

theorem ControlTree.Merged.mergeBranch {t : ControlTree} (wf : t.WellFormed)
    {region : String → ControlRegion} {name : String} (h : t.Merged region)
    (declared : name ∈ t.regions) : ∃ region', t.mergeBranch region name = some region' ∧ t.Merged region' := by
  obtain ⟨type, upper, lower⟩ := h name declared
  unfold ControlTree.mergeBranch
  dsimp only
  split_ifs with branch known
  · refine ⟨_, rfl, fun r mem => ?_⟩
    by_cases here : r = (region name).upperControlRegion
    · subst here
      obtain ⟨type', upper', lower'⟩ := h _ mem
      rw [Function.update_self]
      exact ⟨type', upper', List.forall_mem_append.mpr ⟨lower', lower⟩⟩
    · rw [Function.update_of_ne here]
      exact h r mem
  · exact absurd (upper ▸ (wf.upper name declared (type ▸ branch)).1) known
  · exact ⟨region, rfl, h⟩

theorem ControlTree.setUpper_isSome {t : ControlTree} {region : String → ControlRegion} {name : String}
    (h : t.Lists (fun _ => True) region) (declared : name ∈ t.regions) :
    ∃ region', t.setUpper region name = some region' ∧ t.Lists (fun _ => True) region' := by
  suffices some_region : ∃ region', t.setUpper region name = some region' by
    obtain ⟨region', run⟩ := some_region
    exact ⟨region', run, setUpper_lists h run⟩
  unfold ControlTree.setUpper
  split_ifs with loop
  · refine (Run.total (P := fun _ _ => True) (fun done lower rest s split _ => ?_) trivial).imp
      fun _ total => total.1
    have listed : lower ∈ (region name).lowerControlRegion :=
      split ▸ List.mem_append_right _ List.mem_cons_self
    exact ⟨_, if_pos ((h name declared).1 lower listed), trivial⟩
  · exact ⟨region, rfl⟩

/-- With fuel enough the loops of a tree are found. -/
theorem ControlTree.exists_genLoopHierarchy {t : ControlTree} (wf : t.WellFormed) :
    ∃ fuel H, t.genLoopHierarchy fuel = some H := by
  obtain ⟨fuel, bfs, traversed⟩ := bfsTraverseControlTree_eq_some wf
  have start : t.Merged t.region := fun r mem => ⟨rfl, rfl, wf.lower r mem⟩
  obtain ⟨merged, first, kept⟩ : ∃ merged, bfs.reverse.foldlM t.mergeBranch t.region = some merged ∧
      t.Merged merged := by
    refine Run.total (P := fun _ region => t.Merged region) (fun done name rest region split h => ?_) start
    have mem : name ∈ bfs := List.mem_reverse.mp (split ▸ List.mem_append_right _ List.mem_cons_self)
    exact h.mergeBranch wf (bfsLoop_declared traversed name mem)
  obtain ⟨final, second, -⟩ : ∃ final, t.regions.foldlM t.setUpper merged = some final ∧
      t.Lists (fun _ => True) final := by
    refine Run.total (P := fun _ region => t.Lists (fun _ => True) region)
      (fun done name rest region split h => ?_) fun r mem => ⟨(kept r mem).2.2, fun _ _ => trivial⟩
    exact setUpper_isSome h (split ▸ List.mem_append_right _ List.mem_cons_self)
  refine ⟨fuel, ⟨t.regions.filter fun name => (final name).controlType = .Loop, final⟩, ?_⟩
  simp only [genLoopHierarchy, traversed, first, second, Option.bind_eq_bind, Option.bind_some]

namespace ControlTree.LoopHierarchy

/-! ## Going upward -/

/-- The loops around a node, the innermost first. -/
def around (H : LoopHierarchy) (nodeName : String) : List String :=
  ((H.backTrackPath nodeName).getD []).dropLast

/-- The nests of the loops. -/
abbrev Nest (H : LoopHierarchy) : List String → Prop := Lineage.Nest (· ∈ H.loops) H.upper

variable {H : LoopHierarchy}

theorem climb_eq {rank : String → Nat}
    (ranked : ∀ r ∈ H.loops, H.upper r ∈ H.loops → rank r < rank (H.upper r)) {fuel : Nat}
    {r : String} (mem : r ∈ H.loops)
    (enough : (H.loops.filter fun q => rank r < rank q).length + 2 ≤ fuel) :
    ∃ s e, H.climb fuel r = some (r :: s ++ [e]) ∧ H.Nest (r :: s) ∧ e ∉ H.loops := by
  induction fuel generalizing r with
  | zero => omega
  | succ fuel ih =>
    rw [climb, if_pos mem]
    by_cases more : H.upper r ∈ H.loops
    · have above := ranked r mem more
      have fewer : (H.loops.filter fun q => rank (H.upper r) < rank q).length <
          (H.loops.filter fun q => rank r < rank q).length := by
        have inner : (H.loops.filter fun q => rank (H.upper r) < rank q) =
            (H.loops.filter fun q => rank r < rank q).filter fun q => rank (H.upper r) < rank q := by
          rw [List.filter_filter]
          refine List.filter_congr fun q _ => ?_
          simpa using fun higher : rank (H.upper r) < rank q => above.trans higher
        rw [inner, List.length_filter_lt_length_iff_exists]
        exact ⟨H.upper r, List.mem_filter.mpr ⟨more, by simpa using above⟩, by simp⟩
      obtain ⟨s, e, climbed, nest, outside⟩ := ih more (by omega)
      exact ⟨H.upper r :: s, e, by simp [climbed], .under mem nest, outside⟩
    · obtain ⟨fuel, rfl⟩ : ∃ k, fuel = k + 1 := ⟨fuel - 1, by omega⟩
      exact ⟨[], H.upper r, by simp [climb, more], .top mem more, more⟩

/-- The path of a node in a loop lists the loops around it and one region more. -/
theorem backTrackPath_eq (ranked : H.Ranked) (n : String) : H.Nest (H.around n) ∧
    (H.around n = [] ∧ H.backTrackPath n = some [] ∨
      H.around n ≠ [] ∧ ∃ e ∉ H.loops, H.backTrackPath n = some (H.around n ++ [e])) := by
  obtain ⟨rank, ranked⟩ := ranked
  cases found : H.loopOf n with
  | none =>
    have path : H.backTrackPath n = some [] := by rw [backTrackPath, found]
    have none : H.around n = [] := by rw [around, path]; rfl
    exact ⟨none ▸ .nil, .inl ⟨none, path⟩⟩
  | some r =>
    have mem : r ∈ H.loops := List.mem_of_find?_eq_some found
    have fewer : (H.loops.filter fun q => rank r < rank q).length < H.loops.length :=
      List.length_filter_lt_length_iff_exists.mpr ⟨r, mem, by simp⟩
    obtain ⟨s, e, climbed, nest, outside⟩ :=
      @climb_eq H rank ranked (H.loops.length + 1) r mem (by omega)
    have path : H.backTrackPath n = some (r :: s ++ [e]) := by
      rw [backTrackPath, found]
      exact climbed
    have loops : H.around n = r :: s := by
      rw [around, path, Option.getD_some, List.dropLast_concat]
    exact ⟨loops ▸ nest, .inr ⟨by simp [loops], e, outside, loops ▸ path⟩⟩

/-! ## The path -/

theorem meet_eq {p p' : List String} (r : String) (q q' : List String)
    (heights : p.length = p'.length) (apart : ∀ a ∈ p, a ∉ p') :
    meet (p ++ r :: q) (p' ++ r :: q') = some (p ++ [r], p') := by
  induction p generalizing p' with
  | nil =>
    obtain rfl := List.eq_nil_of_length_eq_zero heights.symm
    simp [meet]
  | cons a p ih =>
    cases p' with
    | nil => simp at heights
    | cons b p' =>
      have ne : a ≠ b := fun same => apart a List.mem_cons_self (same ▸ List.mem_cons_self)
      have rest := @ih p' (by simpa using heights) fun c mem there =>
        apart c (List.mem_cons_of_mem _ mem) (List.mem_cons_of_mem _ there)
      simp [meet, ne, rest]

/-- One of the two nodes is outside of all loops, or the innermost loop that is around both is
around one of them without others in between, or at one height above both. -/
def Level (s t : List String) : Prop :=
  s = [] ∨ t = [] ∨ (∃ r ∈ s, r ∈ t) ∧ (s.takeWhile (· ∉ t) = [] ∨ t.takeWhile (· ∉ s) = [] ∨
    (s.takeWhile (· ∉ t)).length = (t.takeWhile (· ∉ s)).length)

instance (s t : List String) : Decidable (Level s t) :=
  inferInstanceAs (Decidable (_ ∨ _ ∨ _ ∧ (_ ∨ _ ∨ _)))

theorem Level.meets {s t : List String} (level : Level s t) (inside : s ≠ []) :
    Lineage.Meets s t := by
  rcases level with none | none | ⟨shared, -⟩
  · exact absurd none inside
  · exact .inl none
  · exact .inr shared

theorem findShortestCtrlRegionPath_nil_right (s : List String) :
    findShortestCtrlRegionPath s [] = some s := by
  simp [findShortestCtrlRegionPath]

theorem findShortestCtrlRegionPath_nil_left (t : List String) :
    findShortestCtrlRegionPath [] t = some t := by
  cases t <;> simp [findShortestCtrlRegionPath]

/-- Between loops that meet so, the path is the way from the one to the other. -/
theorem findShortestCtrlRegionPath_eq {s t : List String} {e f : String} (hs : H.Nest s)
    (ht : H.Nest t) (he : e ∉ H.loops) (hf : f ∉ H.loops) (inS : s ≠ []) (inT : t ≠ [])
    (level : Level s t) :
    findShortestCtrlRegionPath (s ++ [e]) (t ++ [f]) = some (Lineage.way s t) := by
  obtain ⟨⟨a, mem, mem'⟩, heights⟩ := (level.resolve_left inS).resolve_left inT
  obtain ⟨p, p', r, q, rfl, rfl, first, first'⟩ := Lineage.exists_meet hs ht mem mem'
  rw [Lineage.takeWhile_eq (by simpa using first) (by simp),
    Lineage.takeWhile_eq (by simpa using first') (by simp)] at heights
  rw [Lineage.way_meet first first']
  have before {p q : List String} (apart : r ∉ p) :
      (p ++ r :: q).takeWhile (· ≠ r) = p :=
    Lineage.takeWhile_eq (fun b there => by simpa using ne_of_mem_of_not_mem there apart) (by simp)
  have notP : r ∉ p := fun there => first r there (by simp)
  have notP' : r ∉ p' := fun there => first' r there (by simp)
  have loopP : ∀ b ∈ p, b ≠ f := fun b there same =>
    hf (same ▸ hs.inside b (List.mem_append_left _ there))
  have loopP' : ∀ b ∈ p', b ≠ e := fun b there same =>
    he (same ▸ ht.inside b (List.mem_append_left _ there))
  cases p' with
  | nil =>
    cases p with
    | nil => simp [findShortestCtrlRegionPath]
    | cons b p =>
      have stop := before (q := q ++ [e]) notP
      simp only [List.cons_append, List.append_assoc, List.nil_append] at stop ⊢
      rw [findShortestCtrlRegionPath, if_pos (by simp), stop]
      simp
  | cons b' p' =>
    have apart' : b' ∉ p ++ r :: (q ++ [e]) := by
      have inner := first' b' List.mem_cons_self
      have outer := loopP' b' List.mem_cons_self
      simp only [List.mem_append, List.mem_cons, List.not_mem_nil, or_false] at inner ⊢
      tauto
    cases p with
    | nil =>
      have stop := before (q := q ++ [f]) notP'
      simp only [List.cons_append, List.append_assoc, List.nil_append] at stop apart' ⊢
      rw [findShortestCtrlRegionPath, if_neg apart', if_pos (by simp), stop]
      simp
    | cons b p =>
      have apart : b ∉ (b' :: p') ++ r :: (q ++ [f]) := by
        have inner := first b List.mem_cons_self
        have outer := loopP b List.mem_cons_self
        simp only [List.mem_append, List.mem_cons, List.not_mem_nil, or_false] at inner ⊢
        tauto
      have same : (b :: p).length = (b' :: p').length := by simpa using heights
      have met := meet_eq r (q ++ [e]) (q ++ [f]) same fun a there other =>
        first a there (List.mem_append_left _ other)
      simp only [List.cons_append, List.append_assoc] at met apart apart' ⊢
      rw [findShortestCtrlRegionPath, if_neg apart', if_neg apart, met]
      simp

/-- The loops on the way between those of two nodes. -/
def loopsBetween (H : LoopHierarchy) (u v : String) : List String :=
  Lineage.between (H.around u) (H.around v)

/-- The order in which the relays stand: from outside of all loops it is that of the way back. -/
def crossed (H : LoopHierarchy) (u v : String) : List String :=
  if H.around u = [] then (H.loopsBetween u v).reverse else H.loopsBetween u v

/-- What the path lists between its ends. -/
theorem ctrlRegionPath_inner (ranked : H.Ranked) {u v : String}
    (level : Level (H.around u) (H.around v)) :
    ∃ path, H.ctrlRegionPath u v = some path ∧ path.tail.dropLast = H.crossed u v := by
  obtain ⟨hs, ⟨noneU, pathU⟩ | ⟨inU, e, he, pathU⟩⟩ := backTrackPath_eq ranked u <;>
    obtain ⟨ht, ⟨noneV, pathV⟩ | ⟨inV, f, hf, pathV⟩⟩ := backTrackPath_eq ranked v <;>
    rw [ctrlRegionPath, pathU, pathV] <;>
    simp only [Option.bind_eq_bind, Option.bind_some, crossed, loopsBetween]
  · exact ⟨[], rfl, by simp [noneU, noneV, Lineage.between_nil_left]⟩
  · obtain ⟨a, t, split⟩ := List.exists_cons_of_ne_nil inV
    refine ⟨_, findShortestCtrlRegionPath_nil_left _, ?_⟩
    rw [if_pos noneU, noneU, split, Lineage.between_nil_left]
    simp
  · obtain ⟨a, s, split⟩ := List.exists_cons_of_ne_nil inU
    refine ⟨_, findShortestCtrlRegionPath_nil_right _, ?_⟩
    rw [if_neg inU, noneV, Lineage.between_nil_right, split]
    simp
  · refine ⟨_, findShortestCtrlRegionPath_eq hs ht he hf inU inV level, ?_⟩
    rw [if_neg inU, Lineage.between_of_ne inU inV]

theorem mem_crossed {u v R : String} : R ∈ H.crossed u v ↔ R ∈ H.loopsBetween u v := by
  unfold crossed
  split_ifs <;> simp

/-- In the order of the way, when the first node is in a loop or there is one loop in between. -/
theorem crossed_eq {u v : String} (h : H.around u ≠ [] ∨ (H.loopsBetween u v).length ≤ 1) :
    H.crossed u v = H.loopsBetween u v := by
  unfold crossed
  split_ifs with none
  · obtain short := h.resolve_left (not_not.mpr none)
    match between : H.loopsBetween u v with
    | [] => rfl
    | [R] => rfl
    | R :: S :: l => simp [between] at short
  · rfl

theorem crossed_subset (ranked : H.Ranked) {u v R : String} (mem : R ∈ H.crossed u v) :
    R ∈ H.loops := by
  rcases Lineage.mem_between (mem_crossed.mp mem) with here | here
  · exact (backTrackPath_eq ranked u).1.inside R here
  · exact (backTrackPath_eq ranked v).1.inside R here

/-- A loop before another in the order from a node is before it in each order with the other. -/
theorem mem_crossed_of_next (ranked : H.Ranked) {u v w R S : String} {x y : List String}
    (inside : H.around u ≠ []) (level : Level (H.around u) (H.around v))
    (level' : Level (H.around u) (H.around w)) (next : H.crossed u v = x ++ R :: S :: y)
    (mem : S ∈ H.crossed u w) : R ∈ H.crossed u w := by
  rw [crossed_eq (.inl inside)] at *
  exact Lineage.mem_between_of_next (backTrackPath_eq ranked u).1 (backTrackPath_eq ranked v).1
    (backTrackPath_eq ranked w).1 inside (level.meets inside) (level'.meets inside) next mem

end ControlTree.LoopHierarchy

end DataflowSim.Graph
