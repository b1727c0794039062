import DataflowSim.Graph.RelayPath

/-!
# Paths between regions

When `findShortestCtrlRegionPath` finds the way from one region up to the lowest common one and
down to the other: the first node has to be in a loop, and two loops neither of which is around
the other have to be at the same depth, for both paths are read side by side.
-/

namespace DataflowSim.Graph.ControlTree.LoopHierarchy

variable {H : LoopHierarchy} {root : String}

/-- The loops are a tree with a virtual root above the outermost ones. -/
structure Rooted (H : LoopHierarchy) (root : String) : Prop where
  ranked : H.Ranked
  outside : root ∉ H.loops
  upper : ∀ r ∈ H.loops, H.upper r ∈ H.loops ∨ H.upper r = root

/-- The innermost loop around a node, or the root. -/
def innermost (H : LoopHierarchy) (root nodeName : String) : String := (H.loopOf nodeName).getD root

/-- From a region to the region directly above it. -/
abbrev Up (H : LoopHierarchy) : String → String → Prop := Lineage.Up (· ∈ H.loops) H.upper

/-- A path in the tree that repeats no region. In a tree there is one between two regions. -/
structure Way (H : LoopHierarchy) (a b : String) (path : List String) : Prop where
  head : path.head? = some a
  last : path.getLast? = some b
  chain : path.IsChain (fun a b => H.Up a b ∨ H.Up b a)
  nodup : path.Nodup

/-! ## The path of one node -/

theorem climb_isChain {fuel : Nat} {r : String} {l : List String} (run : H.climb fuel r = some l) :
    l.head? = some r ∧ l.IsChain H.Up := by
  induction fuel generalizing r l with
  | zero => simp [climb] at run
  | succ fuel ih =>
    rw [climb] at run
    split_ifs at run with mem
    · obtain ⟨rest, more, eq⟩ := Option.bind_eq_some_iff.mp run
      obtain rfl := Option.some.inj eq
      obtain ⟨first, chain⟩ := ih more
      obtain ⟨tail, rfl⟩ := List.head?_eq_some_iff.mp first
      exact ⟨rfl, List.isChain_cons_cons.mpr ⟨⟨mem, rfl⟩, chain⟩⟩
    · obtain rfl := Option.some.inj run
      exact ⟨rfl, List.isChain_singleton _⟩

theorem backTrackPath_isChain {n : String} {l : List String} (run : H.backTrackPath n = some l) :
    l.head? = H.loopOf n ∧ l.IsChain H.Up := by
  unfold backTrackPath at run
  cases found : H.loopOf n with
  | none =>
    rw [found] at run
    obtain rfl := Option.some.inj run
    exact ⟨rfl, List.isChain_nil⟩
  | some r =>
    rw [found] at run
    exact climb_isChain run

/-- The path of a node in a loop goes up to the root. -/
theorem Rooted.backTrackPath (rooted : H.Rooted root) {n : String} (inside : H.around n ≠ []) :
    H.backTrackPath n = some (H.around n ++ [root]) ∧ H.loopOf n = (H.around n).head? := by
  obtain ⟨nest, ⟨none, -⟩ | ⟨-, e, outside, path⟩⟩ := backTrackPath_eq rooted.ranked n
  · exact absurd none inside
  obtain ⟨head, chain⟩ := backTrackPath_isChain path
  obtain none | ⟨init, top, split⟩ := List.eq_nil_or_concat' (H.around n)
  · exact absurd none inside
  have last : H.Up top e := by
    rw [split, List.append_assoc] at chain
    exact (List.isChain_append_cons_cons.mp chain).2.1
  have same : e = root := by
    rcases rooted.upper top last.1 with more | end_
    · exact absurd (last.2 ▸ more) outside
    · exact last.2.symm.trans end_
  refine ⟨same ▸ path, head.symm.trans ?_⟩
  exact List.head?_append_of_ne_nil _ inside

theorem Rooted.around_eq_nil (rooted : H.Rooted root) {n : String} (outside : H.around n = []) :
    H.backTrackPath n = some [] ∧ H.loopOf n = none := by
  obtain ⟨-, ⟨-, path⟩ | ⟨inside, -⟩⟩ := backTrackPath_eq rooted.ranked n
  · exact ⟨path, (backTrackPath_isChain path).1.symm⟩
  · exact absurd outside inside

/-- The regions around a node up to the root, the innermost first. -/
theorem Rooted.head_around (rooted : H.Rooted root) (n : String) :
    (H.around n ++ [root]).head? = some (H.innermost root n) := by
  by_cases inside : H.around n = []
  · rw [inside, innermost, (rooted.around_eq_nil inside).2]
    rfl
  · rw [innermost, (rooted.backTrackPath inside).2, List.head?_append_of_ne_nil _ inside]
    obtain ⟨r, l, split⟩ := List.exists_cons_of_ne_nil inside
    rw [split]
    rfl

/-! ## Two paths side by side -/

theorem meet_eq_none {s t : List String}
    (apart : ∀ (i : Nat) (a : String), s[i]? = some a → t[i]? ≠ some a) :
    meet s t = none := by
  induction s generalizing t with
  | nil => simp [meet]
  | cons a s ih =>
    cases t with
    | nil => simp [meet]
    | cons b t =>
      have ne : a ≠ b := fun same => apart 0 a rfl (by simp [same])
      have rest := ih fun i c here => by simpa using apart (i + 1) c (by simpa using here)
      simp [meet, ne, rest]

/-- Paths of different lengths never agree at one place. -/
theorem places_apart {p p' q : List String} {r : String} (first : ∀ b ∈ p, b ∉ p' ++ r :: q)
    (first' : ∀ b ∈ p', b ∉ p ++ r :: q) (nodup : (r :: q).Nodup) (ne : p.length ≠ p'.length)
    (i : Nat) (a : String) (here : (p ++ r :: q)[i]? = some a) : (p' ++ r :: q)[i]? ≠ some a := by
  intro there
  have inS := List.mem_of_getElem? here
  have inT := List.mem_of_getElem? there
  have notP : p.length ≤ i := by
    by_contra early
    rw [List.getElem?_append_left (by omega)] at here
    exact first a (List.mem_of_getElem? here) inT
  have notP' : p'.length ≤ i := by
    by_contra early
    rw [List.getElem?_append_left (by omega)] at there
    exact first' a (List.mem_of_getElem? there) inS
  rw [List.getElem?_append_right notP] at here
  rw [List.getElem?_append_right notP'] at there
  have bound := (List.getElem?_eq_some_iff.mp here).1
  have same := (List.getElem?_inj bound nodup).mp (here.trans there.symm)
  omega

/-- What is found where the paths from two loops meet. -/
theorem findShortestCtrlRegionPath_meet {p p' q : List String} {r : String}
    (first : ∀ b ∈ p, b ∉ p' ++ r :: q) (first' : ∀ b ∈ p', b ∉ p ++ r :: q)
    (nodup : (p ++ r :: q).Nodup) :
    findShortestCtrlRegionPath (p ++ r :: q) (p' ++ r :: q) =
      if p = [] ∨ p' = [] ∨ p.length = p'.length then some (p ++ r :: p'.reverse) else none := by
  have before {u : List String} (apart : ∀ b ∈ u, b ≠ r) : (u ++ r :: q).takeWhile (· ≠ r) = u :=
    Lineage.takeWhile_eq (fun b mem => by simpa using apart b mem) (by simp)
  have neP : ∀ b ∈ p, b ≠ r := fun b mem same => first b mem (by simp [same])
  have neP' : ∀ b ∈ p', b ≠ r := fun b mem same => first' b mem (by simp [same])
  cases p' with
  | nil =>
    have up : findShortestCtrlRegionPath (p ++ r :: q) (r :: q) = some (p ++ [r]) := by
      cases p with
      | nil => simp [findShortestCtrlRegionPath]
      | cons a p =>
        rw [List.cons_append, findShortestCtrlRegionPath, if_pos (by simp), ← List.cons_append,
          before neP]
    simp [up]
  | cons b p' =>
    cases p with
    | nil =>
      have apart : b ∉ r :: q := first' b List.mem_cons_self
      rw [List.nil_append, List.cons_append, findShortestCtrlRegionPath, if_neg apart,
        if_pos (by simp), ← List.cons_append, before neP', if_pos (.inl rfl)]
      simp
    | cons a p =>
      have apart : b ∉ a :: (p ++ r :: q) := first' b List.mem_cons_self
      have apart' : a ∉ b :: (p' ++ r :: q) := first a List.mem_cons_self
      rw [List.cons_append, List.cons_append, findShortestCtrlRegionPath, if_neg apart, if_neg apart',
        ← List.cons_append, ← List.cons_append]
      by_cases same : (a :: p).length = (b :: p').length
      · rw [meet_eq r q q same fun c mem there => first c mem (List.mem_append_left _ there),
          if_pos (.inr (.inr same))]
        simp
      · rw [meet_eq_none (places_apart first first' (nodup.sublist (List.sublist_append_right _ _)) same),
          if_neg (by simpa using same)]
        rfl

theorem way_meet {p p' q : List String} {r a b : String}
    (up : (p ++ r :: q).IsChain H.Up) (up' : (p' ++ r :: q).IsChain H.Up)
    (first : ∀ c ∈ p, c ∉ p' ++ r :: q) (first' : ∀ c ∈ p', c ∉ p ++ r :: q)
    (nodup : (p ++ r :: q).Nodup) (nodup' : (p' ++ r :: q).Nodup)
    (head : (p ++ r :: q).head? = some a) (head' : (p' ++ r :: q).head? = some b) :
    H.Way a b (p ++ r :: p'.reverse) := by
  have ends {u v : List String} {c : String} (here : (u ++ r :: q).head? = some c) :
      (u ++ r :: v).head? = some c := by
    cases u with
    | nil => exact here
    | cons d u => exact here
  refine ⟨ends head, ?_, Lineage.isChain_meet (List.isChain_split.mp up).1 (List.isChain_split.mp up').1,
    ?_⟩
  · have back : p ++ r :: p'.reverse = p ++ (p' ++ [r]).reverse := by simp
    rw [back, List.getLast?_append_of_ne_nil _ (by simp), List.getLast?_reverse]
    exact ends head'
  · have fresh : r ∉ p' := fun mem => first' r mem (by simp)
    refine List.nodup_append.mpr ⟨(List.nodup_append.mp nodup).1, ?_, fun c mem d mem' same => ?_⟩
    · exact List.nodup_cons.mpr ⟨by simpa using fresh,
        List.nodup_reverse.mpr (List.nodup_append.mp nodup').1⟩
    · subst same
      rcases List.mem_cons.mp mem' with rfl | down
      · exact first c mem (by simp)
      · exact first c mem (List.mem_append_left _ (List.mem_reverse.mp down))

/-! ## When the path is the way -/

/-- The first node is in a loop, and the second one is outside of all loops, or one of both loops is
around the other one, or they are at the same depth. -/
def Reachable (H : LoopHierarchy) (root u v : String) : Prop :=
  H.around u ≠ [] ∧ (H.around v = [] ∨ H.innermost root u ∈ H.around v ∨
    H.innermost root v ∈ H.around u ∨ (H.around u).length = (H.around v).length)

theorem Rooted.innermost_mem (rooted : H.Rooted root) {n : String} (inside : H.around n ≠ []) :
    H.innermost root n ∈ H.around n := by
  rw [innermost, (rooted.backTrackPath inside).2]
  obtain ⟨r, l, split⟩ := List.exists_cons_of_ne_nil inside
  simp [split]

theorem Rooted.innermost_ne (rooted : H.Rooted root) {n : String} (inside : H.around n ≠ []) :
    H.innermost root n ≠ root := fun same =>
  rooted.outside (same ▸ (backTrackPath_eq rooted.ranked n).1.inside _ (rooted.innermost_mem inside))

/-- What leads to the place where the paths meet is empty when the one loop is around the other. -/
theorem Rooted.eq_nil_iff (rooted : H.Rooted root) {u : String} {p q t : List String} {r : String}
    (split : H.around u ++ [root] = p ++ r :: q) (inside : H.around u ≠ [])
    (first : ∀ b ∈ p, b ∉ t ++ [root]) (mem : r ∈ t ++ [root]) :
    p = [] ↔ H.innermost root u ∈ t := by
  have head := rooted.head_around u
  rw [split] at head
  cases p with
  | nil =>
    obtain rfl : r = H.innermost root u := by simpa using head
    exact iff_of_true rfl (by simpa [rooted.innermost_ne inside] using mem)
  | cons b p =>
    obtain rfl : b = H.innermost root u := by simpa using head
    refine iff_of_false (by simp) fun there => ?_
    exact first _ List.mem_cons_self (List.mem_append_left _ there)

/-- The path is in bounds and is the way in the tree, if and only if the nodes are so. -/
theorem ctrlRegionPath_iff (H : LoopHierarchy) {root : String} (rooted : H.Rooted root) (u v : String) :
    (∃ path, H.ctrlRegionPath u v = some path ∧
      H.Way (H.innermost root u) (H.innermost root v) path) ↔ H.Reachable root u v := by
  have nest := fun n => (backTrackPath_eq rooted.ranked n).1
  have chain := fun n => @Lineage.Nest.isChain _ _ _ _ root (nest n) rooted.upper
  have nodup := fun n => (nest n).nodup_root rooted.outside
  by_cases inU : H.around u = []
  · refine iff_of_false ?_ fun reach => reach.1 inU
    rintro ⟨path, run, way⟩
    obtain ⟨pathU, loopU⟩ := rooted.around_eq_nil inU
    by_cases inV : H.around v = []
    · obtain rfl : path = [] := by
        simpa [ctrlRegionPath, pathU, (rooted.around_eq_nil inV).1, findShortestCtrlRegionPath]
          using run.symm
      cases way.head
    · have same : path = H.around v ++ [root] := by
        simpa [ctrlRegionPath, pathU, (rooted.backTrackPath inV).1, findShortestCtrlRegionPath_nil_left]
          using run.symm
      have head := way.head
      rw [same, rooted.head_around v] at head
      refine rooted.innermost_ne inV ((Option.some.inj head).trans ?_)
      rw [innermost, loopU, Option.getD_none]
  · have pathU := (rooted.backTrackPath inU).1
    by_cases inV : H.around v = []
    · obtain ⟨pathV, loopV⟩ := rooted.around_eq_nil inV
      refine iff_of_true ⟨H.around u ++ [root], ?_, ?_⟩ ⟨inU, .inl inV⟩
      · simp [ctrlRegionPath, pathU, pathV, findShortestCtrlRegionPath_nil_right]
      · refine ⟨rooted.head_around u, ?_, (chain u).imp fun _ _ step => .inl step, nodup u⟩
        rw [innermost, loopV, List.getLast?_concat, Option.getD_none]
    · have pathV := (rooted.backTrackPath inV).1
      obtain ⟨p, p', r, q, splitU, splitV, first, first'⟩ :=
        Lineage.exists_meet_root (nest u) (nest v) rooted.outside
      have nilU := rooted.eq_nil_iff splitU inU first (by simp [splitV])
      have nilV := rooted.eq_nil_iff splitV inV first' (by simp [splitU])
      have heights : p.length = p'.length ↔ (H.around u).length = (H.around v).length := by
        have lengthU := congrArg List.length splitU
        have lengthV := congrArg List.length splitV
        simp only [List.length_append, List.length_cons] at lengthU lengthV
        omega
      have found : H.ctrlRegionPath u v =
          if p = [] ∨ p' = [] ∨ p.length = p'.length then some (p ++ r :: p'.reverse) else none := by
        rw [splitV] at first
        rw [splitU] at first'
        rw [← findShortestCtrlRegionPath_meet first first' (splitU ▸ nodup u)]
        simp [ctrlRegionPath, pathU, pathV, splitU, splitV]
      have way : H.Way (H.innermost root u) (H.innermost root v) (p ++ r :: p'.reverse) :=
        way_meet (splitU ▸ chain u) (splitV ▸ chain v) (splitV ▸ first) (splitU ▸ first')
          (splitU ▸ nodup u) (splitV ▸ nodup v) (splitU ▸ rooted.head_around u)
          (splitV ▸ rooted.head_around v)
      rw [found, Reachable, ← nilU, ← nilV, ← heights]
      split_ifs with level
      · exact iff_of_true ⟨_, rfl, way⟩ ⟨inU, .inr level⟩
      · refine iff_of_false (by simp) fun reach => ?_
        exact level (reach.2.resolve_left inV)

/-- A loop with a loop in it, and beside that a loop with another one in it. -/
def uneven : LoopHierarchy where
  loops := ["L", "A", "B", "C"]
  region
    | "L" => { lowerControlRegion := ["A", "B"] }
    | "A" => { upperControlRegion := "L", nodes := ["a"] }
    | "B" => { upperControlRegion := "L", lowerControlRegion := ["C"] }
    | "C" => { upperControlRegion := "B", nodes := ["c"] }
    | _ => {}

theorem uneven_rooted : uneven.Rooted "" :=
  ⟨⟨fun r => if r = "L" then 2 else if r = "C" then 0 else 1, by decide⟩, by decide, by decide⟩

theorem ctrlRegionPath_iff_uneven : (∃ path, uneven.ctrlRegionPath "a" "c" = some path ∧
    uneven.Way (uneven.innermost "" "a") (uneven.innermost "" "c") path) ↔ uneven.Reachable "" "a" "c" :=
  ctrlRegionPath_iff uneven uneven_rooted "a" "c"

/-- The paths of `a` and `c` are read past their ends, and from outside the path leads upward. -/
theorem ctrlRegionPath_uneven : uneven.ctrlRegionPath "a" "c" = none ∧
    uneven.ctrlRegionPath "out" "a" = some ["A", "L", ""] ∧ uneven.innermost "" "out" = "" := by
  decide +kernel

end DataflowSim.Graph.ControlTree.LoopHierarchy
