import DataflowSim.Graph.Relay
import DataflowSim.Library.Gather

/-!
# The loops of a forest of regions

`genLoopHierarchy` on a forest of control regions. The branches hand on what stands in them in
the order of the traversal, which begins with the first region of the table.
-/

namespace DataflowSim.Graph.ControlTree

/-- Each region is listed by the one above it, and a node stands in one region. -/
structure Forest (t : ControlTree) : Prop where
  lower : ∀ r ∈ t.regions, ∀ c ∈ (t.region r).lowerControlRegion,
    c ∈ t.regions ∧ (t.region c).upperControlRegion = r
  above : ∀ c ∈ t.regions, (t.region c).upperControlRegion ∈ t.regions →
    c ∈ (t.region (t.region c).upperControlRegion).lowerControlRegion
  deep : ∃ depth : String → Nat, ∀ r ∈ t.regions, ∀ c ∈ (t.region r).lowerControlRegion,
    depth c = depth r + 1
  placed : ∀ r ∈ t.regions, ∀ q ∈ t.regions, ∀ n ∈ (t.region r).nodes, n ∈ (t.region q).nodes →
    r = q

/-- The innermost loop around what stands in a region. -/
inductive LoopOf (t : ControlTree) : String → String → Prop
  | loop {r : String} (declared : r ∈ t.regions) (type : (t.region r).controlType = .Loop) :
      LoopOf t r r
  | branch {d r : String} (declared : d ∈ t.regions) (type : (t.region d).controlType ≠ .Loop)
      (rest : LoopOf t (t.region d).upperControlRegion r) : LoopOf t d r

/-- The traversal starts where something is above a branch, and it meets each branch that lies in
a loop. -/
structure Covered (t : ControlTree) : Prop where
  head : ∀ f ∈ t.regions.head?, (t.region f).controlType ≠ .Loop →
    (t.region f).upperControlRegion ∈ t.regions
  branch : ∀ b r, t.LoopOf b r → (t.region b).controlType ≠ .Loop → ∃ f ∈ t.regions.head?,
    Relation.ReflTransGen (fun a c => c ∈ (t.region a).lowerControlRegion) f b

/-- The hierarchy has the loops of the tree, each node of a loop in its innermost one, and each
loop below the innermost one around it. -/
structure Extracted (t : ControlTree) (H : LoopHierarchy) : Prop where
  loops : H.loops = t.regions.filter fun r => (t.region r).controlType = .Loop
  nodes : ∀ r ∈ H.loops, ∀ n, n ∈ (H.region r).nodes ↔
    ∃ d ∈ t.regions, n ∈ (t.region d).nodes ∧ t.LoopOf d r
  once : ∀ r ∈ H.loops, ∀ q ∈ H.loops, ∀ n ∈ (H.region r).nodes, n ∈ (H.region q).nodes → r = q
  upper : ∀ q ∈ H.loops, ∀ r ∈ H.loops, H.upper q = r ↔ t.LoopOf (t.region q).upperControlRegion r

/-! ## The two phases -/

def IsBranch (t : ControlTree) (r : String) : Prop := (t.region r).controlType ≠ .Loop

instance (t : ControlTree) : DecidablePred t.IsBranch := fun r =>
  inferInstanceAs (Decidable ((t.region r).controlType ≠ .Loop))

def upperOf (t : ControlTree) (r : String) : String := (t.region r).upperControlRegion

/-- The regions of the tree with other nodes and other regions below. -/
def withContents (t : ControlTree) (contents : (String → List String) × (String → List String))
    (r : String) : ControlRegion :=
  { t.region r with nodes := contents.1 r, lowerControlRegion := contents.2 r }

/-- The regions with other regions above. -/
def withUpper (region : String → ControlRegion) (upper : String → String) (r : String) :
    ControlRegion :=
  { region r with upperControlRegion := upper r }

theorem mergeBranch_withContents {t : ControlTree} {name : String}
    (above : t.IsBranch name → t.upperOf name ∈ t.regions)
    (contents : (String → List String) × (String → List String)) :
    t.mergeBranch (t.withContents contents) name = some (t.withContents
      (contents.map (Gather.handOn t.IsBranch t.upperOf · name)
        (Gather.handOn t.IsBranch t.upperOf · name))) := by
  unfold mergeBranch Gather.handOn
  dsimp only [withContents]
  by_cases branch : (t.region name).controlType ≠ .Loop
  · have gives : t.IsBranch name := branch
    have known : (t.region name).upperControlRegion ∈ t.regions := above branch
    rw [if_pos branch, if_pos known, Option.some_inj]
    funext r
    by_cases here : r = (t.region name).upperControlRegion
    · subst here
      simp [withContents, gives, upperOf]
    · simp [withContents, gives, upperOf, here]
  · have keeps : ¬t.IsBranch name := branch
    rw [if_neg branch, Option.some_inj]
    funext r
    simp [withContents, keeps]

/-- What a loop lists, and nothing for a branch. -/
def loopLists (region : String → ControlRegion) (r : String) : List String :=
  if (region r).controlType = .Loop then (region r).lowerControlRegion else []

theorem setUpper_withUpper {t : ControlTree} {region : String → ControlRegion} {name : String}
    (lower : ∀ c ∈ (region name).lowerControlRegion, c ∈ t.regions) (upper : String → String) :
    t.setUpper (withUpper region upper) name =
      some (withUpper region (Gather.claim (loopLists region) upper name)) := by
  by_cases loop : (withUpper region upper name).controlType = .Loop
  · have loop' : (region name).controlType = .Loop := loop
    rw [setUpper, if_pos loop, Gather.claim, loopLists, if_pos loop']
    refine @Run.simulated _ _ _ _ (withUpper region) _ _ (fun c mem upper => ?_) upper
    rw [if_pos (lower c mem), Option.some_inj]
    funext r
    by_cases here : r = c
    · subst here
      simp [withUpper]
    · simp [withUpper, here]
  · have branch : ¬(region name).controlType = .Loop := loop
    rw [setUpper, if_neg loop, Gather.claim, loopLists, if_neg branch, List.foldl_nil]

/-! ## Which branches are met -/

/-- What the traversal meets lies in the first region. -/
theorem mem_bfs_iff {t : ControlTree} {fuel : Nat} {bfs : List String}
    (levels : Search.levels (fun r => (t.region r).lowerControlRegion) fuel (t.regions.take 1) =
      some bfs) {b : String} : b ∈ bfs ↔ ∃ f ∈ t.regions.head?,
    Relation.ReflTransGen (fun a c => c ∈ (t.region a).lowerControlRegion) f b := by
  rw [Search.mem_levels_iff levels]
  cases t.regions <;> simp

section
variable {t : ControlTree} (forest : t.Forest)
include forest

theorem Forest.declared : ∀ r ∈ t.regions, ∀ c ∈ (t.region r).lowerControlRegion, c ∈ t.regions :=
  fun r mem c listed => (forest.lower r mem c listed).1

/-- Nesting ends, for the forest has a greatest depth. -/
theorem Forest.ranked : ∃ rank : String → Nat, ∀ r ∈ t.regions,
    ∀ c ∈ (t.region r).lowerControlRegion, rank c < rank r := by
  obtain ⟨depth, deeper⟩ := forest.deep
  refine ⟨fun r => (t.regions.map depth).sum - depth r, fun r mem c listed => ?_⟩
  have least : depth c ≤ (t.regions.map depth).sum :=
    List.single_le_sum (by simp) _ (List.mem_map_of_mem (forest.declared r mem c listed))
  have below := deeper r mem c listed
  dsimp only
  omega

/-- What the traversal meets is declared. -/
theorem Forest.below_declared {f b : String} (known : f ∈ t.regions)
    (path : Relation.ReflTransGen (fun a c => c ∈ (t.region a).lowerControlRegion) f b) :
    b ∈ t.regions := by
  induction path with
  | refl => exact known
  | tail _ listed ih => exact forest.declared _ ih _ listed

/-- Above each branch that is met there is a declared region. -/
theorem Forest.upper_declared (covered : t.Covered) {f b : String} (first : f ∈ t.regions.head?)
    (path : Relation.ReflTransGen (fun a c => c ∈ (t.region a).lowerControlRegion) f b)
    (branch : t.IsBranch b) : t.upperOf b ∈ t.regions := by
  rcases path.cases_tail with rfl | ⟨c, before, listed⟩
  · exact covered.head b first branch
  · have known := forest.below_declared (List.mem_of_mem_head? first) before
    rw [upperOf, (forest.lower c known b listed).2]
    exact known

section
variable (covered : t.Covered) {fuel : Nat} {bfs : List String}
  (levels : Search.levels (fun r => (t.region r).lowerControlRegion) fuel (t.regions.take 1) =
    some bfs)
include covered levels

theorem Forest.met {b : String} (mem : b ∈ bfs) :
    b ∈ t.regions ∧ (t.IsBranch b → t.upperOf b ∈ t.regions) := by
  obtain ⟨f, first, path⟩ := (mem_bfs_iff levels).mp mem
  exact ⟨forest.below_declared (List.mem_of_mem_head? first) path,
    forest.upper_declared covered first path⟩

/-- A branch hands on before the region above it. -/
theorem Forest.upward : Gather.Upward t.IsBranch t.upperOf bfs.reverse := by
  obtain ⟨depth, deeper⟩ := forest.deep
  have above {b : String} (mem : b ∈ bfs) (branch : t.IsBranch b) :
      depth b = depth (t.upperOf b) + 1 := by
    obtain ⟨known, upper⟩ := forest.met covered levels mem
    exact deeper _ (upper branch) b (forest.above b known (upper branch))
  have sorted := Search.levels_sorted levels
    (fun a mem => deeper a (forest.met covered levels mem).1)
    (by cases t.regions <;> simp) (by cases t.regions <;> simp)
  refine ⟨fun b mem branch same => ?_, List.pairwise_reverse.mpr (sorted.imp_of_mem ?_)⟩
  · have up := above (List.mem_reverse.mp mem) branch
    rw [same] at up
    omega
  · intro a b mem _ le branch same
    have up := above mem branch
    rw [same] at up
    omega

/-- The loop around what stands in a region is where the branches hand it on to. -/
theorem Forest.loopOf_iff {d r : String} (known : r ∈ t.regions)
    (type : (t.region r).controlType = .Loop) : t.LoopOf d r ↔
      Relation.ReflTransGen (Gather.Through t.IsBranch t.upperOf bfs.reverse) d r := by
  constructor
  · intro inside
    induction inside with
    | loop => exact .refl
    | @branch d r declared branch rest ih =>
      have met := (mem_bfs_iff levels).mpr
        (covered.branch d r (.branch declared branch rest) branch)
      exact .head ⟨List.mem_reverse.mpr met, branch, rfl⟩ (ih known type)
  · intro path
    induction path using Relation.ReflTransGen.head_induction_on with
    | refl => exact .loop known type
    | head step _ ih =>
      obtain ⟨mem, branch, rfl⟩ := step
      exact .branch (forest.met covered levels (List.mem_reverse.mp mem)).1 branch ih

end

end

/-! ## What is extracted -/

theorem LoopOf.declared {t : ControlTree} {d r : String} (h : t.LoopOf d r) : d ∈ t.regions := by
  cases h <;> assumption

theorem LoopOf.isLoop {t : ControlTree} {d r : String} (h : t.LoopOf d r) :
    r ∈ t.regions ∧ (t.region r).controlType = .Loop := by
  induction h with
  | loop declared type => exact ⟨declared, type⟩
  | branch _ _ _ ih => exact ih

/-- There is one innermost loop. -/
theorem LoopOf.unique {t : ControlTree} {d r q : String} (hr : t.LoopOf d r) (hq : t.LoopOf d q) :
    r = q := by
  induction hr with
  | loop _ type =>
    cases hq with
    | loop => rfl
    | branch _ branch => exact absurd type branch
  | branch _ branch _ ih =>
    cases hq with
    | loop _ type => exact absurd type branch
    | branch _ _ rest => exact ih rest

/-- The contents of the regions once the branches have handed them on. -/
def gathered (t : ControlTree) (bfs : List String) : (String → List String) × (String → List String) :=
  (bfs.reverse.foldl (Gather.handOn t.IsBranch t.upperOf) fun r => (t.region r).nodes,
    bfs.reverse.foldl (Gather.handOn t.IsBranch t.upperOf) fun r => (t.region r).lowerControlRegion)

/-- The loop that lists a region after that, or the region above. -/
def owners (t : ControlTree) (bfs : List String) : String → String :=
  t.regions.foldl (Gather.claim (loopLists (t.withContents (t.gathered bfs)))) t.upperOf

section
variable {t : ControlTree} (forest : t.Forest) (covered : t.Covered) {fuel : Nat}
  {bfs : List String}
  (levels : Search.levels (fun r => (t.region r).lowerControlRegion) fuel (t.regions.take 1) =
    some bfs)
include forest covered levels

theorem Forest.foldlM_mergeBranch :
    bfs.reverse.foldlM t.mergeBranch t.region = some (t.withContents (t.gathered bfs)) := by
  have run := @Run.simulated _ _ t.mergeBranch _ t.withContents
    (fun c name => c.map (Gather.handOn t.IsBranch t.upperOf · name)
      (Gather.handOn t.IsBranch t.upperOf · name)) bfs.reverse
    (fun name mem c => mergeBranch_withContents
      (forest.met covered levels (List.mem_reverse.mp mem)).2 c)
    (fun r => (t.region r).nodes, fun r => (t.region r).lowerControlRegion)
  rwa [Gather.foldl_map_handOn] at run

/-- What a loop lists then is what had stood in its branches. -/
theorem Forest.mem_gathered_iff {r : String} (known : r ∈ t.regions)
    (type : (t.region r).controlType = .Loop) {x : String} :
    (x ∈ (t.gathered bfs).1 r ↔ ∃ d, x ∈ (t.region d).nodes ∧ t.LoopOf d r) ∧
      (x ∈ (t.gathered bfs).2 r ↔ ∃ d, x ∈ (t.region d).lowerControlRegion ∧ t.LoopOf d r) := by
  have upward := forest.upward covered levels
  simp only [forest.loopOf_iff covered levels known type]
  exact ⟨Gather.mem_foldl_handOn upward, Gather.mem_foldl_handOn upward⟩

/-- All that is listed then is declared. -/
theorem Forest.gathered_declared : ∀ r ∈ t.regions, ∀ c ∈ (t.gathered bfs).2 r, c ∈ t.regions := by
  intro r known c mem
  obtain ⟨d, listed, path⟩ := (Gather.mem_foldl_handOn (forest.upward covered levels)).mp mem
  rcases path.cases_head with rfl | ⟨_, step, -⟩
  · exact forest.declared d known c listed
  · have met := forest.met covered levels (List.mem_reverse.mp step.1)
    exact forest.declared d met.1 c listed

theorem Forest.foldlM_setUpper :
    t.regions.foldlM t.setUpper (t.withContents (t.gathered bfs)) =
      some (withUpper (t.withContents (t.gathered bfs)) (t.owners bfs)) :=
  @Run.simulated _ _ t.setUpper _ (withUpper (t.withContents (t.gathered bfs))) _ _
    (fun _ known upper => setUpper_withUpper (forest.gathered_declared covered levels _ known) upper)
    t.upperOf

/-- The loop that lists a region is the innermost one around the region above. -/
theorem Forest.owners_eq_iff {q r : String} (known : q ∈ t.regions) (declared : r ∈ t.regions)
    (type : (t.region r).controlType = .Loop) :
    t.owners bfs q = r ↔ t.LoopOf (t.region q).upperControlRegion r := by
  have lists {p : String} (mem : p ∈ t.regions) :
      q ∈ loopLists (t.withContents (t.gathered bfs)) p ↔
        (t.region p).controlType = .Loop ∧ t.LoopOf (t.region q).upperControlRegion p := by
    by_cases loop : (t.region p).controlType = .Loop
    · have listed : q ∈ loopLists (t.withContents (t.gathered bfs)) p ↔ q ∈ (t.gathered bfs).2 p := by
        rw [loopLists, if_pos (show ((t.withContents _ p).controlType = .Loop) from loop)]
        rfl
      rw [listed, (forest.mem_gathered_iff covered levels mem loop).2]
      constructor
      · rintro ⟨d, below, inside⟩
        rw [(forest.lower d inside.declared q below).2]
        exact ⟨loop, inside⟩
      · rintro ⟨-, inside⟩
        exact ⟨_, forest.above q known inside.declared, inside⟩
    · have none : loopLists (t.withContents (t.gathered bfs)) p = [] := if_neg loop
      simp [none, loop]
  rcases Gather.foldl_claim t.regions (loopLists (t.withContents (t.gathered bfs))) t.upperOf q with
    ⟨p, mem, listed, eq⟩ | ⟨free, eq⟩
  · obtain ⟨-, inside⟩ := (lists mem).mp listed
    rw [owners, eq]
    exact ⟨fun same => same ▸ inside, fun other => inside.unique other⟩
  · have outside : ¬t.LoopOf (t.region q).upperControlRegion r := fun inside =>
      free r declared ((lists declared).mpr ⟨type, inside⟩)
    refine iff_of_false (fun same => ?_) outside
    have here : (t.region q).upperControlRegion = r := eq.symm.trans same
    rw [here] at outside
    exact outside (.loop declared type)

end

/-- The loops of a forest are extracted where the traversal meets the branches in them. -/
theorem genLoopHierarchy_extracted {t : ControlTree} (forest : t.Forest) (covered : t.Covered) :
    ∃ fuel H, t.genLoopHierarchy fuel = some H ∧ t.Extracted H := by
  obtain ⟨rank, ranked⟩ := forest.ranked
  obtain ⟨fuel, bfs, traversed, levels⟩ := exists_bfsTraverseControlTree forest.declared ranked
  refine ⟨fuel, ⟨t.regions.filter fun r => (t.region r).controlType = .Loop,
    withUpper (t.withContents (t.gathered bfs)) (t.owners bfs)⟩, ?_, ?_⟩
  · rw [genLoopHierarchy, traversed, Option.bind_eq_bind, Option.bind_some,
      forest.foldlM_mergeBranch covered levels, Option.bind_eq_bind, Option.bind_some,
      forest.foldlM_setUpper covered levels]
    rfl
  · have isLoop {r : String} (mem : r ∈ t.regions.filter fun r => (t.region r).controlType = .Loop) :
        r ∈ t.regions ∧ (t.region r).controlType = .Loop := by simpa using mem
    have nodes {r : String} (mem : r ∈ t.regions.filter fun r => (t.region r).controlType = .Loop)
        (n : String) : n ∈ (t.gathered bfs).1 r ↔ ∃ d ∈ t.regions, n ∈ (t.region d).nodes ∧ t.LoopOf d r := by
      rw [(forest.mem_gathered_iff covered levels (isLoop mem).1 (isLoop mem).2).1]
      exact exists_congr fun d => ⟨fun h => ⟨h.2.declared, h⟩, fun h => h.2⟩
    refine ⟨rfl, fun r mem => nodes mem, fun r memR q memQ n inR inQ => ?_, fun q memQ r memR => ?_⟩
    · obtain ⟨d, known, listed, inside⟩ := (nodes memR n).mp inR
      obtain ⟨d', known', listed', inside'⟩ := (nodes memQ n).mp inQ
      obtain rfl := forest.placed d known d' known' n listed listed'
      exact inside.unique inside'
    · exact forest.owners_eq_iff covered levels (isLoop memQ).1 (isLoop memR).1 (isLoop memR).2

/-- A loop with a branch in a branch of it, and a loop in the inner one. -/
def oneRoot : ControlTree where
  regions := ["L", "B", "C", "M"]
  region
    | "L" => { lowerControlRegion := ["B"], nodes := ["l"] }
    | "B" => { controlType := .Branch, upperControlRegion := "L", lowerControlRegion := ["C"] }
    | "C" => { controlType := .Branch, upperControlRegion := "B", lowerControlRegion := ["M"],
               nodes := ["c"] }
    | "M" => { upperControlRegion := "C", nodes := ["m"] }
    | _ => {}
  nodup := by decide

theorem oneRoot_forest : oneRoot.Forest := by
  refine ⟨by decide, by decide, ⟨fun r => ?_, ?_⟩, by decide⟩
  · exact if r = "L" then 0 else if r = "B" then 1 else if r = "C" then 2 else 3
  · decide

theorem oneRoot_covered : oneRoot.Covered := by
  refine ⟨by decide, fun b r inside branch => ⟨"L", rfl, ?_⟩⟩
  have toB : Relation.ReflTransGen (fun a c => c ∈ (oneRoot.region a).lowerControlRegion) "L" "B" :=
    .single (by decide)
  have known := inside.declared
  simp only [oneRoot, List.mem_cons, List.not_mem_nil, or_false] at known
  rcases known with rfl | rfl | rfl | rfl
  · exact .refl
  · exact toB
  · exact toB.tail (by decide)
  · exact absurd rfl branch

theorem genLoopHierarchy_extracted_oneRoot :
    ∃ fuel H, oneRoot.genLoopHierarchy fuel = some H ∧ oneRoot.Extracted H :=
  genLoopHierarchy_extracted oneRoot_forest oneRoot_covered

/-- Two loops beside each other, the second one with a branch in it. -/
def twoRoots : ControlTree where
  regions := ["L", "M", "B"]
  region
    | "M" => { lowerControlRegion := ["B"] }
    | "B" => { controlType := .Branch, upperControlRegion := "M", nodes := ["n"] }
    | _ => {}
  nodup := by decide

/-- The traversal ends with the first loop, and the branch hands nothing on. -/
theorem twoRoots_unplaced : twoRoots.Forest ∧ twoRoots.LoopOf "B" "M" ∧
    "n" ∈ (twoRoots.region "B").nodes ∧
      ∀ fuel H, twoRoots.genLoopHierarchy fuel = some H → ∀ r ∈ H.loops, "n" ∉ (H.region r).nodes := by
  refine ⟨⟨by decide, by decide, ⟨fun r => if r = "B" then 1 else 0, by decide⟩, by decide⟩,
    .branch (by decide) (by decide) (.loop (by decide) rfl), by decide, fun fuel H run => ?_⟩
  have done : (twoRoots.genLoopHierarchy 3).map (fun H => H.loops.all fun r => "n" ∉ (H.region r).nodes) =
      some true := by decide +kernel
  obtain ⟨H', run', all⟩ := Option.map_eq_some_iff.mp done
  have more := genLoopHierarchy_mono (le_max_left fuel 3) run
  have more' := genLoopHierarchy_mono (le_max_right fuel 3) run'
  obtain rfl : H = H' := Option.some.inj (more.symm.trans more')
  simpa using all

end DataflowSim.Graph.ControlTree
