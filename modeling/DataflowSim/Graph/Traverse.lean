import DataflowSim.Graph.ChanGraph
import DataflowSim.Library.Search
import DataflowSim.Library.Run

/-!
# Traversal of a channel graph and of its control regions

`bfsTraverseControlTree`, `genLoopHierarchy` and `bfsTraverseNodes` of `graph.cpp`. The loop over
the queue of regions has a fuel, for nothing in the source ends it where regions are nested in a
circle.
-/

namespace DataflowSim.Graph

namespace ControlTree

def bfsLoop (t : ControlTree) : Nat → List String → Option (List String)
  | _, [] => some []
  | 0, _ :: _ => none
  | fuel + 1, front :: queue => do
    let r ← t.getCtrlRegion front
    let rest ← t.bfsLoop fuel (queue ++ r.lowerControlRegion)
    some (front :: rest)

def bfsTraverseControlTree (fuel : Nat) (t : ControlTree) : Option (List String) :=
  t.bfsLoop fuel (t.regions.take 1)

/-- The loop regions in the order of the table; the nodes and lower regions of a branch have
been handed on to the region above. -/
structure LoopHierarchy where
  loops : List String
  region : String → ControlRegion

/-- A branch hands its nodes and its lower regions on. -/
def mergeBranch (t : ControlTree) (region : String → ControlRegion) (name : String) :
    Option (String → ControlRegion) :=
  let r := region name
  if r.controlType ≠ .Loop then
    if r.upperControlRegion ∈ t.regions then
      let upper := region r.upperControlRegion
      some (Function.update region r.upperControlRegion { upper with
        nodes := upper.nodes ++ r.nodes
        lowerControlRegion := upper.lowerControlRegion ++ r.lowerControlRegion })
    else none
  else some region

/-- The loop becomes the upper region of each region below. -/
def setUpper (t : ControlTree) (region : String → ControlRegion) (name : String) :
    Option (String → ControlRegion) :=
  if (region name).controlType = .Loop then
    (region name).lowerControlRegion.foldlM (fun region lower =>
      if lower ∈ t.regions then
        some (Function.update region lower { region lower with upperControlRegion := name })
      else none) region
  else some region

def genLoopHierarchy (fuel : Nat) (t : ControlTree) : Option LoopHierarchy := do
  let bfs ← t.bfsTraverseControlTree fuel
  let region ← bfs.reverse.foldlM t.mergeBranch t.region
  let region ← t.regions.foldlM t.setUpper region
  some ⟨t.regions.filter fun name => (region name).controlType = .Loop, region⟩

/-- The regions are a hierarchy: their neighbours are declared, and nesting ends. -/
structure WellFormed (t : ControlTree) : Prop where
  lower : ∀ r ∈ t.regions, ∀ c ∈ (t.region r).lowerControlRegion, c ∈ t.regions
  upper : ∀ r ∈ t.regions, (t.region r).controlType ≠ .Loop →
    (t.region r).upperControlRegion ∈ t.regions ∧ (t.region r).upperControlRegion ≠ r
  ranked : ∃ rank : String → Nat, ∀ r ∈ t.regions, ∀ c ∈ (t.region r).lowerControlRegion,
    rank c < rank r

theorem bfsLoop_eq {t : ControlTree}
    (lower : ∀ r ∈ t.regions, ∀ c ∈ (t.region r).lowerControlRegion, c ∈ t.regions) {fuel : Nat}
    {queue : List String} (declared : ∀ r ∈ queue, r ∈ t.regions) :
    t.bfsLoop fuel queue = Search.levels (fun r => (t.region r).lowerControlRegion) fuel queue := by
  induction fuel generalizing queue with
  | zero => cases queue <;> rfl
  | succ fuel ih =>
    cases queue with
    | nil => rfl
    | cons front queue =>
      obtain ⟨here, rest⟩ := List.forall_mem_cons.mp declared
      have next := ih (List.forall_mem_append.mpr ⟨rest, lower front here⟩)
      rw [bfsLoop, getCtrlRegion_of_mem here, Option.bind_eq_bind, Option.bind_some, next,
        Search.levels]
      generalize Search.levels _ fuel _ = rest
      cases rest <;> rfl

/-- With fuel enough the traversal of regions that nest is the search from the first one. -/
theorem exists_bfsTraverseControlTree {t : ControlTree}
    (lower : ∀ r ∈ t.regions, ∀ c ∈ (t.region r).lowerControlRegion, c ∈ t.regions)
    {rank : String → Nat}
    (ranked : ∀ r ∈ t.regions, ∀ c ∈ (t.region r).lowerControlRegion, rank c < rank r) :
    ∃ fuel l, t.bfsTraverseControlTree fuel = some l ∧
      Search.levels (fun r => (t.region r).lowerControlRegion) fuel (t.regions.take 1) = some l := by
  have declared : ∀ r ∈ t.regions.take 1, r ∈ t.regions := fun r mem => List.mem_of_mem_take mem
  let width := (t.regions.map fun r => (t.region r).lowerControlRegion.length).sum
  have short : ∀ r ∈ t.regions, (t.region r).lowerControlRegion.length ≤ width := fun r mem =>
    List.single_le_sum (by simp) _ (List.mem_map_of_mem mem)
  obtain ⟨l, run, -⟩ := Search.levels_eq_some (P := (· ∈ t.regions)) lower short ranked declared
    le_rfl
  exact ⟨_, l, (bfsLoop_eq lower declared).trans run, run⟩

theorem bfsTraverseControlTree_eq_some {t : ControlTree} (wf : t.WellFormed) :
    ∃ fuel l, t.bfsTraverseControlTree fuel = some l := by
  obtain ⟨rank, ranked⟩ := wf.ranked
  obtain ⟨fuel, l, run, -⟩ := exists_bfsTraverseControlTree wf.lower ranked
  exact ⟨fuel, l, run⟩

/-- With more fuel the traversal is the same. -/
theorem bfsLoop_mono {t : ControlTree} {fuel fuel' : Nat} (le : fuel ≤ fuel') {queue l : List String}
    (run : t.bfsLoop fuel queue = some l) : t.bfsLoop fuel' queue = some l := by
  induction fuel generalizing fuel' queue l with
  | zero =>
    cases queue with
    | nil => cases fuel' <;> exact run
    | cons front queue => simp [bfsLoop] at run
  | succ fuel ih =>
    cases queue with
    | nil => cases fuel' <;> exact run
    | cons front queue =>
      obtain ⟨more, rfl⟩ : ∃ more, fuel' = more + 1 := ⟨fuel' - 1, by omega⟩
      simp only [bfsLoop, Option.bind_eq_bind, Option.bind_eq_some_iff, Option.some.injEq] at run ⊢
      obtain ⟨r, found, rest, run, rfl⟩ := run
      exact ⟨r, found, rest, ih (by omega) run, rfl⟩

theorem genLoopHierarchy_mono {t : ControlTree} {fuel fuel' : Nat} (le : fuel ≤ fuel')
    {hierarchy : LoopHierarchy} (run : t.genLoopHierarchy fuel = some hierarchy) :
    t.genLoopHierarchy fuel' = some hierarchy := by
  rw [genLoopHierarchy, Option.bind_eq_bind, Option.bind_eq_some_iff] at run ⊢
  obtain ⟨bfs, traversed, rest⟩ := run
  exact ⟨bfs, bfsLoop_mono le traversed, rest⟩

/-- Only declared regions are looked up. -/
theorem bfsLoop_declared {t : ControlTree} {fuel : Nat} {queue l : List String}
    (h : t.bfsLoop fuel queue = some l) : ∀ r ∈ l, r ∈ t.regions := by
  induction fuel generalizing queue l with
  | zero =>
    cases queue with
    | nil => simp [bfsLoop] at h; simp [h]
    | cons front queue => simp [bfsLoop] at h
  | succ fuel ih =>
    cases queue with
    | nil => simp [bfsLoop] at h; simp [h]
    | cons front queue =>
      simp only [bfsLoop, Option.bind_eq_bind, Option.bind_eq_some_iff, Option.some.injEq] at h
      obtain ⟨r, found, rest, run, rfl⟩ := h
      refine List.forall_mem_cons.mpr ⟨?_, ih run⟩
      by_contra missing
      simp [getCtrlRegion, missing] at found

theorem bfs_of_genLoopHierarchy {t : ControlTree} {fuel : Nat} {hierarchy : LoopHierarchy}
    (run : t.genLoopHierarchy fuel = some hierarchy) : ∃ bfs, t.bfsTraverseControlTree fuel = some bfs := by
  cases traversed : t.bfsTraverseControlTree fuel with
  | none => simp [genLoopHierarchy, traversed] at run
  | some bfs => exact ⟨bfs, rfl⟩

/-- What the regions list has been declared. -/
def Lists (t : ControlTree) (known : String → Prop) (region : String → ControlRegion) : Prop :=
  ∀ r ∈ t.regions, (∀ c ∈ (region r).lowerControlRegion, c ∈ t.regions) ∧ ∀ n ∈ (region r).nodes, known n

theorem mergeBranch_lists {t : ControlTree} {known : String → Prop} {region region' : String → ControlRegion}
    {name : String} (declared : name ∈ t.regions) (h : t.Lists known region)
    (run : t.mergeBranch region name = some region') : t.Lists known region' := by
  unfold mergeBranch at run
  dsimp only at run
  split_ifs at run with branch upper
  · obtain rfl := Option.some.inj run
    intro r mem
    by_cases here : r = (region name).upperControlRegion
    · subst here
      simp only [Function.update_self]
      exact ⟨List.forall_mem_append.mpr ⟨(h _ mem).1, (h _ declared).1⟩,
        List.forall_mem_append.mpr ⟨(h _ mem).2, (h _ declared).2⟩⟩
    · rw [Function.update_of_ne here]
      exact h r mem
  · exact Option.some.inj run ▸ h

theorem setUpper_lists {t : ControlTree} {known : String → Prop} {region region' : String → ControlRegion}
    {name : String} (h : t.Lists known region) (run : t.setUpper region name = some region') :
    t.Lists known region' := by
  unfold setUpper at run
  split_ifs at run with loop
  · refine Run.invariant (fun s lower s' kept one => ?_) h run
    split_ifs at one with declared
    obtain rfl := Option.some.inj one
    intro r mem
    by_cases here : r = lower
    · subst here
      simpa using kept r mem
    · rw [Function.update_of_ne here]
      exact kept r mem
  · exact Option.some.inj run ▸ h

/-- The hierarchy of a tree lists what the tree lists. -/
theorem genLoopHierarchy_lists {t : ControlTree} {known : String → Prop} (h : t.Lists known t.region)
    {fuel : Nat} {hierarchy : LoopHierarchy} (run : t.genLoopHierarchy fuel = some hierarchy) :
    (∀ r ∈ hierarchy.loops, r ∈ t.regions) ∧ t.Lists known hierarchy.region := by
  simp only [genLoopHierarchy, Option.bind_eq_bind, Option.bind_eq_some_iff, Option.some.injEq] at run
  obtain ⟨bfs, traversed, merged, first, final, second, rfl⟩ := run
  refine ⟨fun r mem => (List.mem_filter.mp mem).1, ?_⟩
  have kept : t.Lists known merged := Run.invariant_of_mem (fun name mem s s' kept one =>
    mergeBranch_lists (bfsLoop_declared traversed name (List.mem_reverse.mp mem)) kept one) h first
  exact Run.invariant (fun s name s' kept one => setUpper_lists kept one) kept second

end ControlTree

namespace ChanGraph

/-- No predecessor of the node is among the nodes. -/
def isRootNode (g : ChanGraph) (dfgNodes : List String) (n : String) : Bool :=
  (g.node n).allPre.all fun p => p ∉ dfgNodes

/-- The successors of a node among the nodes. -/
def nextAmong (g : ChanGraph) (dfgNodes : List String) (n : String) : List String :=
  (g.node n).allNext.filter fun s => s ∈ dfgNodes

/-- Each node enters the queue once, so there are no more turns than nodes. -/
def bfsTraverseNodes (g : ChanGraph) (dfgNodes : List String) : Option (List String) :=
  if dfgNodes.all fun n => n ∈ g.nodes then
    let roots := dfgNodes.filter (g.isRootNode dfgNodes)
    Search.explore (g.nextAmong dfgNodes) dfgNodes.length roots roots
  else none

/-- The traversal of different nodes reaches some of them, each once. -/
theorem bfsTraverseNodes_eq_some {g : ChanGraph} {dfgNodes : List String} (nodup : dfgNodes.Nodup)
    (known : ∀ n ∈ dfgNodes, n ∈ g.nodes) :
    ∃ l, g.bfsTraverseNodes dfgNodes = some l ∧ l.Nodup ∧ ∀ n ∈ l, n ∈ dfgNodes := by
  set roots := dfgNodes.filter (g.isRootNode dfgNodes) with hr
  have rootsKnown : ∀ n ∈ roots, n ∈ dfgNodes.toFinset := fun n mem =>
    List.mem_toFinset.mpr (List.mem_filter.mp mem).1
  have once : roots.Nodup := nodup.filter _
  obtain ⟨new, run, fresh, inside⟩ := @Search.explore_eq_some _ _ (g.nextAmong dfgNodes)
    dfgNodes.toFinset (fun a b mem => List.mem_toFinset.mpr (by simpa using (List.mem_filter.mp mem).2))
    dfgNodes.length roots roots once rootsKnown (by
      rw [List.toFinset_card_of_nodup nodup]
      have fewer : roots.length ≤ dfgNodes.length := List.length_filter_le _ _
      omega)
  have all : dfgNodes.all (fun n => n ∈ g.nodes) = true := by simpa using known
  refine ⟨roots ++ new, by rw [bfsTraverseNodes, if_pos all, ← hr, run],
    once.append fresh fun n old late => (inside n late).2 old, ?_⟩
  refine List.forall_mem_append.mpr ⟨fun n mem => (List.mem_filter.mp mem).1, fun n mem => ?_⟩
  exact List.mem_toFinset.mp (inside n mem).1

/-- An edge to a successor among the nodes. -/
def Among (g : ChanGraph) (dfgNodes : List String) (a b : String) : Prop :=
  b ∈ (g.node a).allNext ∧ b ∈ dfgNodes

theorem mem_nextAmong {g : ChanGraph} {dfgNodes : List String} {a b : String} :
    b ∈ g.nextAmong dfgNodes a ↔ g.Among dfgNodes a b := by simp [nextAmong, Among]

theorem mem_bfsTraverseNodes_iff {g : ChanGraph} {dfgNodes l : List String} {n : String}
    (run : g.bfsTraverseNodes dfgNodes = some l) :
    n ∈ l ↔ ∃ r ∈ dfgNodes, (∀ p ∈ (g.node r).allPre, p ∉ dfgNodes) ∧
      Relation.ReflTransGen (g.Among dfgNodes) r n := by
  unfold bfsTraverseNodes at run
  split_ifs at run
  have edges : (fun a b => b ∈ g.nextAmong dfgNodes a) = g.Among dfgNodes := by
    funext a b
    exact propext mem_nextAmong
  rw [Search.mem_explore_iff run, edges]
  simp only [List.mem_filter, isRootNode, List.all_eq_true, decide_eq_true_eq, and_assoc]

/-- The traversal ends with what the nodes without predecessors reach among the nodes, each of
them once. -/
theorem bfsTraverseNodes_reaches (g : ChanGraph) {dfgNodes : List String} (nodup : dfgNodes.Nodup)
    (known : ∀ n ∈ dfgNodes, n ∈ g.nodes) :
    ∃ l, g.bfsTraverseNodes dfgNodes = some l ∧ l.Nodup ∧ (∀ n ∈ l, n ∈ dfgNodes) ∧
      ∀ n, n ∈ l ↔ ∃ r ∈ dfgNodes, (∀ p ∈ (g.node r).allPre, p ∉ dfgNodes) ∧
        Relation.ReflTransGen (g.Among dfgNodes) r n := by
  obtain ⟨l, run, once, inside⟩ := bfsTraverseNodes_eq_some nodup known
  exact ⟨l, run, once, inside, fun n => mem_bfsTraverseNodes_iff run⟩

/-- Two nodes that feed each other. -/
def feedback : ChanGraph where
  nodes := ["a", "b"]
  node
    | "a" => { preNodes := fun | .data => ["b"] | _ => [], nextNodes := fun | .data => ["b"] | _ => [] }
    | "b" => { preNodes := fun | .data => ["a"] | _ => [], nextNodes := fun | .data => ["a"] | _ => [] }
    | _ => {}
  controlTree := ⟨[], fun _ => {}, List.nodup_nil⟩
  nodup := by decide

/-- A node before them. -/
def enteredCycle : ChanGraph where
  nodes := ["r", "a", "b"]
  node
    | "r" => { nextNodes := fun | .data => ["a"] | _ => [] }
    | "a" => { preNodes := fun | .data => ["r", "b"] | _ => [], nextNodes := fun | .data => ["b"] | _ => [] }
    | "b" => { preNodes := fun | .data => ["a"] | _ => [], nextNodes := fun | .data => ["a"] | _ => [] }
    | _ => {}
  controlTree := ⟨[], fun _ => {}, List.nodup_nil⟩
  nodup := by decide

theorem bfsTraverseNodes_reaches_enteredCycle : ∃ l, enteredCycle.bfsTraverseNodes ["b", "r", "a"] = some l ∧
    l.Nodup ∧ (∀ n ∈ l, n ∈ ["b", "r", "a"]) ∧ ∀ n, n ∈ l ↔ ∃ r ∈ ["b", "r", "a"],
      (∀ p ∈ (enteredCycle.node r).allPre, p ∉ ["b", "r", "a"]) ∧
        Relation.ReflTransGen (enteredCycle.Among ["b", "r", "a"]) r n :=
  bfsTraverseNodes_reaches enteredCycle (by decide) (by decide)

/-- It reaches both. -/
example : enteredCycle.bfsTraverseNodes ["b", "r", "a"] = some ["r", "a", "b"] := by decide +kernel

/-- Without it neither of them is reached. -/
theorem feedback_missed : feedback.nodes.Nodup ∧
    feedback.bfsTraverseNodes feedback.nodes = some [] ∧ "a" ∈ feedback.nodes := by
  refine ⟨by decide, by decide +kernel, by decide⟩

end ChanGraph

end DataflowSim.Graph
