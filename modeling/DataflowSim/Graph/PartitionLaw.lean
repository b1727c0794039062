import DataflowSim.Graph.Halving

/-!
# When a partition has the parts that were asked for

The ids that the regions and the halvings leave are sorted without a change of what they have in
common, so that the subgraphs are those that were asked for exactly when the ids are.
-/

namespace DataflowSim.Graph

open ControlTree (LoopHierarchy)

namespace ChanGraph

variable {g : ChanGraph} {f : String → Nat}

/-! ## Sorting and statistics -/

/-- Nothing is ever exchanged, for the position that is compared is not smaller than itself. -/
theorem sortQueue_eq (named : g.Named) (controlTreeBfs : List String) (queue : List Nat) :
    g.sortQueue controlTreeBfs queue = some queue := by
  refine Run.stationary fun i _ => Run.stationary fun n mem => Run.stationary fun s succ => ?_
  obtain ⟨κ, next⟩ := ChanNode.mem_allNext.mp succ
  rw [sortNext, getNode_of_mem (named.next n (List.mem_filter.mp mem).1 κ s next)]
  simp

theorem sortSubgraphId_eq (named : g.Named) {fuel n : Nat} {bfs : List String}
    (run : g.controlTree.bfsTraverseControlTree fuel = some bfs) :
    sortSubgraphId fuel n (g.withIds f) =
      if ∀ x ∈ g.nodes, f x < n then
        some (g.withIds fun x =>
          if x ∈ g.nodes then (Adjacency.distinct (g.nodes.map f)).idxOf (f x) else f x)
      else none := by
  have named' : (g.withIds f).Named := ⟨named.pre, named.next⟩
  have tree : (g.withIds f).controlTree.bfsTraverseControlTree fuel = some bfs := run
  rw [sortSubgraphId, tree, Option.bind_eq_bind, Option.bind_some]
  by_cases below : ∀ x ∈ g.nodes, f x < n
  · have all : ((g.withIds f).nodes.map fun x => ((g.withIds f).node x).subgraphId).all (· < n) =
        true := by simpa using below
    rw [if_pos below, if_pos all, sortQueue_eq named']
    rfl
  · have all : ¬ ((g.withIds f).nodes.map fun x => ((g.withIds f).node x).subgraphId).all (· < n) =
        true := by simpa using below
    rw [if_neg below, if_neg all]

theorem printSubgraphPartition_eq (named : g.Named) {n : Nat} :
    printSubgraphPartition n g = if 1 ≤ n ∧ n ≤ g.actualNodeNum then some () else none := by
  have all : (g.nodes.all fun n => (g.node n).allPre.all fun p => p ∈ g.nodes) = true := by
    simp only [List.all_eq_true, decide_eq_true_eq]
    intro x mem p listed
    rcases List.mem_append.mp listed with here | here
    · exact named.pre x mem _ p here
    · exact named.pre x mem _ p here
  rw [printSubgraphPartition, if_pos all]
  by_cases zero : n = 0
  · simp [zero]
  · have less : g.actualNodeNum / n = 0 ↔ g.actualNodeNum < n := by
      rw [Nat.div_eq_zero_iff]
      omega
    rw [if_neg zero]
    by_cases few : g.actualNodeNum < n
    · rw [if_pos (less.mpr few), if_neg (by omega)]
    · rw [if_neg (mt less.mp few), if_pos (by omega)]

/-- The subgraphs are those that were asked for. -/
def Partitioned (g : ChanGraph) (partitionNum : Nat) : Prop :=
  Labels.Exactly g.nodes (fun n => (g.node n).subgraphId) partitionNum

/-- Sorting changes nothing about the ids that are in use. -/
theorem finish_iff (named : g.Named) {fuel n : Nat} {bfs : List String}
    (run : g.controlTree.bfsTraverseControlTree fuel = some bfs) :
    (∃ h, (do
      let s ← sortSubgraphId fuel n (g.withIds f)
      printSubgraphPartition n s
      some s) = some h ∧ h.nodes = g.nodes ∧ h.Partitioned n) ↔
    Labels.Exactly g.nodes f n ∧ 1 ≤ n ∧ n ≤ g.actualNodeNum := by
  rw [sortSubgraphId_eq named run, Option.bind_eq_bind]
  by_cases below : ∀ x ∈ g.nodes, f x < n
  · set f' : String → Nat := fun x =>
      if x ∈ g.nodes then (Adjacency.distinct (g.nodes.map f)).idxOf (f x) else f x
    have named' : (g.withIds f').Named := ⟨named.pre, named.next⟩
    have actual : (g.withIds f').actualNodeNum = g.actualNodeNum := rfl
    have sorted : (g.withIds f').Partitioned n ↔ Labels.Exactly g.nodes f n := by
      rw [← Labels.exactly_idxOf_iff below]
      exact Labels.Exactly.congr fun x mem => if_pos mem
    rw [if_pos below, Option.bind_some, printSubgraphPartition_eq named', actual]
    by_cases enough : 1 ≤ n ∧ n ≤ g.actualNodeNum
    · rw [if_pos enough]
      constructor
      · rintro ⟨h, done, -, law⟩
        obtain rfl := Option.some.inj done
        exact ⟨sorted.mp law, enough⟩
      · rintro ⟨law, -⟩
        exact ⟨_, rfl, rfl, sorted.mpr law⟩
    · rw [if_neg enough]
      constructor
      · rintro ⟨h, done, -⟩
        cases done
      · exact fun ⟨_, enough'⟩ => absurd enough' enough
  · rw [if_neg below]
    constructor
    · rintro ⟨h, done, -⟩
      cases done
    · exact fun ⟨law, _⟩ => absurd (fun x mem => law.below mem) below


/-! ## The law -/

/-- A graph as the passes before leave it: the regions are a hierarchy and list nodes of the graph,
and no node is in a subgraph yet. -/
structure Partitionable (g : ChanGraph) : Prop extends Named g where
  tree : g.controlTree.WellFormed
  known : ∀ r ∈ g.controlTree.regions, ∀ n ∈ (g.controlTree.region r).nodes, n ∈ g.nodes
  fresh : ∀ n ∈ g.nodes, (g.node n).subgraphId = 0
  size : g.nodes.length < 2 ^ 64

/-- The first regions are one part each, and what they leave is another. -/
structure PeeledOff (g : ChanGraph) (vs : List Visit) (n : Nat) : Prop where
  long : n - 1 ≤ vs.length
  full : ∀ v ∈ vs.take (n - 1), v.full = true
  visible : Labels.Visible ((vs.take (n - 1)).map Visit.nodes)
  left : ∃ x ∈ g.nodes, ∀ v ∈ vs.take (n - 1), x ∉ v.nodes

/-- The parts of the nodes by the last visit that has them. -/
def regionParts (g : ChanGraph) (vs : List Visit) (k : Nat) : List (List String) :=
  (List.range k).map fun i =>
    g.nodes.filter fun x => Labels.paint (vs.map Visit.nodes) 0 (fun _ => 0) x = i

/-- The first regions, all but one of them counted, have all nodes and are one part each, and the
other parts are made by halving. -/
structure Covered (g : ChanGraph) (vs : List Visit) (n k : Nat) : Prop where
  fewer : k < n
  long : k ≤ vs.length
  empty : ∀ v ∈ vs.drop k, v.nodes = []
  counted : vs.countP Visit.full + 1 = k
  visible : Labels.Visible ((vs.take k).map Visit.nodes)
  covered : ∀ x ∈ g.nodes, ∃ v ∈ vs, x ∈ v.nodes
  divisible : g.Divisible (n - k) (g.regionParts vs k)

def Dividable (g : ChanGraph) (n : Nat) : Prop :=
  1 ≤ n ∧ n ≤ g.actualNodeNum ∧ (n = 1 ∨ ∃ fuel hierarchy,
    g.controlTree.genLoopHierarchy fuel = some hierarchy ∧
      (g.PeeledOff (regionVisits g.controlTree hierarchy) n ∨
        ∃ k, g.Covered (regionVisits g.controlTree hierarchy) n k))

section
variable {vs : List Visit} {n : Nat}

theorem peeledOff_iff {before rest : List Visit} {v : Visit} (split : vs = before ++ v :: rest)
    (known : ∀ v ∈ vs, ∀ x ∈ v.nodes, x ∈ g.nodes) (full : v.full = true)
    (total : before.countP Visit.full + 1 = n - 1) :
    Labels.Exactly g.nodes (Labels.paint ((before ++ [v]).map Visit.nodes) 1 fun _ => 0) n ↔
      g.PeeledOff vs n := by
  subst split
  have few : before.countP Visit.full ≤ before.length := List.countP_le_length
  have inside : ∀ l ∈ (before ++ [v]).map Visit.nodes, ∀ x ∈ l, x ∈ g.nodes := by
    intro l mem x listed
    obtain ⟨w, there, rfl⟩ := List.mem_map.mp mem
    exact known w (by grind) x listed
  have law := Labels.exactly_paint_iff inside
  have length : ((before ++ [v]).map Visit.nodes).length = before.length + 1 := by simp
  have start (h : before.length + 1 = n - 1) : (before ++ v :: rest).take (n - 1) = before ++ [v] := by
    rw [← h, List.take_append, List.take_of_length_le (by omega)]
    simp
  constructor
  · intro h
    have place : before.length + 1 = n - 1 := by
      obtain ⟨x, mem⟩ := List.exists_mem_of_ne_nil v.nodes (by
        rintro empty
        simp [Visit.full, empty] at full)
      have below := h.below (known v (by simp) x mem)
      rw [List.map_append, List.map_singleton, Labels.paint_eq_of_last mem (by simp),
        List.length_map] at below
      omega
    rw [show n = ((before ++ [v]).map Visit.nodes).length + 1 by omega, law] at h
    refine ⟨by simp; omega, ?_, by rw [start place]; exact h.1, ?_⟩
    · rw [start place]
      have all := List.countP_eq_length.mp (show before.countP Visit.full = before.length by omega)
      exact List.forall_mem_append.mpr ⟨all, by simpa using full⟩
    · obtain ⟨x, mem, bare⟩ := h.2
      rw [start place]
      exact ⟨x, mem, fun w there => bare _ (List.mem_map_of_mem there)⟩
  · intro h
    have place : before.length + 1 = n - 1 := by
      by_contra differ
      have inner : (before ++ v :: rest).take (n - 1) = before.take (n - 1) :=
        List.take_append_of_le_length (by omega)
      have all := List.countP_eq_length.mpr h.full
      rw [inner, List.length_take_of_le (by omega)] at all
      have fewer := (List.take_sublist (n - 1) before).countP_le (p := Visit.full)
      omega
    rw [show n = ((before ++ [v]).map Visit.nodes).length + 1 by omega, law]
    refine ⟨by have := h.visible; rwa [start place] at this, ?_⟩
    obtain ⟨x, mem, bare⟩ := h.left
    rw [start place] at bare
    exact ⟨x, mem, List.forall_mem_map.mpr bare⟩

theorem decrement_paint {layers : List (List String)} {x : String} (ground : f x = 0)
    (covered : ∃ l ∈ layers, x ∈ l) :
    decrement (Labels.paint layers 1 f x) = Labels.paint layers 0 (fun _ => 0) x := by
  rw [Labels.paint_succ covered, decrement, if_neg (by omega), Nat.add_sub_cancel]
  exact Labels.paint_congr ground

/-- Covering visits count for the ids of the parts and for the parts. -/
theorem Covered.visits {k : Nat} (h : g.Covered vs n k) (ground : ∀ x ∈ g.nodes, f x = 0) :
    ∀ x ∈ g.nodes, decrement (Labels.paint (vs.map Visit.nodes) 1 f x) =
      Labels.paint (vs.map Visit.nodes) 0 (fun _ => 0) x :=
  fun x mem => decrement_paint (ground x mem) (by simpa using h.covered x mem)

/-- The ids of the visits are those below `k`, and the turns that are left split a part each. -/
theorem covered_iff (size : g.nodes.length < 2 ^ 64) (ground : ∀ x ∈ g.nodes, f x = 0)
    (known : ∀ v ∈ vs, ∀ x ∈ v.nodes, x ∈ g.nodes) (few : vs.countP Visit.full < n - 1) :
    ∃ ids : Option (String → Nat), ((startHalving (vs.countP Visit.full)
        (g.withIds (Labels.paint (vs.map Visit.nodes) 1 f))).bind fun s =>
          (halveTimes (n - 1 - vs.countP Visit.full) s).map Halving.graph) = ids.map g.withIds ∧
      ((∃ f' ∈ ids, Labels.Exactly g.nodes f' n) ↔ ∃ k, g.Covered vs n k) := by
  have inside : ∀ l ∈ vs.map Visit.nodes, ∀ x ∈ l, x ∈ g.nodes := List.forall_mem_map.mpr known
  set c := vs.countP Visit.full with hc
  set id := Labels.paint (vs.map Visit.nodes) 1 f
  have turns : n - (c + 1) = n - 1 - c := by omega
  have parts (same : ∀ x ∈ g.nodes, decrement (id x) =
      Labels.paint (vs.map Visit.nodes) 0 (fun _ => 0) x) :
      (g.entered id c g.nodes).subgraphNodes = g.regionParts vs (c + 1) :=
    List.map_congr_left fun i _ => List.filter_congr fun x mem => by rw [same x mem]
  have necessary {k : Nat} (h : g.Covered vs n k) :
      Labels.Exactly g.nodes (fun x => decrement (id x)) (c + 1) := by
    have counted := h.counted
    subst counted
    have covered : ∀ x ∈ g.nodes, ∃ l ∈ vs.map Visit.nodes, x ∈ l := by simpa using h.covered
    rw [Labels.Exactly.congr (h.visits ground), Labels.exactly_paint_covered_iff inside covered,
      ← List.map_drop, ← List.map_take]
    exact ⟨by rw [List.length_map]; exact h.long, List.forall_mem_map.mpr h.empty, h.visible⟩
  by_cases start : ∀ x ∈ g.nodes, decrement (id x) < c + 1
  · obtain ⟨f', run, law⟩ := halveTimes_ids size few start
    refine ⟨some f', run, ?_⟩
    simp only [Option.mem_some_iff, exists_eq_left', law]
    constructor
    · rintro ⟨regions, divisible⟩
      have covered : ∀ x ∈ g.nodes, ∃ l ∈ vs.map Visit.nodes, x ∈ l := by
        intro x mem
        by_contra bare
        have below := start x mem
        have nothing : id x = 0 := (Labels.paint_of_not_mem (by grind)).trans (ground x mem)
        have long := regions.le_length
        simp only [nothing, decrement, if_true] at below
        omega
      have same (x : String) (mem : x ∈ g.nodes) := decrement_paint (ground x mem) (covered x mem)
      rw [Labels.Exactly.congr same, Labels.exactly_paint_covered_iff inside covered,
        ← List.map_drop, ← List.map_take] at regions
      obtain ⟨long, empty, visible⟩ := regions
      rw [parts same, ← turns] at divisible
      exact ⟨c + 1, by omega, by simpa using long, List.forall_mem_map.mp empty, rfl, visible,
        by simpa using covered, divisible⟩
    · rintro ⟨k, h⟩
      refine ⟨necessary h, ?_⟩
      have counted := h.counted
      subst counted
      rw [parts (h.visits ground), ← turns]
      exact h.divisible
  · refine ⟨none, by rw [startHalving_eq, if_neg start]; rfl, ?_⟩
    constructor
    · rintro ⟨f', none, -⟩
      cases none
    · rintro ⟨k, h⟩
      exact absurd (fun x mem => (necessary h).below mem) start

end

theorem Partitionable.lists (h : g.Partitionable) :
    g.controlTree.Lists (· ∈ g.nodes) g.controlTree.region :=
  fun r mem => ⟨h.tree.lower r mem, h.known r mem⟩

section
variable {fuel n : Nat} {hierarchy : LoopHierarchy}

theorem mem_loopOrder {loop : String × Bool} (mem : loop ∈ loopOrder hierarchy) :
    loop.1 ∈ hierarchy.loops := by
  obtain ⟨i, inside, rfl⟩ := List.mem_mapIdx.mp mem
  exact List.mem_reverse.mp (List.getElem_mem inside)

/-- The visits are to nodes of the graph. -/
theorem Partitionable.visits_known (h : g.Partitionable)
    (run : g.controlTree.genLoopHierarchy fuel = some hierarchy) :
    ∀ v ∈ regionVisits g.controlTree hierarchy, ∀ x ∈ v.nodes, x ∈ g.nodes := by
  obtain ⟨declared, lists⟩ := ControlTree.genLoopHierarchy_lists h.lists run
  intro v mem
  obtain ⟨loop, there, visit⟩ := List.mem_flatMap.mp mem
  obtain ⟨lower, nodes⟩ := lists _ (declared _ (mem_loopOrder there))
  rcases List.mem_cons.mp visit with rfl | branch
  · exact nodes
  · obtain ⟨c, listed, rfl⟩ := List.mem_map.mp branch
    exact h.known c (lower c (List.mem_filter.mp listed).1)

/-- What the regions and the halvings make of the ids. -/
theorem divide_iff (h : g.Partitionable) (more : 1 < n)
    (run : g.controlTree.genLoopHierarchy fuel = some hierarchy) :
    ∃ ids : Option (String → Nat), divide fuel n g = ids.map g.withIds ∧
      ((∃ f' ∈ ids, Labels.Exactly g.nodes f' n) ↔
        g.PeeledOff (regionVisits g.controlTree hierarchy) n ∨
          ∃ k, g.Covered (regionVisits g.controlTree hierarchy) n k) := by
  obtain ⟨declared, lists⟩ := ControlTree.genLoopHierarchy_lists h.lists run
  have known := h.visits_known run
  have visits := @peel_eq g n hierarchy fun r mem => (lists r (declared r mem)).1
  set vs := regionVisits g.controlTree hierarchy
  have few : 0 < n - 1 := by omega
  rw [divide, if_pos more, run, Option.bind_eq_bind, Option.bind_some, visits]
  rcases @foldlM_peelVisit g (fun x => (g.node x).subgraphId) n vs known 1 0 few with
    ⟨less, peeled⟩ | ⟨before, v, rest, split, full, total, peeled⟩
  · rw [withIds_self, Nat.zero_add] at peeled
    rw [Nat.zero_add] at less
    obtain ⟨ids, halved, law⟩ := covered_iff h.size h.fresh known less
    refine ⟨ids, ?_, law.trans ⟨.inr, ?_⟩⟩
    · rw [peeled, Option.bind_eq_bind, Option.bind_some, if_pos less, ← halved]
      exact Option.bind_congr fun s _ => Option.map_eq_bind.symm
    · rintro (peeledOff | covered)
      · have all := List.countP_eq_length.mpr peeledOff.full
        rw [List.length_take_of_le peeledOff.long] at all
        have fewer := (List.take_sublist (n - 1) vs).countP_le (p := Visit.full)
        omega
      · exact covered
  · rw [withIds_self] at peeled
    refine ⟨some (Labels.paint ((before ++ [v]).map Visit.nodes) 1 fun x => (g.node x).subgraphId),
      ?_, ?_⟩
    · rw [peeled, Option.bind_eq_bind, Option.bind_some, if_neg (lt_irrefl _)]
      rfl
    · have zero : ∀ x ∈ g.nodes, Labels.paint ((before ++ [v]).map Visit.nodes) 1
          (fun x => (g.node x).subgraphId) x =
          Labels.paint ((before ++ [v]).map Visit.nodes) 1 (fun _ => 0) x :=
        fun x mem => Labels.paint_congr (h.fresh x mem)
      simp only [Option.mem_some_iff, exists_eq_left', Labels.Exactly.congr zero,
        peeledOff_iff (n := n) split known full (by omega)]
      refine ⟨.inl, ?_⟩
      rintro (peeledOff | ⟨k, covered⟩)
      · exact peeledOff
      · have fewer := covered.fewer
        have counted := covered.counted
        rw [split, List.countP_append, List.countP_cons_of_pos full] at counted
        omega

end

/-- With more fuel the result is the same. -/
theorem subgraphPartitionCtrlRegion_mono {fuel fuel' n : Nat} (le : fuel ≤ fuel') {s : ChanGraph}
    (run : subgraphPartitionCtrlRegion fuel n g = some s) :
    subgraphPartitionCtrlRegion fuel' n g = some s := by
  have divide_mono {d : ChanGraph} (run : divide fuel n g = some d) : divide fuel' n g = some d := by
    by_cases more : 1 < n
    · rw [divide, if_pos more, Option.bind_eq_bind, Option.bind_eq_some_iff] at run ⊢
      obtain ⟨hierarchy, found, rest⟩ := run
      exact ⟨hierarchy, ControlTree.genLoopHierarchy_mono le found, rest⟩
    · rwa [divide, if_neg more] at run ⊢
  have sort_mono {d t : ChanGraph} (run : sortSubgraphId fuel n d = some t) :
      sortSubgraphId fuel' n d = some t := by
    rw [sortSubgraphId, Option.bind_eq_bind, Option.bind_eq_some_iff] at run ⊢
    obtain ⟨bfs, traversed, rest⟩ := run
    exact ⟨bfs, ControlTree.bfsLoop_mono le traversed, rest⟩
  simp only [subgraphPartitionCtrlRegion, Option.bind_eq_bind, Option.bind_eq_some_iff] at run ⊢
  obtain ⟨d, divided, t, sorted, rest⟩ := run
  exact ⟨d, divide_mono divided, t, sort_mono sorted, rest⟩

theorem partition_iff_of_divide (named : g.Named) {fuel n : Nat} {bfs : List String}
    (traversed : g.controlTree.bfsTraverseControlTree fuel = some bfs)
    {ids : Option (String → Nat)} (divided : divide fuel n g = ids.map g.withIds) :
    (∃ s, subgraphPartitionCtrlRegion fuel n g = some s ∧ s.nodes = g.nodes ∧ s.Partitioned n) ↔
      (∃ f' ∈ ids, Labels.Exactly g.nodes f' n) ∧ 1 ≤ n ∧ n ≤ g.actualNodeNum := by
  rw [subgraphPartitionCtrlRegion, divided]
  cases ids with
  | none => simp
  | some f' => simpa using finish_iff named traversed

/-- One part is made of all nodes. -/
theorem divide_one {fuel n : Nat} (one : ¬ 1 < n) :
    divide fuel n g = (some fun x => if x ∈ g.nodes then 0 else (g.node x).subgraphId).map g.withIds := by
  rw [divide, if_neg one]
  exact assignSubgraph_withIds (f := fun x => (g.node x).subgraphId) fun x mem => mem

theorem exactly_one (some : g.nodes ≠ []) (f : String → Nat) :
    Labels.Exactly g.nodes (fun x => if x ∈ g.nodes then 0 else f x) 1 := by
  have const : ∀ x ∈ g.nodes, (if x ∈ g.nodes then 0 else f x) = 0 := fun x mem => if_pos mem
  obtain ⟨x, mem⟩ := List.exists_mem_of_ne_nil g.nodes some
  rw [Labels.Exactly.congr const]
  intro i
  constructor
  · rintro ⟨y, -, rfl⟩
    exact Nat.one_pos
  · intro less
    exact ⟨x, mem, (Nat.lt_one_iff.mp less).symm⟩

/-- The subgraphs are those that were asked for exactly when the graph divides so. -/
theorem subgraphPartitionCtrlRegion_iff (h : g.Partitionable) (n : Nat) :
    (∃ fuel s, subgraphPartitionCtrlRegion fuel n g = some s ∧ s.nodes = g.nodes ∧
      s.Partitioned n) ↔ g.Dividable n := by
  constructor
  · rintro ⟨fuel, s, run, law⟩
    by_cases more : 1 < n
    · cases found : g.controlTree.genLoopHierarchy fuel with
      | none => simp [subgraphPartitionCtrlRegion, divide, more, found] at run
      | some hierarchy =>
        obtain ⟨ids, divided, parts⟩ := divide_iff h more found
        obtain ⟨bfs, traversed⟩ := ControlTree.bfs_of_genLoopHierarchy found
        obtain ⟨ids', pos, enough⟩ :=
          (partition_iff_of_divide h.toNamed traversed divided).mp ⟨s, run, law⟩
        exact ⟨pos, enough, .inr ⟨fuel, hierarchy, found, parts.mp ids'⟩⟩
    · cases traversed : g.controlTree.bfsTraverseControlTree fuel with
      | none =>
        simp [subgraphPartitionCtrlRegion, divide_one more, sortSubgraphId, traversed] at run
      | some bfs =>
        obtain ⟨-, pos, enough⟩ :=
          (partition_iff_of_divide h.toNamed traversed (divide_one more)).mp ⟨s, run, law⟩
        exact ⟨pos, enough, .inl (by omega)⟩
  · rintro ⟨pos, enough, parts⟩
    by_cases more : 1 < n
    · rcases parts with rfl | ⟨fuel, hierarchy, found, parts⟩
      · exact absurd more (lt_irrefl 1)
      · obtain ⟨ids, divided, law⟩ := divide_iff h more found
        obtain ⟨bfs, traversed⟩ := ControlTree.bfs_of_genLoopHierarchy found
        exact ⟨fuel, (partition_iff_of_divide h.toNamed traversed divided).mpr
          ⟨law.mpr parts, pos, enough⟩⟩
    · obtain ⟨fuel, bfs, traversed⟩ := ControlTree.bfsTraverseControlTree_eq_some h.tree
      obtain rfl : n = 1 := by omega
      have some : g.nodes ≠ [] := by
        rintro none
        simp [actualNodeNum, none] at enough
      exact ⟨fuel, (partition_iff_of_divide h.toNamed traversed (divide_one more)).mpr
        ⟨⟨_, rfl, exactly_one some _⟩, pos, enough⟩⟩

theorem chain_nodup : ["a", "b", "c"].Nodup := by decide

/-- Three nodes in one loop, the first with the given operation. -/
def chain (nodeOp : String) : ChanGraph where
  nodes := ["a", "b", "c"]
  node
    | "a" => { nodeOp := nodeOp, controlRegionName := "main", nextNodes := fun | .data => ["b"] | _ => [] }
    | "b" => { nodeOp := "Add", controlRegionName := "main", preNodes := fun | .data => ["a"] | _ => []
               nextNodes := fun | .data => ["c"] | _ => [] }
    | "c" => { nodeOp := "Add", controlRegionName := "main", preNodes := fun | .data => ["b"] | _ => [] }
    | _ => {}
  controlTree := ⟨["main"], fun _ => { nodes := ["a", "b", "c"] }, List.nodup_singleton _⟩
  nodup := chain_nodup

theorem chain_partitionable (nodeOp : String) : (chain nodeOp).Partitionable where
  pre := by
    intro n mem κ
    fin_cases mem <;> cases κ <;> simp [chain, ChanGraph.pre]
  next := by
    intro n mem κ
    fin_cases mem <;> cases κ <;> simp [chain, ChanGraph.next]
  tree := ⟨by simp [chain], by simp [chain], fun _ => 0, by simp [chain]⟩
  known := by simp [chain]
  fresh := by simp [chain]
  size := by simp [chain]

theorem chain_load : (chain "Load").Partitionable ∧ (chain "Load").Placed ∧
    2 ≤ (chain "Load").nodes.length ∧
    ¬ ∃ fuel s, subgraphPartitionCtrlRegion fuel 2 (chain "Load") = some s ∧
      s.nodes = (chain "Load").nodes ∧ s.Partitioned 2 := by
  refine ⟨chain_partitionable _, by simp [chain, Placed], by decide, ?_⟩
  rintro ⟨fuel, s, run, nodes, law⟩
  have ids : (subgraphPartitionCtrlRegion 1 2 (chain "Load")).map
      (fun t => t.nodes.map fun x => (t.node x).subgraphId) = some [0, 0, 0] := by decide +kernel
  obtain ⟨t, once, zero⟩ := Option.map_eq_some_iff.mp ids
  have more := subgraphPartitionCtrlRegion_mono (le_max_left fuel 1) run
  obtain rfl := Option.some.inj (more.symm.trans
    (subgraphPartitionCtrlRegion_mono (le_max_right fuel 1) once))
  obtain ⟨x, mem, one⟩ := (law 1).mpr Nat.one_lt_two
  have listed : (s.node x).subgraphId ∈ [0, 0, 0] := zero ▸ List.mem_map_of_mem mem
  simp [one] at listed

/-- Without the load there are two subgraphs. -/
theorem chain_add : ∃ fuel s, subgraphPartitionCtrlRegion fuel 2 (chain "Add") = some s ∧
    s.nodes = (chain "Add").nodes ∧ s.Partitioned 2 := by
  refine (subgraphPartitionCtrlRegion_iff (chain_partitionable _) 2).mpr
    ⟨by decide, by decide +kernel, .inr ?_⟩
  have visits : ((chain "Add").controlTree.genLoopHierarchy 1).map
      (regionVisits (chain "Add").controlTree) = some [⟨["a", "b", "c"], false⟩] := by
    decide +kernel
  obtain ⟨hierarchy, run, here⟩ := Option.map_eq_some_iff.mp visits
  refine ⟨1, hierarchy, run, .inr ⟨1, ?_⟩⟩
  rw [here]
  refine ⟨by decide, by decide, by simp, by decide, ?_, by simp [chain], ?_⟩
  · rintro l later ⟨before, eq⟩
    obtain ⟨rfl, rfl, rfl⟩ : before = [] ∧ l = ["a", "b", "c"] ∧ later = [] := by
      simpa [List.append_eq_cons_iff] using eq
    exact ⟨"a", by simp, by simp⟩
  · exact ⟨["a", "b", "c"], by decide +kernel, by decide +kernel, trivial⟩

end ChanGraph

end DataflowSim.Graph
