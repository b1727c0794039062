import DataflowSim.Graph.PartitionLaw

/-!
# Order of the subgraphs

`sortSubgraphId` gives the subgraphs new ids in the order in which their first nodes stand. The
exchanges that should bring a producer before its consumer are never made, for the region of the
node is compared with itself.
-/

namespace DataflowSim.Graph.ChanGraph

variable {g h : ChanGraph}

/-- An edge between subgraphs whose regions are in breadth-first order. -/
def OrderingEdge (g : ChanGraph) (controlTreeBfs : List String) (u v : String) : Prop :=
  u ∈ g.nodes ∧ v ∈ (g.node u).allNext ∧ (g.node u).subgraphId ≠ (g.node v).subgraphId ∧
    controlTreeBfs.idxOf (g.node u).controlRegionName <
      controlTreeBfs.idxOf (g.node v).controlRegionName

/-- Such an edge leads from the one subgraph to the other. -/
def Precedes (g : ChanGraph) (controlTreeBfs : List String) (i j : Nat) : Prop :=
  ∃ u v, g.OrderingEdge controlTreeBfs u v ∧ (g.node u).subgraphId = i ∧ (g.node v).subgraphId = j

def Unconflicted (g : ChanGraph) (controlTreeBfs : List String) : Prop :=
  ∀ i, ¬ Relation.TransGen (g.Precedes controlTreeBfs) i i

/-- Where the first node of a subgraph stands. -/
def firstPlace (g : ChanGraph) (id : Nat) : Nat :=
  (g.nodes.map fun n => (g.node n).subgraphId).idxOf id

/-- The ids are renamed to those from zero on. -/
structure Renumbered (g h : ChanGraph) : Prop where
  nodes : h.nodes = g.nodes
  same : ∀ u ∈ g.nodes, ∀ v ∈ g.nodes,
    (h.node u).subgraphId = (h.node v).subgraphId ↔ (g.node u).subgraphId = (g.node v).subgraphId
  exactly : ∃ k, Labels.Exactly h.nodes (fun n => (h.node n).subgraphId) k

/-- The new ids of a graph that is sorted. -/
def sorted (g : ChanGraph) : ChanGraph :=
  g.withIds fun x =>
    if x ∈ g.nodes then (Adjacency.distinct (g.nodes.map fun n => (g.node n).subgraphId)).idxOf
      (g.node x).subgraphId
    else (g.node x).subgraphId

theorem sortSubgraphId_eq_sorted (named : g.Named) {fuel n : Nat} {bfs : List String}
    (run : g.controlTree.bfsTraverseControlTree fuel = some bfs)
    (below : ∀ x ∈ g.nodes, (g.node x).subgraphId < n) :
    sortSubgraphId fuel n g = some g.sorted := by
  have ids : g.withIds (fun x => (g.node x).subgraphId) = g := eq_of_node_eq rfl rfl fun _ => rfl
  have sorts := @sortSubgraphId_eq g (fun x => (g.node x).subgraphId) named fuel n bfs run
  rw [ids, if_pos below] at sorts
  exact sorts

theorem sorted_subgraphId {x : String} (mem : x ∈ g.nodes) : (g.sorted.node x).subgraphId =
    (Adjacency.distinct (g.nodes.map fun n => (g.node n).subgraphId)).idxOf (g.node x).subgraphId :=
  if_pos mem

theorem sorted_renumbered : Renumbered g g.sorted := by
  set order := Adjacency.distinct (g.nodes.map fun n => (g.node n).subgraphId) with ho
  have known {x : String} (mem : x ∈ g.nodes) : (g.node x).subgraphId ∈ order :=
    Adjacency.mem_distinct.mpr (List.mem_map_of_mem mem)
  refine ⟨rfl, fun u hu v hv => ?_, order.length, ?_⟩
  · rw [sorted_subgraphId hu, sorted_subgraphId hv, ← ho]
    exact List.idxOf_inj (known hu)
  · exact (Labels.Exactly.congr (S := g.nodes) fun x mem => sorted_subgraphId (g := g) mem).mpr
      Labels.exactly_idxOf

theorem sorted_lt_iff {u v : String} (hu : u ∈ g.nodes) (hv : v ∈ g.nodes) :
    (g.sorted.node u).subgraphId < (g.sorted.node v).subgraphId ↔
      g.firstPlace (g.node u).subgraphId < g.firstPlace (g.node v).subgraphId := by
  rw [sorted_subgraphId hu, sorted_subgraphId hv]
  exact Adjacency.idxOf_distinct_lt_iff (List.mem_map_of_mem hu) (List.mem_map_of_mem hv)

/-- The renumbering is always one to one. Each producer comes before its consumers, as far as the
constraints can be met, if and only if the subgraphs are listed so. -/
theorem sortSubgraphId_iff (g : ChanGraph) (named : g.Named) (tree : g.controlTree.WellFormed)
    {subgraphNum : Nat} (below : ∀ n ∈ g.nodes, (g.node n).subgraphId < subgraphNum) :
    ∃ fuel bfs, g.controlTree.bfsTraverseControlTree fuel = some bfs ∧
      ((∃ h, sortSubgraphId fuel subgraphNum g = some h ∧ Renumbered g h ∧
        (g.Unconflicted bfs → ∀ u v, g.OrderingEdge bfs u v →
          (h.node u).subgraphId < (h.node v).subgraphId)) ↔
      (g.Unconflicted bfs → ∀ u v, g.OrderingEdge bfs u v →
        g.firstPlace (g.node u).subgraphId < g.firstPlace (g.node v).subgraphId)) := by
  obtain ⟨fuel, bfs, run⟩ := ControlTree.bfsTraverseControlTree_eq_some tree
  have order (u v : String) (edge : g.OrderingEdge bfs u v) :
      (g.sorted.node u).subgraphId < (g.sorted.node v).subgraphId ↔
        g.firstPlace (g.node u).subgraphId < g.firstPlace (g.node v).subgraphId := by
    obtain ⟨κ, next⟩ := ChanNode.mem_allNext.mp edge.2.1
    exact sorted_lt_iff edge.1 (named.next u edge.1 κ v next)
  refine ⟨fuel, bfs, run, ?_⟩
  simp only [sortSubgraphId_eq_sorted named run below, Option.some.injEq, exists_eq_left']
  constructor
  · rintro ⟨-, sorts⟩ free u v edge
    exact (order u v edge).mp (sorts free u v edge)
  · intro listed
    exact ⟨sorted_renumbered, fun free u v edge => (order u v edge).mpr (listed free u v edge)⟩

/-- An edge from the outer to the inner region; the node of the inner one is declared first. -/
def innerFirst : ChanGraph where
  nodes := ["use", "make"]
  node
    | "make" => { controlRegionName := "outer", nextNodes := fun | .data => ["use"] | _ => [] }
    | "use" => { controlRegionName := "inner", preNodes := fun | .data => ["make"] | _ => []
                 subgraphId := 1 }
    | _ => {}
  controlTree := ⟨["outer", "inner"], fun
    | "outer" => { lowerControlRegion := ["inner"] }
    | _ => { upperControlRegion := "outer" }, by decide⟩
  nodup := by decide

theorem innerFirst_wellFormed : innerFirst.controlTree.WellFormed := by
  refine ⟨by decide, by decide, fun r => if r = "outer" then 1 else 0, by decide⟩

theorem sortSubgraphId_iff_innerFirst :
    ∃ fuel bfs, innerFirst.controlTree.bfsTraverseControlTree fuel = some bfs ∧
      ((∃ h, sortSubgraphId fuel 2 innerFirst = some h ∧ Renumbered innerFirst h ∧
        (innerFirst.Unconflicted bfs → ∀ u v, innerFirst.OrderingEdge bfs u v →
          (h.node u).subgraphId < (h.node v).subgraphId)) ↔
      (innerFirst.Unconflicted bfs → ∀ u v, innerFirst.OrderingEdge bfs u v →
        innerFirst.firstPlace (innerFirst.node u).subgraphId <
          innerFirst.firstPlace (innerFirst.node v).subgraphId)) :=
  sortSubgraphId_iff innerFirst ⟨by decide, by decide⟩ innerFirst_wellFormed (by decide)

/-- The constraint could be met, and the producer comes to stand behind its consumer. -/
theorem sortSubgraphId_innerFirst :
    innerFirst.controlTree.bfsTraverseControlTree 3 = some ["outer", "inner"] ∧
      innerFirst.Unconflicted ["outer", "inner"] ∧
      innerFirst.OrderingEdge ["outer", "inner"] "make" "use" ∧
      ∃ h, sortSubgraphId 3 2 innerFirst = some h ∧
        (h.node "use").subgraphId < (h.node "make").subgraphId := by
  have run : innerFirst.controlTree.bfsTraverseControlTree 3 = some ["outer", "inner"] := by
    decide +kernel
  refine ⟨run, fun i cycle => ?_, by unfold OrderingEdge; decide, ?_⟩
  · have up (j k : Nat) (step : innerFirst.Precedes ["outer", "inner"] j k) : j < k := by
      obtain ⟨u, v, ⟨known, next, -⟩, rfl, rfl⟩ := step
      revert v
      revert u
      decide
    have less {j k : Nat} (path : Relation.TransGen (innerFirst.Precedes ["outer", "inner"]) j k) :
        j < k := by
      induction path with
      | single step => exact up _ _ step
      | tail _ step ih => exact ih.trans (up _ _ step)
    exact lt_irrefl i (less cycle)
  · exact ⟨innerFirst.sorted, sortSubgraphId_eq_sorted ⟨by decide, by decide⟩ run (by decide),
      by decide +kernel⟩

end DataflowSim.Graph.ChanGraph
