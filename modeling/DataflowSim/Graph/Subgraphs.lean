import DataflowSim.Graph.Traverse

/-!
# Partition into subgraphs

`ChanGraph::subgraphPartitionCtrlRegion` with `sortSubgraphId` and the statistics of
`printSubgraphPartition`. First the loop regions and the branches below them are peeled off,
the inner ones first; when there are too few of them, the largest part is halved again and again.
An index that is out of range and a division by zero have no result.
-/

namespace DataflowSim.Graph

open ControlTree (LoopHierarchy)

namespace ChanGraph

def withIds (g : ChanGraph) (id : String → Nat) : ChanGraph :=
  { g with node := fun n => { g.node n with subgraphId := id n } }

def assignSubgraph (id : Nat) (names : List String) (g : ChanGraph) : Option ChanGraph :=
  names.foldlM (fun g n => g.modifyNode n fun x => { x with subgraphId := id }) g

/-! ## Peeling off regions -/

structure Peel where
  graph : ChanGraph
  graphNum : Nat
  partitionCnt : Nat
  isOver : Bool

/-- One region, a loop or a branch. The last loop is not counted. -/
def peelRegion (divideNum : Nat) (nodes : List String) (counted : Bool) (s : Peel) : Option Peel := do
  let graph ← assignSubgraph s.graphNum nodes s.graph
  let partitionCnt := if nodes ≠ [] ∧ counted = true then s.partitionCnt + 1 else s.partitionCnt
  if divideNum - 1 ≤ partitionCnt then some ⟨graph, s.graphNum, partitionCnt, true⟩
  else some ⟨graph, s.graphNum + 1, partitionCnt, false⟩

/-- The branches below a loop. -/
def peelBranches (divideNum : Nat) (t : ControlTree) (lower : List String) (s : Peel) : Option Peel :=
  lower.foldlM (fun s c =>
    if s.isOver then some s
    else do
      let r ← t.getCtrlRegion c
      if r.controlType ≠ .Loop then peelRegion divideNum r.nodes true s else some s) s

/-- The loops from the end of the table, each with whether it is counted. -/
def loopOrder (hierarchy : LoopHierarchy) : List (String × Bool) :=
  hierarchy.loops.reverse.mapIdx fun i name => (name, decide (i + 1 ≠ hierarchy.loops.length))

def peel (divideNum : Nat) (hierarchy : LoopHierarchy) (g : ChanGraph) : Option Peel :=
  (loopOrder hierarchy).foldlM (fun s loop =>
    if s.isOver then some s
    else do
      let r := hierarchy.region loop.1
      let s ← peelRegion divideNum r.nodes loop.2 s
      peelBranches divideNum g.controlTree r.lowerControlRegion s) ⟨g, 1, 0, false⟩

/-! ## Halving the largest part -/

/-- `--i` of an unsigned number. -/
def decrement (i : Nat) : Nat := if i = 0 then 2 ^ 64 - 1 else i - 1

structure Halving where
  graph : ChanGraph
  subgraphNodes : List (List String)
  graphNum : Nat

def enterPart (s : Halving) (n : String) : Option Halving := do
  let x ← s.graph.getNode n
  let id := decrement x.subgraphId
  if id < s.subgraphNodes.length then
    some { s with
      graph := s.graph.setNode n { x with subgraphId := id }
      subgraphNodes := s.subgraphNodes.modify id (· ++ [n]) }
  else none

/-- The parts that the regions make, numbered from zero. -/
def startHalving (partitionCnt : Nat) (g : ChanGraph) : Option Halving :=
  g.nodes.foldlM enterPart ⟨g, List.replicate (partitionCnt + 1) [], partitionCnt⟩

/-- The first of the largest parts. -/
def maxNodesubgraphId (parts : List (List String)) : Nat :=
  (parts.zipIdx.foldl (fun best p => if best.1 < p.1.length then (p.1.length, p.2) else best)
    (0, 0)).2

def splitPoint (g : ChanGraph) (dfgNodesBfs : List String) : Nat :=
  let load := dfgNodesBfs.findIdx fun n => (g.node n).nodeOp = "Load"
  let splitPoint := if load < dfgNodesBfs.length then decrement load else 0
  if splitPoint = 0 then dfgNodesBfs.length / 2 else splitPoint

def halve (s : Halving) : Option Halving := do
  let graphNum := s.graphNum + 1
  let id := maxNodesubgraphId s.subgraphNodes
  let dfgNodesBfs ← s.graph.bfsTraverseNodes (s.subgraphNodes.getD id [])
  let split := s.graph.splitPoint dfgNodesBfs
  let graph ← assignSubgraph id (dfgNodesBfs.take (split + 1)) s.graph
  let graph ← assignSubgraph graphNum (dfgNodesBfs.drop (split + 1)) graph
  some ⟨graph, s.subgraphNodes.set id (dfgNodesBfs.take (split + 1)) ++
    [dfgNodesBfs.drop (split + 1)], graphNum⟩

/-- So many turns of the last loop. -/
def halveTimes (turns : Nat) (s : Halving) : Option Halving :=
  (List.range turns).foldlM (fun s _ => halve s) s

/-! ## Sorting and statistics -/

/-- The two positions that are compared are those of the same region, as in the source. -/
def sortNext (g : ChanGraph) (controlTreeBfs : List String) (i : Nat) (n : String)
    (subgraphQueue : List Nat) (nextNode : String) : Option (List Nat) := do
  let x ← g.getNode nextNode
  let j := subgraphQueue.idxOf x.subgraphId
  let nodeCtrlRegion := controlTreeBfs.idxOf (g.node n).controlRegionName
  let nextNodeCtrlRegion := controlTreeBfs.idxOf (g.node n).controlRegionName
  if j < i ∧ nodeCtrlRegion < nextNodeCtrlRegion then
    some ((subgraphQueue.set i (subgraphQueue.getD j 0)).set j (subgraphQueue.getD i 0))
  else some subgraphQueue

def sortQueue (g : ChanGraph) (controlTreeBfs : List String) (subgraphQueue : List Nat) :
    Option (List Nat) :=
  (List.range subgraphQueue.length).foldlM (fun queue i =>
    (g.nodes.filter fun n => (g.node n).subgraphId = queue.getD i 0).foldlM (fun queue n =>
      (g.node n).allNext.foldlM (g.sortNext controlTreeBfs i n) queue) queue) subgraphQueue

def sortSubgraphId (fuel subgraphNum : Nat) (g : ChanGraph) : Option ChanGraph := do
  let controlTreeBfs ← g.controlTree.bfsTraverseControlTree fuel
  let ids := g.nodes.map fun n => (g.node n).subgraphId
  if ids.all (· < subgraphNum) then
    let queue ← g.sortQueue controlTreeBfs (Adjacency.distinct ids)
    some (g.withIds fun n =>
      if n ∈ g.nodes then queue.idxOf (g.node n).subgraphId else (g.node n).subgraphId)
  else none

def actualNodeNum (g : ChanGraph) : Nat :=
  g.nodes.countP fun n => (g.node n).isPhysicalChan && (g.node n).nodeOp ≠ "Nop"

/-- The edges between subgraphs are counted, with a look up of each predecessor. The coalescing
rate is a quotient whose divisor is the number of nodes of a subgraph. -/
def printSubgraphPartition (divideNum : Nat) (g : ChanGraph) : Option Unit :=
  if g.nodes.all fun n => (g.node n).allPre.all fun p => p ∈ g.nodes then
    if divideNum = 0 then none
    else if g.actualNodeNum / divideNum = 0 then none
    else some ()
  else none

/-- The subgraphs before they are sorted. -/
def divide (fuel partitionNum : Nat) (g : ChanGraph) : Option ChanGraph :=
  if 1 < partitionNum then do
    let hierarchy ← g.controlTree.genLoopHierarchy fuel
    let s ← peel partitionNum hierarchy g
    if s.partitionCnt < partitionNum - 1 then do
      let h ← startHalving s.partitionCnt s.graph
      let h ← halveTimes (partitionNum - 1 - s.partitionCnt) h
      some h.graph
    else some s.graph
  else assignSubgraph 0 g.nodes g

def subgraphPartitionCtrlRegion (fuel partitionNum : Nat) (g : ChanGraph) : Option ChanGraph := do
  let g ← divide fuel partitionNum g
  let g ← sortSubgraphId fuel partitionNum g
  printSubgraphPartition partitionNum g
  some g

end ChanGraph

end DataflowSim.Graph
