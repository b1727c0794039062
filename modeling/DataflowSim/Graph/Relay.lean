import DataflowSim.Graph.Traverse
import DataflowSim.Graph.Complete
import DataflowSim.Library.Lineage

/-!
# Relays

The first part of `ChanGraph::addSpecialModeChan`. An edge between two loops with other loops in
between is replaced by one channel in each of these, with `backTrackPath` and
`findShortestCtrlRegionPath` to find the loops. The range loop over the nodes takes its end
before the first channel is added, and so do the lists of successors, which are copies.
-/

namespace DataflowSim.Graph

namespace ControlTree.LoopHierarchy

/-- The first loop that lists the node. -/
def loopOf (H : LoopHierarchy) (nodeName : String) : Option String :=
  H.loops.find? fun r => nodeName ∈ (H.region r).nodes

def upper (H : LoopHierarchy) (r : String) : String := (H.region r).upperControlRegion

/-- The queue of `backTrackPath`: regions upward until a name comes that no loop has. Nothing
ends it where loops are nested in a circle. -/
def climb (H : LoopHierarchy) : Nat → String → Option (List String)
  | 0, _ => none
  | fuel + 1, front =>
    if front ∈ H.loops then do
      let rest ← H.climb fuel (H.upper front)
      some (front :: rest)
    else some [front]

def backTrackPath (H : LoopHierarchy) (nodeName : String) : Option (List String) :=
  match H.loopOf nodeName with
  | none => some []
  | some r => H.climb (H.loops.length + 1) r

/-- Both paths side by side until their names agree. The source does not ask for the end of
either; past it there is no result. -/
def meet : List String → List String → Option (List String × List String)
  | nodeCtrlRegion :: s, nextNodeCtrlRegion :: sNext =>
    if nodeCtrlRegion = nextNodeCtrlRegion then some ([nodeCtrlRegion], [])
    else do
      let (sTmp, sNextTmp) ← meet s sNext
      some (nodeCtrlRegion :: sTmp, nextNodeCtrlRegion :: sNextTmp)
  | _, _ => none

def findShortestCtrlRegionPath : List String → List String → Option (List String)
  | s, [] => some s
  | [], sNext => some sNext
  | front :: s, frontNext :: sNext =>
    if frontNext ∈ front :: s then
      some ((front :: s).takeWhile (· ≠ frontNext) ++ [frontNext])
    else if front ∈ frontNext :: sNext then
      some ((frontNext :: sNext).takeWhile (· ≠ front) ++ [front]).reverse
    else do
      let (sTmp, sNextTmp) ← meet (front :: s) (frontNext :: sNext)
      some (sTmp ++ sNextTmp.reverse)

def ctrlRegionPath (H : LoopHierarchy) (node nextNode : String) : Option (List String) := do
  let s ← H.backTrackPath node
  let sNext ← H.backTrackPath nextNode
  findShortestCtrlRegionPath s sNext

end ControlTree.LoopHierarchy

open ControlTree (LoopHierarchy)

namespace ChanGraph

def relayName (nodeName ctrlRegion : String) : String := nodeName ++ "_relay_" ++ ctrlRegion

/-- The first loop controller of a list of nodes. -/
def findLc (g : ChanGraph) : List String → Option (Option String)
  | [] => some none
  | n :: nodes => do
    let x ← g.getNode n
    if x.nodeType = .Lc then some (some n) else g.findLc nodes

/-- The controller of the loop becomes a predecessor of the relay. -/
def connectRelayLc (r ctrlRegion : String) (g : ChanGraph) : Option ChanGraph := do
  let region ← g.controlTree.getCtrlRegion ctrlRegion
  match ← g.findLc region.nodes with
  | some lc => g.modifyNode r fun x => x.setPre .active (x.preNodes .active ++ [lc])
  | none => some g

def newRelay (r ctrlRegion : String) (g : ChanGraph) : Option ChanGraph := do
  let g := g.addNode r .ChanBase "Nop" .Normal ctrlRegion
  let g ← g.modifyNode r fun x => { x with isPhysicalChan := false }
  g.addNodes2CtrlTree ctrlRegion [r]

/-- The relay of a node in a region, unless it is there. -/
def createRelay (u : String) (g : ChanGraph) (ctrlRegion : String) : Option ChanGraph :=
  let r := relayName u ctrlRegion
  if r ∈ g.nodes then some g
  else do
    let g ← newRelay r ctrlRegion g
    connectRelayLc r ctrlRegion g

/-- The first relay hangs on `u`. -/
def linkFirst (u r : String) (g : ChanGraph) : Option ChanGraph :=
  g.modifyNode r fun x => x.setPre .data (x.preNodes .data ++ [u])

/-- The last relay leads to `v`, by the kind of edge from `u` that `v` lists. -/
def linkLast (u v r : String) (g : ChanGraph) : Option ChanGraph := do
  let y ← g.getNode v
  if u ∈ y.preNodes .data then
    g.modifyNode r fun x => x.setNext .data (x.nextNodes .data ++ [v])
  else if u ∈ y.preNodes .active then
    g.modifyNode r fun x => x.setNext .active (x.nextNodes .active ++ [v])
  else some g

/-- A relay that is neither the first nor the last knows its neighbours. -/
def linkInner (before r after : String) (g : ChanGraph) : Option ChanGraph := do
  let g ← g.modifyNode r fun x => x.setPre .data (x.preNodes .data ++ [before])
  g.modifyNode r fun x => x.setNext .data (x.nextNodes .data ++ [after])

/-- The loop over the relays behind one relay. -/
def linkRest (u v : String) : String → List String → ChanGraph → Option ChanGraph
  | _, [], g => some g
  | _, [r], g => linkLast u v r g
  | before, r :: after :: rest, g => do
    let g ← linkInner before r after g
    linkRest u v r (after :: rest) g

/-- `nodeVec` from its first element, which may be the last one too. -/
def linkRelays (u v : String) : List String → ChanGraph → Option ChanGraph
  | [], g => some g
  | [r], g => do
    let g ← linkFirst u r g
    linkLast u v r g
  | r :: rest, g => do
    let g ← linkFirst u r g
    linkRest u v r rest g

/-- The edge goes from the lists of both ends, of either kind. -/
def deleteEdge (u v : String) (g : ChanGraph) : Option ChanGraph := do
  let g ← g.modifyNode u fun x => { x with nextNodes := fun κ => (x.nextNodes κ).erase v }
  g.modifyNode v fun y => { y with preNodes := fun κ => (y.preNodes κ).erase u }

/-- One edge: a path of more than two regions has relays in all but its ends. -/
def relayEdge (H : LoopHierarchy) (u : String) (g : ChanGraph) (v : String) : Option ChanGraph := do
  let x ← g.getNode u
  let y ← g.getNode v
  if x.controlRegionName ≠ y.controlRegionName then
    let path ← H.ctrlRegionPath u v
    if 2 < path.length then
      let inner := path.tail.dropLast
      let g ← inner.foldlM (createRelay u) g
      let g ← linkRelays u v (inner.map (relayName u)) g
      deleteEdge u v g
    else some g
  else some g

def relayNode (H : LoopHierarchy) (g : ChanGraph) (u : String) : Option ChanGraph := do
  let x ← g.getNode u
  x.allNext.foldlM (relayEdge H u) g

/-- The part under `Add relayNode`, with `completeConnect` and `removeRedundantConnect`. -/
def addRelayNode (fuel : Nat) (g : ChanGraph) : Option ChanGraph := do
  let H ← g.controlTree.genLoopHierarchy fuel
  let g ← g.nodes.foldlM (relayNode H) g
  g.completed

end ChanGraph

end DataflowSim.Graph
