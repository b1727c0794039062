import DataflowSim.Graph.RelayLaw

/-!
# Modes and scatter channels

The second part of `ChanGraph::addSpecialModeChan`. A channel that feeds a loop below its own one
keeps its data, and all that it feeds, save loop controllers, is moved behind a new channel in that
loop. A channel that is fed from a loop below drains. An error about two different loops below is
printed, and the first one is taken.
-/

namespace DataflowSim.Graph

open ControlTree (LoopHierarchy)

namespace ControlTree.LoopHierarchy

def findNodeCtrlRegion (H : LoopHierarchy) (nodeName : String) : String :=
  (H.loopOf nodeName).getD ""

/-- The first loop below `ctrlRegion` in which one of the nodes stands, or the empty name. -/
def lowerRegion (H : LoopHierarchy) (ctrlRegion : String) (nodes : List String) : String :=
  nodes.foldl (fun last n =>
    let r := H.findNodeCtrlRegion n
    if r ∈ (H.region ctrlRegion).lowerControlRegion ∧ last = "" then r else last) ""

end ControlTree.LoopHierarchy

namespace ChanGraph

def scatterName (nodeName ctrlRegion : String) : String := nodeName ++ "_scatter_" ++ ctrlRegion

/-- Whether one of the nodes is no loop controller. -/
def needScatterNode (g : ChanGraph) : List String → Option Bool
  | [] => some false
  | n :: nodes => do
    let x ← g.getNode n
    let rest ← g.needScatterNode nodes
    some (x.nodeType ≠ .Lc || rest)

/-- The loop controllers among the nodes. -/
def keepLcs (g : ChanGraph) : List String → Option (List String)
  | [] => some []
  | n :: nodes => do
    let x ← g.getNode n
    let rest ← g.keepLcs nodes
    some (if x.nodeType = .Lc then n :: rest else rest)

def newScatter (r ctrlRegion : String) (g : ChanGraph) : Option ChanGraph := do
  let g := g.addNode r .ChanBase "Nop" .Scatter_mode ctrlRegion
  let g ← g.modifyNode r fun x => { x with isPhysicalChan := false }
  g.addNodes2CtrlTree ctrlRegion [r]

/-- One successor takes its operand from `r` instead of `u`, in the same place. -/
def redirect (κ : Conn) (u r : String) (g : ChanGraph) (v : String) : Option ChanGraph := do
  let y ← g.getNode v
  if y.nodeType ≠ .Lc ∧ u ∈ y.preNodes κ then
    let g ← g.modifyNode v fun y => y.setPre κ ((y.preNodes κ).replace u r)
    g.modifyNode r fun x => x.setNext κ (x.nextNodes κ ++ [v])
  else some g

/-- What `u` feeds, save loop controllers, moves behind a channel in the loop below. -/
def scatter (u ctrlRegion : String) (g : ChanGraph) : Option ChanGraph := do
  let r := scatterName u ctrlRegion
  let g ← newScatter r ctrlRegion g
  let g ← connectRelayLc r ctrlRegion g
  let x ← g.getNode u
  let g ← (x.nextNodes .data).foldlM (redirect .data u r) g
  let g ← (x.nextNodes .active).foldlM (redirect .active u r) g
  let data ← g.keepLcs (x.nextNodes .data)
  let active ← g.keepLcs (x.nextNodes .active)
  let g ← g.modifyNode u fun x => (x.setNext .data (data ++ [r])).setNext .active active
  g.modifyNode r fun x => x.setPre .data (x.preNodes .data ++ [u])

/-- The part under `KeepMode`. -/
def setKeepMode (H : LoopHierarchy) (ctrlRegion u : String) (g : ChanGraph) : Option ChanGraph := do
  let x ← g.getNode u
  let lower := H.lowerRegion ctrlRegion x.allNext
  if lower ≠ "" then
    let g ← g.modifyNode u fun x => { x with chanMode := .Keep_mode }
    if ← g.needScatterNode x.allNext then scatter u lower g else some g
  else some g

/-- The part under `DrainMode`. -/
def setDrainMode (H : LoopHierarchy) (ctrlRegion u : String) (g : ChanGraph) : Option ChanGraph := do
  let x ← g.getNode u
  if H.lowerRegion ctrlRegion x.allPre ≠ "" then
    g.modifyNode u fun x => { x with chanMode := .Drain_mode }
  else some g

def setMode (H : LoopHierarchy) (ctrlRegion : String) (g : ChanGraph) (u : String) :
    Option ChanGraph := do
  let g ← setKeepMode H ctrlRegion u g
  setDrainMode H ctrlRegion u g

def setModes (H : LoopHierarchy) (g : ChanGraph) : Option ChanGraph :=
  H.loops.foldlM (fun g r => (H.region r).nodes.foldlM (setMode H r) g) g

/-- The part under `Set keepMode and drainMode`, with `completeConnect` and
`removeRedundantConnect`. -/
def addScatterNode (fuel : Nat) (g : ChanGraph) : Option ChanGraph := do
  let H ← g.controlTree.genLoopHierarchy fuel
  let g ← setModes H g
  g.completed

def addSpecialModeChan (fuel : Nat) (g : ChanGraph) : Option ChanGraph := do
  let g ← addRelayNode fuel g
  addScatterNode fuel g

end ChanGraph

end DataflowSim.Graph
