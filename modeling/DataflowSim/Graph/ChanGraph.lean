import DataflowSim.Graph.ControlTree
import DataflowSim.Library.Adjacency

/-!
# Channel graphs

The part of `graph.h` and `graph.cpp` that all passes over channel graphs share. The nodes are
a list of names in the order of the deque and a function from names to nodes; `addNode`
refuses a name that is taken, so `nodeIndexDict` finds the node of a name. A look up of a name
that no node has is an error that is printed, after which the source reads an iterator that
points nowhere, and has no result here.

Each node has two pairs of lists, one for data and one for activation, and what is done to the
one pair is done to the other.
-/

namespace DataflowSim.Graph

/-- `pre_nodes_data` and `next_nodes_data`, or `pre_nodes_active` and `next_nodes_active`. -/
inductive Conn where
  | data | active
  deriving DecidableEq, Repr

instance : Fintype Conn := ⟨{.data, .active}, fun κ => by cases κ <;> decide⟩

inductive ChanNodeType where
  | ChanBase | ChanDGSF | ChanPartialMux | Lc | Mux | Lse_ld | Lse_st
  deriving DecidableEq, Repr

inductive ChanMode where
  | Normal | Keep_mode | Drain_mode | Scatter_mode
  deriving DecidableEq, Repr

@[ext] structure ChanNode where
  nodeType : ChanNodeType := .ChanBase
  nodeOp : String := ""
  chanMode : ChanMode := .Normal
  controlRegionName : String := ""
  preNodes : Conn → List String := fun _ => []
  nextNodes : Conn → List String := fun _ => []
  subgraphId : Nat := 0
  isPhysicalChan : Bool := true
  size : Nat := 2
  constVal : List Int := []
  constLocation : Nat := 0
  baseAddr : Nat := 0

namespace ChanNode

def setPre (x : ChanNode) (κ : Conn) (l : List String) : ChanNode :=
  { x with preNodes := Function.update x.preNodes κ l }

def setNext (x : ChanNode) (κ : Conn) (l : List String) : ChanNode :=
  { x with nextNodes := Function.update x.nextNodes κ l }

section
variable (x : ChanNode) (κ ι : Conn) (l : List String)

@[simp] theorem setPre_preNodes : (x.setPre κ l).preNodes = Function.update x.preNodes κ l := rfl
@[simp] theorem setPre_nextNodes : (x.setPre κ l).nextNodes = x.nextNodes := rfl
@[simp] theorem setNext_preNodes : (x.setNext κ l).preNodes = x.preNodes := rfl
@[simp] theorem setNext_nextNodes :
    (x.setNext κ l).nextNodes = Function.update x.nextNodes κ l := rfl
@[simp] theorem setPre_setPre (m : List String) : (x.setPre κ l).setPre κ m = x.setPre κ m := by
  simp [setPre]

@[simp] theorem setNext_setNext (m : List String) :
    (x.setNext κ l).setNext κ m = x.setNext κ m := by
  simp [setNext]

@[simp] theorem setPre_self : x.setPre κ (x.preNodes κ) = x := by simp [setPre]
@[simp] theorem setNext_self : x.setNext κ (x.nextNodes κ) = x := by simp [setNext]
@[simp] theorem setPre_subgraphId : (x.setPre κ l).subgraphId = x.subgraphId := rfl
@[simp] theorem setNext_subgraphId : (x.setNext κ l).subgraphId = x.subgraphId := rfl

end

/-- Both kinds of successors, those of data first. -/
def allNext (x : ChanNode) : List String := x.nextNodes .data ++ x.nextNodes .active

def allPre (x : ChanNode) : List String := x.preNodes .data ++ x.preNodes .active

theorem mem_allNext {x : ChanNode} {v : String} : v ∈ x.allNext ↔ ∃ κ, v ∈ x.nextNodes κ := by
  rw [allNext, List.mem_append]
  constructor
  · rintro (here | here) <;> exact ⟨_, here⟩
  · rintro ⟨κ, here⟩
    cases κ
    · exact .inl here
    · exact .inr here

end ChanNode

structure ChanGraph where
  nodes : List String
  node : String → ChanNode
  controlTree : ControlTree
  nodup : nodes.Nodup

namespace ChanGraph

def pre (g : ChanGraph) (κ : Conn) (n : String) : List String := (g.node n).preNodes κ

def next (g : ChanGraph) (κ : Conn) (n : String) : List String := (g.node n).nextNodes κ

def getNode (g : ChanGraph) (nodeName : String) : Option ChanNode :=
  if nodeName ∈ g.nodes then some (g.node nodeName) else none

def setNode (g : ChanGraph) (nodeName : String) (x : ChanNode) : ChanGraph :=
  { g with node := Function.update g.node nodeName x }

/-- Change the node of the name, if there is one. -/
def modifyNode (g : ChanGraph) (nodeName : String) (f : ChanNode → ChanNode) : Option ChanGraph :=
  if nodeName ∈ g.nodes then some (g.setNode nodeName (f (g.node nodeName))) else none

/-- `addNode(name)`: when the name is taken the error is printed and nothing is added. -/
def newNode (g : ChanGraph) (nodeName : String) : ChanGraph :=
  if fresh : nodeName ∈ g.nodes then g
  else
    { g with
      nodes := g.nodes ++ [nodeName]
      node := Function.update g.node nodeName {}
      nodup := g.nodup.append (List.nodup_singleton nodeName) (by simpa using fresh) }

/-- `addNode` with the type, the operation, the mode and the region of the node. -/
def addNode (g : ChanGraph) (nodeName : String) (nodeType : ChanNodeType) (nodeOp : String)
    (chanMode : ChanMode) (ctrlRegion : String) : ChanGraph :=
  let g := g.newNode nodeName
  g.setNode nodeName { g.node nodeName with
    nodeType := nodeType
    nodeOp := nodeOp
    chanMode := chanMode
    controlRegionName := ctrlRegion }

/-- One name of `addNodes2CtrlTree`. -/
def enterRegion (g : ChanGraph) (targetCtrlRegion nodeName : String) : Option ChanGraph :=
  g.modifyNode nodeName fun x => { x with controlRegionName := targetCtrlRegion }

def addNodes2CtrlTree (g : ChanGraph) (targetCtrlRegion : String) (nodes : List String) :
    Option ChanGraph := do
  let tree ← g.controlTree.addNodes targetCtrlRegion nodes
  nodes.foldlM (fun g n => g.enterRegion targetCtrlRegion n) { g with controlTree := tree }

/-! ## Completion -/

/-- For each entry in a list of predecessors the entry in the list of successors. -/
def completeNext (κ : Conn) (g : ChanGraph) : Option ChanGraph :=
  g.nodes.foldlM (fun g n => do
    let x ← g.getNode n
    (x.preNodes κ).foldlM (fun g p =>
      g.modifyNode p fun y => y.setNext κ (y.nextNodes κ ++ [n])) g) g

def completePre (κ : Conn) (g : ChanGraph) : Option ChanGraph :=
  g.nodes.foldlM (fun g n => do
    let x ← g.getNode n
    (x.nextNodes κ).foldlM (fun g s =>
      g.modifyNode s fun y => y.setPre κ (y.preNodes κ ++ [n])) g) g

def completeConnect (g : ChanGraph) : Option ChanGraph := do
  let g ← completeNext .data g
  let g ← completePre .data g
  let g ← completeNext .active g
  completePre .active g

def removeRedundantConnect (g : ChanGraph) : ChanGraph :=
  { g with node := fun n =>
      if n ∈ g.nodes then
        { g.node n with
          preNodes := fun κ => Adjacency.distinct (g.pre κ n)
          nextNodes := fun κ => Adjacency.distinct (g.next κ n) }
      else g.node n }

/-! ## Well-formed graphs -/

/-- All entries of the lists are names of nodes. -/
structure Named (g : ChanGraph) : Prop where
  pre : ∀ n ∈ g.nodes, ∀ κ, ∀ p ∈ g.pre κ n, p ∈ g.nodes
  next : ∀ n ∈ g.nodes, ∀ κ, ∀ s ∈ g.next κ n, s ∈ g.nodes

/-- Each edge stands in both lists, and in each of them once. -/
structure Connected (g : ChanGraph) : Prop extends Named g where
  symmetric : ∀ κ, ∀ u ∈ g.nodes, ∀ v ∈ g.nodes, v ∈ g.next κ u ↔ u ∈ g.pre κ v
  nodupPre : ∀ κ, ∀ n ∈ g.nodes, (g.pre κ n).Nodup
  nodupNext : ∀ κ, ∀ n ∈ g.nodes, (g.next κ n).Nodup

/-- Every node is in a region that is declared. -/
def Placed (g : ChanGraph) : Prop :=
  ∀ n ∈ g.nodes, (g.node n).controlRegionName ∈ g.controlTree.regions

section
variable {g : ChanGraph} {n m : String} {x : ChanNode}

@[simp] theorem setNode_nodes : (g.setNode n x).nodes = g.nodes := rfl
@[simp] theorem setNode_node : (g.setNode n x).node = Function.update g.node n x := rfl
@[simp] theorem setNode_controlTree : (g.setNode n x).controlTree = g.controlTree := rfl

theorem eq_of_node_eq {h : ChanGraph} (nodes : g.nodes = h.nodes)
    (tree : g.controlTree = h.controlTree) (node : ∀ n, g.node n = h.node n) : g = h := by
  obtain ⟨_, _, _, _⟩ := g
  obtain ⟨_, _, _, _⟩ := h
  obtain rfl := nodes
  obtain rfl := tree
  obtain rfl : _ = _ := funext node
  rfl

@[simp] theorem setNode_self : g.setNode n (g.node n) = g :=
  eq_of_node_eq rfl rfl fun m => by simp

@[simp] theorem setNode_setNode {y : ChanNode} : (g.setNode n x).setNode n y = g.setNode n y :=
  eq_of_node_eq rfl rfl fun m => by simp

theorem getNode_of_mem (h : n ∈ g.nodes) : g.getNode n = some (g.node n) := if_pos h

theorem modifyNode_of_mem (h : n ∈ g.nodes) (f : ChanNode → ChanNode) :
    g.modifyNode n f = some (g.setNode n (f (g.node n))) := if_pos h

theorem newNode_of_fresh (h : n ∉ g.nodes) :
    (g.newNode n).nodes = g.nodes ++ [n] ∧ (g.newNode n).node = Function.update g.node n {} ∧
      (g.newNode n).controlTree = g.controlTree := by
  simp [newNode, h]

end

end ChanGraph

end DataflowSim.Graph
