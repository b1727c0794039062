import DataflowSim.Graph.ChanGraph

/-!
# Dataflow graphs

The part of `graph.h` that declares dataflow graphs, and the names that their nodes have in a
channel graph. `Dfg::addNode` refuses a name that is taken.
-/

namespace DataflowSim.Graph

inductive DfgNodeType where
  | Normal | Const | Lc | Mux | MuxPartial
  deriving DecidableEq, Repr

structure DfgNode where
  nodeType : DfgNodeType := .Normal
  nodeOp : String := ""
  controlRegionName : String := ""
  preNodes : Conn → List String := fun _ => []
  nextNodes : Conn → List String := fun _ => []
  constVal : Int := 0
  baseAddr : Nat := 0

structure Dfg where
  nodes : List String
  node : String → DfgNode
  controlTree : ControlTree
  nodup : nodes.Nodup

/-- How the name of the channel of a node begins, and the type of the channel. -/
def DfgNode.channel (x : DfgNode) : Option (String × ChanNodeType) :=
  match x.nodeType with
  | .Normal =>
    if x.nodeOp = "Load" then some ("Lse_", .Lse_ld)
    else if x.nodeOp = "Store" then some ("Lse_", .Lse_st)
    else some ("Chan_", .ChanBase)
  | .Lc => some ("Lc_", .Lc)
  | .Mux => some ("Mux_", .Mux)
  | .MuxPartial => some ("MuxPartial_", .ChanPartialMux)
  | .Const => none

namespace Dfg

variable (d : Dfg)

def pre (κ : Conn) (n : String) : List String := (d.node n).preNodes κ

def next (κ : Conn) (n : String) : List String := (d.node n).nextNodes κ

def isConst (n : String) : Bool := (d.node n).nodeType = .Const

/-- The nodes that are not constants. -/
def computing : List String := d.nodes.filter fun n => !d.isConst n

def chanName (n : String) : String :=
  match (d.node n).channel with
  | some (start, _) => start ++ n
  | none => ""

/-- An edge may be declared at either end. -/
def Edge (κ : Conn) (u v : String) : Prop := v ∈ d.next κ u ∨ u ∈ d.pre κ v

/-- All entries of the lists are names of nodes, the regions list nodes of the graph, and each
node but the constants is listed by a region. -/
structure WellFormed : Prop where
  pre : ∀ n ∈ d.nodes, ∀ κ, ∀ p ∈ d.pre κ n, p ∈ d.nodes
  next : ∀ n ∈ d.nodes, ∀ κ, ∀ s ∈ d.next κ n, s ∈ d.nodes
  inside : ∀ r ∈ d.controlTree.regions, ∀ n ∈ (d.controlTree.region r).nodes, n ∈ d.nodes
  listed : ∀ n ∈ d.computing, ∃ r ∈ d.controlTree.regions, n ∈ (d.controlTree.region r).nodes

variable {d}

@[simp] theorem mem_computing {n : String} : n ∈ d.computing ↔ n ∈ d.nodes ∧ d.isConst n = false := by
  simp [computing]

theorem channel_eq_none {n : String} : (d.node n).channel = none ↔ d.isConst n = true := by
  unfold DfgNode.channel isConst
  cases (d.node n).nodeType
  case Normal => split_ifs <;> simp
  all_goals simp

theorem exists_channel {n : String} (h : d.isConst n = false) :
    ∃ start nodeType, (d.node n).channel = some (start, nodeType) := by
  cases channel : (d.node n).channel with
  | none => exact absurd (channel_eq_none.mp channel) (by simp [h])
  | some c => exact ⟨_, _, rfl⟩

theorem channel_start {x : DfgNode} {start : String} {nodeType : ChanNodeType}
    (h : x.channel = some (start, nodeType)) :
    start ∈ ["Lse_", "Chan_", "Lc_", "Mux_", "MuxPartial_"] := by
  unfold DfgNode.channel at h
  cases kind : x.nodeType <;> simp only [kind] at h
  case Normal => split_ifs at h <;> simp_all
  all_goals simp_all

/-- None of the five beginnings is the beginning of another one. -/
theorem start_inj {s t m n : String} (hs : s ∈ ["Lse_", "Chan_", "Lc_", "Mux_", "MuxPartial_"])
    (ht : t ∈ ["Lse_", "Chan_", "Lc_", "Mux_", "MuxPartial_"]) (same : s ++ m = t ++ n) : m = n := by
  simp only [List.mem_cons, List.not_mem_nil, or_false] at hs ht
  have chars := congrArg String.toList same
  rcases hs with rfl | rfl | rfl | rfl | rfl <;> rcases ht with rfl | rfl | rfl | rfl | rfl <;>
    simp at chars <;> exact String.toList_inj.mp chars

theorem chanName_inj {m n : String} (hm : d.isConst m = false) (hn : d.isConst n = false) :
    d.chanName m = d.chanName n ↔ m = n := by
  obtain ⟨s, a, hs⟩ := exists_channel hm
  obtain ⟨t, b, ht⟩ := exists_channel hn
  constructor
  · intro same
    rw [chanName, chanName, hs, ht] at same
    exact start_inj (channel_start hs) (channel_start ht) same
  · rintro rfl
    rfl

theorem chanName_ne_empty {n : String} (h : d.isConst n = false) : d.chanName n ≠ "" := by
  obtain ⟨s, a, hs⟩ := exists_channel h
  rw [chanName, hs]
  intro empty
  have chars := congrArg String.length empty
  have start := channel_start hs
  simp only [List.mem_cons, List.not_mem_nil, or_false] at start
  rcases start with rfl | rfl | rfl | rfl | rfl <;> simp at chars

end Dfg

end DataflowSim.Graph
