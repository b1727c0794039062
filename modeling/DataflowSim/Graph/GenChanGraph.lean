import DataflowSim.Graph.Complete
import DataflowSim.Graph.Dfg

/-!
# From dataflow graphs to channel graphs

`ChanGraph::genChanGraphFromDfg`. The first loop makes the nodes and records for each node of
the dataflow graph the name of its channel; a constant has none, and the name that is recorded
for it is what the loop variable still holds from the node before. The second loop translates
the lists.
-/

namespace DataflowSim.Graph

namespace ChanGraph

/-- The state of the first loop, with the loop variable `nodeName`. -/
structure Naming where
  graph : ChanGraph
  nodeName : String
  chanNodeName : String → String

/-- The control regions without their nodes, and no nodes yet. -/
def fromRegions (tree : ControlTree) : ChanGraph where
  nodes := []
  node _ := {}
  controlTree := { tree with region := fun r => { tree.region r with nodes := [] } }
  nodup := List.nodup_nil

def nameNode (d : Dfg) (s : Naming) (n : String) : Option Naming := do
  let x := d.node n
  match x.channel with
  | some (start, nodeType) =>
    let nodeName := start ++ n
    let g := s.graph.addNode nodeName nodeType x.nodeOp .Normal x.controlRegionName
    let g ← if x.nodeType = .Normal then
        g.modifyNode nodeName fun y => { y with baseAddr := x.baseAddr }
      else some g
    some ⟨g, nodeName, Function.update s.chanNodeName n nodeName⟩
  | none =>
    -- the name of the previous channel is recorded for a constant
    some ⟨s.graph, s.nodeName, Function.update s.chanNodeName n s.nodeName⟩

def nameNodes (d : Dfg) : Option Naming :=
  d.nodes.foldlM (nameNode d) ⟨fromRegions d.controlTree, "", fun _ => ""⟩

/-- `chanNodeName[dfg_.findNodeIndex(n)->second]` -/
def nameOf (d : Dfg) (chanNodeName : String → String) (n : String) : Option String :=
  if n ∈ d.nodes then some (chanNodeName n) else none

def pushPre (κ : Conn) (s : String) (y : ChanNode) : ChanNode := y.setPre κ (y.preNodes κ ++ [s])

def pushNext (κ : Conn) (s : String) (y : ChanNode) : ChanNode := y.setNext κ (y.nextNodes κ ++ [s])

/-- The loop over one of the lists of a node. -/
def addRefs (d : Dfg) (chanNodeName : String → String) (push : String → ChanNode → ChanNode)
    (chanName : String) (refs : List String) (g : ChanGraph) : Option ChanGraph :=
  refs.foldlM (fun g m => do
    let s ← nameOf d chanNodeName m
    if s ≠ "" then g.modifyNode chanName (push s) else some g) g

/-- A constant is entered into the nodes it feeds. -/
def addConst (d : Dfg) (chanNodeName : String → String) (n : String) (x : DfgNode)
    (g : ChanGraph) : Option ChanGraph :=
  (x.nextNodes .data).foldlM (fun g m => do
    let s ← nameOf d chanNodeName m
    g.modifyNode s fun y => { y with
      constVal := y.constVal ++ [x.constVal]
      constLocation := (y.preNodes .data).idxOf n }) g

/-- One node of the second loop, listed by the region `r`. -/
def connectNode (d : Dfg) (chanNodeName : String → String) (g : ChanGraph) (r n : String) :
    Option ChanGraph := do
  let chanName ← nameOf d chanNodeName n
  let x := d.node n
  if x.nodeType ≠ .Const then
    let g ← g.addNodes2CtrlTree r [chanName]
    let g ← addRefs d chanNodeName (pushPre .data) chanName (x.preNodes .data) g
    let g ← addRefs d chanNodeName (pushNext .data) chanName (x.nextNodes .data) g
    let g ← addRefs d chanNodeName (pushPre .active) chanName (x.preNodes .active) g
    addRefs d chanNodeName (pushNext .active) chanName (x.nextNodes .active) g
  else addConst d chanNodeName n x g

def connectNodes (d : Dfg) (chanNodeName : String → String) (g : ChanGraph) : Option ChanGraph :=
  d.controlTree.regions.foldlM (fun g r =>
    (d.controlTree.region r).nodes.foldlM (fun g n => connectNode d chanNodeName g r n) g) g

def genChanGraphFromDfg (d : Dfg) : Option ChanGraph := do
  let s ← nameNodes d
  let g ← connectNodes d s.chanNodeName s.graph
  let g ← g.completeConnect
  some g.removeRedundantConnect

end ChanGraph

namespace Dfg

variable (d : Dfg)

/-- The last node before a constant that is not one itself. -/
def lastBefore (c : String) : Option String :=
  ((d.nodes.takeWhile fun n => n ≠ c).filter fun n => !d.isConst n).getLast?

/-- The node for which an entry of a list is taken. -/
def taken (n : String) : Option String := if d.isConst n then d.lastBefore n else some n

/-- The operands of a node that are not constants. -/
def operands (n : String) : List String := (d.pre .data n).filter fun m => !d.isConst m

/-- The constants of the graph do no harm: where one of them is taken for another node, that
node has the same connection anyway and does not come before another operand; and what is fed
by a constant is taken for some node. -/
structure Harmless : Prop where
  pre : ∀ v ∈ d.computing, ∀ κ, ∀ c ∈ d.pre κ v, d.isConst c = true →
    ∀ p, d.lastBefore c = some p → d.Edge κ p v
  next : ∀ u ∈ d.computing, ∀ κ, ∀ c ∈ d.next κ u, d.isConst c = true →
    ∀ p, d.lastBefore c = some p → d.Edge κ u p
  operands : ∀ v ∈ d.computing,
    Adjacency.distinct (d.operands v) <+: Adjacency.distinct ((d.pre .data v).filterMap d.taken)
  fed : ∀ r ∈ d.controlTree.regions, ∀ c ∈ (d.controlTree.region r).nodes, d.isConst c = true →
    ∀ s ∈ d.next .data c, d.taken s ≠ none

/-- The channel graph has the nodes of the dataflow graph without its constants and exactly the
edges between them, and each node has its operands first and in their order. -/
structure Preserves (h : ChanGraph) : Prop where
  nodes : h.nodes = d.computing.map d.chanName
  connected : h.Connected
  edges : ∀ κ, ∀ u ∈ d.computing, ∀ v ∈ d.computing,
    d.chanName v ∈ h.next κ (d.chanName u) ↔ d.Edge κ u v
  operands : ∀ v ∈ d.computing,
    Adjacency.distinct ((d.operands v).map d.chanName) <+: h.pre .data (d.chanName v)

/-- The name that is recorded for a node. -/
def takenName (n : String) : String := ((d.taken n).map d.chanName).getD ""

variable {d}

theorem taken_of_not_const {n : String} (h : d.isConst n = false) : d.taken n = some n := by
  simp [taken, h]

/-- What is taken for a node is a node but no constant. -/
theorem taken_computing {n m : String} (h : d.taken n = some m) (mem : n ∈ d.nodes) :
    m ∈ d.computing := by
  unfold taken at h
  split_ifs at h with const
  · obtain ⟨before, computing⟩ := List.mem_filter.mp (List.mem_of_getLast? h)
    exact mem_computing.mpr ⟨List.takeWhile_subset _ before, by simpa using computing⟩
  · rw [← Option.some.inj h, mem_computing]
    exact ⟨mem, by simpa using const⟩

theorem lastBefore_eq {done rest : List String} {n : String} (split : done ++ n :: rest = d.nodes) :
    d.lastBefore n = (done.filter fun m => !d.isConst m).getLast? := by
  have apart : ∀ m ∈ done, decide (m ≠ n) = true := by
    intro m mem
    have nodup := split ▸ d.nodup
    simpa using fun (same : m = n) =>
      List.disjoint_of_nodup_append nodup mem (same ▸ List.mem_cons_self)
  rw [lastBefore, ← split, List.takeWhile_append_of_pos apart]
  simp

end Dfg

namespace ChanGraph

open Adjacency

variable {d : Dfg} {g h : ChanGraph}

/-- No node has a connection. -/
def Bare (g : ChanGraph) : Prop := ∀ κ n, g.pre κ n = [] ∧ g.next κ n = []

theorem Bare.addNode {nodeName nodeOp ctrlRegion : String} {nodeType : ChanNodeType}
    {chanMode : ChanMode} (bare : g.Bare) (fresh : nodeName ∉ g.nodes) :
    (g.addNode nodeName nodeType nodeOp chanMode ctrlRegion).Bare := by
  intro κ n
  obtain ⟨nodes, node, tree⟩ := newNode_of_fresh fresh
  by_cases here : n = nodeName
  · subst here
    simp [ChanGraph.addNode, ChanGraph.pre, ChanGraph.next, node]
  · simpa [ChanGraph.addNode, ChanGraph.pre, ChanGraph.next, node, here] using bare κ n

theorem addNode_nodes {nodeName nodeOp ctrlRegion : String} {nodeType : ChanNodeType}
    {chanMode : ChanMode} (fresh : nodeName ∉ g.nodes) :
    (g.addNode nodeName nodeType nodeOp chanMode ctrlRegion).nodes = g.nodes ++ [nodeName] :=
  (newNode_of_fresh fresh).1

theorem addNode_controlTree {nodeName nodeOp ctrlRegion : String} {nodeType : ChanNodeType}
    {chanMode : ChanMode} (fresh : nodeName ∉ g.nodes) :
    (g.addNode nodeName nodeType nodeOp chanMode ctrlRegion).controlTree = g.controlTree :=
  (newNode_of_fresh fresh).2.2

/-! ## The first loop -/

/-- The state of the first loop after the nodes of the list. -/
structure Naming.After (d : Dfg) (done : List String) (s : Naming) : Prop where
  nodes : s.graph.nodes = (done.filter fun n => !d.isConst n).map d.chanName
  carried : s.nodeName = ((done.filter fun n => !d.isConst n).getLast?.map d.chanName).getD ""
  named : ∀ n ∈ done, s.chanNodeName n = d.takenName n
  bare : s.graph.Bare
  regions : s.graph.controlTree.regions = d.controlTree.regions

theorem Naming.After.const {done rest : List String} {n : String} {s : Naming}
    (after : s.After d done) (split : done ++ n :: rest = d.nodes) (const : d.isConst n = true) :
    ∃ t, nameNode d s n = some t ∧ t.After d (done ++ [n]) := by
  have none := Dfg.channel_eq_none.mpr const
  refine ⟨⟨s.graph, s.nodeName, Function.update s.chanNodeName n s.nodeName⟩, by simp [nameNode, none],
    ?_⟩
  have kept : (done ++ [n]).filter (fun n => !d.isConst n) = done.filter fun n => !d.isConst n := by
    simp [const]
  refine ⟨kept ▸ after.nodes, kept ▸ after.carried, fun m mem => ?_, after.bare, after.regions⟩
  by_cases here : m = n
  · subst here
    simp only [Function.update_self, Dfg.takenName, Dfg.taken, const, if_true, Dfg.lastBefore_eq split,
      after.carried]
  · simpa [here] using after.named m (by simpa [here] using mem)

theorem Naming.After.computing {done rest : List String} {n : String} {s : Naming}
    (after : s.After d done) (split : done ++ n :: rest = d.nodes) (const : d.isConst n = false) :
    ∃ t, nameNode d s n = some t ∧ t.After d (done ++ [n]) := by
  obtain ⟨start, nodeType, channel⟩ := Dfg.exists_channel const
  have name : start ++ n = d.chanName n := by simp [Dfg.chanName, channel]
  have fresh : d.chanName n ∉ s.graph.nodes := by
    rw [after.nodes]
    intro mem
    obtain ⟨m, there, same⟩ := List.mem_map.mp mem
    obtain ⟨there, computing⟩ := List.mem_filter.mp there
    obtain rfl := (Dfg.chanName_inj (by simpa using computing) const).mp same
    exact List.disjoint_of_nodup_append (split ▸ d.nodup) there List.mem_cons_self
  set g := s.graph.addNode (d.chanName n) nodeType (d.node n).nodeOp .Normal
    (d.node n).controlRegionName with hg
  have nodes : g.nodes = s.graph.nodes ++ [d.chanName n] := addNode_nodes fresh
  have tree : g.controlTree = s.graph.controlTree := addNode_controlTree fresh
  have bare : g.Bare := after.bare.addNode fresh
  have there : d.chanName n ∈ g.nodes := by simp [nodes]
  have grown : (done ++ [n]).filter (fun n => !d.isConst n) =
      (done.filter fun n => !d.isConst n) ++ [n] := by simp [const]
  have named (m : String) (mem : m ∈ done ++ [n]) :
      Function.update s.chanNodeName n (d.chanName n) m = d.takenName m := by
    by_cases here : m = n
    · subst here
      simp [Dfg.takenName, Dfg.taken, const]
    · simpa [here] using after.named m (by simpa [here] using mem)
  by_cases normal : (d.node n).nodeType = .Normal
  · refine ⟨⟨g.setNode (d.chanName n) { g.node (d.chanName n) with baseAddr := (d.node n).baseAddr },
      d.chanName n, Function.update s.chanNodeName n (d.chanName n)⟩, ?_, ?_⟩
    · simp [nameNode, channel, name, normal, ← hg, modifyNode_of_mem there]
    · refine ⟨by simp [nodes, after.nodes, grown], by simp [grown], named, fun κ m => ?_,
        by simp [tree, after.regions]⟩
      by_cases here : m = d.chanName n
      · subst here
        simpa [ChanGraph.pre, ChanGraph.next] using bare κ (d.chanName n)
      · simpa [ChanGraph.pre, ChanGraph.next, here] using bare κ m
  · refine ⟨⟨g, d.chanName n, Function.update s.chanNodeName n (d.chanName n)⟩, ?_, ?_⟩
    · simp [nameNode, channel, name, normal, ← hg]
    · exact ⟨by simp [nodes, after.nodes, grown], by simp [grown], named, bare,
        by simp [tree, after.regions]⟩

theorem nameNodes_after (d : Dfg) : ∃ s, nameNodes d = some s ∧ s.After d d.nodes := by
  refine Run.total (fun done n rest s split after => ?_) ⟨rfl, rfl, by simp, fun _ _ => ⟨rfl, rfl⟩, rfl⟩
  cases const : d.isConst n with
  | true => exact after.const split const
  | false => exact after.computing split const

/-! ## The second loop -/

/-- The entries of a list as they are written into the channel graph. -/
def translated (d : Dfg) (refs : List String) : List String :=
  (refs.filterMap d.taken).map d.chanName

/-- The names that the first loop has recorded. -/
def Recorded (d : Dfg) (chanNodeName : String → String) : Prop :=
  ∀ n ∈ d.nodes, chanNodeName n = d.takenName n

theorem nameOf_eq {names : String → String} (recorded : Recorded d names) {n : String}
    (mem : n ∈ d.nodes) : nameOf d names n = some (d.takenName n) := by
  rw [nameOf, if_pos mem, recorded n mem]

theorem takenName_ne_empty {n : String} (mem : n ∈ d.nodes) :
    d.takenName n ≠ "" ↔ d.taken n ≠ none := by
  cases there : d.taken n with
  | none => simp [Dfg.takenName, there]
  | some p =>
    have computing := (Dfg.mem_computing.mp (Dfg.taken_computing there mem)).2
    simp [Dfg.takenName, there, Dfg.chanName_ne_empty computing]

theorem addRefs_eq {names : String → String} (recorded : Recorded d names)
    {push : String → ChanNode → ChanNode} {n : String} {refs : List String}
    (known : ∀ m ∈ refs, m ∈ d.nodes) (g : ChanGraph) (mem : n ∈ g.nodes) :
    addRefs d names push n refs g =
      some (g.setNode n ((translated d refs).foldl (fun y s => push s y) (g.node n))) := by
  unfold addRefs
  induction refs generalizing g with
  | nil => simp [translated]
  | cons m refs ih =>
    obtain ⟨here, rest⟩ := List.forall_mem_cons.mp known
    rw [List.foldlM_cons, nameOf_eq recorded here]
    cases there : d.taken m with
    | none =>
      have empty : d.takenName m = "" := by simp [Dfg.takenName, there]
      simpa [empty, translated, there] using ih rest g mem
    | some p =>
      have name : d.takenName m = d.chanName p := by simp [Dfg.takenName, there]
      have nonempty : d.chanName p ≠ "" := name ▸ (takenName_ne_empty here).mpr (by simp [there])
      simpa [nonempty, modifyNode_of_mem mem, translated, there, name] using ih rest
        (g.setNode n (push (d.takenName m) (g.node n))) mem

theorem foldl_pushPre (κ : Conn) (l : List String) (y : ChanNode) :
    l.foldl (fun y s => pushPre κ s y) y = y.setPre κ (y.preNodes κ ++ l) := by
  induction l generalizing y with
  | nil => simp
  | cons s l ih =>
    rw [List.foldl_cons, ih]
    simp [pushPre]

theorem foldl_pushNext (κ : Conn) (l : List String) (y : ChanNode) :
    l.foldl (fun y s => pushNext κ s y) y = y.setNext κ (y.nextNodes κ ++ l) := by
  induction l generalizing y with
  | nil => simp
  | cons s l ih =>
    rw [List.foldl_cons, ih]
    simp [pushNext]

/-- What a visit of `n` adds to the lists of the nodes. -/
structure Joined (d : Dfg) (n : String) (g h : ChanGraph) : Prop where
  nodes : h.nodes = g.nodes
  regions : h.controlTree.regions = g.controlTree.regions
  pre : ∀ v ∈ d.computing, ∀ κ, h.pre κ (d.chanName v) =
    g.pre κ (d.chanName v) ++ if v = n then translated d (d.pre κ n) else []
  next : ∀ v ∈ d.computing, ∀ κ, h.next κ (d.chanName v) =
    g.next κ (d.chanName v) ++ if v = n then translated d (d.next κ n) else []

theorem connectNode_computing {names : String → String} (recorded : Recorded d names)
    (wf : d.WellFormed) {r n : String} (declared : r ∈ g.controlTree.regions)
    (computing : n ∈ d.computing) (mem : d.chanName n ∈ g.nodes) :
    ∃ h, connectNode d names g r n = some h ∧ Joined d n g h := by
  obtain ⟨inside, const⟩ := Dfg.mem_computing.mp computing
  have name : nameOf d names n = some (d.chanName n) := by
    simp [nameOf_eq recorded inside, Dfg.takenName, Dfg.taken, const]
  have type : (d.node n).nodeType ≠ .Const := by simpa [Dfg.isConst] using const
  obtain ⟨t, added⟩ := ControlTree.addNodes_isSome declared [d.chanName n]
  have regions := ControlTree.addNodes_regions added
  set x := g.node (d.chanName n)
  let g₀ : ChanGraph := { g with controlTree := t }
  let entered : ChanNode := { x with controlRegionName := r }
  let joined : ChanNode := { entered with
    preNodes := fun κ => x.preNodes κ ++ translated d (d.pre κ n)
    nextNodes := fun κ => x.nextNodes κ ++ translated d (d.next κ n) }
  refine ⟨g₀.setNode (d.chanName n) joined, ?_, rfl, regions, fun v hv κ => ?_, fun v hv κ => ?_⟩
  · have enter : g.addNodes2CtrlTree r [d.chanName n] = some (g₀.setNode (d.chanName n) entered) := by
      simp [addNodes2CtrlTree, added, enterRegion, modifyNode, mem, g₀, entered, x]
    have preKnown (κ : Conn) : ∀ m ∈ (d.node n).preNodes κ, m ∈ d.nodes := wf.pre n inside κ
    have nextKnown (κ : Conn) : ∀ m ∈ (d.node n).nextNodes κ, m ∈ d.nodes := wf.next n inside κ
    have step (push : String → ChanNode → ChanNode) (y : ChanNode) (refs : List String)
        (known : ∀ m ∈ refs, m ∈ d.nodes) :
        addRefs d names push (d.chanName n) refs (g₀.setNode (d.chanName n) y) =
          some (g₀.setNode (d.chanName n)
            ((translated d refs).foldl (fun y s => push s y) y)) := by
      rw [addRefs_eq recorded known _ (by exact mem), setNode_setNode]
      simp
    have whole : ((((entered.setPre .data (x.preNodes .data ++ translated d (d.pre .data n))).setNext
        .data (x.nextNodes .data ++ translated d (d.next .data n))).setPre .active
          (x.preNodes .active ++ translated d (d.pre .active n))).setNext .active
            (x.nextNodes .active ++ translated d (d.next .active n))) = joined := by
      refine ChanNode.ext rfl rfl rfl rfl (funext fun κ => ?_) (funext fun κ => ?_) rfl rfl rfl rfl
        rfl rfl <;> cases κ <;> simp [joined]
    simp only [connectNode, name, Option.bind_eq_bind, Option.bind_some, type, ne_eq,
      not_false_eq_true, if_true, enter]
    rw [step _ _ _ (preKnown .data), Option.bind_some, step _ _ _ (nextKnown .data),
      Option.bind_some, step _ _ _ (preKnown .active), Option.bind_some,
      step _ _ _ (nextKnown .active)]
    simp only [foldl_pushPre, foldl_pushNext]
    rw [← whole]
    rfl
  all_goals
    obtain ⟨-, constV⟩ := Dfg.mem_computing.mp hv
    by_cases here : v = n
    · subst here
      simp [ChanGraph.pre, ChanGraph.next, joined, x]
    · have apart : d.chanName v ≠ d.chanName n := fun same => here ((Dfg.chanName_inj constV const).mp same)
      simp [ChanGraph.pre, ChanGraph.next, here, apart, g₀]

/-- Every constant that the list of a region names feeds what is taken for some node. -/
def Fed (d : Dfg) (n : String) : Prop :=
  d.isConst n = true → ∀ s ∈ d.next .data n, d.taken s ≠ none

theorem taken_mem {n p : String} (nodes : g.nodes = d.computing.map d.chanName) (mem : n ∈ d.nodes)
    (there : d.taken n = some p) : d.takenName n ∈ g.nodes := by
  rw [nodes, Dfg.takenName, there]
  exact List.mem_map_of_mem (Dfg.taken_computing there mem)

theorem connectNode_const {names : String → String} (recorded : Recorded d names)
    (wf : d.WellFormed) {r n : String} (nodes : g.nodes = d.computing.map d.chanName)
    (inside : n ∈ d.nodes) (const : d.isConst n = true) (fed : Fed d n) :
    ∃ h, connectNode d names g r n = some h ∧ Joined d n g h := by
  have type : (d.node n).nodeType = .Const := by simpa [Dfg.isConst] using const
  obtain ⟨h, run, same, regions, lists⟩ : ∃ h, addConst d names n (d.node n) g = some h ∧
      h.nodes = g.nodes ∧ h.controlTree = g.controlTree ∧
      ∀ κ m, h.pre κ m = g.pre κ m ∧ h.next κ m = g.next κ m := by
    refine @Run.total _ _ _ (fun _ (h : ChanGraph) => h.nodes = g.nodes ∧
      h.controlTree = g.controlTree ∧ ∀ κ m, h.pre κ m = g.pre κ m ∧ h.next κ m = g.next κ m) _
      (fun done s rest h split step => ?_) g ⟨rfl, rfl, fun _ _ => ⟨rfl, rfl⟩⟩
    obtain ⟨same, tree, lists⟩ := step
    have mem : s ∈ d.next .data n := by simp [Dfg.next, ← split]
    obtain ⟨p, there⟩ := Option.ne_none_iff_exists'.mp (fed const s mem)
    have known := wf.next n inside .data s mem
    have found : d.takenName s ∈ h.nodes := same ▸ taken_mem nodes known there
    rw [nameOf_eq recorded known, Option.bind_eq_bind, Option.bind_some, modifyNode_of_mem found]
    refine ⟨_, rfl, same, tree, fun κ m => ?_⟩
    rw [← (lists κ m).1, ← (lists κ m).2]
    by_cases here : m = d.takenName s
    · simp [ChanGraph.pre, ChanGraph.next, here]
    · simp [ChanGraph.pre, ChanGraph.next, here]
  refine ⟨h, by simp [connectNode, nameOf_eq recorded inside, type, run], same, by rw [regions],
    fun v hv κ => ?_, fun v hv κ => ?_⟩
  all_goals
    have apart : v ≠ n := by
      rintro rfl
      simp [(Dfg.mem_computing.mp hv).2] at const
    simp [apart, lists]

/-- A visit that is possible adds the lists of the node, and a constant is fed. -/
theorem connectNode_joined {names : String → String} (recorded : Recorded d names)
    (wf : d.WellFormed) {r n : String} (declared : r ∈ g.controlTree.regions)
    (nodes : g.nodes = d.computing.map d.chanName) (inside : n ∈ d.nodes)
    (visit : connectNode d names g r n = some h) : Joined d n g h ∧ Fed d n := by
  cases const : d.isConst n with
  | false =>
    have computing := Dfg.mem_computing.mpr ⟨inside, const⟩
    obtain ⟨h', run, joined⟩ := connectNode_computing recorded wf declared computing
      (nodes ▸ List.mem_map_of_mem computing)
    rw [run] at visit
    exact ⟨Option.some.inj visit ▸ joined, fun is => by simp [const] at is⟩
  | true =>
    have type : (d.node n).nodeType = .Const := by simpa [Dfg.isConst] using const
    have run : addConst d names n (d.node n) g = some h := by
      simpa [connectNode, nameOf_eq recorded inside, type] using visit
    have fed : Fed d n := by
      intro _ s mem
      have known := wf.next n inside .data
      obtain ⟨u, v, same, step⟩ := @Run.possible _ _ _ (fun u : ChanGraph => u.nodes = g.nodes) _
        (fun s mem u v same step => by
          rw [nameOf_eq recorded (known s mem), Option.bind_eq_bind, Option.bind_some, modifyNode] at step
          split_ifs at step
          rw [← Option.some.inj step]
          exact same) _ _ rfl run s mem
      rw [nameOf_eq recorded (known s mem), Option.bind_eq_bind, Option.bind_some, modifyNode] at step
      split_ifs at step with found
      rw [same, nodes] at found
      obtain ⟨p, computing, name⟩ := List.mem_map.mp found
      rw [← takenName_ne_empty (known s mem), ← name]
      exact Dfg.chanName_ne_empty (Dfg.mem_computing.mp computing).2
    obtain ⟨h', run', joined⟩ := connectNode_const recorded wf (r := r) nodes inside const fed
    rw [run'] at visit
    exact ⟨Option.some.inj visit ▸ joined, fed⟩

/-- The visits of the second loop: a region and a node that it lists. -/
def visits (d : Dfg) : List (String × String) :=
  d.controlTree.regions.flatMap fun r => (d.controlTree.region r).nodes.map fun n => (r, n)

theorem mem_visits {r n : String} : (r, n) ∈ visits d ↔
    r ∈ d.controlTree.regions ∧ n ∈ (d.controlTree.region r).nodes := by
  simp [visits]

theorem connectNodes_eq (d : Dfg) (names : String → String) (g : ChanGraph) :
    connectNodes d names g = (visits d).foldlM (fun g v => connectNode d names g v.1 v.2) g := by
  simp only [connectNodes, visits, Run.flatMap, List.foldlM_map]

/-- The lists after some of the visits. -/
structure Connecting (d : Dfg) (done : List (String × String)) (g : ChanGraph) : Prop where
  nodes : g.nodes = d.computing.map d.chanName
  regions : g.controlTree.regions = d.controlTree.regions
  pre : ∀ v ∈ d.computing, ∀ κ, g.pre κ (d.chanName v) =
    (List.replicate ((done.map Prod.snd).count v) (translated d (d.pre κ v))).flatten
  next : ∀ v ∈ d.computing, ∀ κ, g.next κ (d.chanName v) =
    (List.replicate ((done.map Prod.snd).count v) (translated d (d.next κ v))).flatten

theorem Connecting.visit {done : List (String × String)} {r n : String}
    (connecting : Connecting d done g) (joined : Joined d n g h) :
    Connecting d (done ++ [(r, n)]) h := by
  have count (v : String) : ((done ++ [(r, n)]).map Prod.snd).count v =
      (done.map Prod.snd).count v + if v = n then 1 else 0 := by
    by_cases here : v = n
    · simp [here]
    · simp [here, Ne.symm here]
  refine ⟨joined.nodes.trans connecting.nodes, joined.regions.trans connecting.regions,
    fun v hv κ => ?_, fun v hv κ => ?_⟩
  · rw [joined.pre v hv, connecting.pre v hv, count]
    by_cases here : v = n
    · subst here
      simp [flatten_replicate_succ]
    · simp [here]
  · rw [joined.next v hv, connecting.next v hv, count]
    by_cases here : v = n
    · subst here
      simp [flatten_replicate_succ]
    · simp [here]

section
variable {names : String → String} (recorded : Recorded d names) (wf : d.WellFormed)
  (start : Connecting d [] g)
include recorded wf start

theorem connectNodes_connecting (fed : ∀ v ∈ visits d, Fed d v.2) :
    ∃ h, connectNodes d names g = some h ∧ Connecting d (visits d) h := by
  rw [connectNodes_eq]
  refine Run.total (fun done v rest g split connecting => ?_) start
  obtain ⟨r, n⟩ := v
  have mem : (r, n) ∈ visits d := by simp [← split]
  obtain ⟨declared, listed⟩ := mem_visits.mp mem
  have inside := wf.inside r declared n listed
  obtain ⟨h, run, joined⟩ : ∃ h, connectNode d names g r n = some h ∧ Joined d n g h := by
    cases const : d.isConst n with
    | false =>
      have computing := Dfg.mem_computing.mpr ⟨inside, const⟩
      exact connectNode_computing recorded wf (connecting.regions ▸ declared) computing
        (connecting.nodes ▸ List.mem_map_of_mem computing)
    | true => exact connectNode_const recorded wf connecting.nodes inside const (fed _ mem)
  exact ⟨h, run, connecting.visit joined⟩

theorem connectNodes_fed (run : connectNodes d names g = some h) : ∀ v ∈ visits d, Fed d v.2 := by
  rw [connectNodes_eq] at run
  have known (v : String × String) (mem : v ∈ visits d) (g h : ChanGraph)
      (shape : g.nodes = d.computing.map d.chanName ∧
        g.controlTree.regions = d.controlTree.regions)
      (step : connectNode d names g v.1 v.2 = some h) : Joined d v.2 g h ∧ Fed d v.2 := by
    obtain ⟨declared, listed⟩ := mem_visits.mp mem
    exact connectNode_joined recorded wf (shape.2 ▸ declared) shape.1
      (wf.inside _ declared _ listed) step
  intro v mem
  obtain ⟨u, w, shape, step⟩ := Run.possible (fun v mem s t shape step =>
    have joined := (known v mem s t shape step).1
    ⟨joined.nodes.trans shape.1, joined.regions.trans shape.2⟩)
    ⟨start.nodes, start.regions⟩ run v mem
  exact (known v mem u w shape step).2

end

/-! ## The edges of the channel graph -/

/-- An edge as it is written into the channel graph. -/
def Written (d : Dfg) (κ : Conn) (u v : String) : Prop :=
  v ∈ (d.next κ u).filterMap d.taken ∨ u ∈ (d.pre κ v).filterMap d.taken

theorem mem_translated {refs : List String} (known : ∀ m ∈ refs, m ∈ d.nodes) {v : String}
    (hv : v ∈ d.computing) : d.chanName v ∈ translated d refs ↔ v ∈ refs.filterMap d.taken := by
  rw [translated, List.mem_map]
  constructor
  · rintro ⟨w, mem, same⟩
    obtain ⟨m, there, takes⟩ := List.mem_filterMap.mp mem
    have computing := Dfg.taken_computing takes (known m there)
    obtain rfl := (Dfg.chanName_inj (Dfg.mem_computing.mp computing).2 (Dfg.mem_computing.mp hv).2).mp
      same
    exact mem
  · exact fun mem => ⟨v, mem, rfl⟩

theorem mem_taken {refs : List String} {v : String} (hv : v ∈ d.computing) :
    v ∈ refs.filterMap d.taken ↔
      v ∈ refs ∨ ∃ c ∈ refs, d.isConst c = true ∧ d.lastBefore c = some v := by
  have const := (Dfg.mem_computing.mp hv).2
  rw [List.mem_filterMap]
  constructor
  · rintro ⟨c, mem, takes⟩
    cases kind : d.isConst c with
    | false =>
      rw [Dfg.taken_of_not_const kind] at takes
      exact .inl (Option.some.inj takes ▸ mem)
    | true => exact .inr ⟨c, mem, kind, by simpa [Dfg.taken, kind] using takes⟩
  · rintro (mem | ⟨c, mem, kind, last⟩)
    · exact ⟨v, mem, Dfg.taken_of_not_const const⟩
    · exact ⟨c, mem, by simpa [Dfg.taken, kind] using last⟩

/-- Only a constant that is taken for another node writes an edge that was not declared. -/
theorem written_iff_edge (wf : d.WellFormed) : (∀ κ, ∀ u ∈ d.computing, ∀ v ∈ d.computing,
      Written d κ u v ↔ d.Edge κ u v) ↔
    (∀ v ∈ d.computing, ∀ κ, ∀ c ∈ d.pre κ v, d.isConst c = true →
        ∀ p, d.lastBefore c = some p → d.Edge κ p v) ∧
      ∀ u ∈ d.computing, ∀ κ, ∀ c ∈ d.next κ u, d.isConst c = true →
        ∀ p, d.lastBefore c = some p → d.Edge κ u p := by
  have computing {c p : String} (mem : c ∈ d.nodes) (const : d.isConst c = true)
      (last : d.lastBefore c = some p) : p ∈ d.computing :=
    Dfg.taken_computing (by simpa [Dfg.taken, const] using last) mem
  constructor
  · intro same
    constructor
    · intro v hv κ c mem const p last
      have hp := computing (wf.pre v (Dfg.mem_computing.mp hv).1 κ c mem) const last
      exact (same κ p hp v hv).mp (.inr ((mem_taken hp).mpr (.inr ⟨c, mem, const, last⟩)))
    · intro u hu κ c mem const p last
      have hp := computing (wf.next u (Dfg.mem_computing.mp hu).1 κ c mem) const last
      exact (same κ u hu p hp).mp (.inl ((mem_taken hp).mpr (.inr ⟨c, mem, const, last⟩)))
  · rintro ⟨pre, next⟩ κ u hu v hv
    constructor
    · rintro (mem | mem)
      · obtain here | ⟨c, there, const, last⟩ := (mem_taken hv).mp mem
        · exact .inl here
        · exact next u hu κ c there const v last
      · obtain here | ⟨c, there, const, last⟩ := (mem_taken hu).mp mem
        · exact .inr here
        · exact pre v hv κ c there const u last
    · rintro (mem | mem)
      · exact .inl ((mem_taken hv).mpr (.inl mem))
      · exact .inr ((mem_taken hu).mpr (.inl mem))

theorem operands_subset (wf : d.WellFormed) {v : String} (hv : v ∈ d.nodes) :
    ∀ m ∈ d.operands v, m ∈ d.computing ∧ m ∈ (d.pre .data v).filterMap d.taken := by
  intro m mem
  obtain ⟨there, computing⟩ := List.mem_filter.mp mem
  have computing : m ∈ d.computing :=
    Dfg.mem_computing.mpr ⟨wf.pre v hv _ m there, by simpa using computing⟩
  exact ⟨computing, (mem_taken computing).mpr (.inl there)⟩

theorem visits_count_ne_zero (wf : d.WellFormed) {v : String} (hv : v ∈ d.computing) :
    ((visits d).map Prod.snd).count v ≠ 0 := by
  obtain ⟨r, declared, listed⟩ := wf.listed v hv
  have mem : v ∈ (visits d).map Prod.snd :=
    List.mem_map.mpr ⟨(r, v), mem_visits.mpr ⟨declared, listed⟩, rfl⟩
  exact (List.count_pos_iff.mpr mem).ne'

section
variable (wf : d.WellFormed) (connecting : Connecting d (visits d) g)
include wf connecting

theorem Connecting.named : g.Named := by
  have known {refs : List String} (inside : ∀ m ∈ refs, m ∈ d.nodes) (k : Nat) (s : String)
      (mem : s ∈ (List.replicate k (translated d refs)).flatten) : s ∈ g.nodes := by
    obtain ⟨l, copy, mem⟩ := List.mem_flatten.mp mem
    rw [List.eq_of_mem_replicate copy] at mem
    obtain ⟨p, there, rfl⟩ := List.mem_map.mp mem
    obtain ⟨m, there, takes⟩ := List.mem_filterMap.mp there
    rw [connecting.nodes]
    exact List.mem_map_of_mem (Dfg.taken_computing takes (inside m there))
  have name (n : String) (hn : n ∈ g.nodes) : ∃ v ∈ d.computing, d.chanName v = n := by
    rwa [connecting.nodes, List.mem_map] at hn
  constructor
  · intro n hn κ p mem
    obtain ⟨v, hv, rfl⟩ := name n hn
    rw [connecting.pre v hv] at mem
    exact known (wf.pre v (Dfg.mem_computing.mp hv).1 κ) _ p mem
  · intro n hn κ s mem
    obtain ⟨v, hv, rfl⟩ := name n hn
    rw [connecting.next v hv] at mem
    exact known (wf.next v (Dfg.mem_computing.mp hv).1 κ) _ s mem

theorem Connecting.edges (done : g.Completed h) {κ : Conn} {u v : String} (hu : u ∈ d.computing)
    (hv : v ∈ d.computing) : d.chanName v ∈ h.next κ (d.chanName u) ↔ Written d κ u v := by
  have inside {n : String} (hn : n ∈ d.computing) : d.chanName n ∈ g.nodes :=
    connecting.nodes ▸ List.mem_map_of_mem hn
  rw [done.mem_next (inside hu) (inside hv), connecting.next u hu, connecting.pre v hv,
    mem_flatten_replicate (visits_count_ne_zero wf hu),
    mem_flatten_replicate (visits_count_ne_zero wf hv),
    mem_translated (wf.next u (Dfg.mem_computing.mp hu).1 κ) hv,
    mem_translated (wf.pre v (Dfg.mem_computing.mp hv).1 κ) hu]
  rfl

theorem Connecting.operands (done : g.Completed h) {v : String} (hv : v ∈ d.computing) :
    distinct ((d.operands v).map d.chanName) <+: h.pre .data (d.chanName v) ↔
      distinct (d.operands v) <+: distinct ((d.pre .data v).filterMap d.taken) := by
  have inside := (Dfg.mem_computing.mp hv).1
  have behind : distinct (translated d (d.pre .data v)) <+: h.pre .data (d.chanName v) := by
    rw [done.pre (connecting.nodes ▸ List.mem_map_of_mem hv),
      ← distinct_flatten_replicate (visits_count_ne_zero wf hv), ← connecting.pre v hv]
    exact complete_pre_prefix
  have computing : ∀ m ∈ (d.pre .data v).filterMap d.taken, d.isConst m = false := by
    intro m mem
    obtain ⟨n, there, takes⟩ := List.mem_filterMap.mp mem
    exact (Dfg.mem_computing.mp (Dfg.taken_computing takes (wf.pre v inside .data n there))).2
  have known := operands_subset wf inside
  have inj : ∀ a ∈ d.operands v, ∀ b ∈ (d.pre .data v).filterMap d.taken,
      d.chanName a = d.chanName b → a = b := fun a ha b hb =>
    (Dfg.chanName_inj (Dfg.mem_computing.mp (known a ha).1).2 (computing b hb)).mp
  have sub : distinct ((d.operands v).map d.chanName) ⊆ distinct (translated d (d.pre .data v)) := by
    intro s mem
    obtain ⟨m, there, rfl⟩ := List.mem_map.mp (mem_distinct.mp mem)
    exact mem_distinct.mpr (List.mem_map_of_mem (known m there).2)
  rw [prefix_iff_of_subset (nodup_distinct _) sub behind, translated,
    distinct_map fun a ha b hb => inj a ha b (known b hb).2,
    distinct_map fun a ha b hb => (Dfg.chanName_inj (computing a ha) (computing b hb)).mp,
    map_prefix_iff fun a ha b hb => inj a (mem_distinct.mp ha) b (mem_distinct.mp hb)]

theorem Connecting.preserves_iff (done : g.Completed h) (fed : ∀ v ∈ visits d, Fed d v.2) :
    d.Preserves h ↔ d.Harmless := by
  have fed : ∀ r ∈ d.controlTree.regions, ∀ c ∈ (d.controlTree.region r).nodes,
      d.isConst c = true → ∀ s ∈ d.next .data c, d.taken s ≠ none :=
    fun r declared c listed => fed (r, c) (mem_visits.mpr ⟨declared, listed⟩)
  constructor
  · intro preserves
    obtain ⟨pre, next⟩ := (written_iff_edge wf).mp fun κ u hu v hv => by
      rw [← connecting.edges wf done hu hv, preserves.edges κ u hu v hv]
    exact ⟨pre, next, fun v hv => (connecting.operands wf done hv).mp (preserves.operands v hv), fed⟩
  · intro harmless
    have written := (written_iff_edge wf).mpr ⟨harmless.pre, harmless.next⟩
    refine ⟨done.nodes.trans connecting.nodes, done.connected (connecting.named wf),
      fun κ u hu v hv => ?_, fun v hv => ?_⟩
    · rw [connecting.edges wf done hu hv, written κ u hu v hv]
    · exact (connecting.operands wf done hv).mpr (harmless.operands v hv)

end

/-- The pass yields the edges of the dataflow graph just when the constants do no harm. -/
theorem genChanGraphFromDfg_preserves_iff (d : Dfg) (wf : d.WellFormed) :
    (∃ h, genChanGraphFromDfg d = some h ∧ d.Preserves h) ↔ d.Harmless := by
  obtain ⟨s, first, after⟩ := nameNodes_after d
  have start : Connecting d [] s.graph :=
    ⟨after.nodes, after.regions, fun v _ κ => by simp [(after.bare κ _).1],
      fun v _ κ => by simp [(after.bare κ _).2]⟩
  constructor
  · rintro ⟨h, run, preserves⟩
    simp only [genChanGraphFromDfg, first, Option.bind_eq_bind, Option.bind_some,
      Option.bind_eq_some_iff] at run
    obtain ⟨g, second, g', complete, last⟩ := run
    have fed := connectNodes_fed after.named wf start second
    obtain ⟨g₂, second', connecting⟩ := connectNodes_connecting after.named wf start fed
    obtain rfl : g₂ = g := Option.some.inj (second'.symm.trans second)
    obtain ⟨g₃, complete', done⟩ := completeConnect_completed (connecting.named wf)
    obtain rfl : g₃ = g' := Option.some.inj (complete'.symm.trans complete)
    obtain rfl := Option.some.inj last
    exact (connecting.preserves_iff wf done fed).mp preserves
  · intro harmless
    have fed (v : String × String) (mem : v ∈ visits d) : Fed d v.2 :=
      harmless.fed v.1 (mem_visits.mp mem).1 v.2 (mem_visits.mp mem).2
    obtain ⟨g, second, connecting⟩ := connectNodes_connecting after.named wf start fed
    obtain ⟨g', complete, done⟩ := completeConnect_completed (connecting.named wf)
    refine ⟨g'.removeRedundantConnect, ?_, (connecting.preserves_iff wf done fed).mpr harmless⟩
    simp [genChanGraphFromDfg, first, second, complete]

/-- `b` has the operands `x` and the constant `c`, which is declared behind `a`. -/
def constOperand : Dfg where
  nodes := ["x", "a", "c", "b"]
  node n :=
    if n = "b" then { nodeOp := "Add", preNodes := fun κ => if κ = .data then ["x", "c"] else [] }
    else if n = "c" then { nodeType := .Const, nodeOp := "Const", constVal := 1 }
    else { nodeOp := "Add" }
  controlTree := ⟨["Loop"], fun _ => { nodes := ["x", "a", "c", "b"] }, List.nodup_singleton _⟩
  nodup := by decide

theorem constOperand_wellFormed : constOperand.WellFormed where
  pre := by decide
  next := by decide
  inside := by decide
  listed := by decide

theorem genChanGraphFromDfg_preserves_iff_constOperand :
    (∃ h, genChanGraphFromDfg constOperand = some h ∧ constOperand.Preserves h) ↔
      constOperand.Harmless :=
  genChanGraphFromDfg_preserves_iff constOperand constOperand_wellFormed

/-- The channel graph has an edge from `a` to `b`. -/
theorem edge_from_unrelated : ∃ h, genChanGraphFromDfg constOperand = some h ∧
    h.pre .data "Chan_b" = ["Chan_x", "Chan_a"] ∧ ¬ constOperand.Edge .data "a" "b" ∧
      ¬ constOperand.Preserves h := by
  have run : (genChanGraphFromDfg constOperand).map (fun h =>
      (h.next .data "Chan_a", h.pre .data "Chan_b")) = some (["Chan_b"], ["Chan_x", "Chan_a"]) := by
    decide +kernel
  obtain ⟨h, whole, lists⟩ := Option.map_eq_some_iff.mp run
  obtain ⟨next, pre⟩ := Prod.mk.inj lists
  have unrelated : ¬ constOperand.Edge .data "a" "b" := by
    unfold Dfg.Edge
    decide
  refine ⟨h, whole, pre, unrelated, fun preserves => unrelated ?_⟩
  have edge : constOperand.chanName "b" ∈ h.next .data (constOperand.chanName "a") := by
    have names : constOperand.chanName "b" = "Chan_b" ∧ constOperand.chanName "a" = "Chan_a" := by
      decide
    simp [names, next]
  exact (preserves.edges .data "a" (by decide) "b" (by decide)).mp edge

end ChanGraph

end DataflowSim.Graph
