import DataflowSim.Execution.Channel
import DataflowSim.Registry.ChanConnect

/-!
# Making the channels

The part of `Registry` that makes the channels of a graph and sets them up, for graphs in which all
nodes are of class `ChanBase` or `ChanDGSF`: `genModule` with `genChan`, the numbers that
`genConnect` leaves at the channels, `setChanSize`, and the modes that `configGraphScheduler` hands
on to the channels between subgraphs.
-/

open DataflowSim.Graph DataflowSim.Execution

namespace DataflowSim.Registry

/-- The delays in `Global`. -/
structure Delays where
  bramAccessDelay : Nat
  add : Nat
  sub : Nat
  mul : Nat
  div : Nat
  mac : Nat
  relu : Nat

/-- `ChanGraph::addNodeDelay`, for one node. -/
def nodeDelay (d : Delays) (x : ChanNode) : Nat :=
  if x.nodeType = .ChanDGSF then d.bramAccessDelay
  else if x.nodeOp = "Nop" then 0
  else if x.nodeOp = "Mul" then d.mul
  else if x.nodeOp = "Add" then d.add
  else if x.nodeOp = "Sub" then d.sub
  else if x.nodeOp = "Div" then d.div
  else if x.nodeOp = "Mac" then d.mac
  else if x.nodeOp = "Relu" then d.relu
  else 1

/-- What `genModule` reads besides the graph: the delays, the speedup that `setSpeedup` has given to
each node, and the path of each region of a branch. -/
structure Setting where
  delays : Delays
  speedup : String → Nat
  branchPath : String → Bool

/-- The channels are connected later. There is no result for a node of another class. -/
def genChan (s : Setting) (n : String) (x : ChanNode) : Option ChanConfig :=
  if n = "Chan_begin" ∨ n = "Chan_end" then
    some { size := 1, cycle := 0, speedup := 1, upNum := 0 }
  else
    match x.nodeType with
    | .ChanBase =>
      some { size := x.size, cycle := nodeDelay s.delays x, speedup := s.speedup n, upNum := 0
             keepMode := x.chanMode = .Keep_mode, drainMode := x.chanMode = .Drain_mode }
    | .ChanDGSF =>
      some { size := x.size, cycle := nodeDelay s.delays x, speedup := s.speedup n, upNum := 0
             chanType := .Chan_DGSF
             keepMode := x.chanMode = .Keep_mode, drainMode := x.chanMode = .Drain_mode }
    | _ => none

/-- One node of `genModule`. -/
def genChanModule (g : ChanGraph) (s : Setting) (n : String) : Option ChanConfig := do
  let node ← g.getNode n
  let controlRegion ← g.controlTree.getCtrlRegion node.controlRegionName
  let chanPtr ← genChan s n node
  let chanPtr :=
    if controlRegion.controlType = .Branch then
      { chanPtr with branchMode := true, channelCond := s.branchPath node.controlRegionName }
    else chanPtr
  some (if node.nodeOp = "Cmp" then { chanPtr with isCond := true } else chanPtr)

def genChanModules (g : ChanGraph) (s : Setting) (order : List String) :
    Option (ChanId → ChanConfig) :=
  order.foldlM (fun chans n => do
    let chanPtr ← genChanModule g s n
    some (Function.update chans (.node n) chanPtr)) fun _ => { size := 0, upNum := 0 }

/-- What the lists of a channel tell about it. -/
def connected (w : Wiring) (c : ChanId) (chanPtr : ChanConfig) : ChanConfig :=
  { chanPtr with
    upNum := (w.upstream c).length
    noUpstream := w.noUpstream c
    noDownstream := w.noDownstream c }

/-- `Registry::setChanSize`, for one channel. -/
def setChanSize (c : ChanId) (chanPtr : ChanConfig) : ChanConfig :=
  if c.masterName = "None" ∧ (c.moduleName ≠ "Chan_begin" ∧ c.moduleName ≠ "Chan_end") ∧
      chanPtr.chanType ≠ .Chan_DGSF then
    { chanPtr with size := 10 * max chanPtr.cycle 1 * chanPtr.speedup % 2 ^ 64 }
  else chanPtr

/-- The modes that `configGraphScheduler` gives to a channel: one between subgraphs gets those of its
upstream. When there is not exactly one upstream, an error is reported instead. -/
def inherited (w : Wiring) (chans : ChanId → ChanConfig) (c : ChanId) : ChanConfig :=
  if (chans c).chanType = .Chan_DGSF then
    match w.upstream c with
    | [u] =>
      { chans c with
        isCond := (chans u).isCond
        branchMode := (chans u).branchMode
        channelCond := (chans u).channelCond }
    | _ => chans c
  else chans c

def inheritModes (w : Wiring) (chans : ChanId → ChanConfig) (c : ChanId) : ChanId → ChanConfig :=
  Function.update chans c (inherited w chans c)

/-- The channels behind `setChanSize`. -/
def sizeChans (g : ChanGraph) (s : Setting) (order : List String) (w : Wiring) :
    Option (ChanId → ChanConfig) := do
  let chans ← genChanModules g s order
  some fun c => setChanSize c (connected w c (chans c))

/-- The channels as they are when the simulation begins. -/
def setUp (g : ChanGraph) (s : Setting) (order : List String) (w : Wiring) :
    Option (ChanId → ChanConfig) := do
  let chans ← sizeChans g s order w
  some ((channels (registryTable g order)).foldl (inheritModes w) chans)

theorem inherited_congr {w : Wiring} {chans chans' : ChanId → ChanConfig} {c : ChanId}
    (same : chans' c = chans c)
    (up : (chans c).chanType = .Chan_DGSF → ∀ u ∈ w.upstream c, chans' u = chans u) :
    inherited w chans' c = inherited w chans c := by
  unfold inherited
  rw [same]
  split_ifs with dgsf
  · rcases only : w.upstream c with _ | ⟨u, _ | _⟩
    · rfl
    · simp only [up dgsf u (by simp [only])]
    · rfl
  · rfl

theorem inherited_of_ne {w : Wiring} {chans : ChanId → ChanConfig} {c : ChanId}
    (plain : (chans c).chanType ≠ .Chan_DGSF) : inherited w chans c = chans c := if_neg plain

/-- When no channel between subgraphs feeds another one, the order does not matter. -/
theorem foldl_inheritModes {w : Wiring} {chans : ChanId → ChanConfig} {cs : List ChanId}
    (nodup : cs.Nodup) (apart : ∀ c ∈ cs, (chans c).chanType = .Chan_DGSF → ∀ u ∈ w.upstream c,
      (chans u).chanType ≠ .Chan_DGSF) :
    cs.foldl (inheritModes w) chans = fun c => if c ∈ cs then inherited w chans c else chans c := by
  induction cs using List.reverseRecOn with
  | nil => simp
  | append_singleton cs c ih =>
    obtain ⟨before, -, new⟩ := List.nodup_append.mp nodup
    have fresh : c ∉ cs := fun old => new c old c (by simp) rfl
    rw [List.foldl_append, List.foldl_cons, List.foldl_nil,
      ih before fun d mem => apart d (List.mem_append_left _ mem), inheritModes,
      inherited_congr (if_neg fresh) fun dgsf u mem => ?_]
    · funext d
      by_cases at_c : d = c
      · simp [at_c]
      · simp [at_c]
    · rw [inherited_of_ne (apart c (by simp) dgsf u mem), ite_self]

/-! ## The channels of a cut graph -/

/-- A connected graph of channels, of which those between subgraphs have one predecessor each. -/
structure CutGraph (g : ChanGraph) : Prop extends g.Connected where
  type : ∀ n ∈ g.nodes, (g.node n).nodeType = .ChanBase ∨ (g.node n).nodeType = .ChanDGSF ∧
    ∃ u ∈ g.nodes, (g.node n).allPre = [u] ∧ (g.node u).nodeType = .ChanBase
  name : ∀ n ∈ g.nodes, n ≠ "Chan_begin" ∧ n ≠ "Chan_end"
  placed : g.Placed

def isDGSF (g : ChanGraph) (n : String) : Bool := (g.node n).nodeType = .ChanDGSF

/-- The node whose modes a channel has. -/
def modesOf (g : ChanGraph) (n : String) : String :=
  if isDGSF g n then (g.node n).allPre.headD "" else n

def isCond (g : ChanGraph) (n : String) : Bool := (g.node n).nodeOp = "Cmp"

def branchMode (g : ChanGraph) (n : String) : Bool :=
  (g.controlTree.region (g.node n).controlRegionName).controlType = .Branch

def channelCond (g : ChanGraph) (s : Setting) (n : String) : Bool :=
  if branchMode g n then s.branchPath (g.node n).controlRegionName else true

/-- The channel of the node `n` with the modes of `u`. -/
def chanOf (g : ChanGraph) (s : Setting) (w : Wiring) (n u : String) : ChanConfig where
  size :=
    if isDGSF g n then (g.node n).size
    else 10 * max (nodeDelay s.delays (g.node n)) 1 * s.speedup n % 2 ^ 64
  cycle := nodeDelay s.delays (g.node n)
  speedup := s.speedup n
  chanType := if isDGSF g n then .Chan_DGSF else .Chan_Base
  upNum := (w.upstream (.node n)).length
  noUpstream := w.noUpstream (.node n)
  noDownstream := w.noDownstream (.node n)
  keepMode := (g.node n).chanMode = .Keep_mode
  drainMode := (g.node n).chanMode = .Drain_mode
  isCond := isCond g u
  branchMode := branchMode g u
  channelCond := channelCond g s u

variable {g : ChanGraph} {s : Setting} {w : Wiring} {order : List String} {n : String}

theorem CutGraph.onlyChans (cut : CutGraph g) : OnlyChans g where
  chan n mem := by
    rcases cut.type n mem with base | ⟨dgsf, -⟩
    · rw [nodeModule, base]
    · rw [nodeModule, dgsf]
  name := cut.name

theorem genChan_eq (cut : CutGraph g) (mem : n ∈ g.nodes) : genChan s n (g.node n) = some {
    size := (g.node n).size, cycle := nodeDelay s.delays (g.node n), speedup := s.speedup n, upNum := 0
    chanType := if isDGSF g n then .Chan_DGSF else .Chan_Base
    keepMode := (g.node n).chanMode = .Keep_mode, drainMode := (g.node n).chanMode = .Drain_mode } := by
  obtain ⟨notBegin, notEnd⟩ := cut.name n mem
  rw [genChan, if_neg (by simp [notBegin, notEnd])]
  rcases cut.type n mem with base | ⟨dgsf, -⟩
  · simp [isDGSF, base]
  · simp [isDGSF, dgsf]

/-- The channel as it is before `configGraphScheduler`. -/
theorem genChanModule_eq (cut : CutGraph g) (mem : n ∈ g.nodes) : ∃ chanPtr,
    genChanModule g s n = some chanPtr ∧
      setChanSize (.node n) (connected w (.node n) chanPtr) = chanOf g s w n n := by
  have found : g.getNode n = some (g.node n) := ChanGraph.getNode_of_mem mem
  have region : g.controlTree.getCtrlRegion (g.node n).controlRegionName =
      some (g.controlTree.region (g.node n).controlRegionName) :=
    ControlTree.getCtrlRegion_of_mem (cut.placed n mem)
  refine ⟨_, by simp only [genChanModule, found, region, genChan_eq cut mem, Option.bind_eq_bind,
    Option.bind_some]; rfl, ?_⟩
  have free : (ChanId.node n).masterName = "None" ∧ (ChanId.node n).moduleName ≠ "Chan_begin" ∧
      (ChanId.node n).moduleName ≠ "Chan_end" := ⟨rfl, cut.name n mem⟩
  unfold setChanSize connected chanOf channelCond
  cases dgsf : isDGSF g n <;> cases cmp : isCond g n <;> cases branch : branchMode g n <;>
    simp_all [isCond, branchMode]

theorem genChanModules_eq (cut : CutGraph g) {names : List String} (known : ∀ n ∈ names, n ∈ g.nodes) :
    ∃ chans, genChanModules g s names = some chans ∧ ∀ n ∈ names,
      setChanSize (.node n) (connected w (.node n) (chans (.node n))) = chanOf g s w n n := by
  induction names using List.reverseRecOn with
  | nil => exact ⟨_, rfl, by simp⟩
  | append_singleton names n ih =>
    obtain ⟨before, here⟩ := List.forall_mem_append.mp known
    obtain ⟨chans, run, old⟩ := ih before
    obtain ⟨chanPtr, made, new⟩ := genChanModule_eq (s := s) (w := w) cut (here n (by simp))
    refine ⟨Function.update chans (.node n) chanPtr, ?_, fun m mem => ?_⟩
    · rw [genChanModules, List.foldlM_append, ← genChanModules, run, Option.bind_eq_bind,
        Option.bind_some, List.foldlM_cons, made]
      rfl
    · by_cases at_n : m = n
      · subst at_n
        rw [Function.update_self, new]
      · rw [Function.update_of_ne (by simpa using at_n)]
        exact old m (by simpa [at_n] using mem)

/-- The channels after `setChanSize`, of which those between subgraphs get the modes of others. -/
theorem inherited_eq (cut : CutGraph g) (wired : ChansWired g w) {chans : ChanId → ChanConfig}
    (start : ∀ n ∈ g.nodes, chans (.node n) = chanOf g s w n n) (mem : n ∈ g.nodes) :
    inherited w chans (.node n) = chanOf g s w n (modesOf g n) := by
  have type : (chans (.node n)).chanType = if isDGSF g n then .Chan_DGSF else .Chan_Base := by
    rw [start n mem, chanOf]
  rcases cut.type n mem with base | ⟨dgsf, u, hu, only, base⟩
  · have plain : isDGSF g n = false := by simp [isDGSF, base]
    rw [inherited_of_ne (by simp [type, plain]), start n mem, modesOf, if_neg (by simp [plain])]
  · have between : isDGSF g n = true := by simp [isDGSF, dgsf]
    have up : w.upstream (.node n) = [.node u] := by
      rw [wired.upstream n mem, only]
      rfl
    have modes : modesOf g n = u := by simp [modesOf, between, only]
    rw [inherited, if_pos (by simp [type, between]), up, modes]
    simp [start n mem, start u hu, chanOf]

/-- What is upstream of a channel between subgraphs is not between subgraphs. -/
theorem upstream_plain (cut : CutGraph g) (wired : ChansWired g w) {chans : ChanId → ChanConfig}
    (start : ∀ n ∈ g.nodes, chans (.node n) = chanOf g s w n n) (mem : n ∈ g.nodes)
    (dgsf : (chans (.node n)).chanType = .Chan_DGSF) :
    ∀ u ∈ w.upstream (.node n), (chans u).chanType ≠ .Chan_DGSF := by
  rcases cut.type n mem with base | ⟨-, u, hu, only, base⟩
  · rw [start n mem] at dgsf
    simp [chanOf, isDGSF, base] at dgsf
  · rw [wired.upstream n mem, only]
    simp [Adjacency.distinct, Adjacency.keep, start u hu, chanOf, isDGSF, base]

theorem channels_chans (only : OnlyChans g) {names : List String} (known : ∀ n ∈ names, n ∈ g.nodes) :
    channels (registryTable g names) = names.map .node := by
  rw [registryTable_chans only known, channels, List.filterMap_map]
  exact List.filterMap_eq_map (f := ChanId.node) ▸ rfl

theorem sizeChans_eq (cut : CutGraph g) (perm : order.Perm g.nodes) : ∃ chans,
    sizeChans g s order w = some chans ∧ ∀ n ∈ g.nodes, chans (.node n) = chanOf g s w n n := by
  obtain ⟨chans, run, made⟩ := genChanModules_eq (s := s) (w := w) cut fun n => perm.mem_iff.mp
  exact ⟨_, by rw [sizeChans, run]; rfl, fun n mem => made n (perm.mem_iff.mpr mem)⟩

theorem nodup_channels (cut : CutGraph g) (perm : order.Perm g.nodes) :
    (channels (registryTable g order)).Nodup := by
  rw [channels_chans cut.onlyChans fun n => perm.mem_iff.mp]
  exact (perm.nodup_iff.mpr g.nodup).map fun _ _ => ChanId.node.inj

theorem mem_channels_chans (cut : CutGraph g) (perm : order.Perm g.nodes) {c : ChanId} :
    c ∈ channels (registryTable g order) ↔ ∃ n ∈ g.nodes, c = .node n := by
  rw [channels_chans cut.onlyChans fun n => perm.mem_iff.mp, List.mem_map]
  simp only [perm.mem_iff, eq_comm]

/-- In whatever order the channels were registered, they are set up in the same way. -/
theorem setUp_eq (cut : CutGraph g) (wired : ChansWired g w) (perm : order.Perm g.nodes) :
    ∃ chans, setUp g s order w = some chans ∧
      ∀ n ∈ g.nodes, chans (.node n) = chanOf g s w n (modesOf g n) := by
  obtain ⟨chans, run, start⟩ := sizeChans_eq (s := s) (w := w) cut perm
  refine ⟨(channels (registryTable g order)).foldl (inheritModes w) chans, by rw [setUp, run]; rfl,
    fun n mem => ?_⟩
  rw [foldl_inheritModes (nodup_channels cut perm)]
  · exact (if_pos ((mem_channels_chans cut perm).mpr ⟨n, mem, rfl⟩)).trans
      (inherited_eq cut wired start mem)
  · intro c listed
    obtain ⟨n, there, rfl⟩ := (mem_channels_chans cut perm).mp listed
    exact upstream_plain cut wired start there

end DataflowSim.Registry
