import DataflowSim.Registry.Table
import DataflowSim.Library.Run

/-!
# Connecting the modules

`Registry::genConnect`. Each module first enters what its own node names; then every channel
enters itself at the other ends of its connections, and copies are removed. The begin and the
end channel are left out of the first part: a loop controller enters the begin channel into its
multiplexer, and itself into the end channel through its `sendEnd`.
-/

open DataflowSim.Graph

namespace DataflowSim.Registry

structure Wiring where
  upstream : ChanId → List ChanId
  downstream : ChanId → List ChanId
  noUpstream : ChanId → Bool
  noDownstream : ChanId → Bool

namespace Wiring

/-- Null pointers are skipped. -/
def addUpstream (w : Wiring) (c : ChanId) (ups : List (Option ChanId)) : Wiring :=
  { w with upstream := Function.update w.upstream c (w.upstream c ++ ups.reduceOption) }

def addDownstream (w : Wiring) (c : ChanId) (downs : List (Option ChanId)) : Wiring :=
  { w with downstream := Function.update w.downstream c (w.downstream c ++ downs.reduceOption) }

/-- `noUpstream` of the input of a multiplexer tells whether it has an upstream channel. -/
def setNoUpstream (w : Wiring) (c : ChanId) : Wiring :=
  { w with noUpstream := Function.update w.noUpstream c (w.upstream c).isEmpty }

/-- `Lc::addDependence` -/
def addDependence (w : Wiring) (l : String) (initDepend updateDepend : List (Option ChanId)) :
    Wiring :=
  let w := w.addUpstream (.falseChan (.ofLc l)) initDepend
  let w := w.addUpstream (.trueChan (.ofLc l)) updateDepend
  (w.setNoUpstream (.trueChan (.ofLc l))).setNoUpstream (.falseChan (.ofLc l))

/-- `Lc::addPort` -/
def addPort (w : Wiring) (l : String) (getActive sendActive getEnd sendEnd : List (Option ChanId)) :
    Wiring :=
  let w := w.addUpstream (.loopVar l) getActive
  let w := w.addDownstream (.loopVar l) sendActive
  let w := w.addUpstream (.getEnd l) getEnd
  w.addDownstream (.sendEnd l) sendEnd

/-- The connections that the modules have when they have been made: the multiplexer in a loop
controller reads and feeds the loop variable. -/
def generated : Wiring where
  upstream
    | .loopVar l => [.outChan (.ofLc l)]
    | .trueChan (.ofLc l) => [.loopVar l]
    | _ => []
  downstream
    | .loopVar l => [.trueChan (.ofLc l)]
    | .outChan (.ofLc l) => [.loopVar l]
    | _ => []
  noUpstream
    | .sendEnd _ | .outChan _ | .falseChan (.ofLc _) => true
    | _ => false
  noDownstream
    | .getEnd _ | .trueChan _ | .falseChan _ => true
    | _ => false

end Wiring

/-- The channel from which a module sends. -/
def upModule : Module → ChanId
  | .lc l => .loopVar l
  | .chan c => c
  | .mux m => .outChan m

/-- The channel into which a module takes what a channel sends; it is not known for a
multiplexer, whose own entry adds it. -/
def downModule : Module → Option ChanId
  | .lc l => some (.loopVar l)
  | .chan c => some c
  | .mux _ => none

def connectChan (g : ChanGraph) (table : List Module) (c : ChanId) (w : Wiring) : Option Wiring := do
  let x ← g.getNode c.moduleName
  let w ← x.allPre.foldlM (fun w upstream => do
    let registryEntry ← getRegistryTableEntry table upstream
    some (w.addUpstream c [some (upModule registryEntry)])) w
  x.allNext.foldlM (fun w downstream => do
    let registryEntry ← getRegistryTableEntry table downstream
    some (w.addDownstream c [downModule registryEntry])) w

/-- The begin channel feeds the multiplexer in the loop controller. -/
def connectBegin (table : List Module) (l : String) (getActiveName : List String) (w : Wiring) :
    Option Wiring :=
  if "Chan_begin" ∈ getActiveName then do
    let chanBegin ← getChan table "Chan_begin"
    some (w.addDependence l [chanBegin] [])
  else some w

/-- The loop controller feeds the end channel by its `sendEnd`. -/
def connectEnd (table : List Module) (l : String) (sendActiveName : List String) (w : Wiring) :
    Option Wiring :=
  if "Chan_end" ∈ sendActiveName then do
    let chanEnd ← getChan table "Chan_end"
    some (w.addPort l [] [] [] [chanEnd])
  else some w

/-- The channel that tells the end of an iteration. -/
def tailChan (table : List Module) (getEndName : String) : Option ChanId := do
  match ← getRegistryTableEntry table getEndName with
  | .lc k => some (.sendEnd k)
  | .chan c => some c
  | .mux _ => none

def connectLc (g : ChanGraph) (table : List Module) (l : String) (w : Wiring) : Option Wiring := do
  let x ← g.getNode l
  let region ← g.controlTree.getCtrlRegion x.controlRegionName
  let getEndName := region.theTailNode
  if getEndName = "" then none
  else
    let w ← connectBegin table l x.allPre w
    let w ← connectEnd table l x.allNext w
    let getActive ← (x.allPre.erase "Chan_begin").mapM (getChan table)
    let sendActive ← (x.allNext.erase "Chan_end").mapM (getChan table)
    let getEnd ← tailChan table getEndName
    some (w.addPort l getActive sendActive [some getEnd] [])

/-- A port of a multiplexer; `"NULL"` stands for no connection. -/
def connectPort (table : List Module) (name : String) (enter : List (Option ChanId) → Wiring)
    (w : Wiring) : Option Wiring :=
  if name ≠ "NULL" then do
    let chan ← getChan table name
    some (enter [chan])
  else some w

/-- The test of the arity wants both numbers to be wrong; a list that is too short is then read
behind its end. -/
def connectMux (g : ChanGraph) (table : List Module) (m : MuxId) (w : Wiring) : Option Wiring := do
  let x ← g.getNode m.moduleName
  if (x.preNodes .data).length ≠ 2 ∧ (x.nextNodes .data).length ≠ 1 then none
  else
    let trueChanUpstream ← (x.preNodes .data)[0]?
    let falseChanUpstream ← (x.preNodes .data)[1]?
    let outChanDownstream ← (x.nextNodes .data)[0]?
    let w ← connectPort table trueChanUpstream (w.addUpstream (.trueChan m)) w
    let w ← connectPort table falseChanUpstream (w.addUpstream (.falseChan m)) w
    connectPort table outChanDownstream (w.addDownstream (.outChan m)) w

/-- One entry of the first loop. -/
def connectEntry (g : ChanGraph) (table : List Module) (w : Wiring) : Module → Option Wiring
  | .lc l => connectLc g table l w
  | .mux m => if m.masterName = "" then connectMux g table m w else some w
  | .chan c =>
    if c.masterName = "None" ∧ c.moduleName ≠ "Chan_end" ∧ c.moduleName ≠ "Chan_begin" then
      connectChan g table c w
    else some w

/-- One entry of the second loop. -/
def completeConnect (w : Wiring) (c : ChanId) : Wiring :=
  let lists := Adjacency.join (w.upstream, w.downstream) c
  { w with upstream := lists.1, downstream := lists.2 }

def setNoConnect (w : Wiring) (c : ChanId) : Wiring :=
  { w with
    noUpstream := Function.update w.noUpstream c (w.noUpstream c || (w.upstream c).isEmpty)
    noDownstream := Function.update w.noDownstream c (w.noDownstream c || (w.downstream c).isEmpty) }

def removeRedundantConnect (w : Wiring) (c : ChanId) : Wiring :=
  { w with
    upstream := Function.update w.upstream c (Adjacency.distinct (w.upstream c))
    downstream := Function.update w.downstream c (Adjacency.distinct (w.downstream c)) }

def genConnect (g : ChanGraph) (order : List String) : Option Wiring := do
  let table := registryTable g order
  let w ← table.foldlM (connectEntry g table) .generated
  let w := (channels table).foldl completeConnect w
  let w := (channels table).foldl setNoConnect w
  some ((channels table).foldl removeRedundantConnect w)

/-! ## What the connections are to be -/

/-- Multiplexers have two data inputs and one data output, and the tail node of the region of a
loop controller is a channel or a loop controller. -/
structure Connectable (g : ChanGraph) (order : List String) : Prop extends g.Connected where
  mux : ∀ n ∈ g.nodes, (g.node n).nodeType = .Mux →
    (g.pre .data n).length = 2 ∧ (g.next .data n).length = 1
  declared : ∀ n ∈ g.nodes, (g.node n).nodeType = .Lc →
    (g.node n).controlRegionName ∈ g.controlTree.regions
  tail : ∀ n ∈ g.nodes, (g.node n).nodeType = .Lc →
    ∃ e ∈ registryTable g order, e.moduleName ≠ "" ∧
      (g.controlTree.region (g.node n).controlRegionName).theTailNode = e.moduleName ∧
        ∀ m, e ≠ .mux m

/-- The upstream channels of a channel node are in the places of its data operands. -/
def ReadsOperands (g : ChanGraph) (w : Wiring) (n : String) : Prop :=
  ∀ (i : Nat) (p : String), (g.pre .data n)[i]? = some p →
    (w.upstream (.node n))[i]? = some (upModule (nodeModule g p))

structure Wired (g : ChanGraph) (order : List String) (w : Wiring) : Prop where
  registered : ∀ c ∈ channels (registryTable g order), ∀ d,
    d ∈ w.upstream c ∨ d ∈ w.downstream c → d ∈ channels (registryTable g order)
  symmetric : ∀ c ∈ channels (registryTable g order), ∀ d ∈ channels (registryTable g order),
    d ∈ w.downstream c ↔ c ∈ w.upstream d
  nodupUp : ∀ c ∈ channels (registryTable g order), (w.upstream c).Nodup
  nodupDown : ∀ c ∈ channels (registryTable g order), (w.downstream c).Nodup
  operands : ∀ n ∈ g.nodes, nodeModule g n = .chan (.node n) → n ≠ "Chan_begin" → n ≠ "Chan_end" →
    ReadsOperands g w n
  chanBegin : nodeModule g "Chan_begin" = .chan (.node "Chan_begin") → ∀ n ∈ g.nodes,
    nodeModule g n = .lc n → "Chan_begin" ∈ (g.node n).allPre →
      .node "Chan_begin" ∈ w.upstream (.falseChan (.ofLc n))
  chanEnd : nodeModule g "Chan_end" = .chan (.node "Chan_end") → ∀ n ∈ g.nodes,
    nodeModule g n = .lc n → "Chan_end" ∈ (g.node n).allNext →
      .sendEnd n ∈ w.upstream (.node "Chan_end")

/-! ## The first loop -/

section
variable {g : ChanGraph} {order : List String} {table : List Module} {w u v : Wiring} {c : ChanId}
  {n : String}

/-- Channels of the table have been put behind the lists. -/
structure Grown (table : List Module) (w u : Wiring) : Prop where
  up : ∀ c, ∃ new, (∀ d ∈ new, d ∈ channels table) ∧ u.upstream c = w.upstream c ++ new
  down : ∀ c, ∃ new, (∀ d ∈ new, d ∈ channels table) ∧ u.downstream c = w.downstream c ++ new

theorem Grown.refl (table : List Module) (w : Wiring) : Grown table w w :=
  ⟨fun _ => ⟨[], by simp, by simp⟩, fun _ => ⟨[], by simp, by simp⟩⟩

theorem Grown.trans (h : Grown table w u) (k : Grown table u v) : Grown table w v := by
  constructor
  · intro c
    obtain ⟨a, ha, eqA⟩ := h.up c
    obtain ⟨b, hb, eqB⟩ := k.up c
    exact ⟨a ++ b, List.forall_mem_append.mpr ⟨ha, hb⟩, by rw [eqB, eqA, List.append_assoc]⟩
  · intro c
    obtain ⟨a, ha, eqA⟩ := h.down c
    obtain ⟨b, hb, eqB⟩ := k.down c
    exact ⟨a ++ b, List.forall_mem_append.mpr ⟨ha, hb⟩, by rw [eqB, eqA, List.append_assoc]⟩

theorem Grown.mem_up (h : Grown table w u) {d : ChanId} (mem : d ∈ w.upstream c) :
    d ∈ u.upstream c := by
  obtain ⟨new, -, eq⟩ := h.up c
  exact eq ▸ List.mem_append_left new mem

theorem Grown.mem_down (h : Grown table w u) {d : ChanId} (mem : d ∈ w.downstream c) :
    d ∈ u.downstream c := by
  obtain ⟨new, -, eq⟩ := h.down c
  exact eq ▸ List.mem_append_left new mem

/-- The pointers that are not null point to channels of the table. -/
def Known (table : List Module) (ptrs : List (Option ChanId)) : Prop :=
  ∀ d, some d ∈ ptrs → d ∈ channels table

theorem Known.reduced {ptrs : List (Option ChanId)} (known : Known table ptrs) :
    ∀ d ∈ ptrs.reduceOption, d ∈ channels table :=
  fun d mem => known d (List.reduceOption_mem_iff.mp mem)

theorem known_nil : Known table [] := by simp [Known]

theorem grown_addUpstream {ups : List (Option ChanId)} (known : Known table ups) (w : Wiring)
    (c : ChanId) : Grown table w (w.addUpstream c ups) := by
  refine ⟨fun d => ?_, fun d => ⟨[], by simp, by simp [Wiring.addUpstream]⟩⟩
  by_cases here : d = c
  · subst here
    exact ⟨_, known.reduced, by simp [Wiring.addUpstream]⟩
  · exact ⟨[], by simp, by simp [Wiring.addUpstream, here]⟩

theorem grown_addDownstream {downs : List (Option ChanId)} (known : Known table downs) (w : Wiring)
    (c : ChanId) : Grown table w (w.addDownstream c downs) := by
  refine ⟨fun d => ⟨[], by simp, by simp [Wiring.addDownstream]⟩, fun d => ?_⟩
  by_cases here : d = c
  · subst here
    exact ⟨_, known.reduced, by simp [Wiring.addDownstream]⟩
  · exact ⟨[], by simp, by simp [Wiring.addDownstream, here]⟩

theorem grown_addPort {ga sa ge se : List (Option ChanId)} (hga : Known table ga)
    (hsa : Known table sa) (hge : Known table ge) (hse : Known table se) (w : Wiring) (l : String) :
    Grown table w (w.addPort l ga sa ge se) :=
  (grown_addUpstream hga w _).trans ((grown_addDownstream hsa _ _).trans
    ((grown_addUpstream hge _ _).trans (grown_addDownstream hse _ _)))

theorem grown_setNoUpstream (w : Wiring) (c : ChanId) : Grown table w (w.setNoUpstream c) :=
  ⟨fun _ => ⟨[], by simp, by simp [Wiring.setNoUpstream]⟩,
    fun _ => ⟨[], by simp, by simp [Wiring.setNoUpstream]⟩⟩

theorem grown_addDependence {init update : List (Option ChanId)} (hi : Known table init)
    (hu : Known table update) (w : Wiring) (l : String) :
    Grown table w (w.addDependence l init update) :=
  (grown_addUpstream hi w _).trans ((grown_addUpstream hu _ _).trans
    ((grown_setNoUpstream _ _).trans (grown_setNoUpstream _ _)))

@[simp] theorem addUpstream_node_of_ne {ups : List (Option ChanId)} (h : .node n ≠ c) :
    (w.addUpstream c ups).upstream (.node n) = w.upstream (.node n) := by
  simp [Wiring.addUpstream, h]

@[simp] theorem addDownstream_upstream {downs : List (Option ChanId)} :
    (w.addDownstream c downs).upstream = w.upstream := rfl

@[simp] theorem addPort_upstream_node {l : String} {ga sa ge se : List (Option ChanId)} :
    (w.addPort l ga sa ge se).upstream (.node n) = w.upstream (.node n) := by
  simp [Wiring.addPort]

@[simp] theorem addDependence_upstream_node {l : String} {init update : List (Option ChanId)} :
    (w.addDependence l init update).upstream (.node n) = w.upstream (.node n) := by
  simp [Wiring.addDependence, Wiring.setNoUpstream]

section
variable (generated : Generated g order) (mem : n ∈ g.nodes)
include generated mem

theorem upModule_known : upModule (nodeModule g n) ∈ channels (registryTable g order) := by
  rw [mem_channels, mem_registryTable generated]
  refine ⟨n, mem, ?_⟩
  unfold genModule
  cases nodeModule g n <;> simp [upModule, muxModules]

theorem chanPtr_known {d : ChanId} (ptr : (nodeModule g n).chanPtr = some d) :
    d ∈ channels (registryTable g order) :=
  List.mem_filterMap.mpr ⟨_, nodeModule_mem generated mem, ptr⟩

theorem downModule_known {d : ChanId} (down : downModule (nodeModule g n) = some d) :
    d ∈ channels (registryTable g order) := by
  cases kind : nodeModule g n with
  | chan e =>
    rw [kind] at down
    exact chanPtr_known generated mem (by rw [kind]; exact down)
  | lc l =>
    have here := upModule_known generated mem
    rw [kind] at here down
    exact Option.some.inj down ▸ here
  | mux m => simp [kind, downModule] at down

end

/-- Nothing but the channels inside of other modules gets new upstream channels. -/
structure Inner (table : List Module) (w u : Wiring) : Prop where
  grown : Grown table w u
  node : ∀ m, u.upstream (.node m) = w.upstream (.node m)

theorem Inner.refl (table : List Module) (w : Wiring) : Inner table w w := ⟨.refl table w, fun _ => rfl⟩

theorem Inner.trans (h : Inner table w u) (k : Inner table u v) : Inner table w v :=
  ⟨h.grown.trans k.grown, fun m => (k.node m).trans (h.node m)⟩

theorem addUpstream_addUpstream (w : Wiring) (c : ChanId) (a b : List (Option ChanId)) :
    (w.addUpstream c a).addUpstream c b = w.addUpstream c (a ++ b) := by
  simp [Wiring.addUpstream, List.reduceOption_append]

theorem addDownstream_addDownstream (w : Wiring) (c : ChanId) (a b : List (Option ChanId)) :
    (w.addDownstream c a).addDownstream c b = w.addDownstream c (a ++ b) := by
  simp [Wiring.addDownstream, List.reduceOption_append]

theorem addUpstream_nil (w : Wiring) (c : ChanId) : w.addUpstream c [] = w := by
  simp [Wiring.addUpstream]

theorem addDownstream_nil (w : Wiring) (c : ChanId) : w.addDownstream c [] = w := by
  simp [Wiring.addDownstream]

section
variable (generated : Generated g order)
include generated

theorem addUpstreams_eq (names : List String) (known : ∀ p ∈ names, p ∈ g.nodes) (w : Wiring) :
    names.foldlM (fun w upstream => do
      let registryEntry ← getRegistryTableEntry (registryTable g order) upstream
      some (w.addUpstream c [some (upModule registryEntry)])) w =
      some (w.addUpstream c (names.map fun p => some (upModule (nodeModule g p)))) := by
  induction names generalizing w with
  | nil => simp [addUpstream_nil]
  | cons p names ih =>
    obtain ⟨here, rest⟩ := List.forall_mem_cons.mp known
    rw [List.foldlM_cons, entry_of_node generated here]
    simpa [addUpstream_addUpstream] using
      ih rest (w.addUpstream c [some (upModule (nodeModule g p))])

theorem addDownstreams_eq (names : List String) (known : ∀ p ∈ names, p ∈ g.nodes) (w : Wiring) :
    names.foldlM (fun w downstream => do
      let registryEntry ← getRegistryTableEntry (registryTable g order) downstream
      some (w.addDownstream c [downModule registryEntry])) w =
      some (w.addDownstream c (names.map fun p => downModule (nodeModule g p))) := by
  induction names generalizing w with
  | nil => simp [addDownstream_nil]
  | cons p names ih =>
    obtain ⟨here, rest⟩ := List.forall_mem_cons.mp known
    rw [List.foldlM_cons, entry_of_node generated here]
    simpa [addDownstream_addDownstream] using
      ih rest (w.addDownstream c [downModule (nodeModule g p)])

theorem getChans_eq (names : List String) (known : ∀ p ∈ names, p ∈ g.nodes) :
    names.mapM (getChan (registryTable g order)) =
      some (names.map fun p => (nodeModule g p).chanPtr) := by
  induction names with
  | nil => rfl
  | cons p names ih =>
    obtain ⟨here, rest⟩ := List.forall_mem_cons.mp known
    simp [List.mapM_cons, getChan_of_node generated here, ih rest]

theorem known_chanPtrs {names : List String} (known : ∀ p ∈ names, p ∈ g.nodes) :
    Known (registryTable g order) (names.map fun p => (nodeModule g p).chanPtr) := by
  intro d mem
  obtain ⟨p, there, ptr⟩ := List.mem_map.mp mem
  exact chanPtr_known generated (known p there) ptr

end

theorem pre_known (named : g.Named) (mem : n ∈ g.nodes) : ∀ p ∈ (g.node n).allPre, p ∈ g.nodes := by
  intro p there
  rcases List.mem_append.mp there with here | here
  · exact named.pre n mem _ p here
  · exact named.pre n mem _ p here

theorem next_known (named : g.Named) (mem : n ∈ g.nodes) :
    ∀ s ∈ (g.node n).allNext, s ∈ g.nodes := by
  intro s there
  rcases List.mem_append.mp there with here | here
  · exact named.next n mem _ s here
  · exact named.next n mem _ s here

section
variable (generated : Generated g order)
include generated

/-- The entry of a channel node. -/
theorem connectChan_eq (named : g.Named) (mem : n ∈ g.nodes) (w : Wiring) :
    ∃ u, connectChan g (registryTable g order) (.node n) w = some u ∧
      Grown (registryTable g order) w u ∧
      u.upstream = Function.update w.upstream (.node n)
        (w.upstream (.node n) ++ (g.node n).allPre.map fun p => upModule (nodeModule g p)) := by
  have pre := pre_known named mem
  have next := next_known named mem
  have ups : Known (registryTable g order)
      ((g.node n).allPre.map fun p => some (upModule (nodeModule g p))) := by
    intro d there
    obtain ⟨p, listed, ptr⟩ := List.mem_map.mp there
    exact Option.some.inj ptr ▸ upModule_known generated (pre p listed)
  have downs : Known (registryTable g order)
      ((g.node n).allNext.map fun p => downModule (nodeModule g p)) := by
    intro d there
    obtain ⟨p, listed, ptr⟩ := List.mem_map.mp there
    exact downModule_known generated (next p listed) ptr
  refine ⟨_, ?_, (grown_addUpstream ups w (.node n)).trans (grown_addDownstream downs _ (.node n)), ?_⟩
  · have found : g.getNode (ChanId.node n).moduleName = some (g.node n) :=
      ChanGraph.getNode_of_mem mem
    rw [connectChan, found, Option.bind_eq_bind, Option.bind_some, addUpstreams_eq generated _ pre,
      Option.bind_eq_bind, Option.bind_some, addDownstreams_eq generated _ next]
  · simp [Wiring.addUpstream, List.reduceOption]

theorem known_node (mem : n ∈ g.nodes) :
    Known (registryTable g order) [(nodeModule g n).chanPtr] := by
  simpa using known_chanPtrs generated (List.forall_mem_singleton.mpr mem)

theorem connectBegin_eq {l : String} {names : List String} (known : ∀ p ∈ names, p ∈ g.nodes)
    (w : Wiring) : ∃ u, connectBegin (registryTable g order) l names w = some u ∧
      Inner (registryTable g order) w u ∧
      ("Chan_begin" ∈ names → nodeModule g "Chan_begin" = .chan (.node "Chan_begin") →
        .node "Chan_begin" ∈ u.upstream (.falseChan (.ofLc l))) := by
  unfold connectBegin
  split_ifs with here
  · have ptr := known_node generated (known _ here)
    refine ⟨_, ?_, ⟨grown_addDependence ptr known_nil w l, by simp⟩, fun _ chan => ?_⟩
    · rw [getChan_of_node generated (known _ here)]
      rfl
    · simp [chan, Module.chanPtr, Wiring.addDependence, Wiring.addUpstream, Wiring.setNoUpstream]
  · exact ⟨w, rfl, .refl _ w, fun there => absurd there here⟩

theorem connectEnd_eq {l : String} {names : List String} (known : ∀ p ∈ names, p ∈ g.nodes)
    (w : Wiring) : ∃ u, connectEnd (registryTable g order) l names w = some u ∧
      Inner (registryTable g order) w u ∧
      ("Chan_end" ∈ names → nodeModule g "Chan_end" = .chan (.node "Chan_end") →
        .node "Chan_end" ∈ u.downstream (.sendEnd l)) := by
  unfold connectEnd
  split_ifs with here
  · have ptr := known_node generated (known _ here)
    refine ⟨_, ?_, ⟨grown_addPort known_nil known_nil known_nil ptr w l, by simp⟩, fun _ chan => ?_⟩
    · rw [getChan_of_node generated (known _ here)]
      rfl
    · simp [chan, Module.chanPtr, Wiring.addPort, Wiring.addDownstream]
  · exact ⟨w, rfl, .refl _ w, fun there => absurd there here⟩

theorem tailChan_eq {e : Module} (listed : e ∈ registryTable g order) (notMux : ∀ m, e ≠ .mux m) :
    ∃ c, tailChan (registryTable g order) e.moduleName = some c ∧
      c ∈ channels (registryTable g order) := by
  rw [tailChan, entry_of_mem generated.distinct listed]
  cases e with
  | chan c => exact ⟨c, rfl, mem_channels.mpr listed⟩
  | mux m => exact absurd rfl (notMux m)
  | lc k =>
    refine ⟨.sendEnd k, rfl, mem_channels.mpr ((mem_registryTable generated).mpr ?_)⟩
    obtain ⟨p, hp, made⟩ := (mem_registryTable generated).mp listed
    refine ⟨p, hp, ?_⟩
    unfold genModule at made ⊢
    split at made <;> simp_all [muxModules]

/-- The entry of a loop controller. -/
theorem connectLc_eq (connectable : Connectable g order) (mem : n ∈ g.nodes)
    (kind : (g.node n).nodeType = .Lc) (w : Wiring) :
    ∃ u, connectLc g (registryTable g order) n w = some u ∧ Inner (registryTable g order) w u ∧
      ("Chan_begin" ∈ (g.node n).allPre → nodeModule g "Chan_begin" = .chan (.node "Chan_begin") →
        .node "Chan_begin" ∈ u.upstream (.falseChan (.ofLc n))) ∧
      ("Chan_end" ∈ (g.node n).allNext → nodeModule g "Chan_end" = .chan (.node "Chan_end") →
        .node "Chan_end" ∈ u.downstream (.sendEnd n)) := by
  have pre := pre_known connectable.toNamed mem
  have next := next_known connectable.toNamed mem
  have preLeft (p : String) (there : p ∈ (g.node n).allPre.erase "Chan_begin") : p ∈ g.nodes :=
    pre p (List.mem_of_mem_erase there)
  have nextLeft (s : String) (there : s ∈ (g.node n).allNext.erase "Chan_end") : s ∈ g.nodes :=
    next s (List.mem_of_mem_erase there)
  obtain ⟨e, listed, nonempty, tail, notMux⟩ := connectable.tail n mem kind
  obtain ⟨w₁, begins, inner₁, chanBegin⟩ := connectBegin_eq generated (l := n) pre w
  obtain ⟨w₂, ends, inner₂, chanEnd⟩ := connectEnd_eq generated (l := n) next w₁
  obtain ⟨getEnd, ending, known⟩ := tailChan_eq generated listed notMux
  have getEndKnown : Known (registryTable g order) [some getEnd] := by
    intro d there
    rwa [Option.some.inj (List.mem_singleton.mp there)]
  have inner₃ : Inner (registryTable g order) w₂ (w₂.addPort n _ _ _ []) :=
    ⟨grown_addPort (known_chanPtrs generated preLeft) (known_chanPtrs generated nextLeft) getEndKnown
      known_nil w₂ n, by simp⟩
  refine ⟨_, ?_, inner₁.trans (inner₂.trans inner₃), fun there chan => ?_, fun there chan => ?_⟩
  · have region : g.controlTree.getCtrlRegion (g.node n).controlRegionName =
        some (g.controlTree.region (g.node n).controlRegionName) :=
      ControlTree.getCtrlRegion_of_mem (connectable.declared n mem kind)
    simp only [connectLc, ChanGraph.getNode_of_mem mem, region, tail, if_neg nonempty, begins, ends,
      ending, Option.bind_eq_bind, Option.bind_some, getChans_eq generated _ preLeft,
      getChans_eq generated _ nextLeft]
  · exact inner₃.grown.mem_up (inner₂.grown.mem_up (chanBegin there chan))
  · exact inner₃.grown.mem_down (chanEnd there chan)

theorem connectPort_eq {name : String} (mem : name ∈ g.nodes) {enter : List (Option ChanId) → Wiring}
    (entered : ∀ ptrs, Known (registryTable g order) ptrs →
      Inner (registryTable g order) w (enter ptrs)) :
    ∃ u, connectPort (registryTable g order) name enter w = some u ∧
      Inner (registryTable g order) w u := by
  unfold connectPort
  split_ifs with named
  · rw [getChan_of_node generated mem]
    exact ⟨_, rfl, entered _ (known_node generated mem)⟩
  · exact ⟨w, rfl, .refl _ w⟩

/-- The entry of a multiplexer of the graph. -/
theorem connectMux_eq (connectable : Connectable g order) (mem : n ∈ g.nodes)
    (kind : (g.node n).nodeType = .Mux) (w : Wiring) :
    ∃ u, connectMux g (registryTable g order) (.node n) w = some u ∧
      Inner (registryTable g order) w u := by
  obtain ⟨two, one⟩ := connectable.mux n mem kind
  obtain ⟨a, b, inputs⟩ := List.length_eq_two.mp two
  obtain ⟨c, output⟩ := List.length_eq_one_iff.mp one
  have ha : a ∈ g.nodes := connectable.pre n mem .data a (by simp [inputs])
  have hb : b ∈ g.nodes := connectable.pre n mem .data b (by simp [inputs])
  have hc : c ∈ g.nodes := connectable.next n mem .data c (by simp [output])
  obtain ⟨w₁, first, inner₁⟩ := connectPort_eq generated ha fun ptrs known =>
    ⟨grown_addUpstream known w (.trueChan (.node n)), fun m => addUpstream_node_of_ne (by simp)⟩
  obtain ⟨w₂, second, inner₂⟩ := connectPort_eq generated hb fun ptrs known =>
    ⟨grown_addUpstream known w₁ (.falseChan (.node n)), fun m => addUpstream_node_of_ne (by simp)⟩
  obtain ⟨w₃, third, inner₃⟩ := connectPort_eq generated hc fun ptrs known =>
    ⟨grown_addDownstream known w₂ (.outChan (.node n)), fun m => rfl⟩
  refine ⟨w₃, ?_, inner₁.trans (inner₂.trans inner₃)⟩
  have found : g.getNode (MuxId.node n).moduleName = some (g.node n) := ChanGraph.getNode_of_mem mem
  unfold ChanGraph.pre at inputs
  unfold ChanGraph.next at output
  simp [connectMux, found, inputs, output, first, second, third]

/-- The connections after the entries of a part of the table. -/
structure Progress (g : ChanGraph) (order : List String) (done : List Module) (w : Wiring) : Prop where
  registered : ∀ c ∈ channels (registryTable g order), ∀ d,
    d ∈ w.upstream c ∨ d ∈ w.downstream c → d ∈ channels (registryTable g order)
  untouched : ∀ n, .chan (.node n) ∉ done → w.upstream (.node n) = []
  own : ∀ n, .chan (.node n) ∈ done → n ≠ "Chan_begin" → n ≠ "Chan_end" →
    w.upstream (.node n) = (g.node n).allPre.map fun p => upModule (nodeModule g p)
  chanBegin : nodeModule g "Chan_begin" = .chan (.node "Chan_begin") → ∀ n, .lc n ∈ done →
    "Chan_begin" ∈ (g.node n).allPre → .node "Chan_begin" ∈ w.upstream (.falseChan (.ofLc n))
  chanEnd : nodeModule g "Chan_end" = .chan (.node "Chan_end") → ∀ n, .lc n ∈ done →
    "Chan_end" ∈ (g.node n).allNext → .node "Chan_end" ∈ w.downstream (.sendEnd n)

omit generated in
theorem Grown.registered (grown : Grown (registryTable g order) w u)
    (registered : ∀ c ∈ channels (registryTable g order), ∀ d,
      d ∈ w.upstream c ∨ d ∈ w.downstream c → d ∈ channels (registryTable g order)) :
    ∀ c ∈ channels (registryTable g order), ∀ d,
      d ∈ u.upstream c ∨ d ∈ u.downstream c → d ∈ channels (registryTable g order) := by
  intro c mem d
  obtain ⟨ups, upKnown, up⟩ := grown.up c
  obtain ⟨downs, downKnown, down⟩ := grown.down c
  rw [up, down, List.mem_append, List.mem_append]
  rintro ((old | new) | (old | new))
  · exact registered c mem d (.inl old)
  · exact upKnown d new
  · exact registered c mem d (.inr old)
  · exact downKnown d new

omit generated in
/-- An entry that does not belong to a channel which is connected by its own node. -/
theorem Progress.inner {done : List Module} {e : Module} (progress : Progress g order done w)
    (inner : Inner (registryTable g order) w u)
    (quiet : ∀ n, e = .chan (.node n) → n = "Chan_begin" ∨ n = "Chan_end")
    (begins : nodeModule g "Chan_begin" = .chan (.node "Chan_begin") → ∀ n, e = .lc n →
      "Chan_begin" ∈ (g.node n).allPre → .node "Chan_begin" ∈ u.upstream (.falseChan (.ofLc n)))
    (ends : nodeModule g "Chan_end" = .chan (.node "Chan_end") → ∀ n, e = .lc n →
      "Chan_end" ∈ (g.node n).allNext → .node "Chan_end" ∈ u.downstream (.sendEnd n)) :
    Progress g order (done ++ [e]) u := by
  refine ⟨inner.grown.registered progress.registered, fun n fresh => ?_, fun n mem notBegin notEnd => ?_,
    fun chan n mem listed => ?_, fun chan n mem listed => ?_⟩
  · rw [inner.node]
    exact progress.untouched n fun mem => fresh (List.mem_append_left _ mem)
  · rw [inner.node]
    rcases List.mem_append.mp mem with before | now
    · exact progress.own n before notBegin notEnd
    · rcases quiet n (List.mem_singleton.mp now).symm with rfl | rfl
      · exact absurd rfl notBegin
      · exact absurd rfl notEnd
  · rcases List.mem_append.mp mem with before | now
    · exact inner.grown.mem_up (progress.chanBegin chan n before listed)
    · exact begins chan n (List.mem_singleton.mp now).symm listed
  · rcases List.mem_append.mp mem with before | now
    · exact inner.grown.mem_down (progress.chanEnd chan n before listed)
    · exact ends chan n (List.mem_singleton.mp now).symm listed

/-- A channel node that is connected by its own node. -/
theorem Progress.chan {done : List Module} (progress : Progress g order done w)
    (named : g.Named) (mem : n ∈ g.nodes) (fresh : .chan (.node n) ∉ done) :
    ∃ u, connectChan g (registryTable g order) (.node n) w = some u ∧
      Progress g order (done ++ [.chan (.node n)]) u := by
  obtain ⟨u, run, grown, ups⟩ := connectChan_eq generated named mem w
  have same (c : ChanId) (h : c ≠ .node n) : u.upstream c = w.upstream c := by rw [ups]; simp [h]
  refine ⟨u, run, grown.registered progress.registered, fun m later => ?_,
    fun m there notBegin notEnd => ?_, fun chan m there listed => ?_, fun chan m there listed => ?_⟩
  · have apart : m ≠ n := by
      rintro rfl
      simp at later
    rw [same _ (by simpa using apart)]
    exact progress.untouched m fun before => later (List.mem_append_left _ before)
  · by_cases here : m = n
    · subst here
      rw [ups, Function.update_self, progress.untouched m fresh, List.nil_append]
    · rw [same _ (by simpa using here)]
      exact progress.own m (by simpa [here] using there) notBegin notEnd
  · exact grown.mem_up (progress.chanBegin chan m (by simpa using there) listed)
  · exact grown.mem_down (progress.chanEnd chan m (by simpa using there) listed)

theorem Progress.step (connectable : Connectable g order) {done rest : List Module} {e : Module}
    (split : done ++ e :: rest = registryTable g order) (progress : Progress g order done w) :
    ∃ u, connectEntry g (registryTable g order) w e = some u ∧ Progress g order (done ++ [e]) u := by
  have mem : e ∈ registryTable g order := by simp [← split]
  have skip (quiet : ∀ n, e = .chan (.node n) → n = "Chan_begin" ∨ n = "Chan_end")
      (notLc : ∀ n, e ≠ .lc n) : Progress g order (done ++ [e]) w :=
    progress.inner (.refl _ w) quiet (fun _ n is => absurd is (notLc n))
      fun _ n is => absurd is (notLc n)
  cases e with
  | lc l =>
    obtain ⟨hl, kind⟩ := lc_mem generated mem
    obtain ⟨u, run, inner, begins, ends⟩ := connectLc_eq generated connectable hl kind w
    refine ⟨u, run, progress.inner inner (by simp) (fun chan n is listed => ?_)
      fun chan n is listed => ?_⟩
    · obtain rfl := Module.lc.inj is
      exact begins listed chan
    · obtain rfl := Module.lc.inj is
      exact ends listed chan
  | mux m =>
    cases m with
    | node m =>
      obtain ⟨hm, kind⟩ := mux_mem generated mem
      obtain ⟨u, run, inner⟩ := connectMux_eq generated connectable hm kind w
      exact ⟨u, run, progress.inner inner (by simp) (by simp) (by simp)⟩
    | ofLc l =>
      obtain ⟨hl, kind⟩ := ofLc_mem generated mem
      have owned : (MuxId.ofLc l).masterName ≠ "" := (generated.lcName l hl kind).2
      exact ⟨w, if_neg owned, skip (by simp) (by simp)⟩
  | chan c =>
    by_cases plain : c.masterName = "None" ∧ c.moduleName ≠ "Chan_end" ∧ c.moduleName ≠ "Chan_begin"
    · obtain ⟨n, rfl⟩ := (masterName_eq_none_iff generated mem).mp plain.1
      have fresh : Module.chan (.node n) ∉ done := by
        intro before
        have distinct := generated.distinct
        rw [← split, List.map_append, List.map_cons] at distinct
        exact List.disjoint_of_nodup_append distinct (List.mem_map_of_mem before) List.mem_cons_self
      obtain ⟨u, run, next⟩ :=
        progress.chan generated connectable.toNamed (chan_mem generated mem).1 fresh
      exact ⟨u, by rw [connectEntry, if_pos plain, run], next⟩
    · refine ⟨w, if_neg plain, skip (fun n is => ?_) (by simp)⟩
      obtain rfl := Module.chan.inj is
      simp only [ChanId.masterName, ChanId.moduleName, true_and, not_and_or, not_not] at plain
      exact plain.symm

omit generated in
/-- The connections inside of a loop controller are among its own channels. -/
theorem generated_known (generated : Generated g order) :
    ∀ c ∈ channels (registryTable g order), ∀ d,
      d ∈ Wiring.generated.upstream c ∨ d ∈ Wiring.generated.downstream c →
        d ∈ channels (registryTable g order) := by
  intro c mem d there
  rw [mem_channels, mem_registryTable generated] at *
  obtain ⟨n, hn, made⟩ := mem
  refine ⟨n, hn, ?_⟩
  cases kind : (g.node n).nodeType <;> simp [genModule, nodeModule, muxModules, kind] at made ⊢
  case Lc =>
    rcases made with rfl | rfl | rfl | rfl | rfl | rfl <;> simp_all [Wiring.generated]
    tauto
  case Mux => rcases made with rfl | rfl | rfl <;> simp_all [Wiring.generated]
  all_goals simp_all [Wiring.generated]

theorem connectEntries_progress (connectable : Connectable g order) :
    ∃ w, (registryTable g order).foldlM (connectEntry g (registryTable g order)) .generated = some w ∧
      Progress g order (registryTable g order) w :=
  Run.total (fun _ _ _ _ split progress => progress.step generated connectable split)
    ⟨generated_known generated, fun _ _ => rfl, by simp, by simp, by simp⟩

end

/-! ## The other loops -/

theorem foldl_completeConnect (cs : List ChanId) (w : Wiring) :
    cs.foldl completeConnect w =
      { w with
        upstream := (cs.foldl Adjacency.join (w.upstream, w.downstream)).1
        downstream := (cs.foldl Adjacency.join (w.upstream, w.downstream)).2 } := by
  induction cs generalizing w with
  | nil => rfl
  | cons c cs ih => rw [List.foldl_cons, ih]; rfl

theorem foldl_setNoConnect (cs : List ChanId) (w : Wiring) :
    (cs.foldl setNoConnect w).upstream = w.upstream ∧
      (cs.foldl setNoConnect w).downstream = w.downstream := by
  induction cs generalizing w with
  | nil => exact ⟨rfl, rfl⟩
  | cons c cs ih => exact ih (setNoConnect w c)

theorem foldl_removeRedundantConnect (cs : List ChanId) (w : Wiring) (c : ChanId) :
    (cs.foldl removeRedundantConnect w).upstream c =
        (if c ∈ cs then Adjacency.distinct (w.upstream c) else w.upstream c) ∧
      (cs.foldl removeRedundantConnect w).downstream c =
        if c ∈ cs then Adjacency.distinct (w.downstream c) else w.downstream c := by
  induction cs generalizing w with
  | nil => exact ⟨rfl, rfl⟩
  | cons b cs ih =>
    have twice (l : List ChanId) : Adjacency.distinct (Adjacency.distinct l) = Adjacency.distinct l :=
      Adjacency.distinct_of_nodup (Adjacency.nodup_distinct l)
    rw [List.foldl_cons, (ih _).1, (ih _).2]
    by_cases here : c = b
    · subst here
      simp [removeRedundantConnect, twice]
    · simp [removeRedundantConnect, here]

/-- Different nodes send from different channels. -/
theorem upModule_inj {m : String} (same : upModule (nodeModule g m) = upModule (nodeModule g n)) :
    m = n := by
  cases kindM : (g.node m).nodeType <;> cases kindN : (g.node n).nodeType <;>
    simp_all [upModule, nodeModule]

/-- The loops behind the first one. -/
def finish (cs : List ChanId) (w : Wiring) : Wiring :=
  cs.foldl removeRedundantConnect (cs.foldl setNoConnect (cs.foldl completeConnect w))

theorem finish_lists {cs : List ChanId} {w : Wiring} {c : ChanId} (mem : c ∈ cs) :
    (finish cs w).upstream c =
        Adjacency.distinct ((cs.foldl Adjacency.join (w.upstream, w.downstream)).1 c) ∧
      (finish cs w).downstream c =
        Adjacency.distinct ((cs.foldl Adjacency.join (w.upstream, w.downstream)).2 c) := by
  have last := foldl_removeRedundantConnect cs (cs.foldl setNoConnect (cs.foldl completeConnect w)) c
  obtain ⟨up, down⟩ := foldl_setNoConnect cs (cs.foldl completeConnect w)
  rw [if_pos mem, if_pos mem, up, down] at last
  have joined := foldl_completeConnect cs w
  rw [congrArg Wiring.upstream joined, congrArg Wiring.downstream joined] at last
  exact last

theorem mem_finish_up {cs : List ChanId} {d : ChanId} (mem : c ∈ cs) (there : d ∈ w.upstream c) :
    d ∈ (finish cs w).upstream c := by
  rw [(finish_lists mem).1, Adjacency.mem_distinct]
  exact (Adjacency.foldl_join_prefix cs c).1.subset there

theorem mem_finish_down {cs : List ChanId} {d : ChanId} (mem : c ∈ cs)
    (there : d ∈ w.downstream c) : d ∈ (finish cs w).downstream c := by
  rw [(finish_lists mem).2, Adjacency.mem_distinct]
  exact (Adjacency.foldl_join_prefix cs c).2.subset there

theorem finish_symmetric {cs : List ChanId} {d : ChanId} (hc : c ∈ cs) (hd : d ∈ cs) :
    d ∈ (finish cs w).downstream c ↔ c ∈ (finish cs w).upstream d := by
  rw [(finish_lists hc).2, (finish_lists hd).1, Adjacency.mem_distinct, Adjacency.mem_distinct]
  exact Adjacency.foldl_join_symmetric hc hd

/-- What comes first and without copies stays there. -/
theorem finish_prefix {cs l : List ChanId} (mem : c ∈ cs) (nodup : l.Nodup)
    (first : l <+: w.upstream c) : l <+: (finish cs w).upstream c := by
  obtain ⟨rest, whole⟩ := first.trans
    (@Adjacency.foldl_join_prefix _ _ (w.upstream, w.downstream) cs c).1
  rw [(finish_lists mem).1, ← whole]
  have start := Adjacency.distinct_prefix l rest
  rwa [Adjacency.distinct_of_nodup nodup] at start

theorem Progress.operands (connectable : Connectable g order)
    (progress : Progress g order (registryTable g order) w) (mem : n ∈ g.nodes)
    (inTable : .chan (.node n) ∈ registryTable g order) (notBegin : n ≠ "Chan_begin")
    (notEnd : n ≠ "Chan_end") : ReadsOperands g (finish (channels (registryTable g order)) w) n := by
  have nodup : ((g.pre .data n).map fun p => upModule (nodeModule g p)).Nodup :=
    (connectable.nodupPre .data n mem).map fun _ _ => upModule_inj
  have first : ((g.pre .data n).map fun p => upModule (nodeModule g p)) <+: w.upstream (.node n) := by
    rw [progress.own n inTable notBegin notEnd, ChanNode.allPre, List.map_append]
    exact List.prefix_append _ _
  obtain ⟨rest, places⟩ := finish_prefix (mem_channels.mpr inTable) nodup first
  intro i p there
  have mapped : ((g.pre .data n).map fun p => upModule (nodeModule g p))[i]? =
      some (upModule (nodeModule g p)) := by rw [List.getElem?_map, there, Option.map_some]
  obtain ⟨inside, -⟩ := List.getElem?_eq_some_iff.mp mapped
  rwa [← places, List.getElem?_append_left inside]

/-- In whatever order the modules were made, the lists of the channels agree, and each channel
node has its operands in the places of its list, but for the begin and the end channel. -/
theorem genConnect_wired (g : ChanGraph) (order : List String) (generated : Generated g order)
    (connectable : Connectable g order) : ∃ w, genConnect g order = some w ∧ Wired g order w := by
  obtain ⟨w, run, progress⟩ := connectEntries_progress generated connectable
  have whole : genConnect g order = some (finish (channels (registryTable g order)) w) := by
    simp [genConnect, run, finish]
  have node {n : String} (mem : n ∈ g.nodes) : nodeModule g n ∈ registryTable g order :=
    nodeModule_mem generated mem
  refine ⟨_, whole, fun c hc d there => ?_, fun c hc d hd => finish_symmetric hc hd,
    fun c hc => ?_, fun c hc => ?_, fun n hn kind => ?_, fun chan n hn kind listed => ?_,
    fun chan n hn kind listed => ?_⟩
  · rw [(finish_lists hc).1, (finish_lists hc).2, Adjacency.mem_distinct, Adjacency.mem_distinct] at there
    rcases there with up | down
    · rcases (Adjacency.mem_foldl_join _).1 up with old | new
      · exact progress.registered c hc d (.inl old)
      · exact new
    · rcases (Adjacency.mem_foldl_join _).2 down with old | new
      · exact progress.registered c hc d (.inr old)
      · exact new
  · rw [(finish_lists hc).1]
    exact Adjacency.nodup_distinct _
  · rw [(finish_lists hc).2]
    exact Adjacency.nodup_distinct _
  · exact progress.operands connectable hn (kind ▸ node hn)
  · have inner : .falseChan (.ofLc n) ∈ channels (registryTable g order) :=
      mem_channels.mpr ((mem_registryTable generated).mpr ⟨n, hn, by simp [genModule, kind, muxModules]⟩)
    exact mem_finish_up inner (progress.chanBegin chan n (kind ▸ node hn) listed)
  · have inner : .sendEnd n ∈ channels (registryTable g order) :=
      mem_channels.mpr ((mem_registryTable generated).mpr ⟨n, hn, by simp [genModule, kind]⟩)
    have end_mem : "Chan_end" ∈ g.nodes := next_known connectable.toNamed hn _ listed
    exact (finish_symmetric inner (mem_channels.mpr (chan ▸ node end_mem))).mp
      (mem_finish_down inner (progress.chanEnd chan n (kind ▸ node hn) listed))

end

/-- A loop around `Chan_a`, which is the tail of its region, and a multiplexer behind it. -/
def loopGraph : ChanGraph where
  nodes := ["Chan_begin", "Lc_i", "Chan_a", "Mux_m", "Chan_b", "Chan_end"]
  node n :=
    if n = "Chan_begin" then
      { controlRegionName := "Loop", nextNodes := fun κ => if κ = .active then ["Lc_i"] else [] }
    else if n = "Lc_i" then
      { nodeType := .Lc
        controlRegionName := "Loop"
        preNodes := fun κ => if κ = .active then ["Chan_begin"] else []
        nextNodes := fun κ => if κ = .data then ["Chan_a", "Mux_m", "Chan_end"] else [] }
    else if n = "Chan_a" then
      { controlRegionName := "Loop"
        preNodes := fun κ => if κ = .data then ["Lc_i"] else []
        nextNodes := fun κ => if κ = .data then ["Mux_m", "Chan_b"] else [] }
    else if n = "Mux_m" then
      { nodeType := .Mux
        controlRegionName := "Loop"
        preNodes := fun κ => if κ = .data then ["Chan_a", "Lc_i"] else []
        nextNodes := fun κ => if κ = .data then ["Chan_b"] else [] }
    else if n = "Chan_b" then
      { controlRegionName := "Loop"
        preNodes := fun κ => if κ = .data then ["Mux_m", "Chan_a"] else []
        nextNodes := fun κ => if κ = .data then ["Chan_end"] else [] }
    else
      { controlRegionName := "Loop"
        preNodes := fun κ => if κ = .data then ["Lc_i", "Chan_b"] else [] }
  controlTree := ⟨["Loop"], fun _ => { theTailNode := "Chan_a" }, List.nodup_singleton _⟩
  nodup := by decide

theorem loopGraph_generated : Generated loopGraph loopGraph.nodes where
  perm := .refl _
  distinct := by decide +kernel
  lcName := by decide
  muxName := by decide

theorem loopGraph_connectable : Connectable loopGraph loopGraph.nodes where
  pre := by decide
  next := by decide
  symmetric := by decide
  nodupPre := by decide
  nodupNext := by decide
  mux := by decide
  declared := by decide
  tail n hn kind := ⟨.chan (.node "Chan_a"), by decide, by decide, rfl, by simp⟩

theorem genConnect_wired_loop :
    ∃ w, genConnect loopGraph loopGraph.nodes = some w ∧ Wired loopGraph loopGraph.nodes w :=
  genConnect_wired loopGraph loopGraph.nodes loopGraph_generated loopGraph_connectable

/-- The first operand of the end channel is the loop controller, but its first upstream channel
is not the loop variable. -/
theorem chanEnd_from_sendEnd : loopGraph.Connected ∧
    ∃ w, genConnect loopGraph loopGraph.nodes = some w ∧
      (loopGraph.pre .data "Chan_end")[0]? = some "Lc_i" ∧
      upModule (nodeModule loopGraph "Lc_i") = .loopVar "Lc_i" ∧
      w.upstream (.node "Chan_end") = [.sendEnd "Lc_i", .node "Chan_b"] ∧
      ¬ ReadsOperands loopGraph w "Chan_end" := by
  refine ⟨loopGraph_connectable.toConnected, ?_⟩
  have run : (genConnect loopGraph loopGraph.nodes).map (fun w => w.upstream (.node "Chan_end")) =
      some [.sendEnd "Lc_i", .node "Chan_b"] := by decide +kernel
  obtain ⟨w, whole, ups⟩ := Option.map_eq_some_iff.mp run
  have operand : (loopGraph.pre .data "Chan_end")[0]? = some "Lc_i" := by decide
  have loopVar : upModule (nodeModule loopGraph "Lc_i") = .loopVar "Lc_i" := by decide
  refine ⟨w, whole, operand, loopVar, ups, fun reads => ?_⟩
  have first := reads 0 "Lc_i" operand
  rw [ups, loopVar] at first
  simp at first

end DataflowSim.Registry
