import DataflowSim.Graph.ChanGraph

/-!
# The registry

The part of `Registry.h` and `Registry.cpp` that makes the modules of a channel graph and finds
them by their names. A pointer to a channel is a `ChanId`, a null pointer is `none`. Each name
is registered once; a second registration of it ends the program.
-/

open DataflowSim.Graph

namespace DataflowSim.Registry

/-- A multiplexer of the graph, or the one in a loop controller. -/
inductive MuxId where
  | node (muxName : String)
  | ofLc (lcName : String)
  deriving DecidableEq, Repr

inductive ChanId where
  | node (chanName : String)
  | loopVar (lcName : String)
  | getEnd (lcName : String)
  | sendEnd (lcName : String)
  | trueChan (mux : MuxId)
  | falseChan (mux : MuxId)
  | outChan (mux : MuxId)
  deriving DecidableEq, Repr

def MuxId.moduleName : MuxId → String
  | node m => m
  | ofLc l => l ++ "_mux"

def MuxId.masterName : MuxId → String
  | node _ => ""
  | ofLc l => l

namespace ChanId

def moduleName : ChanId → String
  | node n => n
  | loopVar l => l ++ "_loopVar"
  | getEnd l => l ++ "_getEnd"
  | sendEnd l => l ++ "_sendEnd"
  | trueChan m => m.moduleName ++ "_trueChan"
  | falseChan m => m.moduleName ++ "_falseChan"
  | outChan m => m.moduleName ++ "_outChan"

def masterName : ChanId → String
  | node _ => "None"
  | loopVar l | getEnd l | sendEnd l => l
  | trueChan m | falseChan m | outChan m => m.moduleName

end ChanId

/-- What an entry of `registryTable` points to. -/
inductive Module where
  | chan (chanPtr : ChanId)
  | lc (lcName : String)
  | mux (muxPtr : MuxId)
  deriving DecidableEq, Repr

namespace Module

def moduleName : Module → String
  | chan c => c.moduleName
  | lc l => l
  | mux m => m.moduleName

def chanPtr : Module → Option ChanId
  | chan c => some c
  | _ => none

end Module

/-- The module that a node of the graph stands for. -/
def nodeModule (g : ChanGraph) (n : String) : Module :=
  match (g.node n).nodeType with
  | .Lc => .lc n
  | .Mux => .mux (.node n)
  | _ => .chan (.node n)

def muxModules (m : MuxId) : List Module :=
  [.mux m, .chan (.trueChan m), .chan (.falseChan m), .chan (.outChan m)]

/-- The modules that `genModule` registers for a node, in their order. -/
def genModule (g : ChanGraph) (n : String) : List Module :=
  match nodeModule g n with
  | .chan c => [.chan c]
  | .lc l => .lc l :: muxModules (.ofLc l) ++
      [.chan (.loopVar l), .chan (.getEnd l), .chan (.sendEnd l)]
  | .mux m => muxModules m

def registryTable (g : ChanGraph) (order : List String) : List Module := order.flatMap (genModule g)

def getRegistryTableEntry (table : List Module) (moduleName : String) : Option Module :=
  table.find? fun e => e.moduleName = moduleName

/-- The channel of an entry; a name without an entry has no result here. -/
def getChan (table : List Module) (moduleName : String) : Option (Option ChanId) :=
  (getRegistryTableEntry table moduleName).map Module.chanPtr

/-- All channels, also those inside of other modules. -/
def channels (table : List Module) : List ChanId := table.filterMap Module.chanPtr

/-- The modules of the graph have been generated, in some order of its nodes. A master name
tells a module inside another one, so `"None"` and `""` are not names of loop controllers, nor
`"None"` one of a multiplexer. -/
structure Generated (g : ChanGraph) (order : List String) : Prop where
  perm : order.Perm g.nodes
  distinct : ((registryTable g order).map Module.moduleName).Nodup
  lcName : ∀ n ∈ g.nodes, (g.node n).nodeType = .Lc → n ≠ "None" ∧ n ≠ ""
  muxName : ∀ n ∈ g.nodes, (g.node n).nodeType = .Mux → n ≠ "None"

section
variable {g : ChanGraph} {order : List String} {n : String}

theorem nodeModule_moduleName : (nodeModule g n).moduleName = n := by
  unfold nodeModule
  split <;> rfl

theorem nodeModule_mem_genModule : nodeModule g n ∈ genModule g n := by
  unfold genModule
  cases nodeModule g n <;> simp [muxModules]

theorem nodeModule_mem (generated : Generated g order) (mem : n ∈ g.nodes) :
    nodeModule g n ∈ registryTable g order :=
  List.mem_flatMap.mpr ⟨n, generated.perm.mem_iff.mpr mem, nodeModule_mem_genModule⟩

theorem entry_of_mem {table : List Module} (distinct : (table.map Module.moduleName).Nodup)
    {e : Module} (mem : e ∈ table) : getRegistryTableEntry table e.moduleName = some e := by
  induction table with
  | nil => cases mem
  | cons f table ih =>
    obtain ⟨fresh, rest⟩ := List.nodup_cons.mp distinct
    rcases List.mem_cons.mp mem with rfl | later
    · simp [getRegistryTableEntry]
    · have apart : f.moduleName ≠ e.moduleName := fun same =>
        fresh (same ▸ List.mem_map_of_mem later)
      simpa [getRegistryTableEntry, apart] using ih rest later

theorem entry_of_node (generated : Generated g order) (mem : n ∈ g.nodes) :
    getRegistryTableEntry (registryTable g order) n = some (nodeModule g n) := by
  have found := entry_of_mem generated.distinct (nodeModule_mem generated mem)
  rwa [nodeModule_moduleName] at found

theorem getChan_of_node (generated : Generated g order) (mem : n ∈ g.nodes) :
    getChan (registryTable g order) n = some (nodeModule g n).chanPtr := by
  rw [getChan, entry_of_node generated mem, Option.map_some]

theorem mem_channels {table : List Module} {c : ChanId} : c ∈ channels table ↔ .chan c ∈ table := by
  rw [channels, List.mem_filterMap]
  constructor
  · rintro ⟨e, mem, ptr⟩
    cases e with
    | chan d => exact Option.some.inj ptr ▸ mem
    | lc l => cases ptr
    | mux m => cases ptr
  · exact fun mem => ⟨_, mem, rfl⟩

/-- An entry of the table was made for one of the nodes. -/
theorem mem_registryTable (generated : Generated g order) {e : Module} :
    e ∈ registryTable g order ↔ ∃ n ∈ g.nodes, e ∈ genModule g n := by
  rw [registryTable, List.mem_flatMap]
  simp only [generated.perm.mem_iff]

/-- A node of the graph and the modules made for it. -/
theorem genModule_cases {e : Module} (made : e ∈ genModule g n) :
    (nodeModule g n = .chan (.node n) ∧ e = .chan (.node n)) ∨
      ((g.node n).nodeType = .Lc ∧ (e = .lc n ∨ e = .mux (.ofLc n) ∨
        ∃ c, e = .chan c ∧ (∀ m, c ≠ .node m) ∧
          (c.masterName = n ∨ c.masterName = n ++ "_mux"))) ∨
      ((g.node n).nodeType = .Mux ∧ (e = .mux (.node n) ∨
        ∃ c, e = .chan c ∧ (∀ m, c ≠ .node m) ∧ c.masterName = n)) := by
  cases kind : (g.node n).nodeType <;> simp [genModule, nodeModule, muxModules, kind] at made ⊢
  case Lc =>
    rcases made with rfl | rfl | rfl | rfl | rfl | rfl | rfl | rfl <;>
      simp [ChanId.masterName, MuxId.moduleName]
  case Mux =>
    rcases made with rfl | rfl | rfl | rfl <;> simp [ChanId.masterName, MuxId.moduleName]
  all_goals exact made

theorem lc_mem (generated : Generated g order) {l : String} (mem : .lc l ∈ registryTable g order) :
    l ∈ g.nodes ∧ (g.node l).nodeType = .Lc := by
  obtain ⟨n, hn, made⟩ := (mem_registryTable generated).mp mem
  grind [genModule_cases made]

theorem mux_mem (generated : Generated g order) {m : String}
    (mem : .mux (.node m) ∈ registryTable g order) :
    m ∈ g.nodes ∧ (g.node m).nodeType = .Mux := by
  obtain ⟨n, hn, made⟩ := (mem_registryTable generated).mp mem
  grind [genModule_cases made]

theorem ofLc_mem (generated : Generated g order) {l : String}
    (mem : .mux (.ofLc l) ∈ registryTable g order) : l ∈ g.nodes ∧ (g.node l).nodeType = .Lc := by
  obtain ⟨n, hn, made⟩ := (mem_registryTable generated).mp mem
  grind [genModule_cases made]

theorem chan_mem (generated : Generated g order) {m : String}
    (mem : .chan (.node m) ∈ registryTable g order) :
    m ∈ g.nodes ∧ nodeModule g m = .chan (.node m) := by
  obtain ⟨n, hn, made⟩ := (mem_registryTable generated).mp mem
  grind [genModule_cases made]

theorem mux_ne_none (l : String) : l ++ "_mux" ≠ "None" := by
  intro same
  have last := congrArg (fun s => s.toList.getLast?) same
  simp at last

/-- The master name tells the channels of the graph from those inside of other modules. -/
theorem masterName_eq_none_iff (generated : Generated g order) {c : ChanId}
    (mem : .chan c ∈ registryTable g order) : c.masterName = "None" ↔ ∃ m, c = .node m := by
  obtain ⟨n, hn, made⟩ := (mem_registryTable generated).mp mem
  constructor
  · intro free
    rcases genModule_cases made with ⟨-, here⟩ | ⟨kind, here⟩ | ⟨kind, here⟩
    · exact ⟨n, Module.chan.inj here⟩
    · obtain ⟨d, eq, -, master⟩ : ∃ d, Module.chan c = .chan d ∧ (∀ m, d ≠ .node m) ∧
          (d.masterName = n ∨ d.masterName = n ++ "_mux") := by simpa using here
      obtain rfl := Module.chan.inj eq
      rcases master with owner | owner
      · exact absurd (owner.symm.trans free) (generated.lcName n hn kind).1
      · exact absurd (owner.symm.trans free) (mux_ne_none n)
    · obtain ⟨d, eq, -, master⟩ : ∃ d, Module.chan c = .chan d ∧ (∀ m, d ≠ .node m) ∧
          d.masterName = n := by simpa using here
      obtain rfl := Module.chan.inj eq
      exact absurd (master.symm.trans free) (generated.muxName n hn kind)
  · rintro ⟨m, rfl⟩
    rfl

end

end DataflowSim.Registry
