import DataflowSim.Registry.GenConnect

/-!
# Connecting graphs of channels

In a graph without loop controllers and multiplexers `genConnect` copies the lists of the nodes, in
whatever order the channels were registered. The begin and the end channel are not connected by
their own nodes, and are left out here.
-/

open DataflowSim.Graph

namespace DataflowSim.Registry

structure OnlyChans (g : ChanGraph) : Prop where
  chan : ∀ n ∈ g.nodes, nodeModule g n = .chan (.node n)
  name : ∀ n ∈ g.nodes, n ≠ "Chan_begin" ∧ n ≠ "Chan_end"

/-- The lists of the channels are those of their nodes, without copies. -/
structure ChansWired (g : ChanGraph) (w : Wiring) : Prop where
  upstream : ∀ n ∈ g.nodes,
    w.upstream (.node n) = (Adjacency.distinct (g.node n).allPre).map .node
  downstream : ∀ n ∈ g.nodes,
    w.downstream (.node n) = (Adjacency.distinct (g.node n).allNext).map .node
  noUpstream : ∀ n ∈ g.nodes, w.noUpstream (.node n) = (g.node n).allPre.isEmpty
  noDownstream : ∀ n ∈ g.nodes, w.noDownstream (.node n) = (g.node n).allNext.isEmpty

/-- The connections when the entries of some nodes have been treated. -/
def entered (g : ChanGraph) (names : List String) : Wiring :=
  { Wiring.generated with
    upstream
      | .node n => if n ∈ names then (g.node n).allPre.map .node else []
      | c => Wiring.generated.upstream c
    downstream
      | .node n => if n ∈ names then (g.node n).allNext.map .node else []
      | c => Wiring.generated.downstream c }

attribute [ext] Wiring

variable {g : ChanGraph} {order : List String}

theorem entered_nil : entered g [] = .generated := by
  ext1
  · funext c
    cases c <;> rfl
  · funext c
    cases c <;> rfl
  · rfl
  · rfl

section
variable (only : OnlyChans g)
include only

theorem registryTable_chans {names : List String} (known : ∀ n ∈ names, n ∈ g.nodes) :
    registryTable g names = names.map fun n => .chan (.node n) := by
  induction names with
  | nil => rfl
  | cons n names ih =>
    obtain ⟨here, rest⟩ := List.forall_mem_cons.mp known
    rw [registryTable, List.flatMap_cons, ← registryTable, ih rest, genModule, only.chan n here]
    rfl

theorem OnlyChans.generated (perm : order.Perm g.nodes) : Generated g order where
  perm := perm
  distinct := by
    rw [registryTable_chans only fun n => perm.mem_iff.mp, List.map_map]
    exact (perm.nodup_iff.mpr g.nodup).map fun _ _ same => same
  lcName n mem kind := by simpa [nodeModule, kind] using only.chan n mem
  muxName n mem kind := by simpa [nodeModule, kind] using only.chan n mem

theorem connectChan_chans (generated : Generated g order) (named : g.Named) {names : List String}
    {n : String} (mem : n ∈ g.nodes) (new : n ∉ names) :
    connectChan g (registryTable g order) (.node n) (entered g names) =
      some (entered g (names ++ [n])) := by
  have pre := pre_known named mem
  have next := next_known named mem
  have ups : ((g.node n).allPre.map fun p => some (upModule (nodeModule g p))).reduceOption =
      (g.node n).allPre.map .node := by
    rw [List.map_congr_left fun p there => by rw [only.chan p (pre p there), upModule]]
    simp [List.reduceOption]
  have downs : ((g.node n).allNext.map fun s => downModule (nodeModule g s)).reduceOption =
      (g.node n).allNext.map .node := by
    rw [List.map_congr_left fun s there => by rw [only.chan s (next s there), downModule]]
    simp [List.reduceOption]
  have found : g.getNode (ChanId.node n).moduleName = some (g.node n) := ChanGraph.getNode_of_mem mem
  rw [connectChan, found, Option.bind_eq_bind, Option.bind_some, addUpstreams_eq generated _ pre,
    Option.bind_eq_bind, Option.bind_some, addDownstreams_eq generated _ next, Wiring.addUpstream,
    Wiring.addDownstream, ups, downs]
  refine congrArg some (Wiring.ext (funext fun c => ?_) (funext fun c => ?_) rfl rfl) <;>
    by_cases here : c = .node n
  · simp [entered, here, new]
  · cases c <;> simp_all [entered]
  · simp [entered, here, new]
  · cases c <;> simp_all [entered]

theorem connectEntries_chans (generated : Generated g order) (named : g.Named) {names : List String}
    (known : ∀ n ∈ names, n ∈ g.nodes) (nodup : names.Nodup) :
    (registryTable g names).foldlM (connectEntry g (registryTable g order)) .generated =
      some (entered g names) := by
  rw [registryTable_chans only known]
  induction names using List.reverseRecOn with
  | nil => exact congrArg some entered_nil.symm
  | append_singleton names n ih =>
    obtain ⟨before, here⟩ := List.forall_mem_append.mp known
    obtain ⟨nodup, -, apart⟩ := List.nodup_append.mp nodup
    have mem := here n (by simp)
    obtain ⟨notBegin, notEnd⟩ := only.name n mem
    have entry (w : Wiring) : connectEntry g (registryTable g order) w (.chan (.node n)) =
        connectChan g (registryTable g order) (.node n) w := if_pos ⟨rfl, notEnd, notBegin⟩
    rw [List.map_append, List.foldlM_append, ih before nodup, Option.bind_eq_bind, Option.bind_some,
      List.map_cons, List.map_nil, List.foldlM_cons, entry,
      connectChan_chans only generated named mem fun old => apart n old n (by simp) rfl]
    rfl

omit only in
theorem mem_allNext_iff (connected : g.Connected) {p n : String} (hp : p ∈ g.nodes)
    (hn : n ∈ g.nodes) : n ∈ (g.node p).allNext ↔ p ∈ (g.node n).allPre := by
  simp only [ChanNode.allNext, ChanNode.allPre, List.mem_append]
  exact or_congr (connected.symmetric .data p hp n hn) (connected.symmetric .active p hp n hn)

omit only in
/-- In the lists of a connected graph both ends of each edge have been entered. -/
theorem settled_entered (connected : g.Connected) (perm : order.Perm g.nodes) (c : ChanId) :
    Adjacency.Settled ((entered g order).upstream, (entered g order).downstream) c := by
  have pre := fun n => pre_known (n := n) connected.toNamed
  have next := fun n => next_known (n := n) connected.toNamed
  constructor <;> intro d mem <;> cases c <;> simp_all [entered, Wiring.generated, perm.mem_iff]
  case left.node n =>
    obtain ⟨hn, p, there, rfl⟩ := mem
    have hp := pre n hn p there
    simpa [hp] using (mem_allNext_iff connected hp hn).mpr there
  case left.trueChan m => cases m <;> simp_all
  case right.node n =>
    obtain ⟨hn, s, there, rfl⟩ := mem
    have hs := next n hn s there
    simpa [hs] using (mem_allNext_iff connected hn hs).mp there
  case right.outChan m => cases m <;> simp_all

/-! ## The other loops -/

omit only in
theorem foldl_setNoConnect_flags (cs : List ChanId) (w : Wiring) (c : ChanId) :
    (cs.foldl setNoConnect w).noUpstream c =
        (w.noUpstream c || decide (c ∈ cs) && (w.upstream c).isEmpty) ∧
      (cs.foldl setNoConnect w).noDownstream c =
        (w.noDownstream c || decide (c ∈ cs) && (w.downstream c).isEmpty) := by
  induction cs generalizing w with
  | nil => simp
  | cons b cs ih =>
    rw [List.foldl_cons, (ih _).1, (ih _).2]
    by_cases here : c = b
    · subst here
      cases decide (c ∈ cs) <;> simp [setNoConnect]
    · simp [setNoConnect, here]

omit only in
theorem foldl_removeRedundantConnect_flags (cs : List ChanId) (w : Wiring) :
    (cs.foldl removeRedundantConnect w).noUpstream = w.noUpstream ∧
      (cs.foldl removeRedundantConnect w).noDownstream = w.noDownstream := by
  induction cs generalizing w with
  | nil => exact ⟨rfl, rfl⟩
  | cons c cs ih => exact ih (removeRedundantConnect w c)

omit only in
theorem finish_flags {cs : List ChanId} {w : Wiring} {c : ChanId} (mem : c ∈ cs) :
    (finish cs w).noUpstream c =
        (w.noUpstream c || ((cs.foldl Adjacency.join (w.upstream, w.downstream)).1 c).isEmpty) ∧
      (finish cs w).noDownstream c =
        (w.noDownstream c || ((cs.foldl Adjacency.join (w.upstream, w.downstream)).2 c).isEmpty) := by
  obtain ⟨up, down⟩ :=
    foldl_removeRedundantConnect_flags cs (cs.foldl setNoConnect (cs.foldl completeConnect w))
  rw [finish, up, down, (foldl_setNoConnect_flags ..).1, (foldl_setNoConnect_flags ..).2,
    foldl_completeConnect]
  simp [mem]

omit only in
theorem isEmpty_distinct {α : Type*} [DecidableEq α] {l k : List α}
    (same : Adjacency.distinct l = Adjacency.distinct k) : l.isEmpty = k.isEmpty := by
  have mem (a : α) : a ∈ l ↔ a ∈ k := by
    rw [← Adjacency.mem_distinct, same, Adjacency.mem_distinct]
  rw [Bool.eq_iff_iff, List.isEmpty_iff, List.isEmpty_iff, List.eq_nil_iff_forall_not_mem,
    List.eq_nil_iff_forall_not_mem]
  exact forall_congr' fun a => not_congr (mem a)

/-- In whatever order the channels were registered, they are connected like their nodes. -/
theorem genConnect_chans (connected : g.Connected) (perm : order.Perm g.nodes) :
    ∃ w, genConnect g order = some w ∧ ChansWired g w := by
  have known (n : String) (mem : n ∈ order) : n ∈ g.nodes := perm.mem_iff.mp mem
  have run := connectEntries_chans only (only.generated perm) connected.toNamed known
    (perm.nodup_iff.mpr g.nodup)
  set cs := channels (registryTable g order) with hcs
  have whole : genConnect g order = some (finish cs (entered g order)) := by
    simp [genConnect, run, finish, hcs]
  have listed {n : String} (mem : n ∈ g.nodes) : .node n ∈ cs := by
    rw [hcs, mem_channels, registryTable_chans only known]
    exact List.mem_map_of_mem (perm.mem_iff.mpr mem)
  have up {n : String} (mem : n ∈ g.nodes) :
      (entered g order).upstream (.node n) = (g.node n).allPre.map .node := by
    simp [entered, perm.mem_iff, mem]
  have down {n : String} (mem : n ∈ g.nodes) :
      (entered g order).downstream (.node n) = (g.node n).allNext.map .node := by
    simp [entered, perm.mem_iff, mem]
  have joined {n : String} (mem : n ∈ g.nodes) :=
    Adjacency.distinct_foldl_join (settled_entered connected perm) cs (.node n)
  dsimp only at joined
  refine ⟨_, whole, fun n mem => ?_, fun n mem => ?_, fun n mem => ?_, fun n mem => ?_⟩
  · rw [(finish_lists (listed mem)).1, (joined mem).1, up mem,
      Adjacency.distinct_map fun _ _ _ _ => ChanId.node.inj]
  · rw [(finish_lists (listed mem)).2, (joined mem).2, down mem,
      Adjacency.distinct_map fun _ _ _ _ => ChanId.node.inj]
  · rw [(finish_flags (listed mem)).1, isEmpty_distinct (joined mem).1, up mem]
    simp [entered, Wiring.generated]
  · rw [(finish_flags (listed mem)).2, isEmpty_distinct (joined mem).2, down mem]
    simp [entered, Wiring.generated]

end

end DataflowSim.Registry
