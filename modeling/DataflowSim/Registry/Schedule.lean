import DataflowSim.Execution.SchedulerInit
import DataflowSim.Registry.ConfigGraphScheduler

/-!
# The scheduler of a cut graph

What the graph scheduler makes of the tables that `configGraphScheduler` leaves: which channels
between subgraphs store and which send, in whatever turn.
-/

open DataflowSim.Graph DataflowSim.Execution

namespace DataflowSim.Registry

open ChanGraph (dgsfName)

/-- The scheduler knows the channels by their places in the registry. -/
def schedulerConfig (table : List Module) (w : Wiring) (t : Configured) (inputBufferSize : Nat) :
    SchedulerConfig :=
  let number := (channels table).idxOf
  { num := t.subgraphTable.keys.length
    producers := fun i => (t.subgraphTable.lists i .producer).map number
    consumers := fun i => (t.subgraphTable.lists i .consumer).map number
    divergenceGraph := fun i =>
      if i ∈ t.divergenceGraph.keys then
        some ((t.divergenceGraph.lists i .common).map number,
          (t.divergenceGraph.lists i .truePath).map number,
          (t.divergenceGraph.lists i .falsePath).map number)
      else none
    inputBufferSize := inputBufferSize
    chan := fun k => ((channels table)[k]?.map t.chans).getD { size := 0, upNum := 0 }
    downstream := fun k => (((channels table)[k]?.map w.downstream).getD []).map number }

/-- The subgraph has an edge to another one or from it. -/
def AtCut (g : ChanGraph) (i : Nat) : Prop :=
  ∃ u ∈ g.nodes, g.crosses u = true ∧ ∃ r, HasRole g i r u

/-- The subgraphs are numbered up to this one. -/
structure Numbered (g : ChanGraph) (top : Nat) : Prop where
  le : ∀ i, AtCut g i → i ≤ top
  reached : top = 0 ∨ AtCut g top

/-- The place of the channel behind a node. -/
def slot (order : List String) (u : String) : Nat := (order.map ChanId.node).idxOf (.node (dgsfName u))

/-- The channel behind a node stores in the turn of its own subgraph, whether or not that is fed, and
in the turns of the others when something feeds its own. It sends in the turns of the subgraphs that
it feeds. -/
def Enabled (g : ChanGraph) (order : List String) (current : Nat) (s : Scheduler) : Prop :=
  ∀ u ∈ g.nodes, g.crosses u = true →
    let e := s.enables (slot order u)
    (e.push = true ↔ (g.node u).subgraphId = current ∨
      ∃ v ∈ g.nodes, Feeds g v (g.node u).subgraphId) ∧
    (e.pop = true ↔ Feeds g u current)

variable {g h : ChanGraph} {s : Setting} {order : List String} {size : Nat}
  {w : Wiring} {chans : ChanId → ChanConfig} {t : Configured} {i k top current : Nat} {u v : String}

theorem Feeds.other (feeds : Feeds g u i) : i ≠ (g.node u).subgraphId := by
  obtain ⟨n, -, other, rfl⟩ := feeds
  simpa [ChanGraph.other] using other

theorem Feeds.crosses (feeds : Feeds g u i) : g.crosses u = true := by
  obtain ⟨n, next, other, -⟩ := feeds
  exact List.any_eq_true.mpr ⟨n, next, other⟩

theorem feeds_of_crosses (crosses : g.crosses u = true) : ∃ i, Feeds g u i := by
  obtain ⟨n, next, other⟩ := List.any_eq_true.mp crosses
  exact ⟨_, n, next, other, rfl⟩

/-! ## The lists of the scheduler -/

/-- The channels stand in the lists by their roles, and none sends in all turns. -/
structure Tabled (g : ChanGraph) (order : List String) (cfg : SchedulerConfig) : Prop where
  producers : ∀ i k, k ∈ cfg.producers i ↔
    ∃ u ∈ g.nodes, g.crosses u = true ∧ Feeds g u i ∧ k = slot order u
  consumers : ∀ i k, k ∈ cfg.consumers i ↔
    ∃ u ∈ g.nodes, g.crosses u = true ∧ (g.node u).subgraphId = i ∧ k = slot order u
  inj : ∀ u ∈ g.nodes, g.crosses u = true → ∀ v, slot order u = slot order v → u = v
  calm : ∀ u ∈ g.nodes, g.crosses u = true → Scheduler.sendsAlways cfg (slot order u) = false

theorem Filed.tabled {table : List Module} (filed : Filed g order (HasRole g) t.subgraphTable)
    (all : channels table = order.map .node) (quiet : ∀ u ∈ g.nodes, g.crosses u = true →
      (t.chans (.node (dgsfName u))).keepMode = false) (inputBufferSize : Nat) :
    Tabled g order (schedulerConfig table w t inputBufferSize) := by
  have listed (u : String) (hu : u ∈ g.nodes) (crosses : g.crosses u = true) :
      ChanId.node (dgsfName u) ∈ order.map ChanId.node :=
    (filed.sublist _ .consumer).subset
      ((filed.mem _ .consumer _).mpr ⟨u, hu, crosses, rfl, rfl⟩)
  have slots (i k : Nat) (r : Role) :
      k ∈ (t.subgraphTable.lists i r).map (order.map ChanId.node).idxOf ↔
        ∃ u ∈ g.nodes, g.crosses u = true ∧ HasRole g i r u ∧ k = slot order u := by
    simp only [List.mem_map, filed.mem]
    constructor
    · rintro ⟨c, ⟨u, hu, crosses, role, rfl⟩, rfl⟩
      exact ⟨u, hu, crosses, role, rfl⟩
    · rintro ⟨u, hu, crosses, role, rfl⟩
      exact ⟨_, ⟨u, hu, crosses, role, rfl⟩, rfl⟩
  refine ⟨fun i k => ?_, fun i k => ?_, fun u hu crosses v same => ?_, fun u hu crosses => ?_⟩
  · rw [schedulerConfig, all]
    exact slots i k .producer
  · rw [schedulerConfig, all]
    exact slots i k .consumer
  · have eq := (List.idxOf_inj (listed u hu crosses)).mp same
    exact ChanGraph.dgsfName_inj.mp (ChanId.node.inj eq)
  · have found : (channels table)[slot order u]? = some (.node (dgsfName u)) := by
      rw [all]
      exact List.getElem?_idxOf (listed u hu crosses)
    simp [Scheduler.sendsAlways, schedulerConfig, found, quiet u hu crosses]

section
variable {cfg : SchedulerConfig} (tabled : Tabled g order cfg)
include tabled

theorem Tabled.producer (hu : u ∈ g.nodes) (crosses : g.crosses u = true) :
    slot order u ∈ cfg.producers i ↔ Feeds g u i := by
  rw [tabled.producers]
  constructor
  · rintro ⟨v, -, -, feeds, same⟩
    exact tabled.inj u hu crosses v same ▸ feeds
  · exact fun feeds => ⟨u, hu, crosses, feeds, rfl⟩

theorem Tabled.consumer (hu : u ∈ g.nodes) (crosses : g.crosses u = true) :
    slot order u ∈ cfg.consumers i ↔ (g.node u).subgraphId = i := by
  rw [tabled.consumers]
  constructor
  · rintro ⟨v, -, -, own, same⟩
    exact tabled.inj u hu crosses v same ▸ own
  · exact fun own => ⟨u, hu, crosses, own, rfl⟩

theorem Tabled.producers_eq_nil : cfg.producers i = [] ↔ ¬∃ v ∈ g.nodes, Feeds g v i := by
  simp only [List.eq_nil_iff_forall_not_mem, tabled.producers]
  constructor
  · rintro none ⟨v, hv, feeds⟩
    exact none _ ⟨v, hv, feeds.crosses, feeds, rfl⟩
  · rintro none k ⟨v, hv, -, feeds, -⟩
    exact none ⟨v, hv, feeds⟩

theorem Tabled.atCut (here : Scheduler.At cfg i k) : AtCut g i := by
  rcases here with mem | mem
  · obtain ⟨u, hu, crosses, feeds, -⟩ := (tabled.producers i k).mp mem
    exact ⟨u, hu, crosses, .producer, feeds⟩
  · obtain ⟨u, hu, crosses, own, -⟩ := (tabled.consumers i k).mp mem
    exact ⟨u, hu, crosses, .consumer, own⟩

/-- A channel between subgraphs stands at two of them at least. -/
theorem Tabled.twice (here : Scheduler.At cfg i k) : ∃ j, j ≠ i ∧ Scheduler.At cfg j k := by
  rcases here with mem | mem
  · obtain ⟨u, hu, crosses, feeds, rfl⟩ := (tabled.producers i k).mp mem
    exact ⟨_, feeds.other.symm, .inr ((tabled.consumer hu crosses).mpr rfl)⟩
  · obtain ⟨u, hu, crosses, rfl, rfl⟩ := (tabled.consumers i k).mp mem
    obtain ⟨j, feeds⟩ := feeds_of_crosses crosses
    exact ⟨j, feeds.other, .inl ((tabled.producer hu crosses).mpr feeds)⟩

theorem Tabled.renumbered {num : Nat} : Tabled g order { cfg with num := num } :=
  ⟨tabled.producers, tabled.consumers, tabled.inj, tabled.calm⟩

/-- The enables behind `configChan`, in whatever state it was called. -/
theorem Tabled.enabled (numbered : Numbered g top) (num : cfg.num = top + 1) (s : Scheduler) :
    Enabled g order current (Scheduler.configChan cfg s current) := by
  intro u hu crosses
  rw [Scheduler.configChan_eq, Scheduler.enables_withEnables]
  have producer {i : Nat} := tabled.producer hu crosses (i := i)
  have consumer {i : Nat} := tabled.consumer hu crosses (i := i)
  have own : (g.node u).subgraphId < cfg.num :=
    num ▸ Nat.lt_succ_of_le (numbered.le _ ⟨u, hu, crosses, .consumer, rfl⟩)
  have source : Scheduler.FromSource cfg current (slot order u) ↔
      (g.node u).subgraphId ≠ current ∧ ¬∃ v ∈ g.nodes, Feeds g v (g.node u).subgraphId := by
    constructor
    · rintro ⟨i, -, other, none, mem⟩
      obtain rfl := consumer.mp mem
      exact ⟨other, tabled.producers_eq_nil.mp none⟩
    · rintro ⟨other, none⟩
      exact ⟨_, own, other, tabled.producers_eq_nil.mpr none, consumer.mpr rfl⟩
  have calm := tabled.calm u hu crosses
  by_cases here : (g.node u).subgraphId = current
  · have apart : ¬Feeds g u current := fun feeds => feeds.other here.symm
    simp [Scheduler.roleEnables, source, producer, consumer, here, apart]
  · have lies : Scheduler.AtOther cfg current (slot order u) :=
      ⟨_, own, here, .inr (consumer.mpr rfl)⟩
    simp [Scheduler.roleEnables, source, producer, consumer, calm, here, lies]

end

/-! ## The law -/

/-- What the scheduler makes of its table. -/
structure Schedules (g : ChanGraph) (order : List String) (cfg : SchedulerConfig) (keys : List Nat)
    (top fuel : Nat) : Prop where
  /-- At first the channels are set as if all subgraphs had been in the table. What was sized before
  has room for all of them only if they were. -/
  init : ∃ r, Scheduler.initTable cfg fuel keys = some r ∧ r.keys.Perm (List.range (top + 1)) ∧
    r.scheduler = Scheduler.schedulerInit { cfg with num := top + 1 } ∧
    Enabled g order 0 r.scheduler ∧ r.subgraphActiveCnt = top + 1 ∧
    ((∀ i ≤ top, i < r.subgraphIsOver) ↔ ∀ i ≤ top, AtCut g i)
  /-- Later the table stays as it is. -/
  turn : ∀ keys', keys'.Perm (List.range (top + 1)) → ∀ current ≤ top, ∀ s, ∃ s',
    Scheduler.configTable cfg fuel keys' s current = some (keys', s') ∧
      s' = Scheduler.configChan { cfg with num := top + 1 } s current ∧ Enabled g order current s'

section
variable {cfg : SchedulerConfig} (tabled : Tabled g order cfg) (numbered : Numbered g top)

theorem room_iff {keys : List Nat} (nodup : keys.Nodup) (below : ∀ i ∈ keys, i ≤ top) :
    (∀ i ≤ top, i < keys.length) ↔ ∀ i ≤ top, i ∈ keys := by
  have inside : keys ⊆ List.range (top + 1) := fun i mem =>
    List.mem_range.mpr (Nat.lt_succ_of_le (below i mem))
  constructor
  · intro room i le
    have perm := (nodup.subperm inside).perm_of_length_le (by simpa using room top le_rfl)
    exact perm.mem_iff.mpr (List.mem_range.mpr (Nat.lt_succ_of_le le))
  · intro all i le
    have long := (List.nodup_range.subperm fun i mem =>
      all i (Nat.lt_succ_iff.mp (List.mem_range.mp mem))).length_le
    rw [List.length_range] at long
    omega

include tabled numbered in
theorem Tabled.schedules {keys : List Nat} (nodup : keys.Nodup) (keys_iff : ∀ i, i ∈ keys ↔ AtCut g i)
    {fuel : Nat} (enough : top + 2 ≤ fuel) : Schedules g order cfg keys top fuel where
  init := by
    have listed : Scheduler.Listed cfg 0 top keys := {
      nodup := nodup
      listed := fun i c here => (keys_iff i).mpr (tabled.atCut here)
      below := fun i mem => numbered.le i ((keys_iff i).mp mem)
      current := Nat.zero_le top
      reached := numbered.reached.symm.imp (keys_iff top).mpr id }
    obtain ⟨keys', perm, -, run⟩ := Scheduler.configTable_eq listed (.inr fun i c => tabled.twice) enough
      { chans := fun c => Chan.initial (cfg.chan c) }
    refine ⟨_, by rw [Scheduler.initTable, run]; rfl, perm, rfl,
      tabled.renumbered.enabled numbered rfl _, by simpa using perm.length_eq, ?_⟩
    exact (room_iff nodup listed.below).trans (forall₂_congr fun i _ => keys_iff i)
  turn keys' perm current le s := by
    have mem (i : Nat) : i ∈ keys' ↔ i < top + 1 := perm.mem_iff.trans List.mem_range
    have inside : current ∈ keys' := (mem current).mpr (Nat.lt_succ_of_le le)
    have listed : Scheduler.Listed cfg current top keys' := {
      nodup := perm.nodup_iff.mpr List.nodup_range
      listed := fun i c here => (mem i).mpr (Nat.lt_succ_of_le (numbered.le i (tabled.atCut here)))
      below := fun i there => Nat.lt_succ_iff.mp ((mem i).mp there)
      current := le
      reached := .inl ((mem top).mpr (Nat.lt_succ_self top)) }
    obtain ⟨grown, perm', longer, run⟩ :=
      Scheduler.configTable_eq listed (.inl inside) enough s
    obtain rfl := longer.eq_of_length (perm.length_eq.trans perm'.length_eq.symm)
    exact ⟨_, run, rfl, tabled.renumbered.enabled numbered rfl s⟩

end

/-- In the turn of a subgraph exactly the channels that feed it send, and all store but those of other
subgraphs that nothing feeds. The table grows while `schedulerInit` goes through it, which does not
change this, but afterwards it may have more subgraphs than `subgraphIsOver`. -/
theorem compile_schedules (ready : Compilable g s size) {ids : List Nat} (distinct : ids.Nodup)
    (all : ∀ n ∈ g.nodes, (g.node n).subgraphId ∈ ids) (inputBufferSize : Nat)
    (numbered : Numbered g top) {fuel : Nat} (enough : top + 2 ≤ fuel) :
    ∃ h, ChanGraph.addChanDGSF size ids g = some h ∧ ∀ order, order.Perm h.nodes →
      ∃ w chans, genConnect h order = some w ∧ sizeChans h s order w = some chans ∧
        let t := configGraphScheduler h (registryTable h order) w chans
        Schedules g order (schedulerConfig (registryTable h order) w t inputBufferSize)
          t.subgraphTable.keys top fuel := by
  obtain ⟨h, run, cut⟩ := addChanDGSF_cut ready.toDgsfReady size distinct all
  have cutGraph := cut.cutGraph ready
  refine ⟨h, run, fun order perm => ?_⟩
  obtain ⟨w, connects, wired⟩ := genConnect_chans cutGraph.onlyChans cutGraph.toConnected perm
  obtain ⟨chans, sizes, start⟩ := sizeChans_eq (s := s) (w := w) cutGraph perm
  obtain ⟨same, filed, -⟩ := cut.tables ready wired start perm
  refine ⟨w, chans, connects, sizes, ?_⟩
  have listed : channels (registryTable h order) = order.map .node :=
    channels_chans cutGraph.onlyChans fun n => perm.mem_iff.mp
  obtain ⟨chans', sets, made⟩ := setUp_eq (s := s) cutGraph wired perm
  rw [setUp, sizes] at sets
  obtain rfl := Option.some.inj sets
  have quiet (u : String) (hu : u ∈ g.nodes) (crosses : g.crosses u = true) :
      ((configGraphScheduler h (registryTable h order) w chans).chans
        (.node (dgsfName u))).keepMode = false := by
    have inside := cut.dgsf_mem hu crosses
    rw [same, made _ inside]
    simp [chanOf, (cut.quiet ready inside).1]
  exact (filed.tabled listed quiet inputBufferSize).schedules numbered
    (configGraphScheduler h (registryTable h order) w chans).subgraphTable.nodup filed.keys enough

/-- The graph with a number that no subgraph has. -/
def gapped : ChanGraph :=
  { nested "Add" with
    node := fun n => if n = "n" then { (nested "Add").node "n" with subgraphId := 2 } else
      (nested "Add").node n }

theorem gapped_compilable : Compilable gapped nestedSetting 2 where
  pre := by decide
  next := by decide
  symmetric := by decide
  nodupPre := by decide
  nodupNext := by decide
  placed := by unfold ChanGraph.Placed; decide
  fresh := by decide
  base := by decide
  name := by decide
  mode := by decide
  size_pos := by decide
  speedup := fun _ => le_rfl
  fits := by decide

theorem gapped_numbered : Numbered gapped 2 where
  le := by
    have below : ∀ n ∈ gapped.nodes, (gapped.node n).subgraphId ≤ 2 := by decide
    rintro i ⟨u, hu, -, r, role⟩
    cases r with
    | producer =>
      obtain ⟨n, next, -, rfl⟩ := role
      exact below n (next_known gapped_compilable.toNamed hu n next)
    | consumer => exact role ▸ below u hu
  reached := .inr ⟨"u", by decide, by decide, .producer, "n", by decide, by decide, rfl⟩

/-- Nothing is in subgraph 1, which comes into the table while it is gone through. -/
theorem compile_schedules_gapped : ¬AtCut gapped 1 ∧
    ∃ h, ChanGraph.addChanDGSF 2 [2, 0] gapped = some h ∧
      ∀ order, order.Perm h.nodes → ∃ w chans, genConnect h order = some w ∧
        sizeChans h nestedSetting order w = some chans ∧
          let t := configGraphScheduler h (registryTable h order) w chans
          Schedules gapped order (schedulerConfig (registryTable h order) w t 4)
            t.subgraphTable.keys 2 4 := by
  refine ⟨?_, compile_schedules gapped_compilable (by decide) (by decide) 4 gapped_numbered (by decide)⟩
  have others : ∀ n ∈ gapped.nodes, (gapped.node n).subgraphId ≠ 1 := by decide
  rintro ⟨u, hu, -, r, role⟩
  cases r with
  | producer =>
    obtain ⟨n, next, -, eq⟩ := role
    exact others n (next_known gapped_compilable.toNamed hu n next) eq
  | consumer => exact others u hu role

end DataflowSim.Registry
