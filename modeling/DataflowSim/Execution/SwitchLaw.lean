import DataflowSim.Execution.ConfigChan
import DataflowSim.Execution.Speedup

/-!
# When the scheduler switches

A subgraph should keep its turn until each of its producers is empty or has sent an input
buffer of data. The code compares the wrong way: it waits until no producer that holds input
has sent that much. The two agree only while no producer holds input, and while one that
holds input has sent too little and another has sent enough.
-/

namespace DataflowSim.Execution.Scheduler

variable {cfg : SchedulerConfig} {s t : Scheduler}

/-- What the channel has sent since its subgraph was selected. -/
def sentNow (s : Scheduler) (c : Nat) : Nat := s.sent c - s.activated c

def Empty (cfg : SchedulerConfig) (s : Scheduler) (c : Nat) : Prop :=
  ∀ i < (cfg.chan c).arity, (s.chans c).chanBuffer i = []

instance (c : Nat) : Decidable (Empty cfg s c) := by
  unfold Empty
  infer_instance

/-- The channel has nothing left, or has sent an input buffer of data. -/
def Spent (cfg : SchedulerConfig) (s : Scheduler) (c : Nat) : Prop :=
  Empty cfg s c ∨ cfg.inputBufferSize ≤ sentNow s c

/-- In `t` another turn has begun: that of the subgraph that was selected, which can be the same one
again. -/
structure Switched (cfg : SchedulerConfig) (s t : Scheduler) : Prop where
  subgraphIsOver : t.subgraphIsOver = Function.update s.subgraphIsOver s.currSubgraphId
    (checkSubgraphIsOver cfg s s.currSubgraphId)
  selected : let checked := { s with subgraphIsOver := t.subgraphIsOver }
    if cfg.graphSwitchO3 then t.currSubgraphId = selectSubgraphO3 cfg checked s.currSubgraphId
    else selectSubgraphInOrder cfg checked s.currSubgraphId = some t.currSubgraphId
  /-- The channels have the enables of their roles in this turn. -/
  enables : ∀ c, enables t c = roleEnables cfg t.currSubgraphId (enables s c) c
  /-- Those of the selected subgraph count from zero. -/
  counts : ∀ c, (t.chans c).chanDataCnt =
    if c ∈ cfg.producers t.currSubgraphId ∨ c ∈ cfg.consumers t.currSubgraphId then 0
    else (s.chans c).chanDataCnt
  timeout : t.subgraphTimeout = 0
  active : t.subgraphActiveCnt = Function.update s.subgraphActiveCnt t.currSubgraphId
    (s.subgraphActiveCnt t.currSubgraphId + 1)

/-- The turn of the current subgraph ends. In order it can be that no subgraph is enabled. -/
def Ends (cfg : SchedulerConfig) (s : Scheduler) : Prop :=
  (∃ t, graphUpdate cfg s = some t ∧ Switched cfg s t) ∨
    graphUpdate cfg s = none ∧ cfg.graphSwitchO3 = false ∧
      selectSubgraphInOrder cfg s s.currSubgraphId = none

/-- While the consumers are not finished, the turn ends exactly when all producers are spent;
before, the subgraph and all enables stay. -/
structure SwitchLaw (cfg : SchedulerConfig) (s : Scheduler) : Prop where
  switches : Ends cfg s ↔ ∀ c ∈ cfg.producers s.currSubgraphId, Spent cfg s c
  stays : (∃ c ∈ cfg.producers s.currSubgraphId, ¬ Spent cfg s c) →
    ∃ t, graphUpdate cfg s = some t ∧ t.currSubgraphId = s.currSubgraphId ∧
      ∀ c, enables t c = enables s c

/-! ## The counters count one turn -/

/-- The counters of the channels of the current subgraph count what they sent in this turn. -/
def Counted (cfg : SchedulerConfig) (s : Scheduler) : Prop :=
  ∀ c ∈ cfg.producers s.currSubgraphId ++ cfg.consumers s.currSubgraphId,
    s.sent c = (s.chans c).chanDataCnt + s.activated c

/-- The enables differ at most. -/
structure SameCounts (s t : Scheduler) : Prop where
  chanDataCnt : ∀ c, (t.chans c).chanDataCnt = (s.chans c).chanDataCnt
  sent : t.sent = s.sent
  activated : t.activated = s.activated
  currSubgraphId : t.currSubgraphId = s.currSubgraphId

theorem configChan_counts (cfg : SchedulerConfig) (s : Scheduler) (g : Nat) :
    SameCounts s (configChan cfg s g) := by
  rw [configChan_eq]
  exact ⟨fun _ => rfl, rfl, rfl, rfl⟩

theorem foldl_reset (l : List Nat) (chans : Nat → Chan) :
    l.foldl (fun chans c => Function.update chans c { chans c with chanDataCnt := 0 }) chans =
      fun c => { chans c with chanDataCnt := if c ∈ l then 0 else (chans c).chanDataCnt } := by
  induction l generalizing chans with
  | nil => simp
  | cons k l ih =>
    rw [List.foldl_cons, ih]
    funext c
    by_cases here : c = k
    · simp [here]
    · simp [here]

theorem init_counted (cfg : SchedulerConfig) : Counted cfg (schedulerInit cfg) := by
  have same := configChan_counts cfg { chans := fun c => Chan.initial (cfg.chan c) } 0
  intro c _
  unfold schedulerInit
  rw [same.sent, same.activated, same.chanDataCnt]
  simp only [Chan.initial]
  split <;> rfl

theorem graphUpdate_counted (h : Counted cfg s) (updated : graphUpdate cfg s = some t) :
    Counted cfg t := by
  unfold graphUpdate at updated
  split_ifs at updated
  · obtain ⟨u, switched, rfl⟩ := Option.map_eq_some_iff.mp updated
    obtain ⟨g, -, rfl⟩ := Option.map_eq_some_iff.mp switched
    intro c mem
    have current := (configChan_counts cfg { s with
      subgraphIsOver := Function.update s.subgraphIsOver s.currSubgraphId
        (checkSubgraphIsOver cfg s s.currSubgraphId)
      currSubgraphId := g } g).currSubgraphId
    simp only [countActive, resetSubgraph, current, foldl_reset] at mem ⊢
    rw [if_pos mem, Nat.zero_add]
  · obtain rfl := Option.some.inj updated
    exact h

theorem reachable_counted (reached : Reachable cfg s) : Counted cfg s := by
  induction reached with
  | init => exact init_counted cfg
  | @get s reached k e i ih =>
    intro c mem
    have before := ih c mem
    simp only [getChan, Function.update_apply]
    split_ifs with here valid
    · subst here
      have sent := Chan.get_sent (cfg.chan c) e i.up i.downstream i.sendable i.data (s.chans c)
      rw [if_pos valid] at sent
      omega
    · subst here
      have sent := Chan.get_sent (cfg.chan c) e i.up i.downstream i.sendable i.data (s.chans c)
      rw [if_neg valid] at sent
      omega
    · exact before
  | @edit s reached k change ih =>
    intro c mem
    have before := ih c mem
    simp only [editChan, Function.update_apply]
    split_ifs with here
    · subst here
      cases change <;> exact before
    · exact before
  | update reached updated ih => exact graphUpdate_counted ih updated

/-! ## What the code compares -/

/-- What the code asks of a producer: that it is empty, or has sent too little. -/
def Behind (cfg : SchedulerConfig) (s : Scheduler) (c : Nat) : Prop :=
  Empty cfg s c ∨ sentNow s c < cfg.inputBufferSize

theorem forall_buffers {P : List Data → Prop} {c : Nat} : (∀ buffer ∈ buffers cfg s c, P buffer) ↔
    ∀ i < (cfg.chan c).arity, P ((s.chans c).chanBuffer i) := by
  simp [buffers]

theorem producerChanFinish_iff (counted : Counted cfg s)
    (producers : cfg.producers s.currSubgraphId ≠ [])
    (consumers : cfg.consumers s.currSubgraphId ≠ []) :
    producerChanFinish cfg s = true ↔ ∀ c ∈ cfg.producers s.currSubgraphId, Behind cfg s c := by
  have some_producer : (cfg.producers s.currSubgraphId).isEmpty = false := by simpa using producers
  have some_consumer : (cfg.consumers s.currSubgraphId).isEmpty = false := by simpa using consumers
  simp only [producerChanFinish, checkProducerChanFinish, some_producer, some_consumer,
    Bool.not_false, Bool.true_and, Bool.false_eq_true, ↓reduceIte, List.all_eq_true]
  refine forall₂_congr fun c mem => ?_
  rw [forall_buffers]
  have count : sentNow s c = (s.chans c).chanDataCnt := by
    have := counted c (List.mem_append_left _ mem)
    unfold sentNow
    omega
  rw [Behind, count, Empty]
  simp only [Bool.or_eq_true, List.isEmpty_iff, decide_eq_true_eq]
  exact ⟨fun h => or_iff_not_imp_right.mpr fun full i hi => (h i hi).resolve_right full,
    fun h i hi => h.imp_left fun all => all i hi⟩

/-- What `switchSubgraph` and `countActive` do together. -/
theorem switched (switches : (switchSubgraph cfg s).map countActive = some t) :
    Switched cfg s t := by
  obtain ⟨u, turn, rfl⟩ := Option.map_eq_some_iff.mp switches
  obtain ⟨g, selected, rfl⟩ := Option.map_eq_some_iff.mp turn
  simp only [configChan_eq, resetSubgraph, foldl_reset, countActive]
  refine ⟨rfl, ?_, fun _ => rfl, fun c => ?_, rfl, rfl⟩
  · split_ifs at selected ⊢ with order
    · exact (Option.some.inj selected).symm
    · exact selected
  · simp only [List.mem_append]
    rfl

theorem switchSubgraph_eq_none (stuck : switchSubgraph cfg s = none) :
    cfg.graphSwitchO3 = false ∧ selectSubgraphInOrder cfg s s.currSubgraphId = none := by
  have unselected := Option.map_eq_none_iff.mp stuck
  split_ifs at unselected with order
  exact ⟨Bool.eq_false_iff.mpr order, unselected⟩

/-- The turn ends if and only if the code finds the producers finished. -/
theorem ends_iff (unfinished : consumerChanFinish cfg s = false) :
    Ends cfg s ↔ producerChanFinish cfg s = true := by
  constructor
  · intro ends
    by_contra unspent
    have stayed : graphUpdate cfg s =
        some (countActive { s with subgraphTimeout := s.subgraphTimeout + 1 }) := by
      simp [graphUpdate, unspent, unfinished]
    obtain ⟨t, updated, switched⟩ | ⟨none, -⟩ := ends
    · -- a new turn resets the timeout, and here it has grown
      obtain rfl := Option.some.inj (stayed.symm.trans updated)
      exact absurd switched.timeout (Nat.succ_ne_zero _)
    · rw [stayed] at none
      cases none
  · intro finish
    have updated : graphUpdate cfg s = (switchSubgraph cfg s).map countActive := by
      simp [graphUpdate, finish]
    cases selects : switchSubgraph cfg s with
    | none => exact .inr ⟨by rw [updated, selects]; rfl, switchSubgraph_eq_none selects⟩
    | some u =>
      rw [selects] at updated
      exact .inl ⟨_, updated, switched (by rw [selects]; rfl)⟩

/-- The law holds exactly when the code's test agrees with it. -/
theorem law_iff_agree (counted : Counted cfg s)
    (producers : cfg.producers s.currSubgraphId ≠ [])
    (consumers : cfg.consumers s.currSubgraphId ≠ [])
    (unfinished : consumerChanFinish cfg s = false) :
    SwitchLaw cfg s ↔ ((∀ c ∈ cfg.producers s.currSubgraphId, Behind cfg s c) ↔
      ∀ c ∈ cfg.producers s.currSubgraphId, Spent cfg s c) := by
  have decision := producerChanFinish_iff counted producers consumers
  have ends := (ends_iff unfinished).trans decision
  refine ⟨fun law => ends.symm.trans law.switches, fun agree => ⟨ends.trans agree, ?_⟩⟩
  rintro ⟨c, mem, left⟩
  have unspent : producerChanFinish cfg s = false := by
    rw [Bool.eq_false_iff]
    exact fun finish => left (agree.mp (decision.mp finish) c mem)
  exact ⟨countActive { s with subgraphTimeout := s.subgraphTimeout + 1 },
    by simp [graphUpdate, unspent, unfinished], rfl, fun c => rfl⟩

theorem agree_iff (l : List Nat) :
    ((∀ c ∈ l, Behind cfg s c) ↔ ∀ c ∈ l, Spent cfg s c) ↔
      (∀ c ∈ l, Empty cfg s c) ∨
        (∃ c ∈ l, ¬ Empty cfg s c ∧ sentNow s c < cfg.inputBufferSize) ∧
          ∃ c ∈ l, ¬ Empty cfg s c ∧ cfg.inputBufferSize ≤ sentNow s c := by
  have behind : (∀ c ∈ l, Behind cfg s c) ↔
      ¬ ∃ c ∈ l, ¬ Empty cfg s c ∧ cfg.inputBufferSize ≤ sentNow s c := by
    simp only [Behind, not_exists, not_and, not_le, or_iff_not_imp_left]
  have spent : (∀ c ∈ l, Spent cfg s c) ↔
      ¬ ∃ c ∈ l, ¬ Empty cfg s c ∧ sentNow s c < cfg.inputBufferSize := by
    simp only [Spent, not_exists, not_and, not_lt, or_iff_not_imp_left]
  have empty : (∀ c ∈ l, Empty cfg s c) ↔
      (¬ ∃ c ∈ l, ¬ Empty cfg s c ∧ cfg.inputBufferSize ≤ sentNow s c) ∧
        ¬ ∃ c ∈ l, ¬ Empty cfg s c ∧ sentNow s c < cfg.inputBufferSize := by
    rw [← behind, ← spent]
    constructor
    · exact fun all => ⟨fun c mem => .inl (all c mem), fun c mem => .inl (all c mem)⟩
    · rintro ⟨low, high⟩ c mem
      obtain done | few := low c mem
      · exact done
      · exact (high c mem).resolve_right (by omega)
  have either (low high : Prop) : ((¬ high ↔ ¬ low) ↔ (¬ high ∧ ¬ low) ∨ low ∧ high) := by tauto
  rw [behind, spent, empty]
  exact either _ _

/-- In a reachable state in which the consumers are not finished, the law holds exactly when no
producer holds input, or one that holds input has sent too little and another enough. -/
theorem switch_law_iff (reached : Reachable cfg s)
    (producers : cfg.producers s.currSubgraphId ≠ [])
    (consumers : cfg.consumers s.currSubgraphId ≠ [])
    (unfinished : consumerChanFinish cfg s = false) :
    SwitchLaw cfg s ↔
      (∀ c ∈ cfg.producers s.currSubgraphId, Empty cfg s c) ∨
        (∃ c ∈ cfg.producers s.currSubgraphId,
          ¬ Empty cfg s c ∧ sentNow s c < cfg.inputBufferSize) ∧
        ∃ c ∈ cfg.producers s.currSubgraphId,
          ¬ Empty cfg s c ∧ cfg.inputBufferSize ≤ sentNow s c :=
  (law_iff_agree (reachable_counted reached) producers consumers unfinished).trans (agree_iff _)

/-- Two subgraphs; channel 0 feeds the first one, channel 1 leads from it to the second one, and
channel 2 leads out of that. The others lie inside of the subgraphs. -/
def twoSubgraphs : SchedulerConfig where
  num := 2
  producers g := [g]
  consumers g := [g + 1]
  inputBufferSize := 2
  chan c := { size := 2, upNum := 1, chanType := if c < 3 then .Chan_DGSF else .Chan_Base }
  downstream c := [c + 3]

/-- An upstream offers a datum. -/
def offer : Input := ⟨fun _ => { valid := true, value := 7 }, [1], false, []⟩

/-- The first subgraph has no input left, and has filled channel 1. -/
def handedOver : Scheduler := getChan twoSubgraphs (schedulerInit twoSubgraphs) 1 ⟨1, true⟩ offer

theorem switch_law_handedOver : (graphUpdate twoSubgraphs handedOver).map currSubgraphId = some 1 ∧
    SwitchLaw twoSubgraphs handedOver :=
  ⟨by decide +kernel, (switch_law_iff (Reachable.init.get 1 ⟨1, true⟩ offer) (by decide) (by decide)
    (by decide +kernel)).mpr (.inl (by decide +kernel))⟩

/-- Channel 0 has got a datum and has not sent any, and the turn of its subgraph ends. -/
theorem switch_law_early : ∃ s, Reachable twoSubgraphs s ∧ s.currSubgraphId = 0 ∧
    consumerChanFinish twoSubgraphs s = false ∧ ¬ SwitchLaw twoSubgraphs s := by
  have start : Reachable twoSubgraphs (schedulerInit twoSubgraphs) := .init
  have reached := start.get 0 ⟨1, true⟩ offer
  refine ⟨_, reached, rfl, by decide, fun law => ?_⟩
  have agree := (law_iff_agree (reachable_counted reached) (by decide) (by decide)
    (by decide)).mp law
  have spent := agree.mp (by
    intro c mem
    change c ∈ [0] at mem
    obtain rfl : c = 0 := by simpa using mem
    exact .inr (by decide))
  obtain empty | sent := spent 0 (by decide)
  · exact absurd (empty 0 (by decide)) (by decide)
  · exact absurd sent (by decide)

end DataflowSim.Execution.Scheduler
