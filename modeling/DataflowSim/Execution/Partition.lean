import DataflowSim.Execution.ConfigChan
import DataflowSim.Execution.Lockstep

/-!
# Temporal partitioning

A network is cut into subgraphs, and `GraphScheduler::graphUpdate` switches between them. No
channel loses a datum through a switch: a channel that is closed by one is full, and it has told so
to its upstream. Only a channel that was closed from the start has not told anything before its
first `get`.
-/

namespace DataflowSim.Execution

/-! ## What an update changes -/

namespace Scheduler

variable {cfg : SchedulerConfig} {s t : Scheduler}

theorem reset_chans (l : List Nat) (chans : Nat → Chan) : ∃ count : Nat → Nat,
    l.foldl (fun chans c => Function.update chans c { chans c with chanDataCnt := 0 }) chans =
      fun c => { chans c with chanDataCnt := count c } := by
  refine List.foldlRecOn (motive := fun chans' => ∃ count : Nat → Nat,
    chans' = fun c => { chans c with chanDataCnt := count c }) _ _ ⟨_, rfl⟩ ?_
  rintro _ ⟨count, rfl⟩ k -
  refine ⟨Function.update count k 0, funext fun c => ?_⟩
  by_cases here : c = k
  · subst here
    simp
  · simp [here]

/-- An update changes enables and counters only. It changes enables when the turn of a subgraph
ends, to those of the roles in the next one. -/
theorem graphUpdate_cases (updated : graphUpdate cfg s = some t) :
    ∃ (e : Nat → Enables) (count : Nat → Nat),
      (t.chans = fun c => { s.chans c with
        enable := (e c).pop, pushBufferEnable := (e c).push, chanDataCnt := count c }) ∧
      (t.currSubgraphId = s.currSubgraphId ∧ e = enables s ∨
        (producerChanFinish cfg s = true ∨ consumerChanFinish cfg s = true) ∧
          ∀ c, e c = roleEnables cfg t.currSubgraphId (enables s c) c) := by
  unfold graphUpdate at updated
  split_ifs at updated with finish
  · obtain ⟨u, switched, rfl⟩ := Option.map_eq_some_iff.mp updated
    obtain ⟨g, -, rfl⟩ := Option.map_eq_some_iff.mp switched
    simp only [countActive, resetSubgraph, configChan_eq, withEnables]
    obtain ⟨count, eq⟩ := reset_chans (cfg.producers g ++ cfg.consumers g) fun c =>
      { s.chans c with
        pushBufferEnable := (roleEnables cfg g (enables s c) c).push
        enable := (roleEnables cfg g (enables s c) c).pop }
    exact ⟨fun c => roleEnables cfg g (enables s c) c, count, eq,
      .inr ⟨by simpa using finish, fun _ => rfl⟩⟩
  · obtain rfl := Option.some.inj updated
    exact ⟨enables s, fun c => (s.chans c).chanDataCnt, rfl, .inl ⟨rfl, rfl⟩⟩

/-- When the turn of a subgraph without producers ends and no last datum has come, its consumers
are full. -/
theorem consumers_full (finish : producerChanFinish cfg s = true ∨ consumerChanFinish cfg s = true)
    (plain : cfg.divergenceGraph s.currSubgraphId = none)
    (source : cfg.producers s.currSubgraphId = []) {c : Nat}
    (mem : c ∈ cfg.consumers s.currSubgraphId) (more : (s.chans c).getTheLastData 0 = false)
    (last : ∀ i < (cfg.chan c).arity, ∀ d ∈ (s.chans c).chanBuffer i, d.last = false) {i : Nat}
    (lt : i < (cfg.chan c).arity) : (cfg.chan c).size ≤ ((s.chans c).chanBuffer i).length := by
  have finish : consumerChanFinish cfg s = true :=
    finish.resolve_left (by simp [producerChanFinish, source])
  have some : (cfg.consumers s.currSubgraphId).isEmpty = false := by
    rw [Bool.eq_false_iff, ne_eq, List.isEmpty_iff]
    exact List.ne_nil_of_mem mem
  simp only [consumerChanFinish, some, Bool.false_eq_true, if_false, plain, checkConsumerChanFinish,
    Bool.not_false, Bool.true_and, List.all_eq_true, buffers, List.mem_map, List.mem_range,
    forall_exists_index, and_imp, forall_apply_eq_imp_iff₂] at finish
  have checked := finish c mem i lt
  cases end_of : ((s.chans c).chanBuffer i).getLast? with
  | none => simp [end_of, more] at checked
  | some d =>
    have plain := last i lt d (List.mem_of_getLast? end_of)
    simpa [end_of, plain] using checked

end Scheduler

/-! ## Runs -/

/-- A network with its subgraphs, the numbers below `num`. -/
structure CutNet (n : Nat) extends CalmNet (Fin n) where
  num : Nat
  producers : Nat → List (Fin n)
  consumers : Nat → List (Fin n)
  graphSwitchO3 : Bool := true
  inputBufferSize : Nat

structure CutState (n : Nat) where
  scheduler : Scheduler
  rounds : Rounds (Fin n)

/-- The channels of the scheduler as those of a network. -/
def CutState.view {n : Nat} (s : CutState n) : NetState (Fin n) where
  chan v := s.scheduler.chans v
  rounds := s.rounds

namespace CutNet

open Scheduler (graphUpdate schedulerInit getChan editChan FromSource enables roleEnables)

variable {n : Nat} (net : CutNet n)

def scheduled : SchedulerConfig where
  num := net.num
  producers g := (net.producers g).map Fin.val
  consumers g := (net.consumers g).map Fin.val
  graphSwitchO3 := net.graphSwitchO3
  inputBufferSize := net.inputBufferSize
  chan c := if h : c < n then net.cfg ⟨c, h⟩ else { size := 0, upNum := 0 }
  downstream c := if h : c < n then (net.downstream ⟨c, h⟩).map Fin.val else []

def initial : CutState n where
  scheduler := schedulerInit net.scheduled
  rounds := { todo := net.order }

/-- The next channel is called, and its value is computed. -/
def call (e : Clock) (feed : Bool) (s : CutState n) : CutState n where
  scheduler := match s.rounds.todo with
    | [] => s.scheduler
    | v :: _ =>
      let called := getChan net.scheduled s.scheduler v e {
        up := net.upstreams s.view v
        downstream := (net.downstream v).map net.moduleId
        sendable := net.sendable s.view v
        data := net.fed s.view feed v }
      editChan called v (.value (net.op v (net.operands v (called.chans v))))
  rounds := s.rounds.next net.order

/-- The same network in which all enables are on. -/
def alwaysOn : NetState (Fin n) where
  chan v := { Chan.initial (net.cfg v) with enable := true, pushBufferEnable := true }
  rounds := { todo := net.order }

/-- The runs of the network with switches, whose calls are all allowed, next to those without. The
same channels are called at the same clocks, and updates come at any time. -/
inductive Together (P : CutState n → Prop) : Nat → CutState n → NetState (Fin n) → Prop
  | init : Together P 0 net.initial net.alwaysOn
  | call {clk : Nat} {s : CutState n} {t : NetState (Fin n)} (e : Clock) (feed : Bool)
      (le : clk ≤ e.clk) (allowed : P s) :
      Together P clk s t → Together P e.clk (net.call e feed s) (net.toNet.call e feed t)
  | update {clk : Nat} {s : CutState n} {t : NetState (Fin n)} {after : Scheduler}
      (updated : graphUpdate net.scheduled s.scheduler = some after) :
      Together P clk s t → Together P clk { s with scheduler := after } t

/-- A channel that is called for the first time and may not store anything is not offered
anything. -/
def FirstFree (s : CutState n) : Prop :=
  ∀ v ∈ s.rounds.todo.head?, s.rounds.called v = false → (net.cfg v).chanType = .Chan_DGSF →
    (s.view.chan v).pushBufferEnable = false → ∀ u ∈ net.upstream v, (s.view.chan u).valid = false

instance (s : CutState n) : Decidable (FirstFree net s) :=
  inferInstanceAs (Decidable (∀ v ∈ s.rounds.todo.head?, _))

variable {net} {s : CutState n}

variable (net) in
theorem scheduled_chan (v : Fin n) : net.scheduled.chan v = net.cfg v := by
  simp [scheduled]

variable (net) in
theorem call_view (e : Clock) (feed : Bool) (s : CutState n) :
    (net.call e feed s).view = net.toNet.call e feed s.view := by
  have chan : (net.call e feed s).view.chan = (net.toNet.call e feed s.view).chan := by
    cases todo : s.rounds.todo with
    | nil =>
      rw [Net.call_idle e feed todo]
      simp only [call, CutState.view, todo]
    | cons v rest =>
      funext u
      by_cases here : u = v
      · subst here
        rw [CalmNet.call_here net.toCalmNet todo]
        simp [call, CutState.view, todo, editChan, getChan, Edit.apply, scheduled_chan, Net.get]
      · rw [CalmNet.call_other net.toCalmNet todo e feed here]
        have apart : (u : Nat) ≠ v := fun eq => here (Fin.ext eq)
        simp [call, CutState.view, todo, editChan, getChan, apart]
  exact congrArg (fun chan => NetState.mk chan (s.rounds.next net.order)) chan

/-! ## What switches keep -/

/-- What the back-pressure flags tell about the buffers and the enables. -/
structure Guard (net : CutNet n) (s : CutState n) : Prop where
  /-- An element that its downstream has not seen yet is offered where there is room. -/
  offered : ∀ w i v, (net.upstream w)[i]? = some v → (s.view.chan v).valid = true →
    s.rounds.turn v w = true → (s.view.chan w).bp i = false
  room : ∀ w, ∀ i < (net.cfg w).arity, (s.view.chan w).bp i = false →
    ((s.view.chan w).received i).length < (s.view.chan w).consumed.length + (net.cfg w).size
  /-- A channel that may not store anything has said so in its last call. -/
  closed : ∀ w, (net.cfg w).chanType = .Chan_DGSF → s.rounds.called w = true →
    (s.view.chan w).pushBufferEnable = false → ∀ i < (net.cfg w).arity,
    (s.view.chan w).bp i = true
  source : ∀ w : Fin n, FromSource net.scheduled s.scheduler.currSubgraphId w →
    (s.view.chan w).pushBufferEnable = false

theorem Guard.safe (guard : Guard net s) (flow : CalmNet.Flow net.toCalmNet s.view)
    (fair : s.rounds.Fair net.order) (free : FirstFree net s) :
    CalmNet.Safe net.toCalmNet s.view := by
  intro w next dgsf off u mem
  obtain ⟨rest, todo⟩ : ∃ rest, s.rounds.todo = w :: rest := by
    have next : s.rounds.todo.head? = some w := next
    cases todo : s.rounds.todo <;> simp_all
  by_contra valid
  have valid : (s.view.chan u).valid = true := by simpa using valid
  cases called : s.rounds.called w with
  | false => exact absurd (free w next called dgsf off u mem) (by simpa using valid)
  | true =>
    obtain ⟨i, lt, eq⟩ := List.getElem_of_mem mem
    have at_i : (net.upstream w)[i]? = some u := by rw [List.getElem?_eq_getElem lt, eq]
    have ahead := fair.ahead todo (net.mem_order u) (CalmNet.ne_of_upstream at_i)
    have turned : s.rounds.turn u w = true :=
      ahead.1.resolve_right fun idle => by simp [flow.idle u idle] at valid
    have free := guard.offered w i u at_i valid turned
    rw [guard.closed w dgsf called off i (by rwa [Net.arity_eq (List.ne_nil_of_mem mem)])] at free
    exact absurd free (by decide)

/-- At the start only enables are set. -/
theorem initial_chan (net : CutNet n) : ∃ enable push : Fin n → Bool, ∀ v,
    net.initial.view.chan v = { enable := enable v, pushBufferEnable := push v } := by
  have fresh (c : Nat) : ∃ enable push : Bool, Chan.initial (net.scheduled.chan c) =
      { enable := enable, pushBufferEnable := push } := by
    unfold Chan.initial
    split <;> exact ⟨_, _, rfl⟩
  refine ⟨fun v => (net.initial.view.chan v).enable,
    fun v => (net.initial.view.chan v).pushBufferEnable, fun v => ?_⟩
  obtain ⟨enable, push, eq⟩ := fresh v
  simp only [CutState.view, CutNet.initial, schedulerInit, Scheduler.configChan_eq,
    Scheduler.withEnables, eq]

theorem Guard.initial : Guard net net.initial := by
  obtain ⟨enable, push, start⟩ := initial_chan net
  refine ⟨fun w i v _ valid => ?_, fun w i _ _ => ?_, fun w _ called => ?_, fun w source => ?_⟩
  · simp [start] at valid
  · have pos := net.size_pos w
    simp only [start, List.length_nil]
    omega
  · exact absurd called (by simp [CutNet.initial])
  · simp only [CutState.view, CutNet.initial, schedulerInit, Scheduler.configChan_eq,
      Scheduler.withEnables] at source ⊢
    simp [roleEnables, source]

theorem Guard.call (guard : Guard net s) (flow : CalmNet.Flow net.toCalmNet s.view)
    (safe : CalmNet.Safe net.toCalmNet s.view) (e : Clock) (feed : Bool) :
    Guard net (net.call e feed s) := by
  have view := call_view net e feed s
  have rounds : (net.call e feed s).rounds = s.rounds.next net.order := rfl
  have current : (net.call e feed s).scheduler.currSubgraphId = s.scheduler.currSubgraphId := by
    simp only [CutNet.call]
    split <;> rfl
  cases todo : s.rounds.todo with
  | nil =>
    have same : (net.call e feed s).view.chan = s.view.chan := by
      rw [view, Net.call_idle e feed todo]
    obtain ⟨turn, called⟩ := Rounds.next_idle net.order todo
    exact ⟨by rw [same, rounds, turn]; exact guard.offered, by rw [same]; exact guard.room,
      by rw [same, rounds, called]; exact guard.closed, by rw [same, current]; exact guard.source⟩
  | cons v rest =>
    obtain ⟨advance, -⟩ := flow.advance safe todo e feed
    have here : (net.call e feed s).view.chan v = (net.toNet.get e feed s.view v).1 := by
      rw [view, CalmNet.call_here net.toCalmNet todo]
    have other {u : Fin n} (ne : u ≠ v) : (net.call e feed s).view.chan u = s.view.chan u := by
      rw [view, CalmNet.call_other net.toCalmNet todo e feed ne]
    have turn (a b : Fin n) : (net.call e feed s).rounds.turn a b =
        if b = v then false else if a = v then true else s.rounds.turn a b :=
      Rounds.next_turn todo a b
    have called (a : Fin n) : (net.call e feed s).rounds.called a =
        if a = v then true else s.rounds.called a := Rounds.next_called todo a
    refine ⟨fun w i u at_i valid turned => ?_, fun w i lt free => ?_,
      fun w dgsf was off i lt => ?_, fun w source => ?_⟩
    · rw [turn] at turned
      split_ifs at turned with eq eq'
      · -- the called channel offers its element only if its downstreams have room
        subst eq'
        rw [other eq]
        rw [here] at valid
        obtain ⟨-, -, -, sends⟩ := advance.valid.mp valid
        have down : (net.cfg u).noDownstream = false := by
          by_contra down
          exact net.noDownstream u (by simpa using down) w (List.mem_of_getElem? at_i)
        rw [down, Bool.false_or] at sends
        exact Net.bp_of_sendable sends at_i
      · rw [other eq] at *
        rw [other eq'] at valid
        exact guard.offered w i u at_i valid turned
    · by_cases eq : w = v
      · subst eq
        rw [here] at free ⊢
        exact ((advance.bp i lt).mp free).2
      · rw [other eq] at free ⊢
        exact guard.room w i lt free
    · by_cases eq : w = v
      · subst eq
        rw [here] at off ⊢
        rw [advance.pushBufferEnable] at off
        by_contra free
        exact ((advance.bp i lt).mp (by simpa using free)).1 ⟨dgsf, off⟩
      · rw [called, if_neg eq] at was
        rw [other eq] at off ⊢
        exact guard.closed w dgsf was off i lt
    · rw [current] at source
      by_cases eq : w = v
      · subst eq
        rw [here, advance.pushBufferEnable]
        exact guard.source w source
      · rw [other eq]
        exact guard.source w source

/-- An update changes the enables and the counters of the channels only. -/
theorem update_view {after : Scheduler}
    (updated : graphUpdate net.scheduled s.scheduler = some after) :
    ∃ (en : Nat → Scheduler.Enables) (count : Nat → Nat),
      CutState.view { s with scheduler := after } = { s.view with
        chan := fun v => { s.view.chan v with
          enable := (en v).pop, pushBufferEnable := (en v).push, chanDataCnt := count v } } ∧
      (after.currSubgraphId = s.scheduler.currSubgraphId ∧ en = enables s.scheduler ∨
        (Scheduler.producerChanFinish net.scheduled s.scheduler = true ∨
          Scheduler.consumerChanFinish net.scheduled s.scheduler = true) ∧
        ∀ c, en c =
          roleEnables net.scheduled after.currSubgraphId (enables s.scheduler c) c) := by
  obtain ⟨en, count, chans, cases⟩ := Scheduler.graphUpdate_cases updated
  exact ⟨en, count, by simp only [CutState.view, chans], cases⟩

/-- A switch closes a channel only when the subgraph that fills it has filled it. -/
theorem Guard.update (guard : Guard net s) (flow : CalmNet.Flow net.toCalmNet s.view)
    {after : Scheduler} (updated : graphUpdate net.scheduled s.scheduler = some after) :
    Guard net { s with scheduler := after } := by
  obtain ⟨en, count, view, cases⟩ := update_view updated
  refine ⟨?_, ?_, fun w dgsf called off i lt => ?_, fun w source => ?_⟩
  · rw [view]
    exact guard.offered
  · rw [view]
    exact guard.room
  · rw [view] at off ⊢
    have was := guard.closed w dgsf called
    obtain ⟨-, rfl⟩ | ⟨finish, roles⟩ := cases
    · exact was off i lt
    · have off : (roleEnables net.scheduled after.currSubgraphId
          (enables s.scheduler w) w).push = false := roles w ▸ off
      by_cases source : FromSource net.scheduled after.currSubgraphId w
      · obtain ⟨id, below, -, root, mem⟩ := source
        by_cases current : id = s.scheduler.currSubgraphId
        · -- the turn of the subgraph that fills it is over, so it is full
          subst current
          have sound := flow.sound w
          have full := Scheduler.consumers_full finish rfl root mem (sound.more 0)
            (fun i lt d mem => (sound.buffer_bare (scheduled_chan net w ▸ lt) mem).last)
            (scheduled_chan net w ▸ lt)
          have buffer : (s.scheduler.chans w).chanBuffer i = _ := sound.tracked.buffer i lt
          rw [scheduled_chan, buffer, List.length_drop] at full
          by_contra free
          have room := guard.room w i lt (by simpa using free)
          have pos := net.size_pos w
          omega
        · -- it was closed before the switch already
          exact was (guard.source w ⟨id, below, current, root, mem⟩) i lt
      · simp only [roleEnables, source, if_false] at off
        split_ifs at off
        exact was off i lt
  · rw [view]
    obtain ⟨same, rfl⟩ | ⟨-, roles⟩ := cases
    · exact guard.source w (same ▸ source)
    · have source : FromSource net.scheduled after.currSubgraphId w := source
      simp [roles, roleEnables, source]

/-! ## Both runs -/

/-- What holds of a run with switches and of the one without. -/
structure Joint (net : CutNet n) (clk : Nat) (s : CutState n) (t : NetState (Fin n)) : Prop where
  fair : s.rounds.Fair net.order
  flow : CalmNet.Flow net.toCalmNet s.view
  flow' : CalmNet.Flow net.toCalmNet t
  on : CalmNet.AlwaysOn net.toCalmNet t
  lead : CalmNet.Lead net.toCalmNet clk s.view t
  guard : Guard net s

theorem Together.joint {clk : Nat} {t : NetState (Fin n)}
    (together : Together net (FirstFree net) clk s t) : Joint net clk s t := by
  induction together with
  | init =>
    obtain ⟨enable, push, start⟩ := initial_chan net
    have start' (v : Fin n) : net.alwaysOn.chan v = { enable := true, pushBufferEnable := true } := by
      simp only [alwaysOn, Chan.initial]
      split <;> rfl
    exact ⟨.start _, .start start, .start start', ⟨fun v => by rw [start'], fun v _ => by rw [start']⟩,
      .start rfl start start', .initial⟩
  | @call clk s t e feed le free _ joint =>
    have safe := joint.guard.safe joint.flow joint.fair free
    have fair' : t.rounds.Fair net.order := joint.lead.rounds ▸ joint.fair
    refine ⟨joint.fair.next net.nodup, ?_, joint.flow'.call fair' joint.on.safe e feed,
      joint.on.call joint.flow' e feed, ?_, joint.guard.call joint.flow safe e feed⟩
    · rw [call_view]
      exact joint.flow.call joint.fair safe e feed
    · rw [call_view]
      exact joint.lead.call joint.flow joint.flow' joint.fair safe joint.on le feed
  | @update clk s t after updated _ joint =>
    obtain ⟨en, count, view, -⟩ := update_view updated
    refine ⟨joint.fair, ?_, joint.flow', joint.on, ?_, joint.guard.update joint.flow updated⟩
    · rw [view]
      exact joint.flow.reconfigured _ _ _
    · rw [view]
      exact joint.lead.reconfigured _ _ _

/-- In every run with switches in which no closed channel is offered anything for its first call,
each channel has consumed a beginning of what it has consumed without switches. -/
theorem partition_consumed {clk : Nat} {t : NetState (Fin n)}
    (together : Together net (FirstFree net) clk s t) (v : Fin n) :
    (s.scheduler.chans v).consumed.map (·.map Data.untimed) <+:
      (t.chan v).consumed.map (·.map Data.untimed) :=
  together.joint.lead.consumed together.joint.flow together.joint.flow' v

/-- Two sources in a subgraph each, and a third subgraph that takes what both have made. -/
def twoSources : CutNet 4 where
  order := [0, 1, 2, 3]
  cfg v := if v < 2 then { size := 1, upNum := 0, noUpstream := true }
    else { size := 1, upNum := 1, chanType := .Chan_DGSF, noDownstream := true }
  upstream v := if v = 2 then [0] else if v = 3 then [1] else []
  op _ operands := operands.sum
  input _ k := some k
  nodup := by decide
  mem_order := by decide
  upstream_nodup := by decide
  upNum := by decide
  noUpstream := by decide
  noDownstream := by decide
  size_pos := by decide
  rank := Fin.val
  acyclic := by decide
  calm v := by
    split_ifs
    · exact ⟨rfl, .inl rfl⟩
    · exact ⟨rfl, .inr ⟨rfl, rfl⟩⟩
  num := 3
  producers g := if g = 2 then [2, 3] else []
  consumers g := if g = 0 then [2] else if g = 1 then [3] else []
  inputBufferSize := 1

/-- A step of both networks: four calls, and then an update of the first one. The sources are fed
from some iteration on. -/
def step (late : Nat) (p : CutState 4 × NetState (Fin 4)) (k : Nat) :
    CutState 4 × NetState (Fin 4) :=
  if k % 5 = 4 then
    ({ p.1 with scheduler :=
        (graphUpdate twoSources.scheduled p.1.scheduler).getD p.1.scheduler }, p.2)
  else
    (twoSources.call { clk := k / 5 } (late ≤ k / 5) p.1,
      twoSources.toNet.call { clk := k / 5 } (late ≤ k / 5) p.2)

def steps (late n : Nat) : CutState 4 × NetState (Fin 4) :=
  (List.range n).foldl (step late) (twoSources.initial, twoSources.alwaysOn)

theorem steps_together {P : CutState 4 → Prop} {late n : Nat}
    (allowed : ∀ k < n, P (steps late k).1) :
    ∃ clk ≤ n / 5, Together twoSources P clk (steps late n).1 (steps late n).2 := by
  induction n with
  | zero => exact ⟨0, le_rfl, .init⟩
  | succ n ih =>
    obtain ⟨clk, le, together⟩ := ih fun k lt => allowed k (lt.trans (Nat.lt_succ_self n))
    have next : steps late (n + 1) = step late (steps late n) n := by
      rw [steps, List.range_succ, List.foldl_concat]
      rfl
    rw [next, step]
    split_ifs
    · refine ⟨clk, by omega, ?_⟩
      cases updated : graphUpdate twoSources.scheduled (steps late n).1.scheduler with
      | none => exact together
      | some after => exact together.update updated
    · exact ⟨n / 5, by omega, together.call { clk := n / 5 } _ le (allowed n (Nat.lt_succ_self n))⟩

/-- The sources start one iteration later than the channels that they feed. -/
theorem partition_consumed_late : ∃ clk,
    Together twoSources (FirstFree twoSources) clk (steps 1 30).1 (steps 1 30).2 ∧
    ((steps 1 30).1.scheduler.chans (3 : Fin 4)).consumed ≠ [] ∧
    ((steps 1 30).1.scheduler.chans (3 : Fin 4)).consumed.map (·.map Data.untimed) <+:
      ((steps 1 30).2.chan 3).consumed.map (·.map Data.untimed) := by
  obtain ⟨clk, -, together⟩ := @steps_together (FirstFree twoSources) 1 30 (by decide +kernel)
  exact ⟨clk, together, by decide +kernel, partition_consumed together 3⟩

/-- What the second source offers at once is lost: neither run has consumed a beginning of what the
other one has consumed. -/
theorem switched_lost : ∃ clk s t v, Together twoSources (fun _ => True) clk s t ∧
    ¬ (s.scheduler.chans (v : Fin 4)).consumed.map (·.map Data.untimed) <+:
      (t.chan v).consumed.map (·.map Data.untimed) ∧
    ¬ (t.chan v).consumed.map (·.map Data.untimed) <+:
      (s.scheduler.chans v).consumed.map (·.map Data.untimed) := by
  obtain ⟨clk, -, together⟩ := @steps_together (fun _ => True) 0 25 fun _ _ => trivial
  exact ⟨clk, _, _, 3, together, by decide +kernel, by decide +kernel⟩

end CutNet

end DataflowSim.Execution
