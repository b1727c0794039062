import DataflowSim.Execution.Progress

/-!
# The utilization of channels

`Profiler::updateChanUtilization`, which a program calls at the end of each iteration. A channel is
active when it has formed an element in this iteration, and on a path of a branch only with an
element whose condition is met. In the end the number of active iterations does not depend on the
schedule, the sizes and the delays.
-/

namespace DataflowSim.Execution

structure Utilization (V : Type*) where
  activeCnt : V → Nat := fun _ => 0
  activeClkCnt : V → Nat := fun _ => 0
  lastSubgraphId : Nat := 0
  graphSwitchTimes : Nat := 0

namespace Net

variable {V : Type*} (net : Net V)

/-- The channel has formed an element, and its condition counts. -/
def active (s : NetState V) (v : V) : Bool :=
  (s.chan v).pushChannelSuccess && (!(net.cfg v).branchMode || ((s.chan v).channel.headD {}).cond)

def updateChanUtilization (subgraphId : V → Nat) (s : NetState V) (clkAdd : Bool)
    (currSubgraphId : Nat) (p : Utilization V) : Utilization V where
  activeCnt v := if net.active s v then p.activeCnt v + 1 else p.activeCnt v
  activeClkCnt v :=
    if (subgraphId v == currSubgraphId || (s.chan v).pushChannelSuccess) && clkAdd then
      p.activeClkCnt v + 1
    else p.activeClkCnt v
  lastSubgraphId := currSubgraphId
  graphSwitchTimes :=
    if currSubgraphId ≠ p.lastSubgraphId then p.graphSwitchTimes + 1 else p.graphSwitchTimes

end Net

/-! ## One call -/

namespace Chan

/-- How many elements a channel has formed. -/
def formed (x : Chan) : Nat := x.consumed.length + x.channel.length

variable {c : ChanConfig} {e : Clock} {up : Nat → Upstream} {x : Chan}

theorem pop_formed (calm : Calm c) (sent : x.valid = true → x.channel ≠ []) (e : Clock)
    (downstream : List Nat) : let p := pop c downstream (parallelize c e x)
    p.formed = x.formed ∧ p.pushChannelSuccess = x.pushChannelSuccess := by
  obtain ⟨n, same⟩ := parallelize_eq (c := c) e x
  rw [same]
  cases valid : x.valid with
  | false => simp [pop, popChannel, formed]
  | true =>
    obtain ⟨d, l, eq⟩ := List.exists_cons_of_ne_nil (sent valid)
    simp only [pop, popChannel, calm.keepMode, formed, eq]
    simp
    omega

/-- A channel that is awake tells whether it has formed an element. One that sleeps has formed none,
but a source keeps what it told before. -/
theorem get_success (calm : Calm c) (sent : x.valid = true → x.channel ≠ []) (e : Clock)
    (up : Nat → Upstream) (downstream : List Nat) (sendable : Bool) (data : List Int) :
    let y := (Chan.get c e up downstream sendable data x).1
    (Awake c e y.currId → y.formed = x.formed + y.pushChannelSuccess.toNat ∧
      (y.pushChannelSuccess = true → y.channel.length = 1)) ∧
    (¬Awake c e y.currId → y.formed = x.formed ∧
      y.pushChannelSuccess = if c.noUpstream then x.pushChannelSuccess else false) := by
  obtain ⟨popped, kept⟩ := pop_formed calm sent e downstream
  set p := pop c downstream (parallelize c e x) with eq_p
  have filled : Filled p (Chan.pushAll c e up p (inputs c up data)).1 := pushAll_filled c e up _ p
  generalize eq_z : (Chan.pushAll c e up p (inputs c up data)).1 = z at filled
  have formed : z.formed = x.formed := by
    rw [← popped, Chan.formed, Chan.formed, filled.consumed, filled.channel]
  have told : z.pushChannelSuccess = x.pushChannelSuccess := by
    rw [← kept]
    exact (congrArg Chan.pushChannelSuccess filled.rest :)
  have run : (Chan.get c e up downstream sendable data x).1 = bpUpdate c
      (if Awake c e z.currId then Chan.statusUpdate c e up sendable z else { z with
        valid := false
        pushChannelSuccess := if c.noUpstream then z.pushChannelSuccess else false }) := by
    rw [← eq_z, eq_p]
    rfl
  rw [run]
  by_cases awake : Awake c e z.currId
  · have updated := statusUpdate_updated (c := c) e up sendable z
    have currId : (Chan.statusUpdate c e up sendable z).currId = z.currId :=
      (congrArg Chan.currId updated.rest :)
    have consumed : (Chan.statusUpdate c e up sendable z).consumed = z.consumed :=
      (congrArg Chan.consumed updated.rest :)
    have length := updated.length
    have success : (Chan.statusUpdate c e up sendable z).pushChannelSuccess =
        (checkDataMatch c e z && z.channel.isEmpty) := rfl
    rw [if_pos awake]
    refine ⟨fun _ => ⟨?_, fun formed => ?_⟩, fun asleep => absurd (currId ▸ awake) asleep⟩
    · change (Chan.statusUpdate c e up sendable z).formed = x.formed +
        (Chan.statusUpdate c e up sendable z).pushChannelSuccess.toNat
      rw [← formed, Chan.formed, Chan.formed, consumed, length, success]
      cases checkDataMatch c e z && z.channel.isEmpty
      · simp
      · simp [Nat.add_assoc]
    · have formed : (checkDataMatch c e z && z.channel.isEmpty) = true := formed
      rw [if_pos formed, List.isEmpty_iff.mp (Bool.and_eq_true_iff.mp formed).2] at length
      exact length
  · rw [if_neg awake]
    exact ⟨fun now => absurd now awake, fun _ => ⟨formed, by rw [← told]; rfl⟩⟩

end Chan

namespace CalmNet

variable {V : Type*} [DecidableEq V] (net : CalmNet V)

/-- Whether an element of the channel counts as active. -/
def activeAt (s : NetState V) (v : V) (k : Nat) : Bool :=
  !(net.cfg v).branchMode || (net.element v (column s v k)).2

/-- The runs of a program that calls all channels in each iteration, and the profiler after them. The
flag tells that the profiler is due. -/
inductive Profiled (subgraphId : V → Nat) : Bool → NetState V → Utilization V → Prop
  | start {t : NetState V} (rounds : t.rounds = { todo := net.order }) (empty : ∀ v, t.chan v =
      { enable := (t.chan v).enable, pushBufferEnable := (t.chan v).pushBufferEnable }) :
      Profiled subgraphId false t {}
  | call {t : NetState V} {p : Utilization V} (e : Clock) (feed : Bool) (safe : Safe net t) :
      Profiled subgraphId false t p →
        Profiled subgraphId ((net.call e feed t).rounds.todo = net.order) (net.call e feed t) p
  | reconfigured {due : Bool} {t : NetState V} {p : Utilization V} (enable push : V → Bool)
      (count : V → Nat) : Profiled subgraphId due t p →
        Profiled subgraphId due { t with chan := fun v => { t.chan v with
          enable := enable v, pushBufferEnable := push v, chanDataCnt := count v } } p
  | update {t : NetState V} {p : Utilization V} (clkAdd : Bool) (currSubgraphId : Nat) :
      Profiled subgraphId true t p → Profiled subgraphId false t
        (net.updateChanUtilization subgraphId t clkAdd currSubgraphId p)

/-- A channel that was called in this iteration has one call that is not yet in the counters. -/
structure Counted (due : Bool) (s : NetState V) (p : Utilization V) : Prop where
  flow : Flow net s
  fair : s.rounds.Fair net.order
  thread : ∀ v, (net.cfg v).speedup ≤ 1 → (s.chan v).currId = 1
  todo : s.rounds.todo = [] → net.order = []
  ended : due = true → s.rounds.done = []
  count : ∀ v, (net.upstream v = [] → (net.cfg v).speedup = 1) →
    p.activeCnt v + (if due = true ∨ v ∈ s.rounds.done then (net.active s v).toNat else 0) =
      (List.range (s.chan v).formed).countP (net.activeAt s v)

variable {net} {s : NetState V} {p : Utilization V} {v u : V} {subgraphId : V → Nat} {due : Bool}

omit [DecidableEq V] in
/-- An element that is formed has all its operands. -/
theorem Flow.formed_there (flow : Flow net s) {k : Nat} (lt : k < (s.chan v).formed) {i : Nat}
    (arity : i < (net.cfg v).arity) : k < ((s.chan v).received i).length := by
  have tracked := (flow.sound v).tracked
  have bound := tracked.bound i arity
  have single := tracked.single
  unfold Chan.formed at lt
  by_cases none : (s.chan v).channel = []
  · rw [none, List.length_nil] at lt
    omega
  · have held := List.length_pos_iff.mpr (tracked.held none i arity)
    rw [tracked.buffer i arity, List.length_drop] at held
    omega

theorem Flow.countP_call (flow : Flow net s) (safe : Safe net s) (e : Clock) (feed : Bool) :
    (List.range (s.chan u).formed).countP (net.activeAt (net.call e feed s) u) =
      (List.range (s.chan u).formed).countP (net.activeAt s u) := by
  refine List.countP_congr fun k mem => ?_
  unfold activeAt
  rw [flow.column_call safe e feed fun i arity => flow.formed_there (List.mem_range.mp mem) arity]

omit [DecidableEq V] in
/-- The element that a channel holds counts by its condition. -/
theorem Flow.active_iff (flow : Flow net s) (formed : (s.chan v).channel.length = 1) :
    (!(net.cfg v).branchMode || ((s.chan v).channel.headD {}).cond) =
      net.activeAt s v (s.chan v).consumed.length := by
  obtain ⟨d, eq⟩ := List.length_eq_one_iff.mp formed
  have sound := flow.sound v
  have made := sound.formed d (by simp [eq])
  rw [sound.tracked.buffer _ (condBuffer_lt v)] at made
  rw [eq, List.headD_cons, made, activeAt]
  simp [element, column, List.headD_eq_head?_getD, List.head?_drop]

theorem Flow.success (flow : Flow net s) {rest : List V} (todo : s.rounds.todo = v :: rest)
    (e : Clock) (feed : Bool) : let x := s.chan v
    let y := (net.call e feed s).chan v
    (Chan.Awake (net.cfg v) e y.currId → y.formed = x.formed + y.pushChannelSuccess.toNat ∧
      (y.pushChannelSuccess = true → y.channel.length = 1)) ∧
    (¬Chan.Awake (net.cfg v) e y.currId → y.formed = x.formed ∧
      y.pushChannelSuccess = if (net.cfg v).noUpstream then x.pushChannelSuccess else false) := by
  intro x y
  have here : y = (net.get e feed s v).1 := call_here net todo e feed
  rw [here]
  exact Chan.get_success (net.calm v) (flow.sent v) e (net.upstreams s v)
    ((net.downstream v).map net.moduleId) (net.sendable s v) (net.fed s feed v)

/-- What the called channel has formed is in the counters, or it is active now. -/
theorem Counted.count_here (counted : Counted net false s p) (safe : Safe net s) {rest : List V}
    (todo : s.rounds.todo = v :: rest) (plain : net.upstream v = [] → (net.cfg v).speedup = 1)
    (e : Clock) (feed : Bool) : p.activeCnt v + (net.active (net.call e feed s) v).toNat =
      (List.range ((net.call e feed s).chan v).formed).countP (net.activeAt (net.call e feed s) v) := by
  have flow := counted.flow
  have later := flow.call counted.fair safe e feed
  have before := counted.count v plain
  have fresh : v ∉ s.rounds.done := by
    have nodup := net.nodup
    rw [counted.fair.split, todo, List.nodup_append] at nodup
    exact fun mem => nodup.2.2 v mem v (by simp) rfl
  simp only [Bool.false_eq_true, fresh, or_self, if_false, Nat.add_zero] at before
  rw [← flow.countP_call safe e feed] at before
  obtain ⟨awake, asleep⟩ := flow.success todo e feed
  have here := call_here net todo e feed
  set y := (net.call e feed s).chan v with eq_y
  have idle (same : y.formed = (s.chan v).formed) (none : y.pushChannelSuccess = false) :
      p.activeCnt v + (net.active (net.call e feed s) v).toNat =
        (List.range y.formed).countP (net.activeAt (net.call e feed s) v) := by
    rw [same, Net.active, ← eq_y, none]
    exact before
  by_cases now : Chan.Awake (net.cfg v) e y.currId
  · obtain ⟨grown, held⟩ := awake now
    cases formed : y.pushChannelSuccess with
    | false => exact idle (by simpa [formed] using grown) formed
    | true =>
      have position : (s.chan v).formed = y.consumed.length := by
        rw [formed, Bool.toNat_true, Chan.formed, held formed] at grown
        omega
      rw [grown, formed, Bool.toNat_true, List.range_succ, List.countP_append, ← before,
        List.countP_singleton, Net.active, ← eq_y, formed, Bool.true_and,
        later.active_iff (held formed), ← eq_y, ← position]
      cases net.activeAt (net.call e feed s) v (s.chan v).formed <;> rfl
  · obtain ⟨same, kept⟩ := asleep now
    refine idle same (kept.trans ?_)
    cases none : (net.cfg v).noUpstream with
    | false => rfl
    | true =>
      obtain ⟨advance, -⟩ := flow.advance safe todo e feed
      have one := plain ((net.noUpstream v).mp none)
      refine absurd (.inl ?_) now
      rw [here, advance.currId, Chan.nextId, if_neg (by omega), counted.thread v one.le, one]

/-- Who was called in the iteration that ends or goes on with this call. -/
theorem Counted.called (counted : Counted net false s p) {rest : List V}
    (todo : s.rounds.todo = v :: rest) (w : V) :
    ((s.rounds.next net.order).todo = net.order ∨ w ∈ (s.rounds.next net.order).done) ↔
      w ∈ s.rounds.done ∨ w = v := by
  have split := counted.fair.split
  rw [todo] at split
  by_cases last : rest = []
  · subst last
    have mem := net.mem_order w
    rw [split] at mem
    obtain ⟨again, -⟩ := Rounds.next_last net.order todo
    simpa [again] using mem
  · obtain ⟨after, done⟩ := Rounds.next_more net.order todo last
    have shorter : rest ≠ net.order := fun same => by
      have length := congrArg List.length split
      rw [← same, List.length_append, List.length_cons] at length
      omega
    simp [after, done, shorter]

theorem Counted.call (counted : Counted net false s p) (safe : Safe net s) (e : Clock) (feed : Bool) :
    Counted net ((net.call e feed s).rounds.todo = net.order) (net.call e feed s) p := by
  have flow := counted.flow.call counted.fair safe e feed
  have fair : (net.call e feed s).rounds.Fair net.order := counted.fair.next net.nodup
  have ended : (net.call e feed s).rounds.todo = net.order → (net.call e feed s).rounds.done = [] :=
    fun again => by simpa [again] using fair.split
  cases todo : s.rounds.todo with
  | nil =>
    have none := counted.todo todo
    have same : (net.call e feed s).chan = s.chan := Net.call_idle e feed todo
    exact ⟨flow, fair, by rw [same]; exact counted.thread, fun _ => none,
      fun again => ended (by simpa using again), fun v _ => absurd (net.mem_order v) (by simp [none])⟩
  | cons v rest =>
    refine ⟨flow, fair, fun w slow => ?_, fun none => ?_, fun again => ended (by simpa using again),
      fun w plain => ?_⟩
    · by_cases here : w = v
      · subst here
        obtain ⟨advance, -⟩ := counted.flow.advance safe todo e feed
        rw [call_here net todo, advance.currId, Chan.nextId, if_neg (by omega)]
        exact counted.thread w slow
      · rw [call_other net todo e feed here]
        exact counted.thread w slow
    · by_cases last : rest = []
      · subst last
        exact (Rounds.next_last net.order todo).1.symm.trans none
      · exact absurd ((Rounds.next_more net.order todo last).1.symm.trans none) last
    · have called : (decide ((net.call e feed s).rounds.todo = net.order) = true ∨
          w ∈ (net.call e feed s).rounds.done) ↔ w ∈ s.rounds.done ∨ w = v := by
        rw [decide_eq_true_iff]
        exact counted.called todo w
      rw [if_congr called rfl rfl]
      by_cases here : w = v
      · subst here
        rw [if_pos (.inr rfl)]
        exact counted.count_here safe todo plain e feed
      · have before := counted.count w plain
        have same := call_other net todo e feed here
        rw [← counted.flow.countP_call safe e feed] at before
        rw [Net.active, same, ← Net.active, ← before]
        simp [here]

theorem Counted.reconfigured (counted : Counted net due s p) (enable push : V → Bool)
    (count : V → Nat) : Counted net due { s with chan := fun v => { s.chan v with
      enable := enable v, pushBufferEnable := push v, chanDataCnt := count v } } p where
  flow := counted.flow.reconfigured enable push count
  fair := counted.fair
  thread := counted.thread
  todo := counted.todo
  ended := counted.ended
  count := counted.count

theorem Counted.update (counted : Counted net true s p) (clkAdd : Bool) (currSubgraphId : Nat) :
    Counted net false s (net.updateChanUtilization subgraphId s clkAdd currSubgraphId p) where
  flow := counted.flow
  fair := counted.fair
  thread := counted.thread
  todo := counted.todo
  ended := by simp
  count v plain := by
    have before := counted.count v plain
    rw [if_pos (.inl rfl)] at before
    rw [counted.ended rfl, if_neg (by simp), ← before, Nat.add_zero]
    simp only [Net.updateChanUtilization]
    cases net.active s v <;> rfl

theorem Profiled.counted (run : Profiled net subgraphId due s p) : Counted net due s p := by
  induction run with
  | @start t rounds empty =>
    refine ⟨Flow.start empty, rounds ▸ .start net.order, fun v _ => ?_, fun none => ?_, by simp,
      fun v _ => ?_⟩
    · rw [empty]
    · simpa [rounds] using none
    · rw [empty]
      simp [rounds, Chan.formed]
  | call e feed safe _ ih => exact ih.call safe e feed
  | reconfigured enable push count _ ih => exact ih.reconfigured enable push count
  | update clkAdd currSubgraphId _ ih => exact ih.update clkAdd currSubgraphId

omit [DecidableEq V] in
/-- What a channel has formed is what the graph says. -/
theorem Flow.formed_stream (flow : Flow net s) {k : Nat} (lt : k < (s.chan v).formed) :
    net.graph.stream v k = some (net.element v (column s v k)) := by
  have known := flow.stored_row fun i arity => flow.formed_there lt arity
  rw [Dataflow.stream, ← emit_row, ← Option.map_some, ← known, Option.map_map]
  rfl

/-- After the last call of an iteration the counters tell how many elements each channel has formed
whose conditions count, and these are the elements of the graph. -/
theorem activeCnt_eq (run : Profiled net subgraphId false s p) (between : s.rounds.todo = net.order)
    (plain : net.upstream v = [] → (net.cfg v).speedup = 1) :
    (∀ k < (s.chan v).formed, (net.graph.stream v k).isSome) ∧
      p.activeCnt v = (List.range (s.chan v).formed).countP fun k =>
        !(net.cfg v).branchMode || (net.graph.stream v k).any Prod.snd := by
  have counted := run.counted
  have flow := counted.flow
  refine ⟨fun k lt => by rw [flow.formed_stream lt]; rfl, ?_⟩
  have none : s.rounds.done = [] := by simpa [between] using counted.fair.split
  have count := counted.count v plain
  rw [none, if_neg (by simp), Nat.add_zero] at count
  rw [count]
  refine List.countP_congr fun k mem => ?_
  rw [activeAt, flow.formed_stream (List.mem_range.mp mem)]
  rfl

/-- The counters when the profiler is called after each iteration. -/
def report (net : CalmNet V) (e : Nat → Clock) (s : NetState V) : Nat → Utilization V
  | 0 => {}
  | n + 1 =>
    let t := net.after e (fun _ => true) s (n + 1)
    if t.rounds.todo = net.order then
      net.updateChanUtilization (fun _ => 0) t (e n).clkAdd 0 (report net e s n)
    else report net e s n

theorem Started.profiled (started : Started net s) (e : Nat → Clock) (n : Nat) :
    Profiled net (fun _ => 0) false (net.after e (fun _ => true) s n) (net.report e s n) := by
  induction n with
  | zero =>
    refine .start started.rounds fun v => ?_
    have on : (s.chan v).enable = true := by rw [started.empty]
    change s.chan v = { enable := (s.chan v).enable, pushBufferEnable := (s.chan v).pushBufferEnable }
    rw [on]
    exact started.empty v
  | succ n ih =>
    have called := ih.call (e n) true (started.live.run e _ n).on.safe
    have next : net.after e (fun _ => true) s (n + 1) =
      net.call (e n) true (net.after e (fun _ => true) s n) := rfl
    rw [report, next]
    split_ifs with last
    · rw [decide_eq_true last] at called
      exact called.update _ _
    · rwa [decide_eq_false last] at called

/-- Fifteen iterations, one for each clock. -/
theorem activeCnt_eq_branched :
    let s := branched.after (fun n => { clk := n / 3 }) (fun _ => true) begun 45
    let p := branched.report (fun n => { clk := n / 3 }) begun 45
    (∀ k < (s.chan 2).formed, (branched.graph.stream 2 k).isSome) ∧
      p.activeCnt 2 = (List.range (s.chan 2).formed).countP fun k =>
        !true || (branched.graph.stream 2 k).any Prod.snd :=
  activeCnt_eq (begun_started.profiled _ 45)
    ((congrArg Rounds.todo (rounds_after branched _ _ begun 45)).trans
      (Rounds.todo_iterate (List.cons_ne_nil _ _ : branched.order ≠ []) 45))
    fun none => absurd none (by decide)

end CalmNet

end DataflowSim.Execution
