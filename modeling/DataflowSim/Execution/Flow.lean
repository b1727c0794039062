import DataflowSim.Execution.Advance
import DataflowSim.Execution.Network

/-!
# What flows through a network

Acyclic networks of `ChanBase` and `ChanDGSF` channels without keep mode. The enables may change
between any two calls. As long as no channel is called that may not store what it is offered, each
datum is what the upstream has made of the data at the same position of its own buffers.
-/

namespace DataflowSim.Execution

structure CalmNet (V : Type*) extends Net V where
  rank : V → Nat
  acyclic : ∀ v, ∀ u ∈ upstream v, rank u < rank v
  calm : ∀ v, Chan.Calm (cfg v)

namespace CalmNet

variable {V : Type*} [DecidableEq V] (net : CalmNet V)

/-! ## Elements -/

/-- The buffer that gives the elements of a channel their condition. -/
def condBuffer (v : V) : Nat :=
  (if (net.cfg v).branchMode then (List.range (net.cfg v).upNum).find? fun i =>
    ((net.upstream v)[i]?.map fun u => (net.cfg u).isCond).getD false else none).getD 0

/-- The value and the condition that a channel makes of one datum of each buffer. -/
def element (v : V) (ds : Nat → Data) : Int × Bool :=
  (net.op v ((List.range (net.cfg v).arity).map fun i => (ds i).value),
    (ds (net.condBuffer v)).cond)

/-- The condition under which a channel stores an element of its upstream. -/
def admitted (u w : V) (a : Int × Bool) : Bool :=
  if (net.cfg u).isCond && (net.cfg w).branchMode then
    a.2 && (if (net.cfg w).channelCond then (1 : Int) else 0) == a.1
  else a.2

/-- The data at one position of the buffers. -/
def column (s : NetState V) (v : V) (k : Nat) (i : Nat) : Data :=
  ((s.chan v).received i)[k]?.getD {}

/-- No channel is called that is offered something and may not store it. -/
def Safe (s : NetState V) : Prop :=
  ∀ v ∈ s.rounds.todo.head?, (net.cfg v).chanType = .Chan_DGSF →
    (s.chan v).pushBufferEnable = false → ∀ u ∈ net.upstream v, (s.chan u).valid = false

/-- What holds in a run without loss. -/
structure Flow (s : NetState V) : Prop where
  sound : ∀ v, Chan.Sound (net.cfg v) (net.condBuffer v) (s.chan v)
  sent : ∀ v, (s.chan v).valid = true → (s.chan v).channel ≠ []
  idle : ∀ v, s.rounds.called v = false → (s.chan v).valid = false
  delivered : ∀ w i u, (net.upstream w)[i]? = some u → ∀ k d,
    ((s.chan w).received i)[k]? = some d → d.value = (net.element u (column s u k)).1 ∧
      d.cond = net.admitted u w (net.element u (column s u k))
  fed : ∀ v, net.upstream v = [] → ∀ k d,
    ((s.chan v).received 0)[k]? = some d → net.input v k = some d.value
  bounded : ∀ v, net.upstream v = [] →
    ((s.chan v).received 0).length ≤ (s.chan v).consumed.length + (net.cfg v).size
  /-- Neither is anything lost nor does anything come twice. -/
  count : ∀ w i u, (net.upstream w)[i]? = some u → ((s.chan w).received i).length =
    if (net.cfg w).drainMode then 0
    else (s.chan u).consumed.length + ((s.chan u).valid && !s.rounds.turn u w).toNat
  value : ∀ v, (s.chan v).valid = true →
    (s.chan v).value = (net.element v (column s v (s.chan v).consumed.length)).1

variable {net} {s : NetState V} {v u w : V} {i : Nat}

omit [DecidableEq V] in
variable (net) in
theorem condBuffer_eq (s : NetState V) (v : V) :
    Chan.condBuffer (net.cfg v) (net.upstreams s v) = net.condBuffer v := by
  have same (i : Nat) : (net.upstreams s v i).isCond =
      ((net.upstream v)[i]?.map fun u => (net.cfg u).isCond).getD false := by
    cases at_i : (net.upstream v)[i]? <;> simp [Net.upstreams, Net.shown, at_i]
  simp only [Chan.condBuffer, condBuffer, same]

omit [DecidableEq V] in
theorem condBuffer_lt (v : V) : net.condBuffer v < (net.cfg v).arity := by
  by_cases source : net.upstream v = []
  · have none := (net.noUpstream v).mpr source
    have zero : (net.cfg v).upNum = 0 := by simp [net.upNum, source]
    simp [condBuffer, zero, ChanConfig.arity, none]
  · have some : 0 < (net.upstream v).length := List.length_pos_iff.mpr source
    rw [Net.arity_eq source, condBuffer]
    split_ifs
    · cases found : (List.range (net.cfg v).upNum).find? fun i =>
          ((net.upstream v)[i]?.map fun u => (net.cfg u).isCond).getD false with
      | none => exact some
      | some i =>
        rw [← net.upNum]
        exact List.mem_range.mp (List.mem_of_find?_eq_some found)
    · exact some

omit [DecidableEq V] in
theorem ne_of_upstream (at_i : (net.upstream w)[i]? = some u) : u ≠ w := by
  rintro rfl
  exact absurd (net.acyclic u u (List.mem_of_getElem? at_i)) (lt_irrefl _)

omit [DecidableEq V] in
/-- An element is made of the data at one position. -/
theorem element_congr {ds ds' : Nat → Data}
    (value : ∀ i < (net.cfg v).arity, (ds i).value = (ds' i).value)
    (cond : ∀ i < (net.cfg v).arity, (ds i).cond = (ds' i).cond) :
    net.element v ds = net.element v ds' := by
  rw [element, element, cond _ (condBuffer_lt v)]
  refine congrArg (net.op v · , _) (List.map_congr_left fun i mem => ?_)
  exact value i (List.mem_range.mp mem)

/-! ## A call -/

omit [DecidableEq V] in
theorem Flow.start {enable push : V → Bool} (empty : ∀ v,
    s.chan v = { enable := enable v, pushBufferEnable := push v }) : Flow net s := by
  refine ⟨fun v => ?_, fun v => ?_, fun v _ => ?_, ?_, ?_, ?_, ?_, fun v => ?_⟩
  · rw [empty]
    exact ⟨⟨fun _ _ => rfl, by simp, by simp, by simp, by simp⟩, by simp, by simp, by simp, by simp⟩
  all_goals simp [empty]

omit [DecidableEq V] in
/-- The enables are no part of the law. -/
theorem Flow.reconfigured (flow : Flow net s) (enable push : V → Bool) (count : V → Nat) :
    Flow net { s with chan := fun v => { s.chan v with
      enable := enable v, pushBufferEnable := push v, chanDataCnt := count v } } where
  sound v :=
    have sound := flow.sound v
    ⟨sound.tracked.congr rfl rfl rfl rfl, sound.more, sound.bare, sound.source, sound.formed⟩
  sent := flow.sent
  idle := flow.idle
  delivered := flow.delivered
  fed := flow.fed
  bounded := flow.bounded
  count := flow.count
  value := flow.value

/-- What a channel without upstreams is offered. -/
def offer (net : CalmNet V) (s : NetState V) (feed : Bool) (v : V) : Option Int :=
  if feed then net.input v ((s.chan v).received 0).length else none

omit [DecidableEq V] in
theorem Flow.front (flow : Flow net s) (valid : (s.chan u).valid = true) :
    ((s.chan u).channel.headD {}).Bare ∧ ((s.chan u).channel.headD {}).cond =
      (net.element u (column s u (s.chan u).consumed.length)).2 := by
  obtain ⟨d, l, eq⟩ := List.exists_cons_of_ne_nil (flow.sent u valid)
  have sound := flow.sound u
  have formed := sound.formed d (by simp [eq])
  rw [sound.tracked.buffer _ (condBuffer_lt u)] at formed
  rw [eq, List.headD_cons, formed]
  refine ⟨rfl, ?_⟩
  simp [element, column, List.headD_eq_head?_getD, List.head?_drop]

omit [DecidableEq V] in
variable (net) in
theorem upstreams_cases (s : NetState V) (v : V) (i : Nat) : net.upstreams s v i = {} ∨
    ∃ u, (net.upstream v)[i]? = some u ∧ net.upstreams s v i = net.shown s u := by
  cases at_i : (net.upstream v)[i]? with
  | none => exact .inl (by simp [Net.upstreams, at_i])
  | some u => exact .inr ⟨u, rfl, Net.upstreams_some at_i⟩

omit [DecidableEq V] in
theorem upstreams_keepMode (s : NetState V) (v : V) (i : Nat) :
    (net.upstreams s v i).keepMode = false := by
  obtain none | ⟨u, -, eq⟩ := upstreams_cases net s v i
  · rw [none]
  · rw [eq]
    exact (net.calm u).keepMode

omit [DecidableEq V] in
theorem Flow.meets (flow : Flow net s) (safe : (net.cfg v).chanType = .Chan_DGSF →
    (s.chan v).pushBufferEnable = false → ∀ u ∈ net.upstream v, (s.chan u).valid = false) :
    Chan.Meets (net.cfg v) (net.upstreams s v) (s.chan v) := by
  refine ⟨upstreams_keepMode s v, fun i valid => ?_, fun dgsf off i => ?_⟩
  · obtain none | ⟨u, -, eq⟩ := upstreams_cases net s v i
    · simp [none] at valid
    · rw [eq] at valid ⊢
      exact (flow.front valid).1
  · obtain none | ⟨u, at_i, eq⟩ := upstreams_cases net s v i
    · rw [none]
    · rw [eq]
      exact safe dgsf off u (List.mem_of_getElem? at_i)

theorem Flow.advance (flow : Flow net s) (safe : Safe net s) {rest : List V}
    (todo : s.rounds.todo = v :: rest) (e : Clock) (feed : Bool) :
    Chan.Advance (net.cfg v) e (net.upstreams s v) (net.sendable s v) (offer net s feed v)
        (s.chan v) (net.get e feed s v).1 ∧
      (net.get e feed s v).1.value = net.op v (net.operands v (net.get e feed s v).1) := by
  have sound : Chan.Sound (net.cfg v) (Chan.condBuffer (net.cfg v) (net.upstreams s v)) (s.chan v) :=
    condBuffer_eq net s v ▸ flow.sound v
  have advance := sound.get (net.calm v) (flow.meets (safe v (by simp [todo])))
    (condBuffer_eq net s v ▸ condBuffer_lt v) (flow.sent v) e ((net.downstream v).map net.moduleId)
    (net.sendable s v) (offer net s feed v)
  have data : net.fed s feed v = (offer net s feed v).toList := by
    simp only [Net.fed, offer]
    split_ifs <;> rfl
  rw [← data] at advance
  refine ⟨⟨⟨advance.sound.tracked.congr rfl rfl rfl rfl, advance.sound.more, advance.sound.bare,
    advance.sound.source, advance.sound.formed⟩, advance.sent, advance.currId, advance.consumed,
    advance.received, advance.fed, advance.forms, advance.waits, advance.valid, advance.bp,
    advance.enable, advance.pushBufferEnable⟩, rfl⟩

variable (net) in
theorem call_here {rest : List V} (todo : s.rounds.todo = v :: rest) (e : Clock) (feed : Bool) :
    (net.call e feed s).chan v = (net.get e feed s v).1 := by
  rw [Net.call_chan todo, if_pos rfl]

variable (net) in
theorem call_other {rest : List V} (todo : s.rounds.todo = v :: rest) (e : Clock) (feed : Bool)
    (ne : u ≠ v) : (net.call e feed s).chan u = s.chan u := by
  rw [Net.call_chan todo, if_neg ne, Net.tagged, if_neg]
  simp [(net.calm u).keepMode]

omit [DecidableEq V] in
/-- An element is offered with all its operands. -/
theorem Flow.operands_there (flow : Flow net s) (valid : (s.chan u).valid = true) {j : Nat}
    (lt : j < (net.cfg u).arity) :
    (s.chan u).consumed.length < ((s.chan u).received j).length := by
  have tracked := (flow.sound u).tracked
  have held := List.length_pos_iff.mpr (tracked.held (flow.sent u valid) j lt)
  rw [tracked.buffer j lt, List.length_drop] at held
  omega

omit [DecidableEq V] in
/-- What has come from a channel was made of data that it has received. -/
theorem Flow.known (flow : Flow net s) (at_i : (net.upstream w)[i]? = some u) {k : Nat}
    (lt : k < ((s.chan w).received i).length) {j : Nat} (j_lt : j < (net.cfg u).arity) :
    k < ((s.chan u).received j).length := by
  have bound := (flow.sound u).tracked.bound j j_lt
  rw [flow.count w i u at_i] at lt
  split_ifs at lt
  · omega
  · cases valid : (s.chan u).valid with
    | false =>
      rw [valid, Bool.false_and, Bool.toNat_false, Nat.add_zero] at lt
      exact lt.trans_le bound
    | true =>
      have there := flow.operands_there valid j_lt
      have le := Bool.toNat_le ((s.chan u).valid && !s.rounds.turn u w)
      omega

omit [DecidableEq V] in
/-- What is called has got from each upstream all that it has popped. -/
theorem Flow.due (flow : Flow net s) (fair : s.rounds.Fair net.order) {rest : List V}
    (todo : s.rounds.todo = v :: rest) (at_i : (net.upstream v)[i]? = some u)
    (stores : (net.cfg v).drainMode = false) :
    ((s.chan v).received i).length = (s.chan u).consumed.length := by
  have count := flow.count v i u at_i
  have ahead := fair.ahead todo (net.mem_order u) (ne_of_upstream at_i)
  cases valid : (s.chan u).valid with
  | false => simpa [valid, stores] using count
  | true =>
    have turned : s.rounds.turn u v = true :=
      ahead.1.resolve_right fun idle => by simp [flow.idle u idle] at valid
    simpa [turned, stores] using count

/-- Growing buffers keep what they hold. -/
theorem Flow.column_call (flow : Flow net s) (safe : Safe net s) (e : Clock) (feed : Bool) {k : Nat}
    (there : ∀ i < (net.cfg u).arity, k < ((s.chan u).received i).length) :
    net.element u (column (net.call e feed s) u k) = net.element u (column s u k) := by
  have same (i : Nat) (lt : i < (net.cfg u).arity) :
      column (net.call e feed s) u k i = column s u k i := by
    cases todo : s.rounds.todo with
    | nil => rw [column, Net.call_idle e feed todo, column]
    | cons v rest =>
      by_cases eq : u = v
      · subst eq
        obtain ⟨⟨-, -, -, -, received, fed, -, -, -, -, -, -⟩, -⟩ := flow.advance safe todo e feed
        rw [column, call_here net todo, column]
        cases none : (net.cfg u).noUpstream with
        | true =>
          obtain rfl : i = 0 := by simpa [ChanConfig.arity, none] using lt
          rw [fed none, List.getElem?_append_left (there 0 lt)]
        | false =>
          rw [received none i (by simpa [ChanConfig.arity, none] using lt),
            List.getElem?_append_left (there i lt)]
      · rw [column, call_other net todo e feed eq, column]
  exact element_congr (fun i lt => by rw [same i lt]) fun i lt => by rw [same i lt]

omit [DecidableEq V] in
/-- The next datum of a buffer is the element that is offered. -/
theorem Flow.next (flow : Flow net s) (at_i : (net.upstream w)[i]? = some u)
    (valid : (s.chan u).valid = true) (e : Clock) :
    let d := Chan.pushData (net.cfg w) e (net.upstreams s w) (s.chan u).value i
    let a := net.element u (column s u (s.chan u).consumed.length)
    d.value = a.1 ∧ d.cond = net.admitted u w a := by
  have value := flow.value u valid
  have cond := (flow.front valid).2
  refine ⟨value, ?_⟩
  simp only [Chan.pushData, Net.upstreams_some at_i, Net.shown, cond, value, admitted]

/-! ### The called channel -/

section Here

variable {rest : List V} (flow : Flow net s) (safe : Safe net s)
  (todo : s.rounds.todo = v :: rest) (e : Clock) (feed : Bool)

omit [DecidableEq V] in
theorem has_upstream (at_i : (net.upstream v)[i]? = some u) :
    (net.cfg v).noUpstream = false ∧ i < (net.cfg v).upNum := by
  have lt := (List.getElem?_eq_some_iff.mp at_i).1
  refine ⟨?_, net.upNum v ▸ lt⟩
  rw [Bool.eq_false_iff, ne_eq, net.noUpstream]
  exact List.ne_nil_of_length_pos (by omega)

include flow safe todo

/-- A datum was there before, or it is the next one of its upstream. -/
theorem Flow.delivered_here (fair : s.rounds.Fair net.order)
    (at_i : (net.upstream v)[i]? = some u) {k : Nat} {d : Data}
    (at_k : ((net.get e feed s v).1.received i)[k]? = some d) :
    d.value = (net.element u (column (net.call e feed s) u k)).1 ∧
      d.cond = net.admitted u v (net.element u (column (net.call e feed s) u k)) := by
  obtain ⟨advance, -⟩ := flow.advance safe todo e feed
  obtain ⟨has, lt⟩ := has_upstream at_i
  rw [advance.received has i lt] at at_k
  by_cases old : k < ((s.chan v).received i).length
  · rw [List.getElem?_append_left old] at at_k
    rw [flow.column_call safe e feed fun j lt => flow.known at_i old lt]
    exact flow.delivered v i u at_i k d at_k
  · rw [List.getElem?_append_right (by omega)] at at_k
    split_ifs at at_k with takes
    · obtain ⟨valid, stores⟩ := Bool.and_eq_true_iff.mp takes
      rw [Net.upstreams_some at_i] at valid at_k
      have due := flow.due fair todo at_i (by simpa using stores)
      obtain rfl : k = (s.chan u).consumed.length := by
        have := (List.getElem?_eq_some_iff.mp at_k).1
        simp only [List.length_singleton] at this
        omega
      obtain rfl : Chan.pushData (net.cfg v) e (net.upstreams s v) (s.chan u).value i = d := by
        simpa [due, Net.shown] using at_k
      rw [flow.column_call safe e feed fun j lt => flow.operands_there valid lt]
      exact flow.next at_i valid e
    · simp at at_k

theorem Flow.fed_here (source : net.upstream v = []) {k : Nat} {d : Data}
    (at_k : ((net.get e feed s v).1.received 0)[k]? = some d) : net.input v k = some d.value := by
  obtain ⟨advance, -⟩ := flow.advance safe todo e feed
  rw [advance.fed ((net.noUpstream v).mpr source)] at at_k
  by_cases old : k < ((s.chan v).received 0).length
  · rw [List.getElem?_append_left old] at at_k
    exact flow.fed v source k d at_k
  · rw [List.getElem?_append_right (by omega)] at at_k
    split_ifs at at_k
    · obtain ⟨value, offered, rfl⟩ : ∃ value, offer net s feed v = some value ∧
          ({ valid := true, value := value, cycle := e.clk + (net.cfg v).cycle } : Data) = d := by
        have mem := List.mem_of_getElem? at_k
        simpa using mem
      have first : k = ((s.chan v).received 0).length := by
        have := (List.getElem?_eq_some_iff.mp at_k).1
        simp only [offered, Option.map_some, Option.toList_some, List.length_singleton] at this
        omega
      unfold offer at offered
      split_ifs at offered
      rw [first]
      exact offered
    · simp at at_k

theorem Flow.bounded_here (source : net.upstream v = []) :
    ((net.get e feed s v).1.received 0).length ≤
      (net.get e feed s v).1.consumed.length + (net.cfg v).size := by
  obtain ⟨advance, -⟩ := flow.advance safe todo e feed
  have bounded := flow.bounded v source
  have consumed := advance.consumed
  rw [advance.fed ((net.noUpstream v).mpr source)]
  split_ifs with room
  · cases offer net s feed v <;> simp <;> omega
  · simp
    omega

/-- After its call a channel has got all that its upstream has offered. -/
theorem Flow.count_here (fair : s.rounds.Fair net.order) (at_i : (net.upstream v)[i]? = some u) :
    ((net.get e feed s v).1.received i).length = if (net.cfg v).drainMode then 0
      else (s.chan u).consumed.length + (s.chan u).valid.toNat := by
  obtain ⟨advance, -⟩ := flow.advance safe todo e feed
  obtain ⟨has, lt⟩ := has_upstream at_i
  have count := flow.count v i u at_i
  rw [advance.received has i lt, List.length_append, Chan.takes, Net.upstreams_some at_i]
  cases drains : (net.cfg v).drainMode with
  | true => simpa [drains] using count
  | false =>
    rw [flow.due fair todo at_i drains]
    cases valid : (s.chan u).valid <;> simp [Net.shown, valid]

theorem Flow.value_here (valid : (net.get e feed s v).1.valid = true) :
    (net.get e feed s v).1.value = (net.element v fun i =>
      ((net.get e feed s v).1.received i)[(net.get e feed s v).1.consumed.length]?.getD {}).1 := by
  obtain ⟨advance, made⟩ := flow.advance safe todo e feed
  have tracked := advance.sound.tracked
  rw [made, element, Net.operands]
  refine congrArg (net.op v) (List.map_congr_left fun i mem => ?_)
  have lt := List.mem_range.mp mem
  have held := tracked.held (advance.sent valid) i lt
  rw [tracked.buffer i lt] at held
  have there := List.length_pos_iff.mpr held
  rw [List.length_drop] at there
  rw [Chan.assign, tracked.buffer i lt, List.drop_eq_getElem_cons (by omega),
    List.getElem?_eq_getElem (by omega)]
  rfl

end Here

/-- A call of a channel that may store what it is offered keeps the law. -/
theorem Flow.call (flow : Flow net s) (fair : s.rounds.Fair net.order) (safe : Safe net s)
    (e : Clock) (feed : Bool) : Flow net (net.call e feed s) := by
  cases todo : s.rounds.todo with
  | nil =>
    have same : (net.call e feed s).chan = s.chan := Net.call_idle e feed todo
    obtain ⟨turn, called⟩ := Rounds.next_idle net.order todo
    have turn : (net.call e feed s).rounds.turn = s.rounds.turn := turn
    have called : (net.call e feed s).rounds.called = s.rounds.called := called
    have columns : column (net.call e feed s) = column s := by
      funext u k i
      rw [column, same, column]
    exact ⟨by rw [same]; exact flow.sound, by rw [same]; exact flow.sent,
      by rw [same, called]; exact flow.idle, by rw [same, columns]; exact flow.delivered,
      by rw [same]; exact flow.fed, by rw [same]; exact flow.bounded,
      by rw [same, turn]; exact flow.count, by rw [same, columns]; exact flow.value⟩
  | cons v rest =>
    obtain ⟨advance, -⟩ := flow.advance safe todo e feed
    have here := call_here net todo e feed
    have other {u : V} (ne : u ≠ v) := call_other net todo e feed ne
    have turn (a b : V) : (net.call e feed s).rounds.turn a b =
        if b = v then false else if a = v then true else s.rounds.turn a b :=
      Rounds.next_turn todo a b
    have called (a : V) : (net.call e feed s).rounds.called a =
        if a = v then true else s.rounds.called a := Rounds.next_called todo a
    refine ⟨fun w => ?_, fun w => ?_, fun w idle => ?_, fun w i u at_i k d at_k => ?_,
      fun w source k d at_k => ?_, fun w source => ?_, fun w i u at_i => ?_, fun w valid => ?_⟩
    · by_cases eq : w = v
      · subst eq
        rw [here]
        exact condBuffer_eq net s w ▸ advance.sound
      · exact other eq ▸ flow.sound w
    · by_cases eq : w = v
      · subst eq
        rw [here]
        exact advance.sent
      · exact other eq ▸ flow.sent w
    · rw [called] at idle
      split_ifs at idle with eq
      exact other eq ▸ flow.idle w idle
    · by_cases eq : w = v
      · subst eq
        exact flow.delivered_here safe todo e feed fair at_i (here ▸ at_k)
      · rw [other eq] at at_k
        have old := (List.getElem?_eq_some_iff.mp at_k).1
        rw [flow.column_call safe e feed fun j lt => flow.known at_i old lt]
        exact flow.delivered w i u at_i k d at_k
    · by_cases eq : w = v
      · subst eq
        exact flow.fed_here safe todo e feed source (here ▸ at_k)
      · exact flow.fed w source k d (other eq ▸ at_k)
    · by_cases eq : w = v
      · subst eq
        rw [here]
        exact flow.bounded_here safe todo e feed source
      · exact other eq ▸ flow.bounded w source
    · rw [turn]
      by_cases eq : w = v
      · subst eq
        rw [here, other (ne_of_upstream at_i), if_pos rfl, flow.count_here safe todo e feed fair at_i]
        simp
      · rw [other eq, if_neg eq]
        by_cases eq' : u = v
        · subst eq'
          have count := flow.count w i u at_i
          rw [(fair.ahead todo (net.mem_order w) eq).2] at count
          rw [count, here, advance.consumed]
          simp
        · rw [other eq', if_neg eq']
          exact flow.count w i u at_i
    · by_cases eq : w = v
      · subst eq
        unfold column
        rw [here] at valid ⊢
        exact flow.value_here safe todo e feed valid
      · rw [other eq] at valid ⊢
        rw [flow.column_call safe e feed fun j lt => flow.operands_there valid lt]
        exact flow.value w valid

end CalmNet

end DataflowSim.Execution
