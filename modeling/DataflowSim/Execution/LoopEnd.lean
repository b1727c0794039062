import DataflowSim.Execution.Lc

/-!
# The end tokens of a loop

A controller counts the ends that its inner loops send to `getEnd`, and puts a token into
`sendEnd` when all ends of an instance have arrived. What the loop does between two calls of
`lcUpdate` is left open: any state of the loop variable and of the mux is possible. The
consumers of `sendEnd` take its token between two calls whenever it is valid.
-/

namespace DataflowSim.Execution

/-- `getEnd` has no downstreams and is not in keep mode. -/
structure EndConfig extends LcConfig where
  noDownstream : getEnd.noDownstream = true
  plain : getEnd.keepMode = false

/-- A controller with what has happened to it: how many values its loop variable has sent, how
many ends have arrived, and how many tokens the consumers of `sendEnd` have taken. `ready`
tells whether they could take one at the last call. -/
structure EndRun where
  lc : Lc := {}
  clk : Nat := 0
  ready : Bool := true
  sent : Nat := 0
  arrived : Nat := 0
  taken : Nat := 0

/-- The surroundings of one call of `lcUpdate`. -/
structure EndInput where
  e : Clock
  newSel : Bool
  mux : Mux
  loopVar : Chan
  ends : Nat → Upstream
  ready : Bool

namespace EndRun

variable (cfg : EndConfig)

def update (i : EndInput) (s : EndRun) : EndRun :=
  let lc := Lc.lcUpdate cfg.toLcConfig i.e i.newSel i.ends i.ready
    { s.lc with mux := i.mux, loopVar := i.loopVar }
  { lc := lc
    clk := i.e.clk
    ready := i.ready
    sent := if i.loopVar.valid then s.sent + 1 else s.sent
    arrived := if lc.getEnd.channel.isEmpty then s.arrived else s.arrived + 1
    taken := if s.lc.sendEnd.valid then s.taken + 1 else s.taken }

/-- The instances whose end token was put into `sendEnd`. -/
def finished (s : EndRun) : Nat := s.lc.loopNums.length - s.lc.loopNumQ.length

/-- The controller just before `sendEndUpdate`. -/
def beforeSend (i : EndInput) (s : EndRun) : Lc :=
  Lc.getEndUpdate cfg.toLcConfig i.e i.ends (Lc.loopUpdate cfg.toLcConfig
    (Lc.selUpdate i.newSel { s.lc with mux := i.mux, loopVar := i.loopVar }))

/-- In this call the last end of an instance arrives. -/
def completes (i : EndInput) (s : EndRun) : Bool := Lc.complete (beforeSend cfg i s)

/-- A call in which an end token is put into `sendEnd` or can be taken from it finds `sendEnd`
in a state that allows it: a token that is put finds room, and none that the same call would
make valid; and no token waits that is not valid while the consumers are ready. -/
def Spare (i : EndInput) (s : EndRun) : Prop :=
  let waiting := (s.lc.sendEnd.chanBuffer 0).length
  if s.lc.sendEnd.valid = true then completes cfg i s = true → i.ready = true → waiting = 1
  else if completes cfg i s = true then waiting ≠ cfg.endSize
  else i.ready = true → waiting = 0

/-- The runs: time does not go back, and no end arrives before its value was sent. -/
inductive Reachable (P : EndInput → EndRun → Prop) : EndRun → Prop
  | init : Reachable P {}
  | update {s} (i : EndInput) (later : s.clk ≤ i.e.clk)
      (causal : (update cfg i s).arrived ≤ (update cfg i s).sent) (allowed : P i s) :
      Reachable P s → Reachable P (update cfg i s)

/-- One end token for each completed instance, in order. -/
structure Law (s : EndRun) : Prop where
  /-- An arrival is a token from each upstream of `getEnd`. -/
  joined : ∀ i < cfg.getEnd.arity, s.arrived ≤ (s.lc.getEnd.received i).length
  /-- All ends of the finished instances have arrived. -/
  arrived : (s.lc.loopNums.take s.finished).sum ≤ s.arrived
  /-- The next instance, if all its values were sent, waits for an end. -/
  next : ∀ n ∈ s.lc.loopNums[s.finished]?, s.arrived < (s.lc.loopNums.take s.finished).sum + n
  /-- Each finished instance has put its token into `sendEnd`. -/
  stored : (s.lc.sendEnd.received 0).length = s.finished
  /-- What was removed from `sendEnd` is what the consumers have taken, in order. -/
  removed : s.lc.sendEnd.consumed = ((s.lc.sendEnd.received 0).take s.taken).map ([·])
  waiting : s.lc.sendEnd.chanBuffer 0 = (s.lc.sendEnd.received 0).drop s.taken
  /-- A token that the consumers can take is offered to them. -/
  offered : s.lc.sendEnd.chanBuffer 0 ≠ [] → s.ready = true → s.lc.sendEnd.valid = true

/-! ## The channel of the end tokens -/

section SendEnd

open Chan

variable {cfg}

/-- The tokens in `sendEnd`; the first of them is in the output channel. -/
structure Holds (size : Nat) (x : Chan) (clk : Nat) (tokens : List Data) (offer : Bool) :
    Prop where
  buffer : x.chanBuffer 0 = tokens
  channel : x.channel.length = min tokens.length 1
  cycle : ∀ d ∈ tokens, d.cycle ≤ clk
  bound : tokens.length ≤ size
  valid : x.valid = offer
  sent : offer = true → tokens ≠ []
  enable : x.enable = true
  currId : x.currId = 1

variable {size clk : Nat} {x : Chan} {tokens : List Data} (e : Clock) (ready : Bool)

theorem Holds.offered {valid : Bool} (h : Holds size x clk tokens valid) :
    x.channel.isEmpty = tokens.isEmpty := by
  have channel := h.channel
  cases tokens <;> cases eq : x.channel <;> simp_all

variable (size tokens) in
/-- `statusUpdate` puts the first token into the output channel, unless there is one. -/
theorem Holds.status (buffer : x.chanBuffer 0 = tokens) (cycle : ∀ d ∈ tokens, d.cycle ≤ e.clk)
    (channel : x.channel.length ≤ min tokens.length 1) (bound : tokens.length ≤ size)
    (enable : x.enable = true) (currId : x.currId = 1) :
    let y := statusUpdate (Mux.outConfig size) e (fun _ => {}) ready x
    Holds size y e.clk tokens (!tokens.isEmpty && ready) ∧ y.received = x.received ∧
      y.consumed = x.consumed := by
  intro y
  have updated := statusUpdate_updated (c := Mux.outConfig size) e (fun _ => {}) ready x
  have matched : checkDataMatch (Mux.outConfig size) e x = !tokens.isEmpty := by
    cases tokens with
    | nil => simp [checkDataMatch, Mux.outConfig, ChanConfig.arity, buffer]
    | cons d rest => simp [checkDataMatch, Mux.outConfig, ChanConfig.arity, buffer, cycle d]
  have length := updated.length
  have formed : y.channel.length = min tokens.length 1 := by
    rw [matched] at length
    cases tokens with
    | nil => simp_all [y]
    | cons d rest => cases eq : x.channel <;> simp_all [y]
  have offered : y.channel.isEmpty = tokens.isEmpty := by
    cases tokens <;> cases eq : y.channel <;> simp_all
  refine ⟨⟨?_, formed, cycle, bound, ?_, fun some => ?_, ?_, ?_⟩,
    (congrArg Chan.received updated.rest :), (congrArg Chan.consumed updated.rest :)⟩
  · exact (congrFun (congrArg Chan.chanBuffer updated.rest :) 0).trans buffer
  · have valid : y.valid = _ := updated.valid
    rw [show (statusUpdate _ _ _ _ _).channel = y.channel from rfl, offered, enable] at valid
    simpa [Mux.outConfig] using valid
  · rintro rfl
    simp at some
  · exact (congrArg Chan.enable updated.rest :).trans enable
  · exact (congrArg Chan.currId updated.rest :).trans currId

/-- A token that was offered leaves, and the next one takes its place. -/
theorem Holds.take {d : Data} (h : Holds size x clk (d :: tokens) true) (later : clk ≤ e.clk) :
    let y := statusUpdate (Mux.outConfig size) e (fun _ => {}) ready
      (pop (Mux.outConfig size) [] x)
    Holds size y e.clk tokens (!tokens.isEmpty && ready) ∧ y.received = x.received ∧
      y.consumed = x.consumed ++ [[d]] := by
  have channel : x.channel.length = 1 := by simpa using h.channel
  have popped : pop (Mux.outConfig size) [] x = { x with
      channel := []
      lastPopVal := (pop (Mux.outConfig size) [] x).lastPopVal
      chanBuffer := (pop (Mux.outConfig size) [] x).chanBuffer
      consumed := x.consumed ++ [[d]] } := by
    obtain ⟨a, eq⟩ := List.length_eq_one_iff.mp channel
    simp [pop, popChannel, popLastCheck, Mux.outConfig, fronts, ChanConfig.arity, h.valid,
      h.buffer, eq]
  have buffer : (pop (Mux.outConfig size) [] x).chanBuffer 0 = tokens := by
    simp [pop, popChannel, Mux.outConfig, ChanConfig.arity, popLastCheck, h.valid, h.buffer]
  have bound : tokens.length ≤ size := (Nat.le_succ _).trans h.bound
  obtain ⟨holds, received, consumed⟩ := Holds.status size tokens e ready buffer
    (fun a mem => (h.cycle a (.tail _ mem)).trans later) (by rw [popped]; simp) bound
    (by rw [popped]; exact h.enable) (by rw [popped]; exact h.currId)
  exact ⟨holds, received.trans (congrArg Chan.received popped :),
    consumed.trans (congrArg Chan.consumed popped :)⟩

/-- The token that `sendEnd->get({ 1 })` stores. -/
def endToken (e : Clock) : Data := { valid := true, value := 1, cycle := e.clk }

/-- A new token goes behind the others, unless the buffer is full. -/
theorem Holds.put (h : Holds size x clk tokens false) (later : clk ≤ e.clk)
    (room : tokens.length ≠ size) :
    let y := (Chan.get (Mux.outConfig size) e (fun _ => {}) [] ready [1] x).1
    Holds size y e.clk (tokens ++ [endToken e]) ready ∧
      y.received 0 = x.received 0 ++ [endToken e] ∧ y.consumed = x.consumed := by
  intro y
  have stay : pop (Mux.outConfig size) [] (parallelize (Mux.outConfig size) e x) = x := by
    simp [pop, popChannel, parallelize, Mux.outConfig, h.valid]
  have pushed : (pushAll (Mux.outConfig size) e (fun _ => {}) x [(1, 0)]).1 =
      (x.store 0 (endToken e)).updateGetTheLastData 0 := by
    simp [pushAll, push, checkUpstream, pushBuffer, Mux.outConfig, h.buffer, room, endToken]
  have length : tokens.length < size := lt_of_le_of_ne h.bound room
  obtain ⟨holds, received, consumed⟩ := Holds.status size (tokens ++ [endToken e])
    (x := (x.store 0 (endToken e)).updateGetTheLastData 0) e ready
    (by simp [store, setBuffer, updateGetTheLastData, h.buffer])
    (fun a mem => by
      obtain old | new := List.mem_append.mp mem
      · exact (h.cycle a old).trans later
      · simp_all [endToken])
    (by
      have channel := h.channel
      simp only [updateGetTheLastData, store, setBuffer, channel, List.length_append,
        List.length_singleton]
      omega)
    (by simp only [List.length_append, List.length_singleton]; omega) h.enable h.currId
  have inputs : (if (Mux.outConfig size).noUpstream = true then ([1] : List Int).zipIdx
    else (List.range (Mux.outConfig size).upNum).map fun i => (0, i)) = [(1, 0)] := rfl
  have result : y = bpUpdate (Mux.outConfig size) (statusUpdate (Mux.outConfig size) e
      (fun _ => {}) ready ((x.store 0 (endToken e)).updateGetTheLastData 0)) := by
    simp only [y, Chan.get]
    rw [stay, inputs, pushed, if_pos]
    exact .inl h.currId.le
  rw [result]
  refine ⟨⟨holds.buffer, holds.channel, holds.cycle, holds.bound, ?_, by simp, holds.enable,
    holds.currId⟩, ?_, consumed⟩
  · exact holds.valid.trans (by simp)
  · exact (congrFun received 0).trans (by simp [updateGetTheLastData, store])

theorem Holds.later {valid : Bool} (h : Holds size x clk tokens valid) {clk' : Nat}
    (le : clk ≤ clk') : Holds size x clk' tokens valid :=
  ⟨h.buffer, h.channel, fun d mem => (h.cycle d mem).trans le, h.bound, h.valid, h.sent, h.enable,
    h.currId⟩

/-- What `sendEndUpdate` does to `sendEnd`, when an instance completes or not. -/
def sendEndStep (size : Nat) (e : Clock) (ready complete : Bool) (x : Chan) : Chan :=
  let x :=
    if x.valid && x.enable then
      statusUpdate (Mux.outConfig size) e (fun _ => {}) ready (pop (Mux.outConfig size) [] x)
    else x
  if complete then (Chan.get (Mux.outConfig size) e (fun _ => {}) [] ready [1] x).1 else x

theorem Holds.step {valid : Bool} (complete : Bool) (h : Holds size x clk tokens valid)
    (later : clk ≤ e.clk)
    (spare : if valid = true then complete = true → ready = true → tokens.length = 1
      else if complete = true then tokens.length ≠ size else ready = true → tokens.length = 0) :
    let y := sendEndStep size e ready complete x
    let put := if complete then [endToken e] else []
    ∃ valid', Holds size y e.clk ((if valid then tokens.tail else tokens) ++ put) valid' ∧
      ((if valid then tokens.tail else tokens) ++ put ≠ [] → ready = true → valid' = true) ∧
      y.received 0 = x.received 0 ++ put ∧
      y.consumed = x.consumed ++ if valid then [tokens.take 1] else [] := by
  cases valid with
  | true =>
    obtain ⟨d, rest, rfl⟩ := List.exists_cons_of_ne_nil (h.sent rfl)
    obtain ⟨left, received, consumed⟩ := h.take e ready later
    have step : sendEndStep size e ready complete x = if complete then
        (Chan.get (Mux.outConfig size) e (fun _ => {}) [] ready [1]
          (statusUpdate (Mux.outConfig size) e (fun _ => {}) ready
            (pop (Mux.outConfig size) [] x))).1
        else statusUpdate (Mux.outConfig size) e (fun _ => {}) ready
          (pop (Mux.outConfig size) [] x) := by
      simp [sendEndStep, h.valid, h.enable]
    cases complete with
    | true =>
      -- the token behind is not offered, or `get` would pop it
      have hidden : (!rest.isEmpty && ready) = false := by
        cases ready
        · simp
        · have alone := spare rfl rfl
          simp only [List.length_cons, Nat.add_eq_right] at alone
          simp [List.eq_nil_of_length_eq_zero alone]
      rw [hidden] at left
      have room : rest.length ≠ size := by
        have := h.bound
        simp only [List.length_cons] at this
        omega
      obtain ⟨holds, received', consumed'⟩ := left.put e ready le_rfl room
      refine ⟨ready, ?_, fun _ ready => ready, ?_, ?_⟩
      · simpa [step] using holds
      · simpa [step, received] using received'
      · simpa [step, consumed] using consumed'
    | false =>
      refine ⟨_, by simpa [step] using left, ?_, by simp [step, received], by simp [step, consumed]⟩
      simp_all
  | false =>
    have step : sendEndStep size e ready complete x = if complete then
        (Chan.get (Mux.outConfig size) e (fun _ => {}) [] ready [1] x).1 else x := by
      simp [sendEndStep, h.valid]
    cases complete with
    | true =>
      obtain ⟨holds, received, consumed⟩ := h.put e ready later (by simpa using spare)
      refine ⟨ready, ?_, fun _ ready => ready, ?_, ?_⟩
      · simpa [step] using holds
      · simpa [step] using received
      · simpa [step] using consumed
    | false =>
      refine ⟨false, by simpa [step] using h.later later, fun some isReady => ?_, by simp [step],
        by simp [step]⟩
      simp only [Bool.false_eq_true, if_false] at spare
      exact absurd (List.eq_nil_of_length_eq_zero (spare isReady)) (by simpa using some)

end SendEnd

/-! ## The channel that collects the ends -/

section GetEnd

open Chan

variable {c : ChanConfig} {x : Chan}

/-- A channel without downstreams that is always enabled offers every element at once. -/
structure Collects (c : ChanConfig) (x : Chan) (arrived : Nat) : Prop where
  tracked : Tracked c x
  offered : x.valid = !x.channel.isEmpty
  enable : x.enable = true
  counted : x.consumed.length + x.channel.length = arrived

theorem Collects.received {arrived : Nat} (h : Collects c x arrived) {i : Nat}
    (lt : i < c.arity) : arrived ≤ (x.received i).length := by
  have bound := h.tracked.bound i lt
  have single := h.tracked.single
  have counted := h.counted
  by_cases none : x.channel = []
  · simp only [none, List.length_nil] at counted
    omega
  · have held := List.length_pos_iff.mpr (h.tracked.held none i lt)
    rw [h.tracked.buffer i lt, List.length_drop] at held
    omega

/-- Each `get` pops the element that was there, and counts the one that is there after it. -/
theorem Collects.get {arrived : Nat} (h : Collects c x arrived) (drains : c.noDownstream = true)
    (plain : c.keepMode = false) (e : Clock) (up : Nat → Upstream) :
    let y := (Chan.get c e up [] true [] x).1
    Collects c y (if y.channel.isEmpty then arrived else arrived + 1) := by
  intro y
  have sent : x.valid = true → x.channel ≠ [] := by
    rw [h.offered]
    simp
  have tracked := (h.tracked.get e up sent [] true []).1
  have emptied : let z := pop c [] (parallelize c e x)
      z.channel = [] ∧ z.consumed.length = arrived ∧ z.enable = true := by
    obtain ⟨n, same⟩ := parallelize_eq (c := c) e x
    have counted := h.counted
    have single := h.tracked.single
    rw [same]
    cases valid : x.valid with
    | false =>
      have none : x.channel = [] := by simpa [valid] using h.offered.symm
      simpa [pop, popChannel, valid, none, h.enable] using counted
    | true =>
      obtain ⟨d, rest, eq⟩ := List.exists_cons_of_ne_nil (sent valid)
      obtain rfl : rest = [] := by simpa [eq] using single
      simpa [pop, popChannel, valid, plain, eq, h.enable] using counted
  obtain ⟨none, consumed, enable⟩ := emptied
  obtain ⟨z, filled, ⟨u, updated, eq⟩ | ⟨success, eq⟩⟩ := get_cases (c := c) e up [] true [] x
  · have same : u.consumed = z.consumed := (congrArg Chan.consumed updated.rest :)
    have offered := updated.valid
    rw [filled.enable, enable, drains] at offered
    simp only [Bool.true_or, Bool.and_true] at offered
    simp only [y, eq, bpUpdate] at tracked ⊢
    refine ⟨tracked, offered,
      (congrArg Chan.enable updated.rest :).trans (filled.enable.trans enable), ?_⟩
    have single := tracked.single
    rw [same, filled.consumed, consumed]
    cases channel : u.channel with
    | nil => simp
    | cons d rest =>
      obtain rfl : rest = [] := by simpa [channel] using single
      rfl
  · have none' : z.channel = [] := filled.channel.trans none
    simp only [y, eq, bpUpdate] at tracked ⊢
    refine ⟨tracked, by simp [none'], filled.enable.trans enable, ?_⟩
    simp [none', filled.consumed, consumed]

end GetEnd

/-! ## The counters -/

section Counters

/-- The counters of a controller that has finished some instances. -/
structure Tallied (lc : Lc) (finished values ends : Nat) : Prop where
  queue : lc.loopNumQ = lc.loopNums.drop finished
  bound : finished ≤ lc.loopNums.length
  positive : ∀ n ∈ lc.loopNums, 0 < n
  sent : lc.loopNums.sum + lc.loopNum = values
  arrived : (lc.loopNums.take finished).sum + lc.loopEnd = ends

/-- The first instance that is not finished waits for an end. -/
def Waits (lc : Lc) : Prop := ∀ n ∈ lc.loopNumQ.head?, lc.loopEnd < n

variable {lc : Lc} {finished values ends : Nat}

theorem Tallied.finished_eq (h : Tallied lc finished values ends) :
    lc.loopNums.length - lc.loopNumQ.length = finished := by
  have bound := h.bound
  rw [h.queue, List.length_drop]
  omega

theorem Tallied.loop (cfg : LcConfig) (h : Tallied lc finished values ends) :
    Tallied (Lc.loopUpdate cfg lc) finished
      (if lc.loopVar.valid then values + 1 else values) ends := by
  have looped := Lc.loopUpdate_looped cfg lc
  have queue := Lc.loopUpdate_queue cfg lc
  obtain ⟨-, -, loopEnd⟩ := Lc.loopUpdate_ends cfg lc
  have sent := h.sent
  refine ⟨?_, ?_, fun n mem => ?_, ?_, ?_⟩
  · rw [queue, looped.loopNums, h.queue, List.drop_append_of_le_length h.bound]
  · rw [looped.loopNums, List.length_append]
    exact h.bound.trans (Nat.le_add_right _ _)
  · rw [looped.loopNums] at mem
    obtain old | new := List.mem_append.mp mem
    · exact h.positive n old
    · split_ifs at new <;> simp_all
  · rw [looped.loopNums, looped.loopNum]
    cases lc.loopVar.valid <;> cases lc.sel <;> simp <;> omega
  · rw [looped.loopNums, loopEnd, List.take_append_of_le_length h.bound]
    exact h.arrived

/-- No more ends have arrived than the first instance waits for: it waited before, or all values
sent are its own. -/
theorem Tallied.le_head {t : Lc} {values' ends' : Nat} (h : Tallied t finished values' ends')
    (waits : Waits lc) (queue : ∃ new, t.loopNumQ = lc.loopNumQ ++ new ∧ new.length ≤ 1)
    (loopEnd : t.loopEnd ≤ lc.loopEnd + 1) (causal : ends' ≤ values')
    (reset : t.loopNumQ ≠ lc.loopNumQ → t.loopNum = 0) :
    ∀ n ∈ t.loopNumQ.head?, t.loopEnd ≤ n := by
  intro n head
  obtain ⟨new, eq, length⟩ := queue
  cases old : lc.loopNumQ with
  | cons m rest =>
    obtain rfl : m = n := by simpa [eq, old] using head
    have := waits m (by simp [old])
    omega
  | nil =>
    obtain rfl : new = [n] := by
      cases new with
      | nil => simp [eq, old] at head
      | cons m rest =>
        obtain rfl : rest = [] := by simpa using length
        simpa [eq, old] using head
    have all : t.loopNums.sum = (t.loopNums.take finished).sum + n := by
      conv_lhs => rw [← List.take_append_drop finished t.loopNums, ← h.queue, eq, old]
      simp
    have zero := reset (by simp [eq])
    have sent := h.sent
    have arrived := h.arrived
    omega

theorem Tallied.complete (h : Tallied lc finished values ends)
    (le : ∀ n ∈ lc.loopNumQ.head?, lc.loopEnd ≤ n) (e : Clock) (cfg : LcConfig) (ready : Bool) :
    let t := Lc.sendEndUpdate cfg e ready lc
    Tallied t (if Lc.complete lc then finished + 1 else finished) values ends ∧ Waits t := by
  intro t
  have eq : t = _ := Lc.sendEndUpdate_eq cfg e ready lc
  rw [eq]
  cases queue : lc.loopNumQ with
  | nil =>
    have unfinished : Lc.complete lc = false := by simp [Lc.complete, queue]
    simp only [unfinished, Bool.false_eq_true, if_false]
    exact ⟨⟨queue ▸ h.queue, h.bound, h.positive, h.sent, h.arrived⟩, by simp [Waits]⟩
  | cons n rest =>
    have drop : lc.loopNums.drop finished = n :: rest := h.queue.symm.trans queue
    have lt : finished < lc.loopNums.length := by
      have length := congrArg List.length drop
      simp only [List.length_drop, List.length_cons] at length
      omega
    obtain ⟨head, tail⟩ := List.cons.inj ((List.drop_eq_getElem_cons lt).symm.trans drop)
    have le := le n (by simp [queue])
    have waiting := h.positive
    by_cases done : lc.loopEnd = n
    · have finish : Lc.complete lc = true := by simp [Lc.complete, queue, done]
      simp only [finish, if_true]
      refine ⟨⟨tail.symm, lt, h.positive, h.sent, ?_⟩, fun m mem => ?_⟩
      · rw [List.sum_take_succ _ _ lt, head, ← done]
        exact h.arrived
      · exact waiting m (List.mem_of_mem_drop (tail ▸ List.mem_of_mem_head? mem))
    · have unfinished : Lc.complete lc = false := by simp [Lc.complete, queue, done]
      simp only [unfinished, Bool.false_eq_true, if_false]
      refine ⟨⟨queue ▸ h.queue, h.bound, h.positive, h.sent, h.arrived⟩, fun m mem => ?_⟩
      obtain rfl : n = m := by simpa using mem
      exact lt_of_le_of_ne le done

end Counters

/-! ## The runs -/

section Runs

variable {cfg : EndConfig} {s : EndRun} (i : EndInput)

structure Inv (cfg : EndConfig) (s : EndRun) : Prop where
  collects : Collects cfg.getEnd s.lc.getEnd s.arrived
  tallied : Tallied s.lc s.finished s.sent s.arrived
  waits : Waits s.lc
  stored : (s.lc.sendEnd.received 0).length = s.finished
  taken : s.taken ≤ s.finished
  removed : s.lc.sendEnd.consumed = ((s.lc.sendEnd.received 0).take s.taken).map ([·])
  sendEnd : ∃ offer,
    Holds cfg.endSize s.lc.sendEnd s.clk ((s.lc.sendEnd.received 0).drop s.taken) offer ∧
    ((s.lc.sendEnd.received 0).drop s.taken ≠ [] → s.ready = true → offer = true)

theorem Inv.init : Inv cfg {} where
  collects := ⟨⟨fun _ _ => rfl, by simp, by simp, by simp, by simp⟩, rfl, rfl, rfl⟩
  tallied := ⟨rfl, le_rfl, by simp, rfl, rfl⟩
  waits := by simp [Waits]
  stored := rfl
  taken := le_rfl
  removed := rfl
  sendEnd := ⟨false, ⟨rfl, rfl, by simp, by simp, rfl, by simp, rfl, rfl⟩, by simp⟩

theorem sendEndUpdate_sendEnd (c : LcConfig) (e : Clock) (ready : Bool) (lc : Lc) :
    (Lc.sendEndUpdate c e ready lc).sendEnd =
      sendEndStep c.endSize e ready (Lc.complete lc) lc.sendEnd := by
  obtain ⟨x, eq⟩ := Lc.popped_eq c e ready lc
  have step : (if (lc.sendEnd.valid && lc.sendEnd.enable) = true then
      Chan.statusUpdate (Mux.outConfig c.endSize) e (fun _ => {}) ready
        (Chan.pop (Mux.outConfig c.endSize) [] lc.sendEnd)
    else lc.sendEnd) = x := by
    rw [show x = ({ lc with sendEnd := x } : Lc).sendEnd from rfl, ← eq]
    split_ifs <;> rfl
  simp only [Lc.sendEndUpdate, sendEndStep, eq, step]
  by_cases done : Lc.complete lc = true
  · rw [if_pos (show Lc.complete { lc with sendEnd := x } = true from done), if_pos done]
    rfl
  · rw [if_neg (show ¬Lc.complete { lc with sendEnd := x } = true from done), if_neg done]

/-- The counters after the loop variable has sent its value and `getEnd` has got its ends. -/
theorem Inv.before (inv : Inv cfg s)
    (causal : (update cfg i s).arrived ≤ (update cfg i s).sent) :
    let t := beforeSend cfg i s
    Tallied t s.finished (update cfg i s).sent (update cfg i s).arrived ∧
      (∀ n ∈ t.loopNumQ.head?, t.loopEnd ≤ n) ∧ t.sendEnd = s.lc.sendEnd ∧
      Collects cfg.getEnd t.getEnd (update cfg i s).arrived := by
  intro t
  let b := Lc.selUpdate i.newSel { s.lc with mux := i.mux, loopVar := i.loopVar }
  have same : b = { s.lc with mux := i.mux, loopVar := i.loopVar, sel := b.sel } := by
    simp only [b, Lc.selUpdate_eq]
  have start : Tallied b s.finished s.sent s.arrived := by
    rw [same]
    exact ⟨inv.tallied.queue, inv.tallied.bound, inv.tallied.positive, inv.tallied.sent,
      inv.tallied.arrived⟩
  have looped := start.loop cfg.toLcConfig
  have loopVar : b.loopVar = i.loopVar := by rw [same]
  obtain ⟨getEnd, sendEnd, loopEnd⟩ := Lc.loopUpdate_ends cfg.toLcConfig b
  have getEnd' : t.getEnd = (Chan.get cfg.getEnd i.e i.ends [] true [] s.lc.getEnd).1 := by
    simp only [t, beforeSend, Lc.getEndUpdate]
    rw [show (Lc.loopUpdate _ _).getEnd = b.getEnd from getEnd, same]
  have arrived : (EndRun.update cfg i s).arrived =
      if t.getEnd.channel.isEmpty then s.arrived else s.arrived + 1 := by
    have kept : (EndRun.update cfg i s).lc.getEnd = t.getEnd :=
      (congrArg Lc.getEnd (Lc.sendEndUpdate_eq cfg.toLcConfig i.e i.ready t) :)
    rw [← kept]
    rfl
  have ends : t.loopEnd = if t.getEnd.channel.isEmpty then b.loopEnd else b.loopEnd + 1 := by
    rw [← loopEnd]
    rfl
  have tallied : Tallied t s.finished (EndRun.update cfg i s).sent
      (EndRun.update cfg i s).arrived := by
    rw [loopVar] at looped
    refine ⟨looped.queue, looped.bound, looped.positive, looped.sent, ?_⟩
    have old := looped.arrived
    rw [loopEnd] at old
    have nums : t.loopNums = (Lc.loopUpdate cfg.toLcConfig b).loopNums := rfl
    rw [arrived, ends, nums]
    split_ifs <;> omega
  refine ⟨tallied, ?_, ?_, ?_⟩
  · have queue := Lc.loopUpdate_queue cfg.toLcConfig b
    have waits : Waits b := by
      rw [same]
      exact inv.waits
    refine tallied.le_head waits ⟨_, queue, ?_⟩ ?_ causal fun new => ?_
    · split_ifs <;> simp
    · rw [ends]
      split_ifs <;> omega
    · have loopNum := (Lc.loopUpdate_looped cfg.toLcConfig b).loopNum
      by_cases last : (b.loopVar.valid && !b.sel) = true
      · refine Eq.trans loopNum ?_
        simp only [Bool.and_eq_true, Bool.not_eq_true'] at last
        simp [last.1, last.2]
      · rw [if_neg last, List.append_nil] at queue
        exact absurd queue new
  · rw [show t.sendEnd = _ from sendEnd, same]
  · rw [getEnd', arrived, getEnd']
    exact inv.collects.get cfg.noDownstream cfg.plain i.e i.ends

theorem Inv.update (inv : Inv cfg s) (later : s.clk ≤ i.e.clk)
    (causal : (update cfg i s).arrived ≤ (update cfg i s).sent) (spare : Spare cfg i s) :
    Inv cfg (update cfg i s) := by
  obtain ⟨tallied, le, same, collects⟩ := inv.before i causal
  obtain ⟨counters, waits⟩ := tallied.complete le i.e cfg.toLcConfig i.ready
  obtain ⟨offer, holds, offered⟩ := inv.sendEnd
  have finished : (EndRun.update cfg i s).finished =
      if completes cfg i s then s.finished + 1 else s.finished := counters.finished_eq
  have sendEnd : (EndRun.update cfg i s).lc.sendEnd =
      sendEndStep cfg.endSize i.e i.ready (completes cfg i s) s.lc.sendEnd := by
    rw [← same]
    exact sendEndUpdate_sendEnd cfg.toLcConfig i.e i.ready (beforeSend cfg i s)
  obtain ⟨offer', holds', offered', received, consumed⟩ :=
    Holds.step i.e i.ready (completes cfg i s) holds later (by
      have spare := spare
      simp only [Spare, holds.valid, holds.buffer] at spare
      exact spare)
  have stored : ((EndRun.update cfg i s).lc.sendEnd.received 0).length =
      (EndRun.update cfg i s).finished := by
    rw [sendEnd, received, List.length_append, inv.stored, finished]
    split_ifs <;> rfl
  have taken : (EndRun.update cfg i s).taken = if offer then s.taken + 1 else s.taken := by
    rw [← holds.valid]
    rfl
  have le : s.taken ≤ (s.lc.sendEnd.received 0).length := inv.stored ▸ inv.taken
  have some : offer = true → s.taken < (s.lc.sendEnd.received 0).length := fun some => by
    have pos := List.length_pos_iff.mpr (holds.sent some)
    rw [List.length_drop] at pos
    omega
  have kept : (EndRun.update cfg i s).lc.getEnd = (beforeSend cfg i s).getEnd :=
    (congrArg Lc.getEnd (Lc.sendEndUpdate_eq cfg.toLcConfig i.e i.ready _) :)
  -- the oldest token left, if it was offered
  have tokens : (if offer then ((s.lc.sendEnd.received 0).drop s.taken).tail
        else (s.lc.sendEnd.received 0).drop s.taken) ++
        (if completes cfg i s then [endToken i.e] else []) =
      ((EndRun.update cfg i s).lc.sendEnd.received 0).drop (EndRun.update cfg i s).taken := by
    rw [sendEnd, received, taken]
    cases offer with
    | true => simp [List.drop_append_of_le_length (some rfl)]
    | false => simp [List.drop_append_of_le_length le]
  have removed : (EndRun.update cfg i s).lc.sendEnd.consumed =
      (((EndRun.update cfg i s).lc.sendEnd.received 0).take (EndRun.update cfg i s).taken).map
        ([·]) := by
    rw [sendEnd, consumed, received, taken, inv.removed]
    cases offer with
    | true =>
      have lt := some rfl
      have head : ((s.lc.sendEnd.received 0).drop s.taken).take 1 =
          [(s.lc.sendEnd.received 0)[s.taken]] := by
        rw [List.drop_eq_getElem_cons lt]
        rfl
      rw [if_pos rfl, if_pos rfl, head, List.take_append_of_le_length lt,
        List.take_succ_eq_append_getElem lt, List.map_append]
      rfl
    | false => simp [List.take_append_of_le_length le]
  rw [tokens] at holds' offered'
  refine ⟨?_, ?_, waits, stored, ?_, removed, offer', sendEnd ▸ holds', offered'⟩
  · rw [kept]
    exact collects
  · rw [finished]
    exact counters
  · rw [← stored, sendEnd, received, List.length_append, taken]
    refine le_trans ?_ (Nat.le_add_right _ _)
    cases offer with
    | true => exact some rfl
    | false => exact le

/-- One end token for each completed instance, as long as `sendEnd` can take it. -/
theorem end_law (reachable : Reachable cfg (Spare cfg) s) : Law cfg s := by
  have inv : Inv cfg s := by
    induction reachable with
    | init => exact .init
    | update i later causal spare _ inv => exact inv.update i later causal spare
  obtain ⟨offer, holds, offered⟩ := inv.sendEnd
  refine ⟨fun i lt => inv.collects.received lt, ?_, ?_, inv.stored, inv.removed, holds.buffer, ?_⟩
  · rw [← inv.tallied.arrived]
    exact Nat.le_add_right _ _
  · intro n mem
    have waits := inv.waits n (by rwa [inv.tallied.queue, List.head?_drop])
    rw [← inv.tallied.arrived]
    exact Nat.add_lt_add_left waits _
  · intro some ready
    rw [holds.valid]
    exact offered (by rwa [holds.buffer] at some) ready

/-- An outer loop with one inner loop. -/
def oneInner : EndConfig where
  getEnd := { size := 2, upNum := 1, noDownstream := true }
  loopVar := { size := 2, upNum := 2, isLoopVar := true }
  noDownstream := rfl
  plain := rfl

/-- The loop variable sends the only value of an instance, and the inner loop its end. -/
def oneValue (clk : Nat) (ready : Bool) : EndInput where
  e := { clk := clk }
  newSel := false
  mux := {}
  loopVar := { valid := true, channel := [{ valid := true }] }
  ends := fun _ => { valid := true }
  ready := ready

theorem Reachable.call {P : EndInput → EndRun → Prop} (reachable : Reachable cfg P s)
    (allowed : s.clk ≤ i.e.clk ∧ (EndRun.update cfg i s).arrived ≤ (EndRun.update cfg i s).sent ∧
      P i s) : Reachable cfg P (EndRun.update cfg i s) :=
  .update i allowed.1 allowed.2.1 allowed.2.2 reachable

instance : Decidable (Spare cfg i s) := by
  unfold Spare
  infer_instance

/-- Two instances, and a stall after each of them. -/
def twoEnds : EndRun :=
  let stall (clk : Nat) : EndInput := { oneValue clk false with loopVar := {}, ends := fun _ => {} }
  let inputs := [oneValue 1 true, stall 2, oneValue 3 false, stall 4]
  inputs.foldl (fun s i => EndRun.update oneInner i s) {}

theorem twoEnds_reachable : Reachable oneInner (Spare oneInner) twoEnds := by
  refine .call _ (.call _ (.call _ (.call _ .init ?_) ?_) ?_) ?_ <;> decide +kernel

theorem end_law_two : Reachable oneInner (Spare oneInner) twoEnds ∧ Law oneInner twoEnds :=
  ⟨twoEnds_reachable, end_law twoEnds_reachable⟩

/-- The consumers take none of the tokens of three instances; there is room for two. -/
theorem end_lost : ∃ s, Reachable oneInner (fun _ _ => True) s ∧ ¬Law oneInner s := by
  let inputs := [oneValue 1 false, oneValue 2 false, oneValue 3 false]
  refine ⟨inputs.foldl (fun s i => EndRun.update oneInner i s) {}, ?_, fun law => ?_⟩
  · refine .call _ (.call _ (.call _ .init ?_) ?_) ?_ <;> refine ⟨?_, ?_, trivial⟩ <;>
      decide +kernel
  · exact absurd law.stored (by decide +kernel)

end Runs

end EndRun

end DataflowSim.Execution
