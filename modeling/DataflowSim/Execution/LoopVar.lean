import DataflowSim.Execution.Lc

/-!
# The loop variable of the outermost loop

The driver of a test calls the functions of the outermost controller in a fixed sequence.
Its loop variable then delivers the values below the bound in order, whatever the size and
the delay of the channel and the back-pressure of its consumers.
-/

namespace DataflowSim.Execution

/-- The outermost controller and the channel that starts it. `delivered` records the value,
`last` and `lastOuter` of what the loop variable offered. -/
structure OuterLoop where
  lc : Lc := {}
  start : Chan
  delivered : List (Int × Bool × Bool) := []

/-- The clock and the surroundings in one iteration: whether all consumers of the loop variable
can take a datum, the upstreams of `getEnd`, and the downstreams of `sendEnd`. -/
structure OuterInput where
  e : Clock
  sendable : Bool
  ends : Nat → Upstream
  endSendable : Bool

namespace OuterLoop

/-- `begin->get({ 1 })` before the first iteration. -/
def initial : OuterLoop where
  start := (Chan.get { size := 1, upNum := 0, noUpstream := true } ⟨0, true⟩ (fun _ => {}) [] true
    [1] {}).1

/-- The wiring of `genLcOuterMost`: the only upstream of the loop variable is `mux->outChan`. -/
def config (outSize size cycle speedup : Nat) (getEnd : ChanConfig) (endSize : Nat)
    (isOuterMostLoop : Bool) : LcConfig where
  outSize := outSize
  loopVar := { size := size, cycle := cycle, speedup := speedup, upNum := 1, isLoopVar := true }
  getEnd := getEnd
  endSize := endSize
  isOuterMostLoop := isOuterMostLoop

/-- The mux after `muxUpdate`: `trueChan` is fed by the loop variable, `falseChan` by `begin`. -/
def muxUpdate (cfg : LcConfig) (e : Clock) (s : OuterLoop) : Mux :=
  let loopVar : MuxUpstream := {
    valid := s.lc.loopVar.valid, front := s.lc.loopVar.channel.headD {}, isFeedback := true }
  let start : MuxUpstream := { valid := s.start.valid, front := s.start.channel.headD {} }
  Mux.muxUpdate cfg.outSize e [loopVar] [start]
    [{ isFeedback := true, bp := s.lc.loopVar.bp 0 }] s.lc.sel s.lc.mux

/-- The loop variable after its `get`. -/
def get (cfg : LcConfig) (e : Clock) (sendable : Bool) (s : OuterLoop) : Chan :=
  let mux := muxUpdate cfg e s
  let outChan : Upstream := {
    valid := mux.outChan.valid
    value := Mux.mux s.lc.var 0 s.lc.sel
    front := mux.outChan.channel.headD {} }
  (Chan.get cfg.loopVar e (fun _ => outChan) [] (sendable && !mux.bp) [] s.lc.loopVar).1

/-- One iteration of the driver. -/
def iterate (cfg : LcConfig) (bound : Int) (i : OuterInput) (s : OuterLoop) : OuterLoop :=
  let loopVar := get cfg i.e i.sendable s
  let value := loopVar.assign 0
  let lc := Lc.lcUpdate cfg i.e (value + 1 < bound) i.ends i.endSendable { s.lc with
    mux := muxUpdate cfg i.e s
    loopVar := { loopVar with value := value }
    var := value + 1 }
  { lc := lc
    start := { s.start with valid := false }
    delivered :=
      if lc.loopVar.valid then
        let d := lc.loopVar.channel.headD {}
        s.delivered ++ [(lc.loopVar.value, d.last, d.lastOuter)]
      else s.delivered }

def run (cfg : LcConfig) (bound : Int) (inputs : List OuterInput) : OuterLoop :=
  inputs.foldl (fun s i => iterate cfg bound i s) initial

/-- The flags of a value: only the last one has any. -/
def mark (bound : Nat) (isOuterMostLoop : Bool) (v : Nat) : Bool × Bool :=
  (decide (v + 1 = bound), decide (v + 1 = bound) && isOuterMostLoop)

/-- The first values of the loop with their flags. -/
def values (bound : Nat) (isOuterMostLoop : Bool) (n : Nat) : List (Int × Bool × Bool) :=
  (List.range n).map fun v => (Int.ofNat v, mark bound isOuterMostLoop v)

/-- What the loop variable has delivered, and what the controller has counted. -/
structure Law (bound : Nat) (isOuterMostLoop : Bool) (s : OuterLoop) : Prop where
  delivered : s.delivered = values bound isOuterMostLoop s.delivered.length
  bounded : s.delivered.length ≤ bound
  loopNums : s.lc.loopNums = if s.delivered.length = bound then [bound] else []

/-! ## The mux and the loop variable in one iteration -/

/-- The flags that an element hands on. -/
def flags (l : List Data) : List (Bool × Bool) := l.map fun d => (d.last, d.lastOuter)

/-- `outChan` holds an element with these flags, or none. -/
structure Out (x : Chan) (token : List (Bool × Bool)) (valid : Bool) : Prop where
  enable : x.enable = true
  currId : x.currId = 1
  buffer : (x.chanBuffer 0).length = token.length
  channel : flags x.channel = token
  single : token.length ≤ 1
  valid : x.valid = valid

section Out

open Chan

variable (size : Nat) (e : Clock) (sendable : Bool) {x : Chan} {token : List (Bool × Bool)}
  {m : Mux}

/-- `outChan->pop()` and `outChan->statusUpdate()`. -/
def refresh (size : Nat) (e : Clock) (sendable : Bool) (x : Chan) : Chan :=
  statusUpdate (Mux.outConfig size) e (fun _ => {}) sendable (pop (Mux.outConfig size) [] x)

theorem Out.length {valid : Bool} (h : Out x token valid) : x.channel.length = token.length := by
  simpa [flags] using congrArg List.length h.channel

/-- What was sent is popped. -/
theorem Out.sent (h : Out x token true) : Out (refresh size e sendable x) [] false := by
  have single := h.single
  have buffer : (x.chanBuffer 0).tail = [] :=
    List.eq_nil_of_length_eq_zero (by simp only [List.length_tail, h.buffer]; omega)
  have channel : x.channel.tail = [] :=
    List.eq_nil_of_length_eq_zero (by simp only [List.length_tail, h.length]; omega)
  constructor <;> simp [refresh, statusUpdate, pop, popChannel, popLastCheck, Mux.outConfig,
    checkDataMatch, ChanConfig.arity, flags, buffer, channel, h.valid, h.enable, h.currId]

/-- What was not sent stays, and is sent as soon as that is possible. -/
theorem Out.kept (h : Out x token false) :
    Out (refresh size e sendable x) token (!token.isEmpty && sendable) := by
  have length := h.length
  cases token with
  | nil =>
    have buffer : x.chanBuffer 0 = [] := List.eq_nil_of_length_eq_zero h.buffer
    have channel : x.channel = [] := List.eq_nil_of_length_eq_zero length
    constructor <;> simp [refresh, statusUpdate, pop, popChannel, popLastCheck, Mux.outConfig,
      checkDataMatch, ChanConfig.arity, flags, buffer, channel, h.valid, h.enable, h.currId]
  | cons t rest =>
    obtain rfl : rest = [] := by simpa using h.single
    obtain ⟨d, channel⟩ := List.length_eq_one_iff.mp length
    have same : (d.last, d.lastOuter) = t := by simpa [channel, flags] using h.channel
    constructor <;> simp [refresh, statusUpdate, pop, popChannel, popLastCheck, Mux.outConfig,
      checkDataMatch, ChanConfig.arity, flags, channel, h.valid, h.enable, h.currId, h.buffer]
    cases sendable <;> simp [same]

/-- An empty `outChan` gets the flags that were recorded; one of size 0 takes nothing. -/
theorem Out.pushed (h : Out m.outChan [] false) :
    Out (Mux.pushOutChan size e sendable m).outChan
      (if size = 0 then [] else [(m.upstreamDataStatus.last, m.upstreamDataStatus.lastOuter)])
      (decide (size ≠ 0) && sendable) := by
  have channel : m.outChan.channel = [] := List.eq_nil_of_length_eq_zero h.length
  have buffer : m.outChan.chanBuffer 0 = [] := List.eq_nil_of_length_eq_zero h.buffer
  by_cases zero : size = 0
  · subst zero
    constructor <;> simp [Mux.pushOutChan, Chan.get, parallelize, statusUpdate, pop, popChannel,
      popLastCheck, Mux.outConfig, checkDataMatch, ChanConfig.arity, pushAll, push, checkUpstream,
      bpUpdate, flags, buffer, channel, h.valid, h.enable, h.currId]
  · have room : ¬0 = size := Ne.symm zero
    constructor <;> simp [Mux.pushOutChan, Chan.get, parallelize, statusUpdate, pop, popChannel,
      popLastCheck, Mux.outConfig, checkDataMatch, ChanConfig.arity, pushAll, push, checkUpstream,
      pushBuffer, store, setBuffer, updateGetTheLastData, pushChannel, bpUpdate, flags, buffer,
      channel, h.valid, h.enable, h.currId, zero, room]

variable (cfg : LcConfig) {s : OuterLoop} {sent : Bool}

/-- The selected upstream has nothing to send. -/
theorem muxUpdate_waits (h : Out s.lc.mux.outChan token sent)
    (waits : (if s.lc.sel then s.lc.loopVar.valid else s.start.valid) = false) :
    (muxUpdate cfg e s).muxSuccess = false ∧ (muxUpdate cfg e s).bp = false ∧
      Out (muxUpdate cfg e s).outChan (if sent then [] else token)
        (!sent && !token.isEmpty && !s.lc.loopVar.bp 0) := by
  have refused : Mux.checkUpstream s.lc.sel (if s.lc.sel then [{
      valid := s.lc.loopVar.valid, front := s.lc.loopVar.channel.headD {}, isFeedback := true }]
      else [{ valid := s.start.valid, front := s.start.channel.headD {} }]) = false := by
    cases sel : s.lc.sel <;> simp_all [Mux.checkUpstream]
  simp only [muxUpdate, Mux.muxUpdate, refused]
  refine ⟨rfl, rfl, ?_⟩
  cases sent
  · simpa [refresh] using h.kept cfg.outSize e (!s.lc.loopVar.bp 0)
  · simpa [refresh] using h.sent cfg.outSize e (!s.lc.loopVar.bp 0)

/-- The selected upstream sends, and `outChan` gets its flags. -/
theorem muxUpdate_takes (h : Out s.lc.mux.outChan token sent) (free : token = [] ∨ sent = true)
    (sends : (if s.lc.sel then s.lc.loopVar.valid else s.start.valid) = true) :
    let d := (if s.lc.sel then s.lc.loopVar.channel else s.start.channel).headD {}
    (muxUpdate cfg e s).muxSuccess = true ∧ (muxUpdate cfg e s).bp = false ∧
      Out (muxUpdate cfg e s).outChan
        (if cfg.outSize = 0 then [] else [(d.last, d.lastOuter)])
        (decide (cfg.outSize ≠ 0) && !s.lc.loopVar.bp 0) := by
  have ready : Mux.checkUpstream s.lc.sel (if s.lc.sel then [{
      valid := s.lc.loopVar.valid, front := s.lc.loopVar.channel.headD {}, isFeedback := true }]
      else [{ valid := s.start.valid, front := s.start.channel.headD {} }]) = true := by
    cases sel : s.lc.sel <;> simp_all [Mux.checkUpstream]
  have emptied : Out (refresh cfg.outSize e (!s.lc.loopVar.bp 0) s.lc.mux.outChan) [] false := by
    cases sent
    · obtain rfl : token = [] := by simpa using free
      exact h.kept ..
    · exact h.sent ..
  intro d
  simp only [muxUpdate, Mux.muxUpdate, ready, if_true, List.all_cons, List.all_nil, Bool.and_true]
  refine ⟨trivial, by simp, ?_⟩
  cases sel : s.lc.sel
  · have pushed := Out.pushed cfg.outSize e (!s.lc.loopVar.bp 0)
      (m := Mux.recordDataStatus [{ valid := s.start.valid, front := s.start.channel.headD {} }]
        { s.lc.mux with
          sel := false
          outChan := refresh cfg.outSize e (!s.lc.loopVar.bp 0) s.lc.mux.outChan
          muxSuccess := false }) emptied
    simpa [Mux.recordDataStatus, refresh, d, sel] using pushed
  · have pushed := Out.pushed cfg.outSize e (!s.lc.loopVar.bp 0)
      (m := Mux.recordDataStatus [{
          valid := s.lc.loopVar.valid, front := s.lc.loopVar.channel.headD {}, isFeedback := true }]
        { s.lc.mux with
          sel := true
          outChan := refresh cfg.outSize e (!s.lc.loopVar.bp 0) s.lc.mux.outChan
          muxSuccess := false }) emptied
    simpa [Mux.recordDataStatus, refresh, d, sel] using pushed

end Out

section LoopVar

open Chan

variable (size cycle speedup : Nat) (e : Clock) {out : Upstream} (sendable : Bool) (x : Chan)

def varConfig (size cycle speedup : Nat) : ChanConfig where
  size := size
  cycle := cycle
  speedup := speedup
  upNum := 1
  isLoopVar := true

/-- The loop variable after its pop and its push. -/
theorem pushed_var (keep : out.keepMode = false) :
    let c := varConfig size cycle speedup
    let z := (pushAll c e (fun _ => out) (pop c [] (parallelize c e x)) [(out.value, 0)]).1
    z.enable = x.enable ∧ z.channel = (if x.valid then x.channel.tail else x.channel) ∧
      z.chanBuffer 0 = (if x.valid then (x.chanBuffer 0).tail else x.chanBuffer 0) ++
        (if out.valid then [pushData c e (fun _ => out) out.value 0] else []) ∧
      z.lastPopVal 0 =
        if x.valid then ((x.chanBuffer 0).headD {}).value else x.lastPopVal 0 := by
  obtain ⟨n, eq⟩ := parallelize_eq (c := varConfig size cycle speedup) e x
  intro c z
  simp only [c, z, eq]
  cases valid : x.valid <;> cases takes : out.valid <;>
    simp [pushAll, push, varConfig, checkUpstream, pop, popChannel, popLastCheck, pushBuffer,
      hasUpstreamInKeepMode, store, setBuffer, updateGetTheLastData, ChanConfig.arity, keep, takes]

/-- An element that is formed has the flags of its operand. -/
theorem status_var (keep : out.keepMode = false) :
    let y := statusUpdate (varConfig size cycle speedup) e (fun _ => out) sendable x
    y.enable = x.enable ∧ y.chanBuffer = x.chanBuffer ∧ y.lastPopVal = x.lastPopVal ∧
      (flags y.channel = flags x.channel ∨
        x.channel = [] ∧ flags y.channel = (flags (x.chanBuffer 0)).take 1) ∧
      (y.valid = true → y.channel ≠ []) := by
  intro y
  have updated := statusUpdate_updated (c := varConfig size cycle speedup) e (fun _ => out)
    sendable x
  refine ⟨(congrArg Chan.enable updated.rest :), (congrArg Chan.chanBuffer updated.rest :),
    (congrArg Chan.lastPopVal updated.rest :), ?_, fun valid => ?_⟩
  · have stamped := eq_of_stamped e (f := flags) fun _ _ => rfl
    by_cases formed : (checkDataMatch (varConfig size cycle speedup) e x && x.channel.isEmpty) = true
    · obtain ⟨matched, empty⟩ := Bool.and_eq_true_iff.mp formed
      have held := checkDataMatch_held e matched (i := 0) (by simp [varConfig, ChanConfig.arity])
      obtain ⟨t, rest, eq⟩ := List.exists_cons_of_ne_nil held
      rw [List.isEmpty_iff] at empty
      refine .inr ⟨empty, ?_⟩
      simp only [y, statusUpdate, if_pos formed]
      refine (stamped _ _).trans ?_
      simp [pushChannel, varConfig, updateDataStatus, ChanConfig.arity, flags, empty, eq, keep]
    · simp only [y, statusUpdate, if_neg formed]
      exact .inl (stamped _ _)
  · have offered := updated.valid.symm.trans valid
    simp only [Bool.and_eq_true, Bool.not_eq_true', List.isEmpty_eq_false_iff] at offered
    exact offered.1.1

/-- The loop variable after its `get`: what was valid is popped, and the data of `outChan` is
taken if that is valid. -/
theorem get_var (keep : out.keepMode = false) (sent : x.valid = true → x.channel ≠ [])
    (single : x.channel.length ≤ 1) (enable : x.enable = true) :
    let c := varConfig size cycle speedup
    let y := (Chan.get c e (fun _ => out) [] sendable [] x).1
    let buffer := (if x.valid then (x.chanBuffer 0).tail else x.chanBuffer 0) ++
      if out.valid then [pushData c e (fun _ => out) out.value 0] else []
    let channel := if x.valid then [] else flags x.channel
    y.enable = true ∧ y.chanBuffer 0 = buffer ∧
      y.lastPopVal 0 = (if x.valid then ((x.chanBuffer 0).headD {}).value else x.lastPopVal 0) ∧
      (flags y.channel = channel ∨ channel = [] ∧ flags y.channel = (flags buffer).take 1) ∧
      (y.valid = true → y.channel ≠ []) := by
  intro c y buffer channel
  obtain ⟨same, front, held, last⟩ := pushed_var size cycle speedup e x keep
  have left : flags (if x.valid then x.channel.tail else x.channel) = channel := by
    cases valid : x.valid
    · simp [channel, valid]
    · obtain ⟨d, rest, eq⟩ := List.exists_cons_of_ne_nil (sent valid)
      simp_all [flags, channel]
  have inputs : (if c.noUpstream = true then ([] : List Int).zipIdx
    else (List.range c.upNum).map fun i => (out.value, i)) = [(out.value, 0)] := rfl
  simp only [y, Chan.get]
  rw [inputs]
  generalize (pushAll c e (fun _ => out) (pop c [] (parallelize c e x)) [(out.value, 0)]).1 = z
    at same front held last ⊢
  split
  · obtain ⟨same', front', last', formed, valid⟩ := status_var size cycle speedup e sendable z keep
    refine ⟨same'.trans (same.trans enable), (congrFun front' 0).trans held,
      (congrFun last' 0).trans last, ?_, valid⟩
    rw [← left, ← front]
    obtain old | ⟨empty, new⟩ := formed
    · exact .inl old
    · exact .inr ⟨by simp [empty, flags],
        new.trans (congrArg (fun l => (flags l).take 1) held)⟩
  · exact ⟨same.trans enable, held, last, .inl ((congrArg flags front).trans left),
      by simp [bpUpdate]⟩

end LoopVar

/-- What an iteration leaves, in terms of the mux and the loop variable after their calls. -/
structure Iterated (cfg : LcConfig) (bound : Int) (s t : OuterLoop) (m : Mux) (y : Chan) :
    Prop where
  mux : t.lc.mux = m
  var : t.lc.var = y.assign 0 + 1
  start : t.start.valid = false
  sel : t.lc.sel =
    if m.muxSuccess || !y.channel.isEmpty then decide (y.assign 0 + 1 < bound) else s.lc.sel
  loopVar : t.lc.loopVar = { y with
    value := y.assign 0
    channel := if t.lc.sel then y.channel else Lc.markLast cfg.isOuterMostLoop y.channel }
  loopNum : t.lc.loopNum =
    if !y.valid then s.lc.loopNum else if t.lc.sel then s.lc.loopNum + 1 else 0
  loopNums : t.lc.loopNums =
    s.lc.loopNums ++ if y.valid && !t.lc.sel then [s.lc.loopNum + 1] else []
  delivered : t.delivered = s.delivered ++
    if y.valid then
      let d := t.lc.loopVar.channel.headD {}
      [(y.assign 0, d.last, d.lastOuter)]
    else []

theorem iterated (cfg : LcConfig) (bound : Int) (i : OuterInput) (s : OuterLoop) :
    Iterated cfg bound s (iterate cfg bound i s) (muxUpdate cfg i.e s)
      (get cfg i.e i.sendable s) := by
  let y := get cfg i.e i.sendable s
  have looped := Lc.lcUpdate_looped cfg i.e (decide (y.assign 0 + 1 < bound)) i.ends i.endSendable
    { s.lc with
      mux := muxUpdate cfg i.e s
      loopVar := { y with value := y.assign 0 }
      var := y.assign 0 + 1 }
  rw [Lc.selUpdate_eq] at looped
  have sel := looped.sel
  have loopVar := looped.loopVar
  refine ⟨looped.mux, looped.var, rfl, sel, loopVar.trans (by rw [← sel]; rfl),
    looped.loopNum.trans (by rw [← sel]; rfl), looped.loopNums.trans (by rw [← sel]; rfl), ?_⟩
  have valid : (iterate cfg bound i s).lc.loopVar.valid = y.valid :=
    (congrArg Chan.valid loopVar :)
  have value : (iterate cfg bound i s).lc.loopVar.value = y.assign 0 :=
    (congrArg Chan.value loopVar :)
  have delivered : (iterate cfg bound i s).delivered =
      if (iterate cfg bound i s).lc.loopVar.valid then
        let d := (iterate cfg bound i s).lc.loopVar.channel.headD {}
        s.delivered ++ [((iterate cfg bound i s).lc.loopVar.value, d.last, d.lastOuter)]
      else s.delivered := rfl
  rw [delivered, valid, value]
  split_ifs <;> simp [y]

/-! ## The token of the loop -/

variable {bound : Nat} {isOuterMostLoop : Bool} {s t : OuterLoop}

/-- `outChan` is empty, or what it holds has been sent. -/
def Idle (x : Chan) : Prop := ∃ token sent, Out x token sent ∧ (token = [] ∨ sent = true)

/-- Where the one token of the loop is. -/
inductive Stage (bound : Nat) (isOuterMostLoop : Bool) (s : OuterLoop) : Prop
  /-- In `begin`. -/
  | start (begins : s.start.valid = true) (plain : flags s.start.channel = [(false, false)])
      (sel : s.lc.sel = false) (out : Out s.lc.mux.outChan [] false)
      (buffer : s.lc.loopVar.chanBuffer 0 = []) (channel : s.lc.loopVar.channel = [])
      (room : s.lc.loopVar.bp 0 = false) (first : s.delivered = [])
  /-- In `outChan`, which waits for room in the loop variable. -/
  | pending (begun : s.start.valid = false) (sel : s.lc.sel = true)
      (out : Out s.lc.mux.outChan [(false, false)] false)
      (buffer : s.lc.loopVar.chanBuffer 0 = []) (channel : s.lc.loopVar.channel = [])
      (last : s.lc.loopVar.lastPopVal 0 + 1 = s.delivered.length)
      (var : s.lc.var = s.delivered.length) (lt : s.delivered.length < bound)
  /-- In the loop variable. -/
  | held (v : Nat) (begun : s.start.valid = false) (out : Idle s.lc.mux.outChan) (d : Data)
      (buffer : s.lc.loopVar.chanBuffer 0 = [d]) (value : d.value = v)
      (plain : (d.last, d.lastOuter) = (false, false)) (lt : v < bound)
      (count : s.delivered.length = if s.lc.loopVar.valid then v + 1 else v)
      (channel : s.lc.loopVar.channel = [] ∨
        flags s.lc.loopVar.channel = [mark bound isOuterMostLoop v] ∧
          s.lc.sel = decide (v + 1 < bound) ∧ s.lc.var = v + 1)
  /-- Nowhere any more. -/
  | gone (begun : s.start.valid = false) (out : Idle s.lc.mux.outChan)
      (buffer : s.lc.loopVar.chanBuffer 0 = []) (channel : s.lc.loopVar.channel = [])

/-- What holds after every iteration. -/
structure Inv (bound : Nat) (isOuterMostLoop : Bool) (s : OuterLoop) : Prop where
  law : Law bound isOuterMostLoop s
  loopNum : s.lc.loopNum = if s.delivered.length = bound then 0 else s.delivered.length
  enable : s.lc.loopVar.enable = true
  sent : s.lc.loopVar.valid = true → s.lc.loopVar.channel ≠ []
  stage : Stage bound isOuterMostLoop s

theorem values_succ (v : Nat) : values bound isOuterMostLoop (v + 1) =
    values bound isOuterMostLoop v ++ [((v : Int), mark bound isOuterMostLoop v)] := by
  simp [values, List.range_succ]

variable {cfg : LcConfig} {m : Mux} {y : Chan}

theorem Iterated.waiting (it : Iterated cfg bound s t m y) (waits : y.valid = false) :
    t.delivered = s.delivered ∧ t.lc.loopNum = s.lc.loopNum ∧ t.lc.loopNums = s.lc.loopNums ∧
      t.lc.loopVar.valid = false := by
  have delivered := it.delivered
  have loopNum := it.loopNum
  have loopNums := it.loopNums
  simp only [waits, Bool.false_eq_true, if_false, Bool.not_false, if_true, List.append_nil,
    Bool.false_and] at delivered loopNum loopNums
  exact ⟨delivered, loopNum, loopNums, by rw [it.loopVar]; exact waits⟩

/-- Nothing is delivered in an iteration after which the loop variable has no element. -/
theorem Iterated.quiet (it : Iterated cfg bound s t m y) (inv : Inv bound cfg.isOuterMostLoop s)
    (enable : y.enable = true) (waits : y.valid = false)
    (stage : t.delivered = s.delivered → t.lc.loopVar.valid = false →
      Stage bound cfg.isOuterMostLoop t) : Inv bound cfg.isOuterMostLoop t := by
  obtain ⟨delivered, loopNum, loopNums, valid⟩ := it.waiting waits
  refine ⟨⟨delivered ▸ inv.law.delivered, delivered ▸ inv.law.bounded, ?_⟩, ?_, ?_, ?_,
    stage delivered valid⟩
  · rw [delivered, loopNums, inv.law.loopNums]
  · rw [delivered, loopNum, inv.loopNum]
  · rw [it.loopVar]; exact enable
  · simp [valid]

/-- An iteration that leaves an element of this value in the loop variable marks it, and
delivers it if it is valid. -/
theorem Iterated.formed (it : Iterated cfg bound s t m y) {v : Nat} {e : Data}
    (assigned : y.assign 0 = v) (lt : v < bound) (channel : y.channel = [e])
    (kind : (e.last, e.lastOuter) = (false, false) ∨
      (e.last, e.lastOuter) = mark bound cfg.isOuterMostLoop v) :
    t.lc.sel = decide (v + 1 < bound) ∧
      flags t.lc.loopVar.channel = [mark bound cfg.isOuterMostLoop v] ∧
      t.delivered = s.delivered ++
        if y.valid then [((v : Int), mark bound cfg.isOuterMostLoop v)] else [] := by
  have sel : t.lc.sel = decide (v + 1 < bound) := by
    rw [it.sel, assigned, channel]
    simp only [List.isEmpty_cons, Bool.not_false, Bool.or_true, if_true, decide_eq_decide]
    omega
  have marked : flags t.lc.loopVar.channel = [mark bound cfg.isOuterMostLoop v] := by
    rw [it.loopVar, sel, channel]
    by_cases more : v + 1 < bound
    · simp only [mark, more.ne, decide_false, Bool.false_and, or_self] at kind ⊢
      simpa [more, flags] using kind
    · obtain last : v + 1 = bound := by omega
      simp only [mark, last, decide_true, Bool.true_and] at kind ⊢
      obtain kind | kind := kind <;> simp_all [flags, Lc.markLast]
  refine ⟨sel, marked, ?_⟩
  obtain ⟨e', eq⟩ := List.length_eq_one_iff.mp (show t.lc.loopVar.channel.length = 1 by
    simpa [flags] using congrArg List.length marked)
  simp only [eq, flags, List.map_cons, List.map_nil, List.cons.injEq, and_true] at marked
  simp [it.delivered, eq, assigned, marked]

/-- An iteration that leaves the token in the loop variable. -/
theorem Iterated.held (it : Iterated cfg bound s t m y) (inv : Inv bound cfg.isOuterMostLoop s)
    {v : Nat} (count : s.delivered.length = v) (lt : v < bound) (enable : y.enable = true)
    (sent : y.valid = true → y.channel ≠ []) (out : Idle m.outChan) {d : Data}
    (buffer : y.chanBuffer 0 = [d]) (value : d.value = v)
    (plain : (d.last, d.lastOuter) = (false, false))
    (channel : flags y.channel = [] ∨ flags y.channel = [(false, false)] ∨
      flags y.channel = [mark bound cfg.isOuterMostLoop v]) :
    Inv bound cfg.isOuterMostLoop t := by
  have assigned : y.assign 0 = v := by simp [Chan.assign, buffer, value]
  have var : t.lc.var = v + 1 := by rw [it.var, assigned]
  have kept : t.lc.loopVar.chanBuffer 0 = [d] := by rw [it.loopVar]; exact buffer
  have none : s.lc.loopNums = [] := by simpa [count, lt.ne] using inv.law.loopNums
  have loopNum : s.lc.loopNum = v := by simpa [count, lt.ne] using inv.loopNum
  cases eq : y.channel with
  | nil =>
    have waits : y.valid = false := by
      by_contra valid
      exact sent (by simpa using valid) eq
    refine it.quiet inv enable waits fun same valid => ?_
    refine .held v it.start (it.mux ▸ out) d kept value plain lt (by simp [same, count, valid]) ?_
    left
    rw [it.loopVar]
    simp [eq, Lc.markLast]
  | cons e rest =>
    obtain ⟨rfl, kind⟩ : rest = [] ∧ ((e.last, e.lastOuter) = (false, false) ∨
        (e.last, e.lastOuter) = mark bound cfg.isOuterMostLoop v) := by
      simpa [eq, flags, and_or_left, and_comm] using channel
    obtain ⟨sel, marked, delivered⟩ := it.formed assigned lt eq kind
    have valid : t.lc.loopVar.valid = y.valid := by rw [it.loopVar]
    have length : t.delivered.length = if y.valid then v + 1 else v := by
      rw [delivered, List.length_append, count]
      split_ifs <;> rfl
    refine ⟨⟨?_, ?_, ?_⟩, ?_, by rw [it.loopVar]; exact enable, fun _ none => ?_, ?_⟩
    · rw [length, delivered, inv.law.delivered, count]
      split_ifs
      · rw [values_succ]
      · rw [List.append_nil]
    · rw [length]
      split_ifs <;> omega
    · rw [length, it.loopNums, none, loopNum, sel]
      cases y.valid
      · simp [lt.ne]
      · by_cases more : v + 1 < bound
        · simp [more, more.ne]
        · obtain last : v + 1 = bound := by omega
          simp [last]
    · rw [length, it.loopNum, loopNum, sel]
      cases y.valid
      · simp [lt.ne]
      · by_cases more : v + 1 < bound
        · simp [more, more.ne]
        · obtain last : v + 1 = bound := by omega
          simp [last]
    · simp [none, flags] at marked
    · exact .held v it.start (it.mux ▸ out) d kept value plain lt (by rw [length, valid])
        (.inr ⟨marked, sel, var⟩)

/-- An iteration that leaves the loop variable empty. -/
theorem Iterated.emptied (it : Iterated cfg bound s t m y)
    (inv : Inv bound cfg.isOuterMostLoop s) (enable : y.enable = true)
    (sent : y.valid = true → y.channel ≠ []) (buffer : y.chanBuffer 0 = [])
    (channel : y.channel = [])
    (stage : t.delivered = s.delivered → t.lc.loopVar.chanBuffer 0 = [] →
      t.lc.loopVar.channel = [] → t.lc.loopVar.lastPopVal 0 = y.lastPopVal 0 →
      t.lc.var = y.lastPopVal 0 + 1 → Stage bound cfg.isOuterMostLoop t) :
    Inv bound cfg.isOuterMostLoop t := by
  have waits : y.valid = false := by
    by_contra valid
    exact sent (by simpa using valid) channel
  refine it.quiet inv enable waits fun same _ => stage same ?_ ?_ ?_ ?_
  · rw [it.loopVar]; exact buffer
  · rw [it.loopVar]; simp [channel, Lc.markLast]
  · rw [it.loopVar]
  · rw [it.var]; simp [Chan.assign, buffer]

theorem initial_inv (one : 1 ≤ bound) : Inv bound isOuterMostLoop initial where
  law := ⟨rfl, Nat.zero_le _, (if_neg (show (0 : Nat) ≠ bound by omega)).symm⟩
  loopNum := (ite_self 0).symm
  enable := rfl
  sent := by simp [initial]
  stage := .start (by decide) (by decide) rfl ⟨rfl, rfl, rfl, rfl, by simp, rfl⟩ rfl rfl rfl rfl

section Step

variable {outSize size cycle speedup endSize : Nat} {getEnd : ChanConfig}

theorem Stage.single (stage : Stage bound isOuterMostLoop s) :
    s.lc.loopVar.channel.length ≤ 1 := by
  cases stage with
  | start _ _ _ _ _ channel => simp [channel]
  | pending _ _ _ _ channel => simp [channel]
  | gone _ _ _ channel => simp [channel]
  | held _ _ _ _ _ _ _ _ _ channel =>
    obtain none | ⟨one, -⟩ := channel
    · simp [none]
    · have length := congrArg List.length one
      simp only [flags, List.length_map, List.length_singleton] at length
      exact length.le

variable (e : Clock) (sendable : Bool)

theorem got_var (inv : Inv bound isOuterMostLoop s)
    (cfg_eq : cfg = config outSize size cycle speedup getEnd endSize isOuterMostLoop) :
    let m := muxUpdate cfg e s
    let value := Mux.mux s.lc.var 0 s.lc.sel
    let pushed := Chan.pushData (varConfig size cycle speedup) e (fun _ => {
      valid := m.outChan.valid, value := value, front := m.outChan.channel.headD {} }) value 0
    let y := get cfg e sendable s
    let x := s.lc.loopVar
    let buffer := (if x.valid then (x.chanBuffer 0).tail else x.chanBuffer 0) ++
      if m.outChan.valid then [pushed] else []
    let channel := if x.valid then [] else flags x.channel
    y.enable = true ∧ y.chanBuffer 0 = buffer ∧
      y.lastPopVal 0 = (if x.valid then ((x.chanBuffer 0).headD {}).value else x.lastPopVal 0) ∧
      (flags y.channel = channel ∨ channel = [] ∧ flags y.channel = (flags buffer).take 1) ∧
      (y.valid = true → y.channel ≠ []) := by
  have same : cfg.loopVar = varConfig size cycle speedup := by rw [cfg_eq]; rfl
  simp only [get, same]
  exact get_var _ _ _ _ _ _ rfl inv.sent inv.stage.single inv.enable

/-- Without a valid `outChan` the loop variable only pops, and may form an element. -/
theorem get_keeps (inv : Inv bound isOuterMostLoop s)
    (cfg_eq : cfg = config outSize size cycle speedup getEnd endSize isOuterMostLoop)
    (refused : (muxUpdate cfg e s).outChan.valid = false) :
    let y := get cfg e sendable s
    let x := s.lc.loopVar
    let buffer := if x.valid then (x.chanBuffer 0).tail else x.chanBuffer 0
    let channel := if x.valid then [] else flags x.channel
    y.enable = true ∧ (y.valid = true → y.channel ≠ []) ∧ y.chanBuffer 0 = buffer ∧
      y.lastPopVal 0 = (if x.valid then ((x.chanBuffer 0).headD {}).value else x.lastPopVal 0) ∧
      (flags y.channel = channel ∨ channel = [] ∧ flags y.channel = (flags buffer).take 1) := by
  obtain ⟨enable, buffer, last, formed, sent⟩ := got_var e sendable inv cfg_eq
  rw [refused] at buffer formed
  simp only [Bool.false_eq_true, if_false, List.append_nil] at buffer formed
  exact ⟨enable, sent, buffer, last, formed⟩

/-- An empty loop variable takes the datum of a valid `outChan`. -/
theorem get_takes (inv : Inv bound isOuterMostLoop s)
    (cfg_eq : cfg = config outSize size cycle speedup getEnd endSize isOuterMostLoop)
    {token : Bool × Bool} (out : Out (muxUpdate cfg e s).outChan [token] true)
    (left : (if s.lc.loopVar.valid then (s.lc.loopVar.chanBuffer 0).tail
      else s.lc.loopVar.chanBuffer 0) = [])
    (none : s.lc.loopVar.valid = true ∨ s.lc.loopVar.channel = []) :
    let y := get cfg e sendable s
    y.enable = true ∧ (y.valid = true → y.channel ≠ []) ∧ ∃ d, y.chanBuffer 0 = [d] ∧
      d.value = Mux.mux s.lc.var 0 s.lc.sel ∧ (d.last, d.lastOuter) = token ∧
      (flags y.channel = [] ∨ flags y.channel = [token]) := by
  obtain ⟨enable, buffer, -, formed, sent⟩ := got_var e sendable inv cfg_eq
  obtain ⟨d, channel⟩ := List.length_eq_one_iff.mp out.length
  have same : (d.last, d.lastOuter) = token := by simpa [channel, flags] using out.channel
  have was : (if s.lc.loopVar.valid then [] else flags s.lc.loopVar.channel) = [] := by
    split_ifs with valid
    · rfl
    · simp [none.resolve_left valid, flags]
  rw [out.valid, left, channel] at buffer formed
  rw [was] at formed
  simp only [if_true, List.nil_append, true_and] at buffer formed
  refine ⟨enable, sent, _, buffer, rfl, same, formed.imp_right fun new => new.trans ?_⟩
  simpa [flags, Chan.pushData] using same

/-- The loop variable neither holds the token nor gets it. -/
theorem get_empty (inv : Inv bound isOuterMostLoop s)
    (cfg_eq : cfg = config outSize size cycle speedup getEnd endSize isOuterMostLoop)
    (refused : (muxUpdate cfg e s).outChan.valid = false)
    (left : (if s.lc.loopVar.valid then (s.lc.loopVar.chanBuffer 0).tail
      else s.lc.loopVar.chanBuffer 0) = [])
    (none : s.lc.loopVar.valid = true ∨ s.lc.loopVar.channel = []) :
    let y := get cfg e sendable s
    y.chanBuffer 0 = [] ∧ y.channel = [] := by
  obtain ⟨-, -, buffer, -, formed⟩ := get_keeps e sendable inv cfg_eq refused
  have was : (if s.lc.loopVar.valid then [] else flags s.lc.loopVar.channel) = [] := by
    split_ifs with valid
    · rfl
    · simp [none.resolve_left valid, flags]
  rw [left] at buffer formed
  rw [was] at formed
  have empty : flags (get cfg e sendable s).channel = [] := by simpa [flags] using formed
  exact ⟨buffer, by simpa [flags] using empty⟩

theorem idle_waits (cfg : LcConfig) (idle : Idle s.lc.mux.outChan)
    (waits : (if s.lc.sel then s.lc.loopVar.valid else s.start.valid) = false) :
    Out (muxUpdate cfg e s).outChan [] false := by
  obtain ⟨token, sent, out, free⟩ := idle
  have kept := (muxUpdate_waits e cfg out waits).2.2
  obtain rfl | rfl := free
  · simpa using kept
  · simpa using kept

theorem iterate_inv (one : 1 ≤ bound) (i : OuterInput) (inv : Inv bound isOuterMostLoop s) :
    Inv bound isOuterMostLoop (iterate
      (config outSize size cycle speedup getEnd endSize isOuterMostLoop) bound i s) := by
  generalize cfg_eq : config outSize size cycle speedup getEnd endSize isOuterMostLoop = cfg
  have outer : cfg.isOuterMostLoop = isOuterMostLoop := by rw [← cfg_eq]; rfl
  have it := iterated cfg bound i s
  have waiting (channel : s.lc.loopVar.channel = []) : s.lc.loopVar.valid = false := by
    by_contra valid
    exact inv.sent (by simpa using valid) channel
  subst outer
  cases inv.stage with
  | start begins plain sel out buffer channel room first =>
    have waits := waiting channel
    obtain ⟨front, eq⟩ := List.length_eq_one_iff.mp (show s.start.channel.length = 1 by
      simpa [flags] using congrArg List.length plain)
    obtain ⟨-, -, pushed⟩ := muxUpdate_takes i.e cfg out (.inl rfl)
      (by simpa [sel] using begins)
    simp only [sel, eq, Bool.false_eq_true, if_false, List.headD_cons, room] at pushed
    have flagged : (front.last, front.lastOuter) = (false, false) := by
      simpa [eq, flags] using plain
    by_cases zero : cfg.outSize = 0
    · simp only [zero, if_true, ne_eq, not_true_eq_false, decide_false, Bool.false_and] at pushed
      have kept := get_keeps i.e i.sendable inv cfg_eq.symm pushed.valid
      obtain ⟨held, none⟩ := get_empty i.e i.sendable inv cfg_eq.symm pushed.valid
        (by simp [waits, buffer]) (.inr channel)
      refine it.emptied inv kept.1 kept.2.1 held none fun _ buffer channel _ _ => ?_
      exact .gone it.start (it.mux ▸ ⟨_, _, pushed, .inl rfl⟩) buffer channel
    · simp only [zero, if_false, ne_eq, not_false_eq_true, decide_true, Bool.true_and,
        Bool.not_false, flagged] at pushed
      obtain ⟨enable, sent, d, held, value, token, formed⟩ := get_takes i.e i.sendable
        inv cfg_eq.symm pushed (by simp [waits, buffer]) (.inr channel)
      exact it.held inv (v := 0) (by simp [first]) one enable sent
        ⟨_, _, pushed, .inr rfl⟩ held (by simpa [sel, Mux.mux] using value) token
        (formed.imp_right .inl)
  | pending begun sel out buffer channel last var lt =>
    have waits := waiting channel
    obtain ⟨failed, -, kept⟩ := muxUpdate_waits i.e cfg out
      (by simpa [sel] using waits)
    simp only [Bool.false_eq_true, if_false, Bool.not_false, List.isEmpty_cons, Bool.true_and]
      at kept
    cases room : s.lc.loopVar.bp 0 with
    | false =>
      simp only [room, Bool.not_false] at kept
      obtain ⟨enable, sent, d, held, value, token, formed⟩ := get_takes i.e i.sendable
        inv cfg_eq.symm kept (by simp [waits, buffer]) (.inr channel)
      exact it.held inv rfl lt enable sent ⟨_, _, kept, .inr rfl⟩ held
        (by simpa [sel, Mux.mux, var] using value) token (formed.imp_right .inl)
    | true =>
      simp only [room, Bool.not_true] at kept
      have got := get_keeps i.e i.sendable inv cfg_eq.symm kept.valid
      obtain ⟨held, none⟩ := get_empty i.e i.sendable inv cfg_eq.symm kept.valid
        (by simp [waits, buffer]) (.inr channel)
      have lastPop := got.2.2.2.1
      simp only [waits, Bool.false_eq_true, if_false] at lastPop
      refine it.emptied inv got.1 got.2.1 held none fun same buffer channel popped varEq => ?_
      refine .pending it.start ?_ (it.mux ▸ kept) buffer channel ?_ ?_ (same ▸ lt)
      · rw [it.sel, failed, none]; exact sel
      · rw [popped, lastPop, same, last]
      · rw [varEq, lastPop, same, last]
  | held v begun out d buffer value plain lt count channel =>
    cases valid : s.lc.loopVar.valid with
    | false =>
      -- the value stays where it is
      have kept := idle_waits i.e cfg out (by split_ifs; exact valid; exact begun)
      obtain ⟨enable, sent, held, -, formed⟩ :=
        get_keeps i.e i.sendable inv cfg_eq.symm kept.valid
      simp only [valid, Bool.false_eq_true, if_false] at held formed count
      refine it.held inv count lt enable sent ⟨_, _, kept, .inl rfl⟩ (held.trans buffer) value
        plain ?_
      obtain old | ⟨-, new⟩ := formed
      · rw [old]
        exact channel.imp (fun none => by simp [none, flags]) fun was => .inr was.1
      · right; left
        rw [new, buffer]
        simpa [flags] using plain
    | true =>
      obtain ⟨marked, sel, var⟩ := channel.resolve_left (inv.sent valid)
      simp only [valid, if_true] at count
      obtain ⟨e, eq⟩ := List.length_eq_one_iff.mp (show s.lc.loopVar.channel.length = 1 by
        simpa [flags] using congrArg List.length marked)
      have left : (if s.lc.loopVar.valid then (s.lc.loopVar.chanBuffer 0).tail
          else s.lc.loopVar.chanBuffer 0) = [] := by simp [valid, buffer]
      by_cases more : v + 1 < bound
      · -- the next value goes to `outChan`
        simp only [more, decide_true] at sel
        have flagged : (e.last, e.lastOuter) = (false, false) := by
          simpa [eq, flags, mark, more.ne] using marked
        obtain ⟨id, idSent, out, free⟩ := out
        obtain ⟨success, -, pushed⟩ := muxUpdate_takes i.e cfg out free
          (by simpa [sel] using valid)
        simp only [sel, eq, if_true, List.headD_cons, flagged] at pushed
        by_cases zero : cfg.outSize = 0
        · simp only [zero, if_true, ne_eq, not_true_eq_false, decide_false, Bool.false_and]
            at pushed
          have got := get_keeps i.e i.sendable inv cfg_eq.symm pushed.valid
          obtain ⟨held, none⟩ := get_empty i.e i.sendable inv cfg_eq.symm pushed.valid
            left (.inl valid)
          refine it.emptied inv got.1 got.2.1 held none fun _ buffer channel _ _ => ?_
          exact .gone it.start (it.mux ▸ ⟨_, _, pushed, .inl rfl⟩) buffer channel
        simp only [zero, if_false, ne_eq, not_false_eq_true, decide_true, Bool.true_and] at pushed
        cases room : s.lc.loopVar.bp 0 with
        | false =>
          simp only [room, Bool.not_false] at pushed
          obtain ⟨enable, sent, d, held, value, token, formed⟩ :=
            get_takes i.e i.sendable inv cfg_eq.symm pushed left (.inl valid)
          exact it.held inv count more enable sent ⟨_, _, pushed, .inr rfl⟩ held
            (by simpa [sel, Mux.mux, var] using value) token (formed.imp_right .inl)
        | true =>
          simp only [room, Bool.not_true] at pushed
          have got := get_keeps i.e i.sendable inv cfg_eq.symm pushed.valid
          obtain ⟨held, none⟩ := get_empty i.e i.sendable inv cfg_eq.symm pushed.valid
            left (.inl valid)
          have lastPop : (get cfg i.e i.sendable s).lastPopVal 0 = v := by
            simpa [valid, buffer, value] using got.2.2.2.1
          refine it.emptied inv got.1 got.2.1 held none fun same buffer channel popped varEq => ?_
          refine .pending it.start ?_ (it.mux ▸ pushed) buffer channel ?_ ?_ ?_
          · rw [it.sel, success]
            simp [Chan.assign, held, lastPop]
            omega
          · rw [popped, lastPop, same, count]; simp
          · rw [varEq, lastPop, same, count]; simp
          · rw [same, count]; exact more
      · -- the last value has been delivered
        have none : (if s.lc.sel then s.lc.loopVar.valid else s.start.valid) = false := by
          rw [if_neg (by simpa [sel] using more)]
          exact begun
        have kept := idle_waits i.e cfg out none
        have got := get_keeps i.e i.sendable inv cfg_eq.symm kept.valid
        obtain ⟨held, none⟩ := get_empty i.e i.sendable inv cfg_eq.symm kept.valid
          left (.inl valid)
        refine it.emptied inv got.1 got.2.1 held none fun _ buffer channel _ _ => ?_
        exact .gone it.start (it.mux ▸ ⟨_, _, kept, .inl rfl⟩) buffer channel
  | gone begun out buffer channel =>
    have waits := waiting channel
    have kept := idle_waits i.e cfg out (by split_ifs; exact waits; exact begun)
    have got := get_keeps i.e i.sendable inv cfg_eq.symm kept.valid
    obtain ⟨held, none⟩ := get_empty i.e i.sendable inv cfg_eq.symm kept.valid
      (by simp [waits, buffer]) (.inr channel)
    refine it.emptied inv got.1 got.2.1 held none fun _ buffer channel _ _ => ?_
    exact .gone it.start (it.mux ▸ ⟨_, _, kept, .inl rfl⟩) buffer channel

/-- Whatever the sizes, the delay and the speedup of the loop variable and the stalls of its
consumers are, the loop variable delivers the values below the bound in order, the last one
with its flags, and the controller counts the instance when the last one is sent. -/
theorem outer_loop_law (one : 1 ≤ bound) (inputs : List OuterInput) :
    Law bound isOuterMostLoop (run
      (config outSize size cycle speedup getEnd endSize isOuterMostLoop) bound inputs) := by
  have inv : Inv bound isOuterMostLoop (run
      (config outSize size cycle speedup getEnd endSize isOuterMostLoop) bound inputs) :=
    List.foldlRecOn (motive := Inv bound isOuterMostLoop) _ _ (initial_inv one)
      fun _ inv i _ => iterate_inv one i inv
  exact inv.law

/-- Three values, with a buffer of one datum, a delay of three cycles and a stall now and then. -/
def threeValues : OuterLoop :=
  run (config 2 1 3 1 { size := 2, upNum := 1, noDownstream := true } 2 true) 3
    ((List.range 20).map fun k => ⟨⟨k, true⟩, k % 4 != 1, fun _ => {}, true⟩)

theorem outer_loop_law_three : 1 ≤ 3 ∧ Law 3 true threeValues :=
  ⟨by decide, outer_loop_law (by decide) _⟩

example : threeValues.delivered = [(0, false, false), (1, false, false), (2, true, true)] := by
  decide +kernel

end Step

end OuterLoop

end DataflowSim.Execution
