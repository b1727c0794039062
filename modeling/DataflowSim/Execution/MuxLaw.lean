import DataflowSim.Execution.Lc

/-!
# The elements in the output channel of a mux

`Mux::muxUpdate` pushes an element into `outChan` and then writes the flags of the upstreams to the
back of the channel. The elements are numbered in the order of the pushes, so that it can be said
onto which of them the flags are written. It is the pushed one as long as no older element waits.
-/

namespace DataflowSim.Execution.Mux

variable {size : Nat} {e : Clock} {sendable : Bool} {x : Chan} {m m' : Mux}

/-- What one update reads. -/
structure MuxInput where
  clock : Clock
  trueUp : List MuxUpstream
  falseUp : List MuxUpstream
  downstream : List MuxDownstream
  sel : Bool

def MuxInput.ready (i : MuxInput) : Bool := checkUpstream i.sel (if i.sel then i.trueUp else i.falseUp)

def step (size : Nat) (m : Mux) (i : MuxInput) : Mux :=
  muxUpdate size i.clock i.trueUp i.falseUp i.downstream i.sel m

def dataStatus (d : Data) : Bool × Bool × Bool := (d.last, d.lastOuter, d.graphSwitch)

/-- The element with a number, if it stands in the channel. -/
def element (x : Chan) (n : Nat) : Option Data :=
  if n < x.consumed.length then none else x.channel[n - x.consumed.length]?

/-- One update writes the flags onto the element that it pushes and onto no other one, and what
leaves is what had been handed over. -/
structure Attributed (m m' : Mux) : Prop where
  pushed : (m'.outChan.received 0).length =
    (m.outChan.received 0).length + if m'.muxSuccess then 1 else 0
  flagged : m'.muxSuccess = true → ∃ d, m'.outChan.channel.getLast? = some d ∧
    element m'.outChan (m.outChan.received 0).length = some d ∧
    dataStatus d = dataStatus m'.upstreamDataStatus
  kept : ∀ n < (m.outChan.received 0).length, ∀ d ∈ element m.outChan n,
    ∀ d' ∈ element m'.outChan n, dataStatus d' = dataStatus d
  handed : m'.outChan.consumed.length =
    m.outChan.consumed.length + if m.outChan.valid then 1 else 0

/-- No element waits in `outChan` when the upstreams are ready. -/
def Unblocked (size : Nat) (m : Mux) (i : MuxInput) : Prop :=
  i.ready = true → 0 < size ∧ (m.outChan.channel = [] ∨ m.outChan.valid = true)

/-- There is one element at most, which stands in the buffer and in the channel. -/
structure Single (x : Chan) : Prop where
  enable : x.enable = true
  currId : x.currId = 1
  buffer : (x.chanBuffer 0).length = x.channel.length
  single : x.channel.length ≤ 1
  valid : x.valid = true → x.channel ≠ []
  numbered : (x.received 0).length = x.consumed.length + x.channel.length

/-! ## The phases of an update -/

/-- `outChan->pop()` and `outChan->statusUpdate()`. -/
def refreshOut (size : Nat) (e : Clock) (sendable : Bool) (x : Chan) : Chan :=
  Chan.statusUpdate (outConfig size) e (fun _ => {}) sendable (Chan.pop (outConfig size) [] x)

/-- An empty `outChan`, of which `left` elements have left. -/
structure Emptied (x : Chan) (left : Nat) : Prop where
  enable : x.enable = true
  currId : x.currId = 1
  buffer : x.chanBuffer 0 = []
  channel : x.channel = []
  valid : x.valid = false
  received : (x.received 0).length = left
  consumed : x.consumed.length = left

/-- What has been handed over leaves. -/
theorem Single.refresh_free (h : Single x) (free : x.channel = [] ∨ x.valid = true) :
    Emptied (refreshOut size e sendable x) (x.received 0).length ∧
      (x.received 0).length = x.consumed.length + if x.valid then 1 else 0 := by
  have single := h.single
  have numbered := h.numbered
  cases valid : x.valid
  · have channel : x.channel = [] := by simpa [valid] using free
    have buffer : x.chanBuffer 0 = [] := List.eq_nil_of_length_eq_zero (by simp [h.buffer, channel])
    simp only [channel, List.length_nil, Nat.add_zero] at numbered
    refine ⟨?_, by simp [numbered]⟩
    constructor <;> simp [refreshOut, Chan.statusUpdate, Chan.pop, Chan.popChannel,
      Chan.checkDataMatch, ChanConfig.arity, outConfig, valid, channel, buffer, h.enable, h.currId,
      numbered]
  · have one : x.channel.length = 1 := by
      have pos := List.length_pos_of_ne_nil (h.valid valid)
      omega
    obtain ⟨d, channel⟩ := List.length_eq_one_iff.mp one
    obtain ⟨b, buffer⟩ := List.length_eq_one_iff.mp (h.buffer.trans one)
    rw [one] at numbered
    refine ⟨?_, by simp [numbered]⟩
    constructor <;> simp [refreshOut, Chan.statusUpdate, Chan.pop, Chan.popChannel, Chan.popLastCheck,
      Chan.checkDataMatch, ChanConfig.arity, outConfig, valid, channel, buffer, h.enable, h.currId,
      numbered]

/-- An element that waits is handed over as soon as the downstreams can take it. -/
theorem Single.refresh_waiting (h : Single x) {d : Data} (channel : x.channel = [d])
    (waits : x.valid = false) : ∃ d', (refreshOut size e sendable x).channel = [d'] ∧
      dataStatus d' = dataStatus d ∧ Single (refreshOut size e sendable x) ∧
      (refreshOut size e sendable x).valid = sendable ∧
      (refreshOut size e sendable x).received = x.received ∧
      (refreshOut size e sendable x).consumed = x.consumed := by
  have numbered := h.numbered
  have buffer := h.buffer
  rw [channel] at numbered buffer
  let d' : Data := if sendable then { d with cycle := e.clk } else d
  have status : dataStatus d' = dataStatus d := by cases sendable <;> rfl
  refine ⟨d', ?_, status, ⟨?_, ?_, ?_, ?_, ?_, ?_⟩, ?_, ?_, ?_⟩ <;> cases sendable <;>
    simp [refreshOut, Chan.statusUpdate, Chan.pop, Chan.popChannel, outConfig, waits, channel,
      h.enable, h.currId, numbered, buffer, d']

/-- An empty `outChan` gets an element with the recorded flags. -/
theorem Emptied.pushed {left : Nat} (h : Emptied m.outChan left) (room : 0 < size) :
    ∃ d, (pushOutChan size e sendable m).outChan.channel = [d] ∧
      dataStatus d = dataStatus m.upstreamDataStatus ∧
      Single (pushOutChan size e sendable m).outChan ∧
      ((pushOutChan size e sendable m).outChan.received 0).length = left + 1 ∧
      (pushOutChan size e sendable m).outChan.consumed.length = left := by
  have notFull : ¬0 = size := by omega
  let d : Data := {
    valid := true
    last := m.upstreamDataStatus.last
    lastOuter := m.upstreamDataStatus.lastOuter
    graphSwitch := m.upstreamDataStatus.graphSwitch
    cycle := e.clk }
  refine ⟨d, ?_, rfl, ⟨?_, ?_, ?_, ?_, ?_, ?_⟩, ?_, ?_⟩ <;> cases sendable <;>
    simp [pushOutChan, Chan.get, Chan.parallelize, Chan.statusUpdate, Chan.pop, Chan.popChannel,
      outConfig, Chan.checkDataMatch, ChanConfig.arity, Chan.pushAll, Chan.push, Chan.checkUpstream,
      Chan.pushBuffer, Chan.store, Chan.setBuffer, Chan.updateGetTheLastData, Chan.pushChannel,
      Chan.bpUpdate, h.buffer, h.channel, h.valid, h.enable, h.currId, h.received, h.consumed,
      notFull, d]

/-- One without any size stays empty. -/
theorem Emptied.refused {left : Nat} (h : Emptied m.outChan left) :
    (pushOutChan 0 e sendable m).outChan.channel = [] := by
  simp [pushOutChan, Chan.get, Chan.parallelize, Chan.statusUpdate, Chan.pop, Chan.popChannel,
    outConfig, Chan.checkDataMatch, ChanConfig.arity, Chan.pushAll, Chan.push, Chan.checkUpstream,
    Chan.bpUpdate, h.buffer, h.channel, h.valid, h.enable, h.currId]

/-- Writing the flags neither pops nor pushes. -/
theorem pushOutChan_counts (size : Nat) (e : Clock) (sendable : Bool) (m : Mux) :
    let out := (Chan.get (outConfig size) e (fun _ => {}) [] sendable [1] m.outChan).1
    (pushOutChan size e sendable m).outChan.channel.length = out.channel.length ∧
      (pushOutChan size e sendable m).outChan.consumed = out.consumed := by
  intro out
  refine ⟨?_, rfl⟩
  change (out.channel.dropLast ++ out.channel.getLast?.toList.map _).length = out.channel.length
  rcases List.eq_nil_or_concat' out.channel with empty | ⟨l, d, eq⟩
  · simp [empty]
  · simp [eq]

/-- Where an element waits, the pop of `get` lets it leave as soon as it is offered, and otherwise
it stays in front. -/
theorem pushed_waiting {d : Data} (channel : m.outChan.channel = [d]) :
    (pushOutChan size e sendable m).outChan.consumed.length =
        m.outChan.consumed.length + (if m.outChan.valid then 1 else 0) ∧
      (m.outChan.valid = false → (pushOutChan size e sendable m).outChan.channel.length = 1) := by
  obtain ⟨length, consumed⟩ := pushOutChan_counts size e sendable m
  have speed : Chan.parallelize (outConfig size) e m.outChan = m.outChan := rfl
  obtain ⟨z, filled, after⟩ := Chan.get_cases (c := outConfig size) e (fun _ => {}) [] sendable [1] m.outChan
  rw [speed] at filled
  rw [consumed]
  have popped : z.consumed.length = m.outChan.consumed.length + if m.outChan.valid then 1 else 0 := by
    rw [filled.consumed]
    cases valid : m.outChan.valid <;> simp [Chan.pop, Chan.popChannel, outConfig, valid]
  have kept (waits : m.outChan.valid = false) : z.channel = [d] := by
    rw [filled.channel]
    simp [Chan.pop, Chan.popChannel, waits, channel]
  rw [length]
  rcases after with ⟨u, updated, eq⟩ | ⟨success, eq⟩
  · rw [eq]
    refine ⟨?_, fun waits => ?_⟩
    · have same : u.consumed = z.consumed := by rw [updated.rest]
      rw [← popped, ← same]
      rfl
    · have one := updated.length
      simpa [kept waits, Chan.bpUpdate] using one
  · rw [eq]
    exact ⟨popped, fun waits => congrArg List.length (kept waits)⟩

/-! ## One update -/

def MuxInput.canSend (i : MuxInput) : Bool := i.downstream.all fun chan => !chan.bp

/-- The mux when the flags of the upstreams have been recorded. -/
def recorded (size : Nat) (m : Mux) (i : MuxInput) : Mux :=
  recordDataStatus (if i.sel then i.trueUp else i.falseUp) { m with
    sel := i.sel
    outChan := refreshOut size i.clock i.canSend m.outChan
    muxSuccess := false }

theorem recorded_outChan (size : Nat) (m : Mux) (i : MuxInput) :
    (recorded size m i).outChan = refreshOut size i.clock i.canSend m.outChan := by
  unfold recorded recordDataStatus
  split_ifs <;> rfl

theorem step_of_ready {i : MuxInput} (ready : i.ready = true) : step size m i =
    { pushOutChan size i.clock i.canSend (recorded size m i) with
      muxSuccess := true
      bp := i.downstream.any fun chan => !chan.isFeedback && chan.bp } := by
  simp only [MuxInput.ready] at ready
  simp only [step, muxUpdate, ready, if_true]
  rfl

theorem step_of_not_ready {i : MuxInput} (ready : i.ready = false) : step size m i =
    { m with
      sel := i.sel
      outChan := refreshOut size i.clock i.canSend m.outChan
      muxSuccess := false
      bp := i.downstream.any fun chan => !chan.isFeedback && chan.bp } := by
  simp only [MuxInput.ready] at ready
  simp only [step, muxUpdate, ready]
  rfl

/-- An element waits unless `outChan` is empty or has handed it over. -/
theorem Single.free_or_waits (h : Single x) :
    (x.channel = [] ∨ x.valid = true) ∨ ∃ d, x.channel = [d] ∧ x.valid = false := by
  by_cases free : x.channel = [] ∨ x.valid = true
  · exact .inl free
  · obtain ⟨some, waits⟩ := not_or.mp free
    have pos := List.length_pos_of_ne_nil some
    have single := h.single
    obtain ⟨d, channel⟩ := List.length_eq_one_iff.mp (show x.channel.length = 1 by omega)
    exact .inr ⟨d, channel, by simpa using waits⟩

theorem Single.step_not_ready (h : Single m.outChan) {i : MuxInput} (ready : i.ready = false) :
    Attributed m (step size m i) ∧ Single (step size m i).outChan := by
  rw [step_of_not_ready ready]
  rcases h.free_or_waits with free | ⟨d, channel, waits⟩
  · obtain ⟨emptied, left⟩ := @Single.refresh_free size i.clock i.canSend _ h free
    refine ⟨⟨by simp [emptied.received], by simp, ?_, by simp [emptied.consumed, left]⟩, ?_⟩
    · intro n _ d _ d' there
      simp [element, emptied.channel] at there
    · constructor <;> simp [emptied.enable, emptied.currId, emptied.buffer, emptied.channel,
        emptied.valid, emptied.received, emptied.consumed]
  · obtain ⟨d', channel', same, single, -, received, consumed⟩ :=
      @Single.refresh_waiting size i.clock i.canSend _ h d channel waits
    refine ⟨⟨by simp [received], by simp, ?_, by simp [consumed, waits]⟩, single⟩
    intro n _ b there b' there'
    simp only [element, channel, channel', consumed, Option.mem_def] at there there'
    split_ifs at there there'
    obtain ⟨-, rfl⟩ := List.getElem?_eq_some_iff.mp there
    obtain ⟨-, rfl⟩ := List.getElem?_eq_some_iff.mp there'
    simpa using same

theorem Single.step_ready (h : Single m.outChan) {i : MuxInput} (ready : i.ready = true) :
    (Attributed m (step size m i) ↔
      0 < size ∧ (m.outChan.channel = [] ∨ m.outChan.valid = true)) ∧
    (0 < size ∧ (m.outChan.channel = [] ∨ m.outChan.valid = true) →
      Single (step size m i).outChan) := by
  rw [step_of_ready ready]
  have out := recorded_outChan size m i
  rcases h.free_or_waits with free | ⟨d, channel, waits⟩
  · obtain ⟨emptied, left⟩ := @Single.refresh_free size i.clock i.canSend _ h free
    rw [← out] at emptied
    rcases Nat.eq_zero_or_pos size with rfl | room
    · refine ⟨iff_of_false (fun attributed => ?_) (by simp), by simp⟩
      obtain ⟨d, back, -⟩ := attributed.flagged rfl
      simp [emptied.refused] at back
    · obtain ⟨d, channel, status, single, received, consumed⟩ :=
        @Emptied.pushed size i.clock i.canSend _ _ emptied room
      refine ⟨iff_of_true ⟨by simp [received], fun _ => ⟨d, ?_, ?_, ?_⟩, ?_, ?_⟩ ⟨room, free⟩, fun _ => single⟩
      · simp [channel]
      · simp [element, channel, consumed]
      · exact status
      · intro n before b _ b' there
        simp [element, consumed, before] at there
      · simpa [consumed] using left
  · obtain ⟨d', channel', -, -, valid, -, consumed⟩ :=
      @Single.refresh_waiting size i.clock i.canSend _ h d channel waits
    rw [← out] at channel' valid consumed
    obtain ⟨popped, kept⟩ := @pushed_waiting size i.clock i.canSend _ _ channel'
    have blocked : ¬(0 < size ∧ (m.outChan.channel = [] ∨ m.outChan.valid = true)) := by
      simp [channel, waits]
    refine ⟨iff_of_false (fun attributed => ?_) blocked, fun free => absurd free blocked⟩
    have handed : (pushOutChan size i.clock i.canSend (recorded size m i)).outChan.consumed.length =
        m.outChan.consumed.length := by simpa [waits] using attributed.handed
    rw [valid, consumed, handed] at popped
    have stuck : i.canSend = false := by
      by_contra sent
      simp [Bool.not_eq_false _ ▸ sent] at popped
    -- the flags are on the element in front, and the new one is not in the channel
    obtain ⟨b, -, there, -⟩ := attributed.flagged rfl
    have length := kept (valid.trans stuck)
    have numbered := h.numbered
    rw [channel, List.length_singleton] at numbered
    simp only [element] at there
    split_ifs at there
    have inside := (List.getElem?_eq_some_iff.mp there).1
    omega

/-- An update keeps to its own element if and only if no other one waits. -/
theorem Single.step_iff (h : Single m.outChan) (i : MuxInput) :
    (Attributed m (step size m i) ↔ Unblocked size m i) ∧
      (Unblocked size m i → Single (step size m i).outChan) := by
  cases ready : i.ready
  · obtain ⟨attributed, single⟩ := @Single.step_not_ready size _ h i ready
    have unblocked : Unblocked size m i := fun ready' => by simp [ready] at ready'
    exact ⟨iff_of_true attributed unblocked, fun _ => single⟩
  · obtain ⟨iff, single⟩ := @Single.step_ready size _ h i ready
    have unblocked : Unblocked size m i ↔
        0 < size ∧ (m.outChan.channel = [] ∨ m.outChan.valid = true) := by simp [Unblocked, ready]
    rw [unblocked]
    exact ⟨iff, single⟩

/-! ## Runs -/

def run (size : Nat) (inputs : List MuxInput) : Mux := inputs.foldl (step size) {}

theorem run_concat (size : Nat) (inputs : List MuxInput) (i : MuxInput) :
    run size (inputs ++ [i]) = step size (run size inputs) i := by
  simp [run]

theorem run_single {inputs : List MuxInput}
    (unblocked : ∀ done i rest, inputs = done ++ i :: rest → Unblocked size (run size done) i) :
    Single (run size inputs).outChan := by
  induction inputs using List.reverseRecOn with
  | nil => constructor <;> simp [run]
  | append_singleton inputs i ih =>
    have before := ih fun done j rest split =>
      unblocked done j (rest ++ [i]) (by simp [split])
    rw [run_concat]
    exact (before.step_iff i).2 (unblocked inputs i [] rfl)

/-- Each update of a run writes its flags onto its own element and each element is handed over
once, if and only if no update finds an element waiting when the upstreams are ready. -/
theorem run_attributed_iff (size : Nat) (inputs : List MuxInput) :
    (∀ done i rest, inputs = done ++ i :: rest →
        Attributed (run size done) (run size (done ++ [i]))) ↔
      ∀ done i rest, inputs = done ++ i :: rest → Unblocked size (run size done) i := by
  simp only [run_concat]
  induction inputs using List.reverseRecOn with
  | nil => simp
  | append_singleton inputs i ih =>
    have split_last {P : List MuxInput → MuxInput → Prop} :
        (∀ done j rest, inputs ++ [i] = done ++ j :: rest → P done j) ↔
          (∀ done j rest, inputs = done ++ j :: rest → P done j) ∧ P inputs i := by
      constructor
      · exact fun all => ⟨fun done j rest split => all done j (rest ++ [i]) (by simp [split]),
          all inputs i [] rfl⟩
      · rintro ⟨before, last⟩ done j rest split
        rcases List.eq_nil_or_concat' rest with rfl | ⟨rest', k, rfl⟩
        · obtain ⟨rfl, same⟩ := List.append_inj' split rfl
          obtain rfl : i = j := by simpa using same
          exact last
        · have shorter : inputs ++ [i] = (done ++ j :: rest') ++ [k] := by simpa using split
          obtain ⟨rfl, -⟩ := List.append_inj' shorter rfl
          exact before done j rest' rfl
    rw [split_last, split_last, ih]
    exact and_congr_right fun unblocked => ((run_single unblocked).step_iff i).1

/-- A start value for a loop variable that is full; it is fed back, and so the mux does not hold its
upstreams back. -/
def start (last : Bool) : MuxInput where
  clock := ⟨0, true⟩
  trueUp := []
  falseUp := [{ valid := true, front := { last := last } }]
  downstream := [{ isFeedback := true, bp := true }]
  sel := false

/-- The flags of the second element are written onto the first one, which waits. -/
theorem run_overwrites :
    (run 2 [start false]).outChan.channel.map dataStatus = [(false, false, false)] ∧
    (run 2 [start false]).bp = false ∧
    (run 2 [start false, start true]).outChan.channel.map dataStatus = [(true, false, false)] ∧
    ((run 2 [start false, start true]).outChan.chanBuffer 0).length = 2 ∧
    (run 2 [start false, start true]).muxSuccess = true ∧
    ¬Attributed (run 2 [start false]) (run 2 [start false, start true]) := by
  refine ⟨by decide, by decide, by decide, by decide, by decide, fun attributed => ?_⟩
  obtain ⟨d, -, there, -⟩ := attributed.flagged (by decide)
  have missing : element (run 2 [start false, start true]).outChan
      ((run 2 [start false]).outChan.received 0).length = none := by decide
  rw [missing] at there
  cases there

end DataflowSim.Execution.Mux
