import DataflowSim.Execution.Channel

/-!
# The buffers of a channel

Whatever the mode of its upstreams, a push only puts data behind those of a buffer, and what
is popped together are the data of one position of the streams.
-/

namespace DataflowSim.Execution

/-- The second channel is the first one with more data at the ends of its buffers. -/
structure Filled (x y : Chan) : Prop where
  grown : ∀ i, ∃ ds, y.chanBuffer i = x.chanBuffer i ++ ds ∧ y.received i = x.received i ++ ds
  rest : y = { x with
    chanBuffer := y.chanBuffer, received := y.received, getTheLastData := y.getTheLastData }

namespace Filled

variable {x y z : Chan}

theorem refl (x : Chan) : Filled x x := ⟨fun _ => ⟨[], by simp⟩, rfl⟩

theorem trans (h : Filled x y) (k : Filled y z) : Filled x z := by
  refine ⟨fun i => ?_, ?_⟩
  · obtain ⟨ds, buffer, received⟩ := h.grown i
    obtain ⟨ds', buffer', received'⟩ := k.grown i
    exact ⟨ds ++ ds', by simp [buffer, buffer'], by simp [received, received']⟩
  · conv_lhs => rw [k.rest, h.rest]

theorem channel (h : Filled x y) : y.channel = x.channel := (congrArg Chan.channel h.rest :)
theorem valid (h : Filled x y) : y.valid = x.valid := (congrArg Chan.valid h.rest :)
theorem enable (h : Filled x y) : y.enable = x.enable := (congrArg Chan.enable h.rest :)
theorem bp (h : Filled x y) : y.bp = x.bp := (congrArg Chan.bp h.rest :)
theorem currId (h : Filled x y) : y.currId = x.currId := (congrArg Chan.currId h.rest :)
theorem lastPopVal (h : Filled x y) : y.lastPopVal = x.lastPopVal :=
  (congrArg Chan.lastPopVal h.rest :)
theorem consumed (h : Filled x y) : y.consumed = x.consumed := (congrArg Chan.consumed h.rest :)

/-- A datum that was there keeps its place. -/
theorem received_getElem? (h : Filled x y) {i k : Nat} {d : Data}
    (there : (x.received i)[k]? = some d) : (y.received i)[k]? = some d := by
  obtain ⟨ds, -, received⟩ := h.grown i
  rw [received, List.getElem?_append_left (List.getElem?_eq_some_iff.mp there).1, there]

/-- A buffer that held something keeps its head. -/
theorem front (h : Filled x y) {i : Nat} {d : Data} {l : List Data}
    (there : x.chanBuffer i = d :: l) : ∃ l', y.chanBuffer i = d :: l' := by
  obtain ⟨ds, buffer, -⟩ := h.grown i
  exact ⟨l ++ ds, by simp [buffer, there]⟩

end Filled

namespace Chan

variable (c : ChanConfig) (e : Clock) (up : Nat → Upstream)

theorem store_filled (x : Chan) (bufferId : Nat) (d : Data) : Filled x (x.store bufferId d) := by
  refine ⟨fun i => ?_, rfl⟩
  by_cases eq : i = bufferId
  · subst eq
    exact ⟨[d], by simp [store, setBuffer], by simp [store]⟩
  · exact ⟨[], by simp [store, setBuffer, eq], by simp [store, eq]⟩

theorem pushBuffer_filled (x : Chan) (data : Int) (bufferId : Nat) :
    Filled x (pushBuffer c e up x data bufferId).1 := by
  simp only [pushBuffer]
  split_ifs <;> first | exact store_filled .. | exact .refl x

theorem updateGetTheLastData_filled (x : Chan) (bufferId : Nat) :
    Filled x (x.updateGetTheLastData bufferId) := ⟨fun _ => ⟨[], by simp [updateGetTheLastData]⟩, rfl⟩

theorem push_filled (x : Chan) (data : Int) (bufferId : Nat) :
    Filled x (push c e up x data bufferId).1 := by
  have pushed := (pushBuffer_filled c e up x data bufferId).trans
    (updateGetTheLastData_filled _ bufferId)
  simp only [push]
  split <;> split <;> first | exact pushed | exact .refl x

theorem pushAll_filled (inputs : List (Int × Nat)) (x : Chan) :
    Filled x (pushAll c e up x inputs).1 := by
  refine List.foldlRecOn (motive := fun s : Chan × Nat => Filled x s.1) _ _ (.refl x) ?_
  intro s filled input _
  exact filled.trans (push_filled c e up s.1 input.1 input.2)

theorem pushAll_fst (x : Chan) (l : List (Int × Nat)) : (pushAll c e up x l).1 =
    l.foldl (fun x input => (push c e up x input.1 input.2).1) x :=
  (List.foldl_hom Prod.fst fun _ _ => rfl).symm

/-! ## Positions -/

/-- What holds between any two functions of a `ChanBase`: the buffers hold what was received
and not popped, and an element of the output channel has its operands in the buffers. -/
structure Tracked (x : Chan) : Prop where
  buffer : ∀ i < c.arity, x.chanBuffer i = (x.received i).drop x.consumed.length
  bound : ∀ i < c.arity, x.consumed.length ≤ (x.received i).length
  single : x.channel.length ≤ 1
  held : x.channel ≠ [] → ∀ i < c.arity, x.chanBuffer i ≠ []
  joined : ∀ (k : Nat) (operands : List Data), x.consumed[k]? = some operands →
    operands = (List.range c.arity).map fun i => (x.received i)[k]?.getD {}

variable {c} {x y : Chan}

theorem Tracked.congr (h : Tracked c x) (buffer : y.chanBuffer = x.chanBuffer)
    (received : y.received = x.received) (consumed : y.consumed = x.consumed)
    (channel : y.channel.length = x.channel.length) : Tracked c y where
  buffer := by simpa only [buffer, received, consumed] using h.buffer
  bound := by simpa only [received, consumed] using h.bound
  single := channel.trans_le h.single
  held some := by
    rw [buffer]
    refine h.held fun none => some (List.eq_nil_of_length_eq_zero ?_)
    rw [channel, none, List.length_nil]
  joined := by simpa only [received, consumed] using h.joined

theorem Tracked.filled (h : Tracked c x) (filled : Filled x y) : Tracked c y where
  buffer i lt := by
    obtain ⟨ds, buffer, received⟩ := filled.grown i
    rw [buffer, received, filled.consumed, List.drop_append_of_le_length (h.bound i lt),
      h.buffer i lt]
  bound i lt := by
    obtain ⟨ds, -, received⟩ := filled.grown i
    have bound := h.bound i lt
    simp only [received, filled.consumed, List.length_append]
    omega
  single := filled.channel ▸ h.single
  held some i lt := by
    obtain ⟨d, t, eq⟩ := List.exists_cons_of_ne_nil (h.held (filled.channel ▸ some) i lt)
    obtain ⟨t', eq'⟩ := filled.front eq
    exact List.ne_nil_of_length_pos (by simp [eq'])
  joined k operands at_k := by
    rw [filled.consumed] at at_k
    rw [h.joined k operands at_k, List.map_inj_left]
    intro i mem
    have lt : k < (x.received i).length :=
      (List.getElem?_eq_some_iff.mp at_k).1.trans_le (h.bound i (List.mem_range.mp mem))
    rw [filled.received_getElem? (List.getElem?_eq_getElem lt), List.getElem?_eq_getElem lt]

theorem Tracked.popChannel (h : Tracked c x) {ready lastReady : Bool}
    (sent : ready = true → x.channel ≠ []) : Tracked c (popChannel c x ready lastReady) := by
  by_cases pops : (ready && (!c.keepMode || lastReady)) = true
  swap
  · simpa only [Chan.popChannel, if_neg pops] using h
  simp only [Chan.popChannel, if_pos pops]
  have held := h.held (sent (Bool.and_eq_true_iff.mp pops).1)
  have room {i : Nat} (lt : i < c.arity) : x.consumed.length < (x.received i).length := by
    have := List.length_pos_iff.mpr (held i lt)
    rw [h.buffer i lt, List.length_drop] at this
    omega
  have single := h.single
  refine ⟨fun i lt => ?_, fun i lt => ?_, ?_, fun some => ?_, fun k operands at_k => ?_⟩
  · simp [lt, h.buffer i lt, List.tail_drop]
  · simpa using room lt
  · exact (List.length_tail ▸ Nat.sub_le ..).trans single
  · refine absurd (List.eq_nil_of_length_eq_zero ?_) some
    simp only [List.length_tail]
    omega
  · rcases Nat.lt_or_ge k x.consumed.length with lt | ge
    · exact h.joined k operands (by simpa [List.getElem?_append_left lt] using at_k)
    · rw [List.getElem?_append_right ge] at at_k
      have bound := (List.getElem?_eq_some_iff.mp at_k).1
      simp only [List.length_singleton] at bound
      obtain rfl : k = x.consumed.length := by omega
      obtain rfl : fronts c x = operands := by simpa using at_k
      refine List.map_inj_left.mpr fun i mem => ?_
      have lt := List.mem_range.mp mem
      rw [h.buffer i lt, List.headD_eq_head?_getD, List.head?_drop]

theorem checkDataMatch_held {x : Chan} (matched : checkDataMatch c e x = true) {i : Nat}
    (lt : i < c.arity) : x.chanBuffer i ≠ [] := by
  intro empty
  simp only [checkDataMatch, List.all_eq_true, List.mem_range] at matched
  simpa [empty] using matched i lt

theorem pushChannel_eq (x : Chan) :
    ∃ d, pushChannel c e up x = { x with channel := x.channel ++ [d] } := by
  unfold pushChannel
  split_ifs <;> exact ⟨_, rfl⟩

/-- What `statusUpdate` decides: whether an element is formed, and whether it is offered. -/
structure Updated (c : ChanConfig) (e : Clock) (sendable : Bool) (x y : Chan) : Prop where
  rest : y = { x with
    pushChannelSuccess := y.pushChannelSuccess, valid := y.valid, channel := y.channel,
    chanDataCnt := y.chanDataCnt, statusUpdates := y.statusUpdates }
  length : y.channel.length =
    x.channel.length + if (checkDataMatch c e x && x.channel.isEmpty) = true then 1 else 0
  valid : y.valid =
    (!y.channel.isEmpty && x.enable && (c.noDownstream || c.keepMode || sendable))

theorem statusUpdate_updated (sendable : Bool) (x : Chan) :
    Updated c e sendable x (statusUpdate c e up sendable x) := by
  have stamped := eq_of_stamped e (f := List.length) fun _ _ => rfl
  have empty {l l' : List Data} (length : l.length = l'.length) : l.isEmpty = l'.isEmpty := by
    cases l <;> cases l' <;> simp_all
  have pushed : ∃ l, (if (checkDataMatch c e x && x.channel.isEmpty) = true
        then pushChannel c e up x else x) = { x with channel := l } ∧ l.length =
      x.channel.length + if (checkDataMatch c e x && x.channel.isEmpty) = true then 1 else 0 := by
    split_ifs
    · obtain ⟨d, eq⟩ := pushChannel_eq (c := c) e up x
      exact ⟨_, eq, by simp⟩
    · exact ⟨_, rfl, rfl⟩
  obtain ⟨l, eq, length⟩ := pushed
  simp only [statusUpdate, eq]
  exact ⟨rfl, (stamped _ l).trans length,
    congrArg (!· && x.enable && (c.noDownstream || c.keepMode || sendable))
      (empty (stamped _ l)).symm⟩

theorem Tracked.updated (h : Tracked c x) {sendable : Bool} (updated : Updated c e sendable x y) :
    Tracked c y := by
  have buffer : y.chanBuffer = x.chanBuffer := by rw [updated.rest]
  have received : y.received = x.received := by rw [updated.rest]
  have consumed : y.consumed = x.consumed := by rw [updated.rest]
  have length := updated.length
  by_cases formed : (checkDataMatch c e x && x.channel.isEmpty) = true
  · obtain ⟨matched, empty⟩ := Bool.and_eq_true_iff.mp formed
    rw [if_pos formed, List.isEmpty_iff.mp empty] at length
    exact ⟨by simpa only [buffer, received, consumed] using h.buffer,
      by simpa only [received, consumed] using h.bound, length.le,
      fun _ i lt => buffer ▸ checkDataMatch_held e matched lt,
      by simpa only [received, consumed] using h.joined⟩
  · exact h.congr buffer received consumed (by simpa only [if_neg formed, Nat.add_zero] using length)

theorem parallelize_eq (x : Chan) : ∃ n, parallelize c e x = { x with currId := n } := by
  unfold parallelize
  split_ifs <;> exact ⟨_, rfl⟩

variable (c) in
/-- What `get` pushes: the values of the upstreams, or the data it is called with. -/
def inputs (data : List Int) : List (Int × Nat) :=
  if c.noUpstream then data.zipIdx else (List.range c.upNum).map fun i => ((up i).value, i)

/-- A call of `get` pops, pushes, and then updates the status or sleeps. -/
theorem get_after (downstream : List Nat) (sendable : Bool) (data : List Int) (x : Chan) :
    let z := (pushAll c e up (pop c downstream (parallelize c e x)) (inputs c up data)).1
    (∃ u, Updated c e sendable z u ∧
        (get c e up downstream sendable data x).1 = bpUpdate c u) ∨
      ∃ success, (get c e up downstream sendable data x).1 =
        bpUpdate c { z with valid := false, pushChannelSuccess := success } := by
  intro z
  by_cases awake : z.currId ≤ c.speedup ∨ c.noUpstream = false ∧
      (e.clkAdd = true ∨ c.chanType = .Chan_DGSF)
  · exact .inl ⟨_, statusUpdate_updated e up sendable z, congrArg (bpUpdate c) (if_pos awake)⟩
  · exact .inr ⟨_, congrArg (bpUpdate c) (if_neg awake)⟩

/-- After the pushes a call of `get` does not touch the buffers; the flags tell which of them
have room. -/
theorem get_buffers (downstream : List Nat) (sendable : Bool) (data : List Int) (x : Chan) :
    let y := (get c e up downstream sendable data x).1
    let z := (pushAll c e up (pop c downstream (parallelize c e x)) (inputs c up data)).1
    y.chanBuffer = z.chanBuffer ∧ y.received = z.received ∧ y.consumed = z.consumed ∧
      ∀ i < c.arity, y.bp i = false → (y.chanBuffer i).length < c.size := by
  have flags (u : Chan) (i : Nat) (lt : i < c.arity) (free : (bpUpdate c u).bp i = false) :
      (u.chanBuffer i).length < c.size := by
    simp only [bpUpdate, lt, if_true, Bool.or_eq_false_iff] at free
    simpa using free.2
  obtain ⟨u, updated, eq⟩ | ⟨success, eq⟩ := get_after e up downstream sendable data x
  · rw [eq]
    exact ⟨(congrArg Chan.chanBuffer updated.rest :), (congrArg Chan.received updated.rest :),
      (congrArg Chan.consumed updated.rest :), flags u⟩
  · rw [eq]
    exact ⟨rfl, rfl, rfl, flags _⟩

theorem get_cases (downstream : List Nat) (sendable : Bool) (data : List Int) (x : Chan) :
    ∃ z, Filled (pop c downstream (parallelize c e x)) z ∧
      ((∃ u, Updated c e sendable z u ∧
          (get c e up downstream sendable data x).1 = bpUpdate c u) ∨
        ∃ success, (get c e up downstream sendable data x).1 =
          bpUpdate c { z with valid := false, pushChannelSuccess := success }) :=
  ⟨_, pushAll_filled c e up _ _, get_after e up downstream sendable data x⟩

theorem Tracked.pop (h : Tracked c x) (sent : x.valid = true → x.channel ≠ [])
    (downstream : List Nat) : Tracked c (pop c downstream (parallelize c e x)) := by
  obtain ⟨n, same⟩ := parallelize_eq (c := c) e x
  have started : Tracked c (parallelize c e x) := same ▸ h.congr rfl rfl rfl rfl
  exact started.popChannel (by simpa only [same] using sent)

/-- A channel whose offer has an element stays so: after a call of `get` every datum that was
received is in its buffer or was popped. -/
theorem Tracked.get (h : Tracked c x) (sent : x.valid = true → x.channel ≠ [])
    (downstream : List Nat) (sendable : Bool) (data : List Int) :
    let y := (get c e up downstream sendable data x).1
    Tracked c y ∧ (y.valid = true → y.channel ≠ []) := by
  have popped := h.pop e sent downstream
  obtain ⟨z, filled, ⟨u, updated, eq⟩ | ⟨success, eq⟩⟩ :=
    get_cases (c := c) e up downstream sendable data x
  · intro y
    simp only [y, eq]
    refine ⟨((popped.filled filled).updated e updated).congr rfl rfl rfl rfl, fun valid => ?_⟩
    have offered := updated.valid.symm.trans valid
    simp only [Bool.and_eq_true, Bool.not_eq_true', List.isEmpty_eq_false_iff] at offered
    exact offered.1.1
  · intro y
    simp only [y, eq]
    exact ⟨(popped.filled filled).congr rfl rfl rfl rfl, fun valid => absurd valid Bool.false_ne_true⟩

end Chan

end DataflowSim.Execution
