import DataflowSim.Execution.Buffers
import DataflowSim.Execution.Speedup

/-!
# A call without loss

What a call of `get` makes of a `ChanBase` or a `ChanDGSF` that is not in keep mode, when it may
store what it is offered. Counts and time stamps say all: how many elements were consumed and
formed, how many data were received, and when their delays are over.
-/

namespace DataflowSim.Execution

/-- A datum without the time from which it may be used. -/
def Data.untimed (d : Data) : Data := { d with cycle := 0 }

/-- No flag is set besides the condition. -/
def Data.Bare (d : Data) : Prop :=
  d = { value := d.value, valid := true, cond := d.cond, cycle := d.cycle }

namespace Data.Bare

variable {d d' : Data}

theorem last (bare : d.Bare) : d.last = false := by rw [bare]
theorem lastOuter (bare : d.Bare) : d.lastOuter = false := by rw [bare]
theorem graphSwitch (bare : d.Bare) : d.graphSwitch = false := by rw [bare]
theorem tag (bare : d.Bare) : d.tag = 0 := by rw [bare]

/-- Without its time a datum is its value and its condition. -/
theorem ext (bare : d.Bare) (bare' : d'.Bare) (value : d.value = d'.value)
    (cond : d.cond = d'.cond) : d.untimed = d'.untimed := by
  rw [bare, bare', value, cond]
  rfl

end Data.Bare

namespace Chan

/-! ## Pushes -/

/-- A channel of class `ChanBase` or `ChanDGSF` that is not in keep mode. -/
structure Calm (c : ChanConfig) : Prop where
  keepMode : c.keepMode = false
  type : c.chanType = .Chan_Base ∨ c.chanType = .Chan_DGSF ∧ c.noUpstream = false

variable {c : ChanConfig} (e : Clock) (up : Nat → Upstream)

/-- What a call of `get` meets at its upstreams: none is in keep mode, what is offered has no
flags, and a channel that may not store anything is not offered anything. -/
structure Meets (c : ChanConfig) (up : Nat → Upstream) (x : Chan) : Prop where
  keepMode : ∀ i, (up i).keepMode = false
  bare : ∀ i, (up i).valid = true → (up i).front.Bare
  enabled : c.chanType = .Chan_DGSF → x.pushBufferEnable = false → ∀ i, (up i).valid = false

/-- A channel in drain mode would take a last datum, and there is none. -/
def takes (c : ChanConfig) (up : Nat → Upstream) (i : Nat) : Bool := (up i).valid && !c.drainMode

theorem push_calm (calm : Calm c) (has : c.noUpstream = false) {x : Chan} (meets : Meets c up x)
    (more : ∀ i, x.getTheLastData i = false) (data : Int) (i : Nat) :
    (push c e up x data i).1 = if takes c up i then
      (x.store i (pushData c e up data i)).updateGetTheLastData i else x := by
  have none : hasUpstreamInKeepMode c up = false := by
    simp [hasUpstreamInKeepMode, meets.keepMode]
  have check : checkUpstream c up x i = takes c up i := by
    cases valid : (up i).valid with
    | false => simp [checkUpstream, takes, has, valid]
    | true => simp [checkUpstream, takes, has, valid, (meets.bare i valid).last]
  rcases calm.type with base | ⟨dgsf, -⟩
  · cases take : takes c up i <;> simp [push, base, check, take, pushBuffer, has, none]
  · cases enable : x.pushBufferEnable with
    | true => cases take : takes c up i <;>
        simp [push, dgsf, enable, check, take, pushBuffer, has, none, more]
    | false =>
      have idle : takes c up i = false := by
        simp [takes, meets.enabled dgsf enable i]
      simp [push, dgsf, enable, idle]

theorem pushData_bare {data : Int} {i : Nat} (bare : (up i).front.Bare) :
    (pushData c e up data i).Bare := by
  rw [pushData, bare]
  exact rfl

/-- A datum that is no last one leaves the channel open for more. -/
theorem store_more {x : Chan} (more : ∀ i, x.getTheLastData i = false) {d : Data}
    (last : d.last = false) (i j : Nat) :
    ((x.store i d).updateGetTheLastData i).getTheLastData j = false := by
  have check : (x.store i d).checkGetLastData i = false := by
    simp [checkGetLastData, store, setBuffer, last]
  unfold updateGetTheLastData
  rw [check]
  by_cases here : j = i
  · subst here
    simp
  · simpa [here, store, setBuffer] using more j

/-- Each buffer gets the datum of its upstream, if there is one to take. -/
theorem pushAll_calm (calm : Calm c) (has : c.noUpstream = false) {is : List Nat} (nodup : is.Nodup)
    {x : Chan} (meets : Meets c up x) (more : ∀ i, x.getTheLastData i = false) :
    let z := (pushAll c e up x (is.map fun i => ((up i).value, i))).1
    (∀ j, z.getTheLastData j = false) ∧ ∀ j, z.received j = x.received j ++
      if j ∈ is ∧ takes c up j = true then [pushData c e up (up j).value j] else [] := by
  rw [pushAll_fst]
  induction is generalizing x with
  | nil => simpa using more
  | cons i is ih =>
    obtain ⟨fresh, nodup⟩ := List.nodup_cons.mp nodup
    rw [List.map_cons, List.foldl_cons, push_calm e up calm has meets more]
    dsimp only
    cases take : takes c up i with
    | false =>
      obtain ⟨later, received⟩ := ih nodup meets more
      refine ⟨later, fun j => ?_⟩
      rw [if_neg Bool.false_ne_true, received]
      by_cases here : j = i
      · subst here
        simp [fresh, take]
      · simp [here]
    | true =>
      have valid : (up i).valid = true := (Bool.and_eq_true_iff.mp take).1
      have bare : (pushData c e up (up i).value i).Bare := pushData_bare e up (meets.bare i valid)
      have meets' : Meets c up
          ((x.store i (pushData c e up (up i).value i)).updateGetTheLastData i) :=
        ⟨meets.keepMode, meets.bare, meets.enabled⟩
      obtain ⟨later, received⟩ := ih nodup meets' (store_more more bare.last i)
      rw [if_pos rfl]
      refine ⟨later, fun j => ?_⟩
      rw [received]
      by_cases here : j = i
      · subst here
        simp [fresh, take, store, updateGetTheLastData]
      · simp [here, store, updateGetTheLastData]

/-- What a channel without upstreams takes of the data it is offered. -/
def taken (c : ChanConfig) (e : Clock) (x : Chan) (data : Option Int) : List Data :=
  if (x.chanBuffer 0).length != c.size then
    (data.map fun value => { valid := true, value := value, cycle := e.clk + c.cycle }).toList
  else []

theorem pushAll_taken (calm : Calm c) (none : c.noUpstream = true) {x : Chan}
    (more : ∀ i, x.getTheLastData i = false) (data : Option Int) :
    let z := (pushAll c e up x (inputs c up data.toList)).1
    (∀ j, z.getTheLastData j = false) ∧ ∀ j, z.received j = x.received j ++
      if j = 0 then taken c e x data else [] := by
  have base : c.chanType = .Chan_Base :=
    calm.type.resolve_right fun dgsf => by simp [none] at dgsf
  rw [pushAll_fst]
  cases data with
  | none => exact ⟨by simpa [inputs, none] using more, by simp [inputs, none, taken]⟩
  | some value =>
    simp only [inputs, none, if_true, Option.toList_some, List.zipIdx_singleton, List.foldl_cons,
      List.foldl_nil, push, base, pushBuffer, checkUpstream, taken, Option.map_some]
    by_cases room : ((x.chanBuffer 0).length != c.size) = true
    · simp only [room, if_true]
      refine ⟨store_more more rfl 0, fun j => ?_⟩
      by_cases here : j = 0
      · subst here
        simp [store, updateGetTheLastData]
      · simp [here, store, updateGetTheLastData]
    · simp only [room, Bool.false_eq_true, if_false]
      exact ⟨more, by simp⟩

/-! ## The element that is formed -/

/-- The buffer whose head gives an element its condition. -/
def condBuffer (c : ChanConfig) (up : Nat → Upstream) : Nat :=
  (if c.branchMode then (List.range c.upNum).find? fun i => (up i).isCond else none).getD 0

/-- What holds of a channel between two functions of `get`. -/
structure Sound (c : ChanConfig) (b : Nat) (x : Chan) : Prop where
  tracked : Tracked c x
  more : ∀ i, x.getTheLastData i = false
  bare : ∀ i, ∀ d ∈ x.received i, d.Bare
  /-- Only a channel with upstreams gets data whose condition is not met. -/
  source : c.noUpstream = true → ∀ d ∈ x.received 0, d.cond = true
  formed : ∀ d ∈ x.channel,
    d = { valid := true, cond := ((x.chanBuffer b).headD {}).cond, cycle := d.cycle }

variable {e up} {x y : Chan} {b : Nat}

theorem Sound.buffer_bare (h : Sound c b x) {i : Nat} (lt : i < c.arity) {d : Data}
    (mem : d ∈ x.chanBuffer i) : d.Bare := by
  rw [h.tracked.buffer i lt] at mem
  exact h.bare i d (List.mem_of_mem_drop mem)

theorem Sound.head (h : Sound c b x) {i : Nat} (lt : i < c.arity) (held : x.chanBuffer i ≠ []) :
    ((x.chanBuffer i).headD {}).Bare := by
  obtain ⟨d, l, eq⟩ := List.exists_cons_of_ne_nil held
  have mem : d ∈ x.chanBuffer i := by simp [eq]
  rw [eq]
  exact h.buffer_bare lt mem

/-- Joining data without flags gives a datum without flags. -/
theorem updateDataStatus_bare {data : Data}
    (heads : ∀ i < c.arity, ((x.chanBuffer i).headD {}).Bare) :
    updateDataStatus c up x data = data := by
  unfold updateDataStatus
  refine List.foldlRecOn (motive := fun d : Data => d = data) _ _ rfl fun d same i mem => ?_
  have bare := heads i (List.mem_range.mp mem)
  subst same
  simp only [bare.last, bare.lastOuter, bare.graphSwitch, Bool.or_false, Bool.false_and,
    Bool.false_eq_true, if_false]
  split_ifs <;> rfl

/-- The condition of a new element is that of the head of one buffer. -/
theorem pushChannel_formed (sound : Sound c b x) (lt : condBuffer c up < c.arity)
    (matched : checkDataMatch c e x = true) :
    ∃ cycle, pushChannel c e up x = { x with channel := x.channel ++ [{
      valid := true, cond := ((x.chanBuffer (condBuffer c up)).headD {}).cond, cycle := cycle }] } := by
  have heads (i : Nat) (lt : i < c.arity) : ((x.chanBuffer i).headD {}).Bare :=
    sound.head lt (checkDataMatch_held e matched lt)
  cases none : c.noUpstream with
  | true =>
    have first : condBuffer c up = 0 := by
      simpa [ChanConfig.arity, none] using lt
    have cond : ((x.chanBuffer 0).headD {}).cond = true := by
      cases buffer : x.chanBuffer 0 with
      | nil => rfl
      | cons d l =>
        have mem : d ∈ (x.received 0).drop x.consumed.length := by
          rw [← sound.tracked.buffer 0 (by omega), buffer]
          exact List.mem_cons_self
        exact sound.source none d (List.mem_of_mem_drop mem)
    exact ⟨e.clk, by rw [first, cond]; exact if_pos none⟩
  | false =>
    refine ⟨0, ?_⟩
    rw [pushChannel, if_neg (by simp [none]), updateDataStatus_bare heads,
      (heads 0 (by omega)).tag]
    rfl

/-! ## A call -/

/-- All operands of the next element are there, and their delays are over. -/
def Ready (c : ChanConfig) (e : Clock) (x : Chan) : Prop :=
  ∀ i < c.arity, ∃ d, (x.received i)[x.consumed.length]? = some d ∧ d.cycle ≤ e.clk

theorem checkDataMatch_iff (tracked : Tracked c x) : checkDataMatch c e x = true ↔ Ready c e x := by
  simp only [checkDataMatch, List.all_eq_true, List.mem_range, Ready]
  refine forall₂_congr fun i lt => ?_
  rw [tracked.buffer i lt, ← List.head?_drop]
  cases (x.received i).drop x.consumed.length <;> simp

/-- What a call of `get` makes of a channel that loses nothing. -/
structure Advance (c : ChanConfig) (e : Clock) (up : Nat → Upstream) (sendable : Bool)
    (data : Option Int) (x y : Chan) : Prop where
  sound : Sound c (condBuffer c up) y
  sent : y.valid = true → y.channel ≠ []
  currId : y.currId = nextId c e.clkAdd x.currId
  consumed : y.consumed.length = x.consumed.length + x.valid.toNat
  received : c.noUpstream = false → ∀ i < c.upNum, y.received i = x.received i ++
    if takes c up i then [pushData c e up (up i).value i] else []
  fed : c.noUpstream = true → y.received 0 = x.received 0 ++
    if (x.received 0).length ≠ y.consumed.length + c.size then
      (data.map fun value => { valid := true, value := value, cycle := e.clk + c.cycle }).toList
    else []
  /-- An element is formed when the last one has left. -/
  forms : Awake c e y.currId ∧ Ready c e y ∧ x.channel.length = x.valid.toNat →
    y.consumed.length + y.channel.length = x.consumed.length + x.channel.length + 1
  waits : ¬(Awake c e y.currId ∧ Ready c e y ∧ x.channel.length = x.valid.toNat) →
    y.consumed.length + y.channel.length = x.consumed.length + x.channel.length
  valid : y.valid = true ↔ Awake c e y.currId ∧ y.channel ≠ [] ∧ x.enable = true ∧
    (c.noDownstream || sendable) = true
  bp : ∀ i < c.arity, y.bp i = false ↔
    ¬(c.chanType = .Chan_DGSF ∧ x.pushBufferEnable = false) ∧
      (y.received i).length < y.consumed.length + c.size
  enable : y.enable = x.enable
  pushBufferEnable : y.pushBufferEnable = x.pushBufferEnable

/-- What is left when the element that was offered is popped. -/
structure Popped (c : ChanConfig) (e : Clock) (x p : Chan) : Prop where
  sound : Sound c b p
  currId : p.currId = nextId c e.clkAdd x.currId
  consumed : p.consumed.length = x.consumed.length + x.valid.toNat
  channel : p.channel.length + x.valid.toNat = x.channel.length
  received : p.received = x.received
  enable : p.enable = x.enable
  pushBufferEnable : p.pushBufferEnable = x.pushBufferEnable

theorem Sound.pop (h : Sound c b x) (calm : Calm c) (sent : x.valid = true → x.channel ≠ [])
    (e : Clock) (downstream : List Nat) :
    Popped (b := b) c e x (Chan.pop c downstream (parallelize c e x)) := by
  have tracked := h.tracked.pop e sent downstream
  obtain ⟨n, same⟩ := parallelize_eq (c := c) e x
  have counted := (parallelize_thread c e x).1
  rw [same] at counted tracked ⊢
  have single := h.tracked.single
  obtain valid | valid := Bool.eq_false_or_eq_true x.valid
  swap
  · have kept : Chan.pop c downstream { x with currId := n } = { x with currId := n } := by
      simp [Chan.pop, popChannel, valid]
    rw [kept] at tracked ⊢
    exact ⟨⟨tracked, h.more, h.bare, h.source, h.formed⟩, counted, by simp [valid], by simp [valid],
      rfl, rfl, rfl⟩
  · have popped : Chan.pop c downstream { x with currId := n } = { x with
        currId := n
        channel := x.channel.tail
        lastPopVal := fun i =>
          if i < c.arity then ((x.chanBuffer i).headD {}).value else x.lastPopVal i
        chanBuffer := fun i => if i < c.arity then (x.chanBuffer i).tail else x.chanBuffer i
        consumed := x.consumed ++ [fronts c x] } := by
      simp [Chan.pop, popChannel, valid, calm.keepMode, fronts]
    rw [popped] at tracked ⊢
    have some := List.length_pos_iff.mpr (sent valid)
    have left : x.channel.tail = [] := by
      rw [← List.length_eq_zero_iff, List.length_tail]
      omega
    refine ⟨⟨tracked, h.more, h.bare, h.source, by simp [left]⟩, counted, by simp [valid], ?_, rfl,
      rfl, rfl⟩
    simp only [left, List.length_nil, valid, Bool.toNat_true]
    omega

/-- The pushes of a call keep what holds, and each buffer gets what is there for it. -/
theorem Sound.pushAll (h : Sound c b x) (calm : Calm c) (meets : Meets c up x) (lt : b < c.arity)
    (e : Clock) (data : Option Int) :
    let z := (Chan.pushAll c e up x (inputs c up data.toList)).1
    Sound c b z ∧
      (c.noUpstream = false → ∀ i < c.upNum, z.received i = x.received i ++
        if takes c up i then [pushData c e up (up i).value i] else []) ∧
      (c.noUpstream = true → z.received 0 = x.received 0 ++ taken c e x data) := by
  intro z
  have filled : Filled x z := pushAll_filled c e up _ x
  have formed : ∀ d ∈ z.channel,
      d = { valid := true, cond := ((z.chanBuffer b).headD {}).cond, cycle := d.cycle } := by
    intro d mem
    rw [filled.channel] at mem
    obtain ⟨a, l, eq⟩ := List.exists_cons_of_ne_nil (h.tracked.held (List.ne_nil_of_mem mem) b lt)
    obtain ⟨l', eq'⟩ := filled.front eq
    have before := h.formed d mem
    rw [eq] at before
    rw [eq']
    exact before
  cases none : c.noUpstream with
  | true =>
    obtain ⟨more, received⟩ := pushAll_taken e up calm none h.more data
    have new : ∀ d ∈ taken c e x data, d.Bare ∧ d.cond = true := by
      unfold taken
      split_ifs <;> cases data <;> simp [Data.Bare]
    refine ⟨⟨h.tracked.filled filled, more, fun i d mem => ?_, fun _ d mem => ?_, formed⟩, by simp,
      fun _ => by simpa using received 0⟩
    · rw [received] at mem
      split_ifs at mem with first
      · exact (List.mem_append.mp mem).elim (h.bare i d) fun mem => (new d mem).1
      · exact h.bare i d (by simpa using mem)
    · rw [received, if_pos rfl] at mem
      exact (List.mem_append.mp mem).elim (h.source none d) fun mem => (new d mem).2
  | false =>
    have pushes : z = (Chan.pushAll c e up x ((List.range c.upNum).map
        fun i => ((up i).value, i))).1 := by
      simp only [z, inputs, none, Bool.false_eq_true, if_false]
    obtain ⟨more, received⟩ := pushAll_calm e up calm none (List.nodup_range (n := c.upNum)) meets
      h.more
    rw [← pushes] at more received
    refine ⟨⟨h.tracked.filled filled, more, fun i d mem => ?_, by simp [none], formed⟩,
      fun _ i lt => ?_, by simp⟩
    · rw [received] at mem
      split_ifs at mem with new
      · refine (List.mem_append.mp mem).elim (h.bare i d) fun mem => ?_
        rw [List.mem_singleton.mp mem]
        exact pushData_bare e up (meets.bare i (Bool.and_eq_true_iff.mp new.2).1)
      · exact h.bare i d (by simpa using mem)
    · simp only [received, List.mem_range, lt, true_and]

/-- A new element has the condition of its operand, and it keeps it. -/
theorem Sound.statusUpdate (h : Sound c (condBuffer c up) x) (lt : condBuffer c up < c.arity)
    (e : Clock) (sendable : Bool) :
    Sound c (condBuffer c up) (Chan.statusUpdate c e up sendable x) := by
  have updated := statusUpdate_updated (c := c) e up sendable x
  have rest := updated.rest
  let cond := ((x.chanBuffer (condBuffer c up)).headD {}).cond
  let P (l : List Data) : Prop := ∀ d ∈ l, d = { valid := true, cond := cond, cycle := d.cycle }
  have stamp (valid : Bool) (l : List Data) := eq_of_stamped e (f := P) (fun d rest => by
    simp only [P, List.forall_mem_cons, eq_iff_iff]
    refine and_congr_left fun _ => ?_
    cases d
    simp) valid l
  have channel : P (Chan.statusUpdate c e up sendable x).channel := by
    by_cases success : (checkDataMatch c e x && x.channel.isEmpty) = true
    · obtain ⟨matched, empty⟩ := Bool.and_eq_true_iff.mp success
      obtain ⟨cycle, eq⟩ := pushChannel_formed h lt matched
      simp only [Chan.statusUpdate, success, if_true, eq]
      rw [stamp, List.isEmpty_iff.mp empty]
      simp [P, cond]
    · simp only [Chan.statusUpdate, success, Bool.false_eq_true, if_false]
      rw [stamp]
      exact h.formed
  have buffer : (Chan.statusUpdate c e up sendable x).chanBuffer = x.chanBuffer :=
    (congrArg Chan.chanBuffer rest :)
  have received : (Chan.statusUpdate c e up sendable x).received = x.received :=
    (congrArg Chan.received rest :)
  have more : (Chan.statusUpdate c e up sendable x).getTheLastData = x.getTheLastData :=
    (congrArg Chan.getTheLastData rest :)
  exact ⟨h.tracked.updated e updated, more ▸ h.more, received ▸ h.bare, received ▸ h.source,
    buffer ▸ channel⟩

/-- What the status decides after the pushes. -/
structure Settled (c : ChanConfig) (e : Clock) (sendable : Bool) (z u : Chan) : Prop where
  received : u.received = z.received
  consumed : u.consumed = z.consumed
  currId : u.currId = z.currId
  enable : u.enable = z.enable
  pushBufferEnable : u.pushBufferEnable = z.pushBufferEnable
  forms : Awake c e z.currId ∧ Ready c e z ∧ z.channel = [] → u.channel.length = 1
  waits : ¬(Awake c e z.currId ∧ Ready c e z ∧ z.channel = []) →
    u.channel.length = z.channel.length
  valid : u.valid = true ↔ Awake c e z.currId ∧ u.channel ≠ [] ∧ z.enable = true ∧
    (c.noDownstream || sendable) = true

theorem Sound.settled (h : Sound c (condBuffer c up) x) (calm : Calm c)
    (lt : condBuffer c up < c.arity) (e : Clock) (sendable : Bool) :
    ∃ u, Sound c (condBuffer c up) u ∧ Settled c e sendable x u ∧
      bpUpdate c u = bpUpdate c
        (if x.currId ≤ c.speedup ∨ c.noUpstream = false ∧
            (e.clkAdd = true ∨ c.chanType = .Chan_DGSF) then Chan.statusUpdate c e up sendable x
          else { x with
            valid := false
            pushChannelSuccess := if c.noUpstream then x.pushChannelSuccess else false }) := by
  by_cases awake : Awake c e x.currId
  · have updated := statusUpdate_updated (c := c) e up sendable x
    have formed : (checkDataMatch c e x && x.channel.isEmpty) = true ↔
        Ready c e x ∧ x.channel = [] := by
      rw [Bool.and_eq_true, checkDataMatch_iff h.tracked, List.isEmpty_iff]
    refine ⟨_, h.statusUpdate lt e sendable, ⟨(congrArg Chan.received updated.rest :),
      (congrArg Chan.consumed updated.rest :), (congrArg Chan.currId updated.rest :),
      (congrArg Chan.enable updated.rest :), (congrArg Chan.pushBufferEnable updated.rest :),
      fun ready => ?_, fun ready => ?_, ?_⟩, ?_⟩
    · rw [updated.length, if_pos (formed.mpr ready.2), ready.2.2, List.length_nil]
    · rw [updated.length, if_neg fun success => ready ⟨awake, formed.mp success⟩, Nat.add_zero]
    · rw [updated.valid, calm.keepMode]
      simp [awake, and_assoc]
    · exact congrArg (bpUpdate c) (if_pos awake).symm
  · refine ⟨{ x with
        valid := false
        pushChannelSuccess := if c.noUpstream then x.pushChannelSuccess else false },
      ⟨h.tracked.congr rfl rfl rfl rfl, h.more, h.bare, h.source, h.formed⟩,
      ⟨rfl, rfl, rfl, rfl, rfl, fun ready => absurd ready.1 awake, fun _ => rfl, ?_⟩, ?_⟩
    · simp [awake]
    · exact congrArg (bpUpdate c) (if_neg awake).symm

/-- A channel goes on as its operands, its room and its neighbours allow. -/
theorem Sound.get (h : Sound c (condBuffer c up) x) (calm : Calm c) (meets : Meets c up x)
    (lt : condBuffer c up < c.arity) (sent : x.valid = true → x.channel ≠ [])
    (e : Clock) (downstream : List Nat) (sendable : Bool) (data : Option Int) :
    Advance c e up sendable data x (Chan.get c e up downstream sendable data.toList x).1 := by
  have popped := h.pop calm sent e downstream
  generalize eq_p : Chan.pop c downstream (parallelize c e x) = p at popped
  have meets' : Meets c up p :=
    ⟨meets.keepMode, meets.bare, fun dgsf off => meets.enabled dgsf (popped.pushBufferEnable ▸ off)⟩
  obtain ⟨sound, received, fed⟩ := popped.sound.pushAll calm meets' lt e data
  have filled : Filled p (Chan.pushAll c e up p (inputs c up data.toList)).1 :=
    pushAll_filled c e up _ p
  generalize eq_z : (Chan.pushAll c e up p (inputs c up data.toList)).1 = z
    at sound received fed filled
  obtain ⟨u, sound', settled, run⟩ := sound.settled calm lt e sendable
  have eq : (Chan.get c e up downstream sendable data.toList x).1 = bpUpdate c u := by
    rw [run, ← eq_z, ← eq_p]
    rfl
  rw [eq]
  have consumed : u.consumed = p.consumed := settled.consumed.trans filled.consumed
  have currId : u.currId = p.currId := settled.currId.trans filled.currId
  have enable : u.enable = x.enable := by rw [settled.enable, filled.enable, popped.enable]
  have push : u.pushBufferEnable = x.pushBufferEnable := by
    rw [settled.pushBufferEnable, ← popped.pushBufferEnable]
    exact (congrArg Chan.pushBufferEnable filled.rest :)
  have channel := popped.channel
  have ready : Awake c e u.currId ∧ Ready c e u ∧ x.channel.length = x.valid.toNat ↔
      Awake c e z.currId ∧ Ready c e z ∧ z.channel = [] := by
    rw [settled.currId, Ready, settled.received, settled.consumed, ← Ready, filled.channel,
      ← List.length_eq_zero_iff]
    exact and_congr_right fun _ => and_congr_right fun _ => by omega
  have room : taken c e p data = if (x.received 0).length ≠ u.consumed.length + c.size then
      (data.map fun value => { valid := true, value := value, cycle := e.clk + c.cycle }).toList
    else [] := by
    have bound := popped.sound.tracked.bound 0 (by omega)
    rw [taken, popped.sound.tracked.buffer 0 (by omega), List.length_drop, consumed,
      ← popped.received]
    refine if_congr ?_ rfl rfl
    rw [bne_iff_ne]
    omega
  have counted : u.consumed.length = x.consumed.length + x.valid.toNat :=
    (congrArg List.length consumed).trans popped.consumed
  refine ⟨⟨sound'.tracked.congr rfl rfl rfl rfl, sound'.more, sound'.bare, sound'.source,
    sound'.formed⟩, fun valid => (settled.valid.mp valid).2.1, currId.trans popped.currId, counted,
    fun has i lt => ?_, fun none => ?_, fun all => ?_, fun waits => ?_, ?_, fun i lt => ?_, enable,
    push⟩
  · exact (congrFun settled.received i).trans (popped.received ▸ received has i lt)
  · exact (congrFun settled.received 0).trans (room ▸ popped.received ▸ fed none)
  · have formed := settled.forms (ready.mp all)
    have left := all.2.2
    dsimp only [bpUpdate]
    omega
  · have same := settled.waits fun all => waits (ready.mpr all)
    rw [filled.channel] at same
    dsimp only [bpUpdate]
    omega
  · have valid := settled.valid
    rw [← settled.currId, ← settled.enable, enable] at valid
    exact valid
  · have buffer := sound'.tracked.buffer i lt
    have bound := sound'.tracked.bound i lt
    simp only [bpUpdate, lt, if_true, buffer, push, List.length_drop, Bool.or_eq_false_iff,
      Bool.and_eq_false_iff, Bool.not_eq_false', decide_eq_false_iff_not, decide_eq_true_eq,
      Bool.not_eq_false, not_and]
    exact and_congr imp_iff_not_or.symm (by omega)

end Chan

end DataflowSim.Execution
