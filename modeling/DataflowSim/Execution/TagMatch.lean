import DataflowSim.Execution.TagFlags

/-!
# The slots of tagged data

For each buffer and tag the slots form a pipeline, so the data of one tag stay in order and an
element takes the oldest of them. A datum enters slot 0 of its pipeline; that slot is known to
be free unless `checkSend` counts on a pop which frees the last slot instead.
-/

namespace DataflowSim.Execution

namespace ChanSGMF

variable (c : SGMFConfig)

/-- The number of slots for the data of one tag. -/
def depth (bufferId : Nat) : Nat := if c.keeps bufferId then 1 else c.round

/-- The data of one tag in a buffer, by their rounds. -/
def stages (buffer : Nat → Slot) (tag : Nat) : Nat → Option Data := fun r =>
  let d := buffer (r * c.tagSize + tag)
  if d.valid then some d.source else none

/-- The data of one tag that a buffer holds, the oldest first. -/
def held (s : ChanSGMF) (tag bufferId : Nat) : List Data :=
  Pipeline.contents (stages c (s.chanBuffer bufferId) (c.tagOf tag bufferId)) (depth c bufferId)

/-- Nothing that was accepted is lost, and an element combines the oldest data of its tag. -/
structure Law (s : ChanSGMF) : Prop where
  kept : ∀ i < c.arity, ∀ tag < c.tagSize,
    s.accepted i (c.tagOf tag i) = s.consumed i (c.tagOf tag i) ++ held c s tag i
  unique : (s.matchQueue.map (·.tag)).Nodup
  complete : ∀ d ∈ s.matchQueue, ∀ i < c.arity, held c s d.tag i ≠ []
  combined : ∀ d ∈ s.channel, ∃ operands : Nat → Data,
    (∀ i < c.arity, (held c s d.tag i).head? = some (operands i) ∧
      assign c s i = (operands i).value) ∧ FlagsReach c { data := d, operands }

/-- An upstream sends a datum only after `checkSend` has accepted its tag. -/
structure Offered (i : Input) (s : ChanSGMF) : Prop where
  tag : i.tag < c.tagSize
  accepted : ∀ b < c.arity, c.noUpstream = false → c.upKeep b = false →
    (i.offers b).valid = true → (i.offers b).front.tag < c.tagSize ∧
      ∃ bp, checkSend c { s with bp := bp } (i.offers b).front.tag b = true

/-- In this call an element leaves the output channel. -/
def pops (i : Input) (s : ChanSGMF) : Bool :=
  s.valid && (!c.keepMode || popLastCheck c i.downstream s)

/-- The slot for the next datum of a buffer is free, or a pop of the same call frees it. A channel
without upstreams looks at the slot itself, if it does not change the tag. -/
def Room (i : Input) (s : ChanSGMF) (b : Nat) : Prop :=
  (c.noUpstream = true ∧ c.tagUpdateMode = false) ∨
    (s.chanBuffer b (bufferTag c i.offers b i.tag)).valid = false ∨
    c.round = 1 ∧ (c.noUpstream = true →
      pops c i s = true ∧ (s.channel.headD {}).tag = bufferTag c i.offers b i.tag)

/-- What the calls have to avoid: that a datum comes before the first slot of its tag is free,
that a datum of an upstream in keep mode is taken for one tag and not replaced while others
are matched with it, and flags. -/
structure Spare (i : Input) (s : ChanSGMF) : Prop where
  room : ∀ b < c.arity, c.keeps b = false →
    checkUpstream c i.offers (pop c i.downstream s) b i.tag = true →
    Room c i s b
  refilled : ∀ b < c.arity, c.keeps b = true → pops c i s = true →
    checkUpstream c i.offers (pop c i.downstream s) b i.tag = true ∨
      ∀ d ∈ s.matchQueue, d.tag = (s.channel.headD {}).tag
  flagless : c.noUpstream = false → ∀ b < c.arity,
    checkUpstream c i.offers (pop c i.downstream s) b i.tag = true →
    Flagless c b (Chan.pushData c.toChanConfig i.e (upstream c i.offers) (i.offers b).value b)

variable {c} {s : ChanSGMF}

/-! ## Addresses -/

theorem addr_eq (tag bufferId : Nat) :
    c.addr tag bufferId = (depth c bufferId - 1) * c.tagSize + c.tagOf tag bufferId := by
  simp only [SGMFConfig.addr, depth, SGMFConfig.tagOf]
  split_ifs <;> simp

theorem depth_pos (bufferId : Nat) : 0 < depth c bufferId := by
  simp only [depth]
  split_ifs
  · exact Nat.one_pos
  · exact Nat.div_pos c.tagSize_le c.tagSize_pos

theorem tagOf_lt {tag : Nat} (lt : tag < c.tagSize) (bufferId : Nat) :
    c.tagOf tag bufferId < c.tagSize := by
  simp only [SGMFConfig.tagOf]
  split_ifs
  · exact c.tagSize_pos
  · exact lt

/-- Slots of different rounds or tags are different. -/
theorem addr_inj {r r' tag tag' : Nat} (lt : tag < c.tagSize) (lt' : tag' < c.tagSize)
    (eq : r * c.tagSize + tag = r' * c.tagSize + tag') : r = r' ∧ tag = tag' := by
  have mod := congrArg (· % c.tagSize) eq
  simp only [Nat.mul_add_mod_self_right, Nat.mod_eq_of_lt lt, Nat.mod_eq_of_lt lt'] at mod
  subst mod
  exact ⟨Nat.eq_of_mul_eq_mul_right c.tagSize_pos (Nat.add_right_cancel eq), rfl⟩

/-- What is stored in one slot changes one stage of one tag. -/
theorem stages_update (buffer : Nat → Slot) (d : Slot) {r tag tag' : Nat} (lt : tag < c.tagSize)
    (lt' : tag' < c.tagSize) :
    stages c (Function.update buffer (r * c.tagSize + tag) d) tag' =
      if tag' = tag then
        Function.update (stages c buffer tag) r (if d.valid then some d.source else none)
      else stages c buffer tag' := by
  funext r'
  by_cases same : tag' = tag
  · subst same
    by_cases eq : r' = r
    · simp [stages, eq]
    · have other : r' * c.tagSize + tag' ≠ r * c.tagSize + tag' := fun h =>
        eq (addr_inj lt lt' h).1
      simp [stages, eq, Function.update_of_ne other]
  · have other : r' * c.tagSize + tag' ≠ r * c.tagSize + tag := fun h =>
      same (addr_inj lt' lt h).2
    simp [stages, same, Function.update_of_ne other]

theorem stages_move (buffer : Nat → Slot) {r tag tag' : Nat} (lt : tag < c.tagSize)
    (lt' : tag' < c.tagSize) :
    stages c (move c tag buffer (r * c.tagSize)) tag' =
      if tag' = tag then Pipeline.advance (stages c buffer tag) r else stages c buffer tag' := by
  have above : r * c.tagSize + c.tagSize + tag = (r + 1) * c.tagSize + tag := by
    rw [Nat.succ_mul]
  simp only [move, above]
  split_ifs with moves same same
  · simp only [Bool.and_eq_true, Bool.not_eq_true'] at moves
    rw [stages_update _ _ lt lt', if_pos same, stages_update _ _ lt lt, if_pos rfl]
    simp [Pipeline.advance, stages, moves]
  · rw [stages_update _ _ lt lt', if_neg same, stages_update _ _ lt lt', if_neg same]
  · subst same
    unfold Pipeline.advance
    split_ifs with free
    · have above : stages c buffer tag' (r + 1) = none := Option.isNone_iff_eq_none.mp free
      have here : stages c buffer tag' r = none := by
        simp only [stages] at above ⊢
        simp_all
      rw [here, ← above, Function.update_eq_self, above, ← here, Function.update_eq_self]
    · rfl
  · rfl

/-- Shifting one tag moves its data up, and leaves the other tags. -/
theorem stages_shiftTag (buffer : Nat → Slot) {tag tag' : Nat} (lt : tag < c.tagSize)
    (lt' : tag' < c.tagSize) :
    stages c (shiftTag c buffer tag) tag' =
      if tag' = tag then ((List.range (c.round - 1)).map (c.round - 2 - ·)).foldl Pipeline.advance
        (stages c buffer tag)
      else stages c buffer tag' := by
  unfold shiftTag
  induction List.range (c.round - 1) generalizing buffer with
  | nil => split_ifs with same <;> simp [same]
  | cons i is ih =>
    rw [List.foldl_cons, ih, stages_move _ lt lt, stages_move _ lt lt']
    split_ifs <;> simp_all

theorem stages_shift (buffer : Nat → Slot) {tags : List Nat} {tag : Nat}
    (lt : ∀ t ∈ tags, t < c.tagSize) (lt' : tag < c.tagSize) :
    let st := stages c buffer tag
    let shifted := stages c (tags.foldl (shiftTag c) buffer) tag
    Pipeline.contents shifted c.round = Pipeline.contents st c.round ∧
      ((st (c.round - 1)).isSome → shifted (c.round - 1) = st (c.round - 1)) := by
  induction tags generalizing buffer with
  | nil => exact ⟨rfl, fun _ => rfl⟩
  | cons t tags ih =>
    obtain ⟨contents, last⟩ := ih (shiftTag c buffer t) fun t' mem => lt t' (.tail _ mem)
    have one := stages_shiftTag buffer (lt t (.head _)) lt'
    have rounds : ∀ r ∈ (List.range (c.round - 1)).map (c.round - 2 - ·), r + 1 < c.round := by
      intro r mem
      obtain ⟨i, less, rfl⟩ := List.mem_map.mp mem
      have := List.mem_range.mp less
      omega
    simp only [List.foldl_cons]
    rw [contents, one]
    split_ifs at one ⊢ with same
    · subst same
      refine ⟨Pipeline.contents_foldl rounds, fun some => ?_⟩
      have kept := Pipeline.foldl_last (fun r mem => Nat.lt_sub_of_add_lt (rounds r mem)) some
      rw [last (by rw [one, kept]; exact some), one, kept]
    · exact ⟨rfl, fun some => (last (by rw [one]; exact some)).trans (by rw [one])⟩

/-- The operand of a buffer is the oldest datum of its tag there. -/
theorem operand_stage (x : ChanSGMF) (tag i : Nat) :
    stages c (x.chanBuffer i) (c.tagOf tag i) (depth c i - 1) =
      if (operand c x tag i).valid then some (operand c x tag i).source else none := by
  simp only [stages, operand, addr_eq]

theorem head?_held (x : ChanSGMF) {tag i : Nat} (some : (operand c x tag i).valid = true) :
    (held c x tag i).head? = Option.some (operand c x tag i).source := by
  have stage := operand_stage (c := c) x tag i
  rw [if_pos some] at stage
  obtain ⟨n, eq⟩ := Nat.exists_eq_add_one.mpr (depth_pos (c := c) i)
  rw [eq, Nat.add_sub_cancel] at stage
  rw [held, eq]
  exact Pipeline.head?_contents stage

/-- Shifting keeps the order of the data of each tag, and the operands. -/
theorem shift_held (x : ChanSGMF) {tag : Nat} (lt : tag < c.tagSize) (i : Nat) :
    held c (shiftDataInChanBuffer c x) tag i = held c x tag i ∧
      ((operand c x tag i).valid = true →
        (operand c (shiftDataInChanBuffer c x) tag i).valid = true) := by
  by_cases shifts : i < c.arity ∧ c.keeps i = false
  · have buffer : (shiftDataInChanBuffer c x).chanBuffer i =
        (List.range c.tagSize).foldl (shiftTag c) (x.chanBuffer i) := if_pos shifts
    obtain ⟨contents, last⟩ := stages_shift (x.chanBuffer i)
      (fun t mem => List.mem_range.mp mem) (tagOf_lt lt i)
    have all : depth c i = c.round := by simp [depth, shifts.2]
    refine ⟨?_, fun some => ?_⟩
    · simp only [held, buffer, all]
      exact contents
    · have stage := operand_stage (c := c) x tag i
      have stage' := operand_stage (c := c) (shiftDataInChanBuffer c x) tag i
      rw [if_pos some, all] at stage
      rw [buffer, all, last (by rw [stage]; rfl), stage] at stage'
      by_contra none
      rw [if_neg none] at stage'
      cases stage'
  · have buffer : (shiftDataInChanBuffer c x).chanBuffer i = x.chanBuffer i := if_neg shifts
    simp only [held, operand, buffer]
    exact ⟨trivial, id⟩

/-! ## The invariant -/

/-- What is known of a slot: it has no flags, and is the source but for them. -/
structure Sound (c : SGMFConfig) (bufferId : Nat) (d : Slot) : Prop where
  blank : Blank d.toData
  value : d.valid = true → d.value = d.source.value
  flagless : d.valid = true → c.noUpstream = false → Flagless c bufferId d.source

/-- What holds between any two functions of a channel. The buffers in `missing` may be without
the operand that a matched tag needs. -/
structure Stored (c : SGMFConfig) (missing : Nat → Prop) (s : ChanSGMF) : Prop where
  kept : ∀ i < c.arity, ∀ tag < c.tagSize,
    s.accepted i (c.tagOf tag i) = s.consumed i (c.tagOf tag i) ++ held c s tag i
  slots : All (Sound c) s
  unique : (s.matchQueue.map (·.tag)).Nodup
  tags : ∀ d ∈ s.matchQueue, d.tag < c.tagSize
  matched : ∀ d ∈ s.matchQueue, ∀ i < c.arity, ¬missing i → (operand c s d.tag i).valid = true
  single : s.channel.length ≤ 1
  queued : ∀ d ∈ s.channel, d.tag ∈ s.matchQueue.map (·.tag)
  blank : ∀ d ∈ s.channel, Blank d

/-- What holds between two calls. -/
structure Inv (c : SGMFConfig) (s : ChanSGMF) : Prop where
  stored : Stored c (fun _ => False) s
  valid : s.valid = !s.channel.isEmpty

theorem sound_hide (i : Nat) (d : Slot) (h : Sound c i d) : Sound c i { d with valid := false } :=
  ⟨⟨h.blank.last, h.blank.lastOuter, h.blank.cond⟩, by simp, by simp⟩

/-- An element in the output channel combines the oldest data of its tag. -/
theorem Inv.law (h : Inv c s) : Law c s := by
  have complete : ∀ d ∈ s.matchQueue, ∀ i < c.arity, (operand c s d.tag i).valid = true :=
    fun d mem i lt => h.stored.matched d mem i lt id
  refine ⟨h.stored.kept, h.stored.unique, fun d mem i lt none => ?_, fun d mem => ?_⟩
  · have head := head?_held s (complete d mem i lt)
    rw [none] at head
    cases head
  · obtain ⟨m, queued, eq⟩ := List.mem_map.mp (h.stored.queued d mem)
    have valid := complete m queued
    rw [eq] at valid
    have only : s.channel = [d] := by
      obtain ⟨x, eq⟩ := List.length_eq_one_iff.mp
        (le_antisymm h.stored.single (List.length_pos_of_mem mem))
      rw [eq] at mem ⊢
      rw [List.mem_singleton.mp mem]
    refine ⟨fun i => (operand c s d.tag i).source, fun i lt => ⟨head?_held s (valid i lt), ?_⟩, ?_⟩
    · simp only [assign, only]
      exact (h.stored.slots i _).value (valid i lt)
    · have blank : Blank (Element.mk d fun i => (operand c s d.tag i).source).data :=
        h.stored.blank d mem
      exact blank.reach.mpr fun up i lt => (h.stored.slots i _).flagless (valid i lt) up

/-! ## Pop -/

theorem popped_eq {i : Input} (ready : pops c i s = true) : pop c i.downstream s =
    let tag := (s.channel.headD {}).tag
    { s with
      channel := s.channel.tail
      chanBuffer := fun b =>
        if b < c.arity then
          Function.update (s.chanBuffer b) (c.addr tag b) { operand c s tag b with valid := false }
        else s.chanBuffer b
      lastPopVal := fun b => if b < c.arity then (operand c s tag b).value else s.lastPopVal b
      matchQueue := s.matchQueue.filter fun d => d.tag != tag
      lastTagQueue := if c.keepMode then fun d => s.lastTagQueue d - 1 else s.lastTagQueue
      consumed := fun b =>
        if b < c.arity then
          Function.update (s.consumed b) (c.tagOf tag b)
            (s.consumed b (c.tagOf tag b) ++ [(operand c s tag b).source])
        else s.consumed b } := if_pos ready

theorem not_popped {i : Input} (ready : pops c i s = false) : pop c i.downstream s = s :=
  if_neg (by simpa [pops] using ready)

/-- The element that leaves takes its operands with it; those of the upstreams in keep mode may
have been the operands of other tags too. -/
theorem Inv.popped (inv : Inv c s) (i : Input) :
    Stored c (fun b => c.keeps b = true ∧ pops c i s = true) (pop c i.downstream s) := by
  have h := inv.stored
  cases ready : pops c i s with
  | false =>
    rw [not_popped ready]
    exact ⟨h.kept, h.slots, h.unique, h.tags, fun d mem i lt _ => h.matched d mem i lt id,
      h.single, h.queued, h.blank⟩
  | true =>
    have valid : s.valid = true := (Bool.and_eq_true_iff.mp ready).1
    obtain ⟨d, only⟩ : ∃ d, s.channel = [d] := by
      have some := inv.valid
      rw [valid] at some
      refine List.length_eq_one_iff.mp (le_antisymm h.single (List.length_pos_iff.mpr ?_))
      simpa using some.symm
    obtain ⟨m, queued, eq⟩ := List.mem_map.mp (h.queued d (by simp [only]))
    have lt : d.tag < c.tagSize := eq ▸ h.tags m queued
    have matched : ∀ i < c.arity, (operand c s d.tag i).valid = true := fun i less =>
      eq ▸ h.matched m queued i less id
    have slots : All (Sound c) (pop c i.downstream s) := h.slots.popChannel sound_hide _ _
    rw [popped_eq ready] at slots ⊢
    simp only [only, List.headD_cons, List.tail_cons] at slots ⊢
    refine ⟨fun i less tag lt' => ?_, slots, ?_, ?_, ?_, by simp, by simp, by simp⟩
    · have kept := h.kept i less tag lt'
      simp only [held, less, if_true]
      rw [addr_eq, stages_update _ _ (tagOf_lt lt i) (tagOf_lt lt' i)]
      by_cases same : c.tagOf tag i = c.tagOf d.tag i
      · have stage := operand_stage (c := c) s d.tag i
        obtain ⟨n, depth⟩ := Nat.exists_eq_add_one.mpr (depth_pos (c := c) i)
        rw [if_pos (matched i less), depth, Nat.add_sub_cancel] at stage
        rw [held, same, depth, Pipeline.contents_leave stage] at kept
        rw [same, if_pos rfl, Function.update_self, depth, Nat.add_sub_cancel, kept]
        simp
      · rw [if_neg same, Function.update_of_ne same]
        exact kept
    · exact h.unique.sublist (List.filter_sublist.map _)
    · exact fun d mem => h.tags d (List.mem_of_mem_filter mem)
    · intro m mem i less kept
      obtain ⟨mem, ne⟩ := List.mem_filter.mp mem
      have plain : c.keeps i = false := by simpa using kept
      have other : c.addr m.tag i ≠ c.addr d.tag i := by
        simp only [SGMFConfig.addr, plain, Bool.false_eq_true, if_false]
        simpa using ne
      simp only [operand, less, if_true, Function.update_of_ne other]
      exact h.matched m mem i less id

/-! ## Push -/

variable {x : ChanSGMF} {missing : Nat → Prop} {b : Nat}

theorem Stored.weaken (h : Stored c missing x) {missing' : Nat → Prop}
    (matched : ∀ d ∈ x.matchQueue, ∀ i < c.arity, ¬missing' i → missing i →
      (operand c x d.tag i).valid = true) : Stored c missing' x := by
  refine ⟨h.kept, h.slots, h.unique, h.tags, fun d mem i lt there => ?_, h.single, h.queued,
    h.blank⟩
  by_cases out : missing i
  · exact matched d mem i lt there out
  · exact h.matched d mem i lt out

/-- A datum that finds its first slot free goes behind the others of its tag. -/
theorem Stored.store (h : Stored c missing x) {tag : Nat} (lt : tag < c.tagSize) {d : Slot}
    (free : (x.chanBuffer b (c.tagOf tag b)).valid = false) (valid : d.valid = true)
    (sound : Sound c b d) : Stored c missing (x.store b (c.tagOf tag b) d) := by
  refine ⟨fun i less tag' lt' => ?_, h.slots.store _ sound, h.unique, h.tags,
    fun m mem i less there => ?_, h.single, h.queued, h.blank⟩
  · have kept := h.kept i less tag' lt'
    by_cases here : i = b
    · subst here
      have enters : stages c (x.chanBuffer i) (c.tagOf tag i) 0 = none := by
        simp [stages, free]
      have stored := stages_update (x.chanBuffer i) d (r := 0) (tagOf_lt lt i) (tagOf_lt lt' i)
      rw [Nat.zero_mul, Nat.zero_add, valid, if_pos rfl] at stored
      simp only [ChanSGMF.store, held, Function.update_self, stored]
      by_cases same : c.tagOf tag' i = c.tagOf tag i
      · rw [if_pos same, same, Function.update_self,
          Pipeline.contents_enter enters (depth_pos i), ← List.append_assoc, ← same, kept, held]
      · rw [if_neg same, Function.update_of_ne same]
        exact kept
    · simpa [ChanSGMF.store, held, here] using kept
  · have kept := h.matched m mem i less there
    by_cases here : i = b
    · subst here
      simp only [operand, ChanSGMF.store, Function.update_self, Function.update_apply]
      split_ifs
      · exact valid
      · exact kept
    · simpa [operand, ChanSGMF.store, here] using kept

variable (e : Clock) (offers : Nat → Offer) (data : Int) (tag : Nat)

theorem bufferData_sound (flagless : c.noUpstream = false →
      Flagless c b (Chan.pushData c.toChanConfig e (upstream c offers) data b)) :
    Sound c b (bufferData c e offers data b tag) := by
  refine ⟨⟨rfl, rfl, rfl⟩, fun _ => ?_, fun _ up => ?_⟩
  · simp only [bufferData, Chan.pushData]
    split_ifs <;> rfl
  · simpa [bufferData, up] using flagless up

/-- One buffer gets its datum; after it the buffer has an operand again, if it is of an upstream
in keep mode. -/
theorem Stored.push {ready : Prop}
    (h : Stored c (fun i => b ≤ i ∧ c.keeps i = true ∧ ready) x) (lt : b < c.arity)
    (room : c.keeps b = false → checkUpstream c offers x b tag = true →
      bufferTag c offers b tag < c.tagSize ∧
        (x.chanBuffer b (bufferTag c offers b tag)).valid = false)
    (refilled : c.keeps b = true → ready →
      checkUpstream c offers x b tag = true ∨ x.matchQueue = [])
    (flagless : c.noUpstream = false → checkUpstream c offers x b tag = true →
      Flagless c b (Chan.pushData c.toChanConfig e (upstream c offers) data b)) :
    Stored c (fun i => b + 1 ≤ i ∧ c.keeps i = true ∧ ready) (push c e offers x data b tag) := by
  have later {y : ChanSGMF} (h : Stored c (fun i => b ≤ i ∧ c.keeps i = true ∧ ready) y)
      (operand : ∀ d ∈ y.matchQueue, c.keeps b = true → ready →
        (operand c y d.tag b).valid = true) :
      Stored c (fun i => b + 1 ≤ i ∧ c.keeps i = true ∧ ready) y := by
    refine h.weaken fun d mem i _ there gone => ?_
    obtain rfl : i = b := by
      by_contra ne
      exact there ⟨by omega, gone.2⟩
    exact operand d mem gone.2.1 gone.2.2
  unfold ChanSGMF.push pushBuffer
  split_ifs with accepts keep free
  · have zero : c.tagOf 0 b = 0 := by simp [SGMFConfig.tagOf, keep]
    have stored := Stored.store h (b := b) c.tagSize_pos (d := bufferData c e offers data b tag)
      (by simpa [zero] using free) rfl
      (bufferData_sound e offers data tag fun up => flagless up accepts)
    rw [zero] at stored
    refine later stored fun d mem _ _ => ?_
    simp [operand, SGMFConfig.addr, keep, ChanSGMF.store, bufferData]
  · refine later h fun d mem _ _ => ?_
    simpa [operand, SGMFConfig.addr, keep] using free
  · have plain : c.keeps b = false := by simpa using keep
    have same : c.tagOf (bufferTag c offers b tag) b = bufferTag c offers b tag := by
      simp [SGMFConfig.tagOf, plain]
    obtain ⟨less, free⟩ := room plain accepts
    have stored := Stored.store h (b := b) less (d := bufferData c e offers data b tag)
      (by rwa [same]) rfl (bufferData_sound e offers data tag fun up => flagless up accepts)
    rw [same] at stored
    exact later stored fun d mem keep => absurd keep (by simp [plain])
  · refine later h fun d mem keep isReady => ?_
    obtain accepted | none := refilled keep isReady
    · exact absurd accepted accepts
    · simp [none] at mem

/-- What a push to one buffer leaves to the others. -/
theorem push_other {i : Nat} (ne : i ≠ b) :
    (push c e offers x data b tag).chanBuffer i = x.chanBuffer i := by
  unfold ChanSGMF.push pushBuffer
  split_ifs <;> simp [ChanSGMF.store, ne]

theorem checkUpstream_congr {y : ChanSGMF} (same : x.chanBuffer b = y.chanBuffer b) :
    checkUpstream c offers x b tag = checkUpstream c offers y b tag := by
  simp only [checkUpstream, same]

/-- A channel with upstreams takes the tags from them. -/
theorem ignores_tag (up : c.noUpstream = false) : bufferTag c offers b tag = bufferTag c offers b 0 ∧
    checkUpstream c offers x b tag = checkUpstream c offers x b 0 := by
  simp [bufferTag, checkUpstream, up]

theorem pop_invalid (i : Input) {a : Nat} (free : (s.chanBuffer b a).valid = false) :
    ((pop c i.downstream s).chanBuffer b a).valid = false := by
  cases ready : pops c i s with
  | false => rwa [not_popped ready]
  | true =>
    rw [popped_eq ready]
    simp only
    split_ifs
    · rw [Function.update_apply]
      split_ifs
      · rfl
      · exact free
    · exact free

/-- With one round a pop frees the slot in which the next datum of the tag is stored. -/
theorem pop_frees {i : Input} (ready : pops c i s = true) (one : c.round = 1)
    (plain : c.keeps b = false) (lt : b < c.arity) :
    ((pop c i.downstream s).chanBuffer b (s.channel.headD {}).tag).valid = false := by
  have slot : c.addr (s.channel.headD {}).tag b = (s.channel.headD {}).tag := by
    simp [SGMFConfig.addr, plain, one]
  rw [popped_eq ready]
  simp only [if_pos lt, slot, Function.update_self]

/-- Whatever an upstream sends finds its first slot free. -/
theorem Spare.free {i : Input} (spare : Spare c i s) (offered : Offered c i s) (lt : b < c.arity)
    (plain : c.keeps b = false)
    (accepts : checkUpstream c i.offers (pop c i.downstream s) b i.tag = true) :
    bufferTag c i.offers b i.tag < c.tagSize ∧
      ((pop c i.downstream s).chanBuffer b (bufferTag c i.offers b i.tag)).valid = false := by
  have room := spare.room b lt plain accepts
  cases up : c.noUpstream with
  | true =>
    refine ⟨?_, ?_⟩
    · simp only [bufferTag, up, if_true]
      split_ifs
      · exact Nat.mod_lt _ c.tagSize_pos
      · exact offered.tag
    · obtain ⟨-, same⟩ | free | ⟨one, popped⟩ := room
      · simpa [checkUpstream, bufferTag, up, same] using accepts
      · exact pop_invalid i free
      · obtain ⟨ready, eq⟩ := popped up
        exact eq ▸ pop_frees ready one plain lt
  | false =>
    have upKeep : c.upKeep b = false := by simpa [SGMFConfig.keeps, up] using plain
    have valid : (i.offers b).valid = true := by
      simp only [checkUpstream, up, Bool.false_eq_true, if_false, Bool.and_eq_true] at accepts
      exact accepts.1
    obtain ⟨less, bp, send⟩ := offered.accepted b lt up upKeep valid
    have tag : bufferTag c i.offers b i.tag = if c.tagUpdateMode then
        ((i.offers b).front.tag + 1) % c.tagSize else (i.offers b).front.tag := by
      simp [bufferTag, up, upKeep]
    refine ⟨?_, ?_⟩
    · rw [tag]
      split_ifs
      · exact Nat.mod_lt _ c.tagSize_pos
      · exact less
    · obtain ⟨has, -⟩ | free | ⟨one, -⟩ := room
      · simp [up] at has
      · exact pop_invalid i free
      · simp only [checkSend, ← tag, Bool.and_eq_true, Bool.or_eq_true, Bool.not_eq_true',
          beq_iff_eq] at send
        obtain ⟨-, free | ⟨⟨noKeep, valid⟩, eq⟩⟩ := send
        · exact pop_invalid i free
        · exact eq ▸ pop_frees (by simp [pops, valid, noKeep]) one plain lt

/-- After the pushes every matched tag has its operands again. -/
theorem Inv.pushed (inv : Inv c s) {i : Input} (offered : Offered c i s) (spare : Spare c i s) :
    Stored c (fun _ => False) (pushAll c i.e i.offers (pop c i.downstream s)
      (inputs c i.offers i.data i.tag)) := by
  let input b := if c.noUpstream then (i.data.getD b 0, b, i.tag) else ((i.offers b).value, b, 0)
  let before n := pushAll c i.e i.offers (pop c i.downstream s) ((List.range n).map input)
  -- the buffers are filled one after the other
  have each : ∀ n ≤ c.arity,
      Stored c (fun b => n ≤ b ∧ c.keeps b = true ∧ pops c i s = true) (before n) ∧
        ∀ b, n ≤ b → (before n).chanBuffer b = (pop c i.downstream s).chanBuffer b := by
    intro n le
    induction n with
    | zero =>
      exact ⟨(inv.popped i).weaken fun d mem b lt there gone => absurd ⟨b.zero_le, gone⟩ there,
        fun b _ => rfl⟩
    | succ n ih =>
      obtain ⟨h, same⟩ := ih (Nat.le_of_succ_le le)
      have next : before (n + 1) =
          push c i.e i.offers (before n) (input n).1 n (if c.noUpstream then i.tag else 0) := by
        simp only [before, List.range_succ, List.map_append, pushAll, List.foldl_append,
          List.map_singleton, List.foldl_cons, List.foldl_nil, input]
        split_ifs <;> rfl
      have accepts : checkUpstream c i.offers (before n) n (if c.noUpstream then i.tag else 0) =
          checkUpstream c i.offers (pop c i.downstream s) n i.tag := by
        rw [checkUpstream_congr i.offers _ (same n le_rfl)]
        split_ifs with up
        · rfl
        · exact (ignores_tag i.offers i.tag (by simpa using up)).2.symm
      have tag : bufferTag c i.offers n (if c.noUpstream then i.tag else 0) =
          bufferTag c i.offers n i.tag := by
        split_ifs with up
        · rfl
        · exact (ignores_tag (x := s) i.offers i.tag (by simpa using up)).1.symm
      rw [next]
      refine ⟨Stored.push i.e i.offers _ _ h le ?_ ?_ ?_, fun b lt => ?_⟩
      · rw [accepts, tag, same n le_rfl]
        exact spare.free offered le
      · rw [accepts]
        intro keep ready
        refine (spare.refilled n le keep ready).imp_right fun others => ?_
        have queue : (before n).matchQueue = (pop c i.downstream s).matchQueue := by
          simp only [before]
          rw [pushAll_rest]
        rw [queue, popped_eq ready]
        exact List.filter_eq_nil_iff.mpr fun d mem => by simp [others d mem]
      · intro up
        rw [accepts]
        simpa [input, up] using spare.flagless up n le
      · rw [push_other _ _ _ _ (by omega)]
        exact same b (by omega)
  exact (each c.arity le_rfl).1.weaken fun d mem b lt _ gone => absurd gone.1 (by omega)

/-! ## Status -/

theorem Stored.shift (h : Stored c (fun _ => False) x) :
    Stored c (fun _ => False) (shiftDataInChanBuffer c x) := by
  refine ⟨fun i less tag lt => ?_, h.slots.shift sound_hide, h.unique, h.tags,
    fun d mem i less _ => ?_, h.single, h.queued, h.blank⟩
  · rw [(shift_held x lt i).1]
    exact h.kept i less tag lt
  · exact (shift_held x (h.tags d mem) i).2 (h.matched d mem i less id)

/-- The tags that are matched are new ones, and have all operands. -/
theorem Stored.checkTagMatch (h : Stored c (fun _ => False) x) :
    Stored c (fun _ => False) (checkTagMatch c x) := by
  let matching (queue : List Data) : Prop := (∀ d ∈ x.matchQueue, d ∈ queue) ∧
    (queue.map (·.tag)).Nodup ∧ (∀ d ∈ queue, d.tag < c.tagSize) ∧
    ∀ d ∈ queue, ∀ i < c.arity, (operand c x d.tag i).valid = true
  have all : matching (ChanSGMF.checkTagMatch c x).matchQueue := by
    refine List.foldlRecOn (motive := matching) _ _
      ⟨fun _ mem => mem, h.unique, h.tags, fun d mem i lt => h.matched d mem i lt id⟩ ?_
    intro queue ⟨old, unique, tags, matched⟩ tag mem
    split_ifs with new
    · simp only [Bool.and_eq_true, Bool.not_eq_true', tagMatch, List.all_eq_true, List.mem_range,
        List.any_eq_false, beq_iff_eq] at new
      refine ⟨fun d mem => List.mem_append_left _ (old d mem), ?_, fun d mem' => ?_,
        fun d mem' i lt => ?_⟩
      · rw [List.map_append, List.nodup_append]
        refine ⟨unique, by simp, fun t mem t' mem' eq => ?_⟩
        obtain ⟨d, queued, rfl⟩ := List.mem_map.mp mem
        obtain rfl : t' = tag := by simpa [matchData] using mem'
        exact new.2 d queued eq
      · obtain mem' | mem' := List.mem_append.mp mem'
        · exact tags d mem'
        · rw [List.mem_singleton.mp mem']
          exact List.mem_range.mp mem
      · obtain mem' | mem' := List.mem_append.mp mem'
        · exact matched d mem' i lt
        · rw [List.mem_singleton.mp mem']
          exact new.1 i lt
    · exact ⟨old, unique, tags, matched⟩
  obtain ⟨old, unique, tags, matched⟩ := all
  exact ⟨h.kept, h.slots, unique, tags, fun d mem i lt _ => matched d mem i lt, h.single,
    fun d mem => List.map_subset _ old (h.queued d mem), h.blank⟩

theorem Stored.present (h : Stored c (fun _ => False) x) (e : Clock) : Inv c (present e x) := by
  cases eq : x.channel with
  | nil =>
    refine ⟨⟨h.kept, h.slots, h.unique, h.tags, h.matched, ?_, ?_, ?_⟩, ?_⟩ <;>
      simp [ChanSGMF.present, eq]
  | cons d rest =>
    have single := h.single
    have queued := h.queued
    have blank := h.blank
    rw [eq] at single queued blank
    refine ⟨⟨h.kept, h.slots, h.unique, h.tags, h.matched, ?_, fun a mem => ?_, fun a mem => ?_⟩,
      by simp [ChanSGMF.present, eq]⟩
    · simpa [ChanSGMF.present, eq] using single
    · simp only [ChanSGMF.present, eq] at mem
      obtain rfl | mem := List.mem_cons.mp mem
      · exact queued d (.head _)
      · exact queued a (.tail _ mem)
    · simp only [ChanSGMF.present, eq] at mem
      obtain rfl | mem := List.mem_cons.mp mem
      · exact ⟨(blank d (.head _)).last, (blank d (.head _)).lastOuter, (blank d (.head _)).cond⟩
      · exact blank a (.tail _ mem)

theorem updateDataStatus_tag (x : ChanSGMF) (tag : Nat) (data : Data) :
    (updateDataStatus c x tag data).tag = data.tag := by
  refine List.foldlRecOn (motive := fun (d : Data) => d.tag = data.tag) _ _ rfl fun d same i _ => ?_
  dsimp only
  split_ifs <;> exact same

/-- A matched tag becomes the element of the output channel. -/
theorem Stored.pushChannel (h : Stored c (fun _ => False) x) (empty : x.channel = []) {tag : Nat}
    (queued : tag ∈ x.matchQueue.map (·.tag)) (e : Clock) :
    Stored c (fun _ => False) (pushChannel c e x tag) := by
  have unmarked : Unmarked { x with elements := [] } :=
    ⟨fun i a => (h.slots i a).blank, by simp⟩
  have formed := Unmarked.pushChannel (c := c) e unmarked tag
  refine ⟨h.kept, h.slots, h.unique, h.tags, h.matched, by simp [ChanSGMF.pushChannel, empty],
    fun d mem => ?_, fun d mem => ?_⟩
  · simp only [ChanSGMF.pushChannel, empty, List.nil_append, List.mem_singleton] at mem
    have same : d.tag = tag := by
      rw [mem]
      split_ifs
      · rfl
      · exact updateDataStatus_tag x tag _
    exact same ▸ queued
  · simp only [ChanSGMF.pushChannel, empty, List.nil_append, List.mem_singleton] at mem
    exact formed.elements ⟨d, fun i => (operand c x tag i).source⟩ (by
      simp only [ChanSGMF.pushChannel, List.nil_append, List.mem_singleton, mem]
      rfl)

theorem Inv.update (inv : Inv c s) {i : Input} (offered : Offered c i s) (spare : Spare c i s) :
    Inv c (update c i s) := by
  have h := (inv.pushed offered spare).shift.checkTagMatch
  rw [ChanSGMF.update, get]
  obtain same | ⟨empty, d, queued, sent⟩ := statusUpdate_cases (c := c) i.e i.sendable
    (pushAll c i.e i.offers (pop c i.downstream s) (inputs c i.offers i.data i.tag))
  · exact same ▸ h.present i.e
  · exact sent ▸ (h.pushChannel empty (List.mem_map_of_mem queued) i.e).present i.e

/-- In every run that keeps to the condition nothing is overwritten, and the elements combine the
oldest data of their tags. -/
theorem tag_law (reachable : Reachable c (fun i s => Offered c i s ∧ Spare c i s) s) :
    Law c s := by
  suffices inv : Inv c s from inv.law
  induction reachable with
  | init =>
    refine ⟨⟨fun i _ tag _ => ?_, fun _ _ => ⟨⟨rfl, rfl, rfl⟩, by simp, by simp⟩, ?_, ?_, ?_, ?_,
      ?_, ?_⟩, rfl⟩ <;> try simp
    exact Pipeline.contents_none _
  | update i allowed _ inv => exact inv.update allowed.1 allowed.2
  | tag _ _ inv =>
    have h := inv.stored
    exact ⟨⟨h.kept, h.slots, h.unique, h.tags, h.matched, h.single, h.queued, h.blank⟩, inv.valid⟩
  | press _ _ inv =>
    have h := inv.stored
    exact ⟨⟨h.kept, h.slots, h.unique, h.tags, h.matched, h.single, h.queued, h.blank⟩, inv.valid⟩

/-- One upstream and one tag, with a slot for each of two cycles. -/
def twoRounds : SGMFConfig where
  size := 2
  cycle := 1
  upNum := 1
  tagSize := 1
  tagSize_pos := Nat.one_pos
  tagSize_le := by decide
  upNum_pos := fun _ => Nat.one_pos

/-- The upstream sends a value. -/
def sends (clk : Nat) (value : Int) : Input where
  e := { clk := clk }
  offers := fun _ => { valid := true, value := value, front := { valid := true } }
  sendable := fun _ => true

/-- The upstream waits. -/
def waits (clk : Nat) : Input where
  e := { clk := clk }
  sendable := fun _ => true

/-- Two upstreams and two tags. -/
def twoTags : SGMFConfig :=
  { twoRounds with
    upNum := 2
    tagSize := 2
    tagSize_pos := Nat.two_pos
    tagSize_le := by decide
    upNum_pos := fun _ => Nat.two_pos }

/-- The upstreams send values with different tags. -/
def crosses (clk tag : Nat) (value : Int) : Input where
  e := { clk := clk }
  offers := fun b =>
    { valid := true, value := value + b, front := { valid := true, tag := if b = 0 then tag else 1 - tag } }
  sendable := fun _ => true

/-- The values of both tags meet, and the element of the first tag has left. -/
def bothTags : ChanSGMF :=
  [crosses 1 0 10, crosses 2 1 20, waits 3, waits 4].foldl (fun s i => update twoTags i s) {}

instance (b : Nat) (d : Data) : Decidable (Flagless c b d) :=
  decidable_of_iff ((c.upKeep b = false → c.drainMode = false → d.last = false ∧ d.lastOuter = false) ∧
      ((c.upKeep b || c.drainMode) = true → c.isLoopVar = true →
        ¬(d.last = true ∧ d.lastOuter = true)) ∧ (b = condChan c → d.cond = true))
    ⟨fun h => ⟨h.1, h.2.1, h.2.2⟩, fun h => ⟨h.plain, h.outer, h.cond⟩⟩

instance (i : Input) (b : Nat) : Decidable (Room c i s b) := by
  unfold Room
  infer_instance

theorem Offered.of {i : Input} (tag : i.tag < c.tagSize)
    (accepted : ∀ b < c.arity, (i.offers b).valid = true → (i.offers b).front.tag < c.tagSize ∧
      checkSend c { s with bp := fun _ => false } (i.offers b).front.tag b = true) :
    Offered c i s :=
  ⟨tag, fun b lt _ _ valid => ⟨(accepted b lt valid).1, _, (accepted b lt valid).2⟩⟩

theorem bothTags_reachable :
    Reachable twoTags (fun i s => Offered twoTags i s ∧ Spare twoTags i s) bothTags := by
  refine .update _ ⟨.of ?_ ?_, ?_, ?_, ?_⟩ (.update _ ⟨.of ?_ ?_, ?_, ?_, ?_⟩
    (.update _ ⟨.of ?_ ?_, ?_, ?_, ?_⟩ (.update _ ⟨.of ?_ ?_, ?_, ?_, ?_⟩ .init))) <;> decide +kernel

theorem tag_law_bothTags :
    Reachable twoTags (fun i s => Offered twoTags i s ∧ Spare twoTags i s) bothTags ∧
      (∀ i < 2, (bothTags.consumed i 0).length = 1) ∧ Law twoTags bothTags :=
  ⟨bothTags_reachable, by decide +kernel, tag_law bothTags_reachable⟩

/-- The third value takes the slot of the second, which waits for the first to leave. -/
theorem overwritten : ∃ s, Reachable twoRounds (Offered twoRounds) s ∧ ¬Law twoRounds s := by
  refine ⟨_, .update (sends 3 3) (.of ?_ ?_) (.update (sends 2 2) (.of ?_ ?_)
    (.update (sends 1 1) (.of ?_ ?_) .init)), fun law => ?_⟩
  · decide
  · decide +kernel
  · decide
  · decide +kernel
  · decide
  · decide +kernel
  · exact absurd (law.kept 0 (by decide) 0 (by decide)) (by decide +kernel)

end ChanSGMF

end DataflowSim.Execution
