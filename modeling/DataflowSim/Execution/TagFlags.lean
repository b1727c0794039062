import DataflowSim.Execution.SGMF

/-!
# The flags of tagged data

Which flags an element of a `ChanSGMF` has, compared with those that a `ChanBase` with the same
data at the heads of its buffers would give it.
-/

namespace DataflowSim.Execution

namespace ChanSGMF

variable (c : SGMFConfig)

/-- The element that `ChanBase::pushChannel` forms of these data. -/
def baseElement (operands : Nat → Data) : Data :=
  (Chan.pushChannel c.toChanConfig { clk := 0 } (upstream c fun _ => {})
    { chanBuffer := fun i => [operands i] }).channel.headD {}

/-- An element has the flags that a `ChanBase` derives from its operands. -/
def FlagsReach (el : Element) : Prop :=
  let base := baseElement c el.operands
  el.data.last = base.last ∧ el.data.lastOuter = base.lastOuter ∧ el.data.cond = base.cond

/-- A `ChanBase` takes no flag from this operand. -/
structure Flagless (bufferId : Nat) (d : Data) : Prop where
  plain : c.upKeep bufferId = false → c.drainMode = false → d.last = false ∧ d.lastOuter = false
  outer : (c.upKeep bufferId || c.drainMode) = true → c.isLoopVar = true →
    ¬(d.last = true ∧ d.lastOuter = true)
  cond : bufferId = condChan c → d.cond = true

/-- The flags of a new datum. -/
structure Blank (d : Data) : Prop where
  last : d.last = false
  lastOuter : d.lastOuter = false
  cond : d.cond = true

variable {c} {s : ChanSGMF}

/-! ## What `ChanBase` does -/

theorem base_updateDataStatus (c : ChanConfig) (up : Nat → Upstream) (x : Chan) (data : Data) :
    let plain i := !(up i).keepMode && !c.drainMode
    let front i := (x.chanBuffer i).headD {}
    (Chan.updateDataStatus c up x data).last =
      (data.last || (List.range c.arity).any fun i => plain i && (front i).last) ∧
    (Chan.updateDataStatus c up x data).lastOuter = (data.lastOuter ||
      (List.range c.arity).any fun i => if plain i then (front i).lastOuter
        else (front i).last && (front i).lastOuter && c.isLoopVar) ∧
    (Chan.updateDataStatus c up x data).cond = data.cond := by
  intro plain front
  simp only [Chan.updateDataStatus]
  induction List.range c.arity generalizing data with
  | nil => simp
  | cons i is ih =>
    rw [List.foldl_cons]
    obtain ⟨last, lastOuter, cond⟩ := ih _
    rw [last, lastOuter, cond]
    simp only [List.any_cons, plain, front]
    clear ih last lastOuter cond
    cases (up i).keepMode <;> cases c.drainMode <;>
      cases (x.chanBuffer i).headD {} |>.last <;> cases (x.chanBuffer i).headD {} |>.lastOuter <;>
      cases c.isLoopVar <;> simp

/-- Without flagged operands, and only then, the element of a `ChanBase` has no flags. -/
theorem base_blank (operands : Nat → Data) (hasUpstream : c.noUpstream = false) :
    Blank (baseElement c operands) ↔ ∀ i < c.arity, Flagless c i (operands i) := by
  obtain ⟨last, lastOuter, -⟩ := base_updateDataStatus c.toChanConfig (upstream c fun _ => {})
    { chanBuffer := fun i => [operands i] } { valid := true, tag := (operands 0).tag }
  have base : baseElement c operands = { Chan.updateDataStatus c.toChanConfig
      (upstream c fun _ => {}) { chanBuffer := fun i => [operands i] }
      { valid := true, tag := (operands 0).tag } with
    cond := (operands (condChan c)).cond } := by
    simp [baseElement, Chan.pushChannel, hasUpstream, Chan.channelCondOf, condChan, upstream]
  have condChan_lt : condChan c < c.arity := by
    have pos := c.upNum_pos hasUpstream
    simp only [condChan, ChanConfig.arity, hasUpstream, Bool.false_eq_true, if_false]
    cases found : (if c.branchMode then (List.range c.upNum).find? c.upCond else none) with
    | none => exact pos
    | some i =>
      split_ifs at found
      exact List.mem_range.mp (List.mem_of_find?_eq_some found)
  simp only [Bool.false_or, upstream, List.headD_cons] at last lastOuter
  constructor
  · rintro ⟨noLast, noOuter, cond⟩ i lt
    rw [base] at noLast noOuter cond
    have noLast := List.any_eq_false.mp (last.symm.trans noLast) i (List.mem_range.mpr lt)
    have noOuter := List.any_eq_false.mp (lastOuter.symm.trans noOuter) i (List.mem_range.mpr lt)
    refine ⟨fun plain drain => ?_, fun keep loop flags => ?_, fun eq => eq ▸ cond⟩
    · simp_all
    · cases plain : c.upKeep i <;> cases drain : c.drainMode <;> simp_all
  · intro flagless
    rw [base]
    refine ⟨last.trans (List.any_eq_false.mpr fun i mem => ?_),
      lastOuter.trans (List.any_eq_false.mpr fun i mem => ?_),
      (flagless _ condChan_lt).cond rfl⟩
    · have plain := (flagless i (List.mem_range.mp mem)).plain
      cases keep : c.upKeep i <;> cases drain : c.drainMode <;> simp_all
    · have operand := flagless i (List.mem_range.mp mem)
      cases plain : c.upKeep i || c.drainMode with
      | false =>
        obtain ⟨keep, drain⟩ := Bool.or_eq_false_iff.mp plain
        simp [keep, drain, operand.plain keep drain]
      | true =>
        have other : (!c.upKeep i && !c.drainMode) = false := by rw [← Bool.not_or, plain]; rfl
        intro flags
        simp only [other, Bool.false_eq_true, if_false, Bool.and_eq_true] at flags
        exact operand.outer plain flags.2 flags.1

theorem Blank.reach {el : Element} (blank : Blank el.data) : FlagsReach c el ↔
    (c.noUpstream = false → ∀ i < c.arity, Flagless c i (el.operands i)) := by
  simp only [FlagsReach, blank.last, blank.lastOuter, blank.cond]
  cases up : c.noUpstream with
  | true => simp [baseElement, Chan.pushChannel, up]
  | false =>
    rw [imp_iff_right rfl, ← base_blank el.operands up]
    exact ⟨fun ⟨last, outer, cond⟩ => ⟨last.symm, outer.symm, cond.symm⟩,
      fun blank => ⟨blank.last.symm, blank.lastOuter.symm, blank.cond.symm⟩⟩

/-! ## What `ChanSGMF` does -/

/-- Neither a slot nor an element has any flag. -/
structure Unmarked (s : ChanSGMF) : Prop where
  slots : All (fun _ d => Blank d.toData) s
  elements : ∀ el ∈ s.elements, Blank el.data

theorem Unmarked.pushChannel (e : Clock) (h : Unmarked s) (tag : Nat) :
    Unmarked (pushChannel c e s tag) := by
  refine ⟨h.slots, fun el mem => ?_⟩
  obtain old | new := List.mem_append.mp mem
  · exact h.elements el old
  · obtain rfl := List.mem_singleton.mp new
    cases c.noUpstream with
    | true => exact ⟨rfl, rfl, rfl⟩
    | false =>
      have status : let d := updateDataStatus c s tag { valid := true, tag := tag }
          d.last = false ∧ d.lastOuter = false := by
        refine List.foldlRecOn (motive := fun (d : Data) => d.last = false ∧ d.lastOuter = false) _ _
          ⟨rfl, rfl⟩ fun d same i _ => ?_
        have slot := h.slots i tag
        have front := h.slots i 0
        simp only [slot.last, slot.lastOuter, front.last, Bool.or_false, Bool.false_and,
          Bool.false_eq_true, if_false]
        split_ifs <;> exact same
      exact ⟨status.1, status.2, (h.slots _ _).cond⟩

theorem Unmarked.update (h : Unmarked s) (i : Input) : Unmarked (update c i s) := by
  have hide : ∀ (_ : Nat) (d : Slot), Blank d.toData → Blank { d with valid := false }.toData :=
    fun _ d blank => ⟨blank.last, blank.lastOuter, blank.cond⟩
  have popped : Unmarked (pop c i.downstream s) := by
    refine ⟨h.slots.popChannel hide _ _, ?_⟩
    rw [pop_rest]
    exact h.elements
  have pushed : Unmarked (pushAll c i.e i.offers (pop c i.downstream s)
      (inputs c i.offers i.data i.tag)) := by
    refine ⟨popped.slots.pushAll i.e i.offers (fun _ _ _ => ⟨rfl, rfl, rfl⟩) _, ?_⟩
    rw [pushAll_rest]
    exact popped.elements
  have matched : Unmarked (checkTagMatch c (shiftDataInChanBuffer c (pushAll c i.e i.offers
      (pop c i.downstream s) (inputs c i.offers i.data i.tag)))) :=
    ⟨pushed.slots.shift hide, pushed.elements⟩
  rw [ChanSGMF.update, get]
  obtain same | ⟨-, d, -, sent⟩ := statusUpdate_cases (c := c) i.e i.sendable
    (pushAll c i.e i.offers (pop c i.downstream s) (inputs c i.offers i.data i.tag))
  · rw [same]
    exact ⟨matched.slots, matched.elements⟩
  · have formed := Unmarked.pushChannel (c := c) i.e matched d.tag
    rw [sent]
    exact ⟨formed.slots, formed.elements⟩

/-- The flags reach an element exactly when there are none to take from its operands. -/
theorem flagsReach_iff {P : Input → ChanSGMF → Prop} (reachable : Reachable c P s) :
    ∀ el ∈ s.elements, FlagsReach c el ↔
      (c.noUpstream = false → ∀ i < c.arity, Flagless c i (el.operands i)) := by
  have unmarked : Unmarked s := by
    induction reachable with
    | init => exact ⟨fun _ _ => ⟨rfl, rfl, rfl⟩, by simp⟩
    | update i _ _ h => exact h.update i
    | tag _ _ h => exact ⟨h.slots, h.elements⟩
    | press _ _ h => exact ⟨h.slots, h.elements⟩
  exact fun el mem => (unmarked.elements el mem).reach

/-- One upstream, one tag and one round. -/
def oneTag : SGMFConfig where
  size := 1
  upNum := 1
  tagSize := 1
  tagSize_pos := by decide
  tagSize_le := le_rfl
  upNum_pos := fun _ => by decide

/-- The upstream sends the last value of a loop. -/
def lastValue : Input where
  e := { clk := 0 }
  offers := fun _ => { valid := true, value := 7, front := { valid := true, last := true } }
  sendable := fun _ => true

theorem lastValue_reachable : Reachable oneTag (fun _ _ => True) (update oneTag lastValue {}) :=
  .update _ trivial .init

theorem flagsReach_lastValue : Reachable oneTag (fun _ _ => True) (update oneTag lastValue {}) ∧
    ∀ el ∈ (update oneTag lastValue {}).elements, FlagsReach oneTag el ↔
      (oneTag.noUpstream = false → ∀ i < oneTag.arity, Flagless oneTag i (el.operands i)) :=
  ⟨lastValue_reachable, flagsReach_iff lastValue_reachable⟩

/-- The flag of the only operand is lost. -/
theorem last_lost : ∃ s, Reachable oneTag (fun _ _ => True) s ∧
    ∃ el ∈ s.elements, ¬FlagsReach oneTag el := by
  refine ⟨_, lastValue_reachable, _, List.mem_singleton.mpr rfl, fun reach => ?_⟩
  exact absurd reach.1 (by decide +kernel)

end ChanSGMF

end DataflowSim.Execution
