import DataflowSim.Execution.Channel

/-!
# Branches

A condition channel sends the value of a condition to the channels on the two paths of its
branch. `pushBuffer` of such a channel decides whether the datum is on its path, and
`pushChannel` reads the decision back when the datum is joined with the other operands. A
channel on a path may be the condition channel of a branch inside that path.
-/

namespace DataflowSim.Execution

/-- A channel on the true or on the false path of a branch, at the two moments when a
condition comes in and when it goes on. Between them it has moved to the head of its buffer,
and anything else may have happened. -/
structure PathChan (path : Bool) where
  c : ChanConfig
  /-- The position of the condition channel among the upstreams. Others may be condition channels
  too, as those of the branches around this one. -/
  condId : Nat
  pushed : Clock
  up : Nat → Upstream
  x : Chan
  sent : Clock
  later : Nat → Upstream
  y : Chan
  upstream : c.noUpstream = false
  branchMode : c.branchMode = true
  channelCond : c.channelCond = path
  bound : condId < c.upNum
  isCond : (later condId).isCond = true

namespace PathChan

variable {path : Bool} (p : PathChan path)

/-- The upstreams when the condition channel has the datum `d` at its head. -/
def view (d : Data) (value : Int) : Nat → Upstream :=
  Function.update p.up p.condId
    { p.up p.condId with value := value, front := d, isCond := true }

/-- What `pushBuffer` puts behind the data of the buffer. -/
def stored (d : Data) (value : Int) : Option Data :=
  ((Chan.pushBuffer p.c p.pushed (p.view d value) p.x value p.condId).1.chanBuffer
    p.condId)[(p.x.chanBuffer p.condId).length]?

/-- What `pushChannel` makes of it. -/
def joined (s : Data) : Data :=
  (Chan.pushChannel p.c p.sent p.later
    (p.y.setBuffer p.condId (s :: p.y.chanBuffer p.condId))).channel.getLast?.getD {}

/-- The guard of `pushBuffer` for upstreams in keep mode. -/
def takes : Bool :=
  !Chan.hasUpstreamInKeepMode p.c p.up ||
    if p.c.isLoopVar then (p.x.chanBuffer p.condId).isEmpty
    else p.c.upNum = 2 && (!(p.up p.condId).keepMode ||
      (p.x.chanBuffer p.condId).length < (p.x.chanBuffer ((p.condId + 1) % 2)).length ||
      (p.up ((p.condId + 1) % 2)).valid || (p.x.chanBuffer p.condId).length < 1)

/-- The first condition channel among the upstreams, which is the one that `pushChannel` reads. -/
def condChan : Nat := ((List.range p.c.upNum).find? fun i => (p.later i).isCond).getD 0

/-- The condition at the head of the buffer that `pushChannel` reads, when `cond` is at the head of
the buffer of the condition channel. -/
def read (cond : Bool) : Bool :=
  if p.condChan = p.condId then cond else ((p.y.chanBuffer p.condChan).headD {}).cond

/-- The channel gets the datum and passes it on as one of its path. -/
def Receives (d : Data) (value : Int) : Prop :=
  ∃ s, p.stored d value = some s ∧ s.cond = true ∧ (p.joined s).cond = true

end PathChan

/-- Branches within branches, with the value of each condition. -/
inductive Nest where
  | done
  | branch (value : Int) (truePath : PathChan true) (falsePath : PathChan false)
      (onTrue onFalse : Nest)

namespace Nest

/-- The datum at the head of the condition channel of the outermost branch is `d`. One path
receives it if it is active and none otherwise, the two functions agree, and so on inside. -/
def Exclusive (d : Data) : Nest → Prop
  | done => True
  | branch value truePath falsePath onTrue onFalse =>
    (d.cond = true → Xor (truePath.Receives d value) (falsePath.Receives d value)) ∧
    (d.cond = false → ¬ truePath.Receives d value ∧ ¬ falsePath.Receives d value) ∧
    (∀ s, truePath.stored d value = some s →
      (truePath.joined s).cond = s.cond ∧ Exclusive (truePath.joined s) onTrue) ∧
    ∀ s, falsePath.stored d value = some s →
      (falsePath.joined s).cond = s.cond ∧ Exclusive (falsePath.joined s) onFalse

/-- Where the branch is active, the condition is 1 or 0 and the channel of that path takes it. A
channel with an earlier condition channel finds the same condition there. -/
def Decided (active : Bool) : Nest → Prop
  | done => True
  | branch value truePath falsePath onTrue onFalse =>
    (active = true →
      value = 1 ∧ truePath.takes = true ∨ value = 0 ∧ falsePath.takes = true) ∧
    (truePath.takes = true → truePath.read (active && value == 1) = (active && value == 1) ∧
      Decided (active && value == 1) onTrue) ∧
    (falsePath.takes = true → falsePath.read (active && value == 0) = (active && value == 0) ∧
      Decided (active && value == 0) onFalse)

end Nest

namespace PathChan

variable {path : Bool} (p : PathChan path) (d s : Data) (value : Int)

/-- The polarity of a path as the number that it is compared with. -/
def polarity (path : Bool) : Int := if path then 1 else 0

theorem view_keepMode (i : Nat) : (p.view d value i).keepMode = (p.up i).keepMode := by
  unfold view
  by_cases here : i = p.condId <;> simp [here]

theorem pushData_cond :
    (Chan.pushData p.c p.pushed (p.view d value) value p.condId).cond =
      (d.cond && value == polarity path) := by
  have flipped : ((if path = true then (1 : Int) else 0) == value) = (value == polarity path) :=
    BEq.comm
  simp [Chan.pushData, view, p.branchMode, p.channelCond, flipped]

/-- A push either stores the datum or leaves the buffer alone. -/
theorem stored_eq : p.stored d value =
    if p.takes then some (Chan.pushData p.c p.pushed (p.view d value) value p.condId)
    else none := by
  have keep : Chan.hasUpstreamInKeepMode p.c (p.view d value) =
      Chan.hasUpstreamInKeepMode p.c p.up := by
    simp only [Chan.hasUpstreamInKeepMode, view_keepMode]
  have other (two : p.c.upNum = 2) :
      p.view d value ((p.condId + 1) % 2) = p.up ((p.condId + 1) % 2) := by
    have bound := p.bound
    exact Function.update_of_ne (by omega) ..
  have pushed (z : Data) :
      ((p.x.store p.condId z).chanBuffer p.condId)[(p.x.chanBuffer p.condId).length]? = some z := by
    simp [Chan.store, Chan.setBuffer]
  have left : (p.x.chanBuffer p.condId)[(p.x.chanBuffer p.condId).length]? = none :=
    List.getElem?_eq_none le_rfl
  unfold stored Chan.pushBuffer takes
  simp only [p.upstream, keep, view_keepMode]
  by_cases two : p.c.upNum = 2
  · simp only [other two]
    grind
  · grind

theorem stored_cond (stored : p.stored d value = some s) :
    s.cond = (d.cond && value == polarity path) := by
  rw [stored_eq] at stored
  split_ifs at stored
  rw [← Option.some.inj stored, pushData_cond]

theorem joined_cond : (p.joined s).cond = p.read s.cond := by
  obtain ⟨i, found⟩ : ∃ i, (List.range p.c.upNum).find? (fun i => (p.later i).isCond) = some i :=
    Option.isSome_iff_exists.mp (List.find?_isSome.mpr
      ⟨p.condId, List.mem_range.mpr p.bound, p.isCond⟩)
  have condChan : p.condChan = i := by rw [PathChan.condChan, found, Option.getD_some]
  have joined : (p.joined s).cond =
      ((Function.update p.y.chanBuffer p.condId (s :: p.y.chanBuffer p.condId) i).headD {}).cond := by
    simp [PathChan.joined, Chan.pushChannel, p.upstream, Chan.channelCondOf, p.branchMode, found,
      Chan.setBuffer]
  rw [joined, read, condChan]
  by_cases here : i = p.condId
  · rw [if_pos here, here, Function.update_self]
    rfl
  · rw [if_neg here, Function.update_of_ne here]

/-- A channel receives the data of its path, if it finds the condition where it stored it. -/
theorem receives_iff (reads : p.takes = true → p.read (d.cond && value == polarity path) =
    (d.cond && value == polarity path)) : p.Receives d value ↔
      p.takes = true ∧ d.cond = true ∧ value = polarity path := by
  constructor
  · rintro ⟨s, stored, active, -⟩
    have decided := p.stored_cond d s value stored
    rw [stored_eq] at stored
    split_ifs at stored with taken
    rw [active] at decided
    simpa [taken] using decided.symm
  · rintro ⟨taken, active, rfl⟩
    have stored := p.stored_eq d (polarity path)
    rw [if_pos taken] at stored
    have cond := p.stored_cond d _ _ stored
    refine ⟨_, stored, by simp [cond, active], ?_⟩
    rw [joined_cond, cond, reads taken]
    simp [active]

end PathChan

/-- In every nest, for every datum and all values of the conditions: exactly one path of an
active branch receives the datum, and none of an inactive one, and the functions agree, exactly when
every condition that is active is 0 or 1, the channel of that path takes it, and the conditions that
the channels read are those that they stored. -/
theorem exclusive_iff (nest : Nest) (d : Data) : nest.Exclusive d ↔ nest.Decided d.cond := by
  induction nest generalizing d with
  | done => exact Iff.rfl
  | branch value truePath falsePath onTrue onFalse ihTrue ihFalse =>
    have onPath {path : Bool} (p : PathChan path) (nest : Nest)
        (ih : ∀ d, nest.Exclusive d ↔ nest.Decided d.cond) :
        (∀ s, p.stored d value = some s →
            (p.joined s).cond = s.cond ∧ nest.Exclusive (p.joined s)) ↔
          (p.takes = true → p.read (d.cond && value == PathChan.polarity path) =
              (d.cond && value == PathChan.polarity path) ∧
            nest.Decided (d.cond && value == PathChan.polarity path)) := by
      constructor
      · intro law taken
        have stored := p.stored_eq d value
        rw [if_pos taken] at stored
        obtain ⟨agree, inner⟩ := law _ stored
        have inner := (ih _).mp inner
        rw [agree] at inner
        rw [p.joined_cond] at agree
        rw [p.stored_cond d _ _ stored] at agree inner
        exact ⟨agree, inner⟩
      · intro decided s stored
        have taken : p.takes = true := by
          by_contra refused
          rw [p.stored_eq, if_neg refused] at stored
          cases stored
        obtain ⟨agree, inner⟩ := decided taken
        rw [← p.stored_cond d _ _ stored] at agree inner
        have joined := (p.joined_cond s).trans agree
        exact ⟨joined, (ih _).mpr (joined ▸ inner)⟩
    simp only [Nest.Exclusive, onPath truePath onTrue ihTrue, onPath falsePath onFalse ihFalse]
    have paths := fun (onTrue : truePath.takes = true → _) (onFalse : falsePath.takes = true → _) =>
      And.intro (truePath.receives_iff d value onTrue) (falsePath.receives_iff d value onFalse)
    simp only [PathChan.polarity, if_true, Bool.false_eq_true, if_false] at paths ⊢
    constructor
    · rintro ⟨one, -, insideTrue, insideFalse⟩
      refine ⟨fun active => ?_, insideTrue, insideFalse⟩
      obtain ⟨receivesTrue, receivesFalse⟩ :=
        paths (fun taken => (insideTrue taken).1) (fun taken => (insideFalse taken).1)
      rw [receivesTrue, receivesFalse] at one
      obtain ⟨⟨taken, -, eq⟩, -⟩ | ⟨⟨taken, -, eq⟩, -⟩ := one active
      · exact .inl ⟨eq, taken⟩
      · exact .inr ⟨eq, taken⟩
    · rintro ⟨decided, insideTrue, insideFalse⟩
      obtain ⟨receivesTrue, receivesFalse⟩ :=
        paths (fun taken => (insideTrue taken).1) (fun taken => (insideFalse taken).1)
      rw [receivesTrue, receivesFalse]
      refine ⟨fun active => ?_, fun inactive => ?_, insideTrue, insideFalse⟩
      · obtain ⟨rfl, taken⟩ | ⟨rfl, taken⟩ := decided active
        · exact .inl ⟨⟨taken, active, rfl⟩, by simp⟩
        · exact .inr ⟨⟨taken, active, rfl⟩, by simp⟩
      · simp [inactive]

/-- A channel on a path whose only operand is the condition. -/
def plain (path : Bool) : PathChan path where
  c := { size := 2, upNum := 1, branchMode := true, channelCond := path }
  condId := 0
  pushed := { clk := 0 }
  up _ := { isCond := true }
  x := {}
  sent := { clk := 1 }
  later _ := { isCond := true }
  y := {}
  upstream := rfl
  branchMode := rfl
  channelCond := rfl
  bound := Nat.one_pos
  isCond := rfl

/-- The condition 2 is on neither path. -/
theorem condition_two_lost :
    ¬ (Nest.branch 2 (plain true) (plain false) .done .done).Exclusive { valid := true } := by
  rintro ⟨one, -⟩
  obtain ⟨⟨s, stored, active, -⟩, -⟩ | ⟨⟨s, stored, active, -⟩, -⟩ := one rfl
  · have lost : ((plain true).stored { valid := true } 2).map Data.cond = some false := by decide
    rw [stored, Option.map_some, active] at lost
    cases lost
  · have lost : ((plain false).stored { valid := true } 2).map Data.cond = some false := by decide
    rw [stored, Option.map_some, active] at lost
    cases lost

end DataflowSim.Execution
