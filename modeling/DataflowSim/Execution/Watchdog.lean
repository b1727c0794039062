import DataflowSim.Execution.Buffers

/-!
# The watchdog

`Watchdog`, which a program calls at the start of each iteration. Every `timer` iterations it looks
whether a channel has sent something since it looked last, and it barks when this has failed
`maxFeedTimes` times in a row. In the Linux build the program goes on after that.
-/

namespace DataflowSim.Execution

structure Watchdog (V : Type*) where
  timer : Nat
  maxFeedTimes : Nat
  feedTimes : Nat := 0
  iterExe : Nat := 0
  checkPointChans : List (V × Nat) := []

namespace Watchdog

variable {V : Type*}

def addCheckPointChan (w : Watchdog V) (chans : List V) : Watchdog V :=
  { w with checkPointChans := w.checkPointChans ++ chans.map fun c => (c, 0) }

/-- What `feedDog` does in an iteration in which the timer is due. -/
def check (w : Watchdog V) (chan : V → Chan) (iter : Nat) : Watchdog V :=
  let feedSuccessful := w.checkPointChans.any fun (c, cnt) => (chan c).chanDataCnt != cnt
  { w with
    checkPointChans := w.checkPointChans.map fun (c, _) => (c, (chan c).chanDataCnt)
    feedTimes := if feedSuccessful then 0 else w.feedTimes + 1
    iterExe := if feedSuccessful then iter else w.iterExe }

/-- The iteration that the message of a crash names. -/
def dogBark (w : Watchdog V) : Nat := w.iterExe

def feedDog (w : Watchdog V) (chan : V → Chan) (iter : Nat) : Watchdog V × Option Nat :=
  let w := if iter % w.timer = 0 then w.check chan iter else w
  (w, if w.feedTimes = w.maxFeedTimes then some w.dogBark else none)

/-- The watchdog after the first iterations of a program, whose channels are `chan i` at the start
of iteration `i`. -/
def run (w : Watchdog V) (chan : Nat → V → Chan) : Nat → Watchdog V
  | 0 => w
  | n + 1 => ((w.run chan n).feedDog (chan n) n).1

/-- The message in an iteration, if there is one. -/
def bark (w : Watchdog V) (chan : Nat → V → Chan) (n : Nat) : Option Nat :=
  ((w.run chan n).feedDog (chan n) n).2

end Watchdog

/-! ## What a channel counts -/

theorem Chan.get_chanDataCnt {c : ChanConfig} (e : Clock) (up : Nat → Upstream)
    (downstream : List Nat) (sendable : Bool) (data : List Int) (x : Chan) :
    let y := (Chan.get c e up downstream sendable data x).1
    y.chanDataCnt = x.chanDataCnt + y.valid.toNat := by
  obtain ⟨n, same⟩ := parallelize_eq (c := c) e x
  have popped : (pop c downstream (parallelize c e x)).chanDataCnt = x.chanDataCnt := by
    rw [same]
    unfold pop popChannel
    split_ifs <;> rfl
  generalize eq_p : pop c downstream (parallelize c e x) = p at popped
  have filled := pushAll_filled c e up (inputs c up data) p
  generalize eq_z : (pushAll c e up p (inputs c up data)).1 = z at filled
  have pushed : z.chanDataCnt = x.chanDataCnt := by
    rw [← popped]
    exact (congrArg Chan.chanDataCnt filled.rest :)
  have run : (Chan.get c e up downstream sendable data x).1 = bpUpdate c
      (if z.currId ≤ c.speedup ∨ c.noUpstream = false ∧
          (e.clkAdd = true ∨ c.chanType = .Chan_DGSF) then Chan.statusUpdate c e up sendable z
        else { z with
          valid := false
          pushChannelSuccess := if c.noUpstream then z.pushChannelSuccess else false }) := by
    rw [← eq_z, ← eq_p]
    rfl
  rw [run]
  by_cases awake : z.currId ≤ c.speedup ∨ c.noUpstream = false ∧
      (e.clkAdd = true ∨ c.chanType = .Chan_DGSF)
  · rw [if_pos awake]
    obtain ⟨y, pushed_y, eq_y⟩ : ∃ y, y.chanDataCnt = z.chanDataCnt ∧
        (if checkDataMatch c e z && z.channel.isEmpty then pushChannel c e up z else z) = y := by
      refine ⟨_, ?_, rfl⟩
      obtain ⟨d, eq⟩ := pushChannel_eq (c := c) e up z
      rw [eq]
      split_ifs <;> rfl
    rw [← pushed, ← pushed_y]
    simp only [Chan.bpUpdate, Chan.statusUpdate, eq_y]
    cases !y.channel.isEmpty && y.enable && (c.noDownstream || c.keepMode || sendable) <;> rfl
  · rw [if_neg awake]
    exact pushed

namespace Watchdog

variable {V : Type*} (chan : Nat → V → Chan) (timer : Nat) (chans : List V)

/-- The count of a channel as it is known before the check of that number. -/
def seen (c : V) : Nat → Nat
  | 0 => 0
  | k + 1 => (chan (k * timer) c).chanDataCnt

/-- The check of that number finds that a channel has sent. -/
def Moved (k : Nat) : Prop := ∃ c ∈ chans, seen chan timer c (k + 1) ≠ seen chan timer c k

/-- That many checks, and no more, have failed when the check number `k` is still to come. -/
def Failed (k m : Nat) : Prop :=
  m ≤ k ∧ (∀ j < k, k ≤ j + m → ¬Moved chan timer chans j) ∧
    (m < k → Moved chan timer chans (k - m - 1))

variable {chan timer chans}

theorem Failed.unique {k m m' : Nat} (h : Failed chan timer chans k m)
    (h' : Failed chan timer chans k m') : m = m' := by
  obtain ⟨le, idle, moved⟩ := h
  obtain ⟨le', idle', moved'⟩ := h'
  rcases Nat.lt_trichotomy m m' with lt | eq | lt
  · exact absurd (moved (by omega)) (idle' _ (by omega) (by omega))
  · exact eq
  · exact absurd (moved' (by omega)) (idle _ (by omega) (by omega))

variable (chan timer chans) in
/-- The state of a watchdog that has made `k` checks. -/
structure Fed (maxFeedTimes k : Nat) (w : Watchdog V) : Prop where
  every : w.timer = timer
  limit : w.maxFeedTimes = maxFeedTimes
  checkPointChans : w.checkPointChans = chans.map fun c => (c, seen chan timer c k)
  failed : Failed chan timer chans k w.feedTimes
  iterExe : w.iterExe = (k - w.feedTimes - 1) * timer

variable {maxFeedTimes k : Nat} {w : Watchdog V}

theorem Fed.check (fed : Fed chan timer chans maxFeedTimes k w) :
    Fed chan timer chans maxFeedTimes (k + 1) (w.check (chan (k * timer)) (k * timer)) := by
  have success : (w.checkPointChans.any fun (c, cnt) => (chan (k * timer) c).chanDataCnt != cnt) =
      true ↔ Moved chan timer chans k := by
    simp [fed.checkPointChans, Moved, seen]
  obtain ⟨le, idle, moved⟩ := fed.failed
  constructor
  · exact fed.every
  · exact fed.limit
  · simp [Watchdog.check, fed.checkPointChans, seen]
  · by_cases now : Moved chan timer chans k
    · simp only [Watchdog.check, if_pos (success.mpr now)]
      exact ⟨Nat.zero_le _, by omega, fun _ => now⟩
    · simp only [Watchdog.check, if_neg (mt success.mp now)]
      refine ⟨by omega, fun j lt near => ?_, fun lt => ?_⟩
      · rcases Nat.lt_succ_iff_lt_or_eq.mp lt with before | rfl
        · exact idle j before (by omega)
        · exact now
      · have earlier := moved (by omega)
        rwa [show k + 1 - (w.feedTimes + 1) - 1 = k - w.feedTimes - 1 by omega]
  · by_cases now : Moved chan timer chans k
    · simp [Watchdog.check, if_pos (success.mpr now)]
    · simp only [Watchdog.check, if_neg (mt success.mp now), fed.iterExe]
      rw [show k + 1 - (w.feedTimes + 1) - 1 = k - w.feedTimes - 1 by omega]

theorem run_fed (start : Fed chan timer chans maxFeedTimes 0 w) (n : Nat) :
    Fed chan timer chans maxFeedTimes (n / timer + 1) ((w.run chan n).feedDog (chan n) n).1 := by
  induction n with
  | zero => simpa [feedDog, run] using start.check
  | succ n ih =>
    change Fed chan timer chans maxFeedTimes _
      (((w.run chan n).feedDog (chan n) n).1.feedDog (chan (n + 1)) (n + 1)).1
    generalize ((w.run chan n).feedDog (chan n) n).1 = u at ih
    simp only [feedDog, ih.every, Nat.succ_div, Nat.dvd_iff_mod_eq_zero]
    split_ifs with due
    · have turn : n + 1 = (n / timer + 1) * timer := by
        have := Nat.div_mul_cancel (Nat.dvd_of_mod_eq_zero due)
        rwa [Nat.succ_div, if_pos (Nat.dvd_of_mod_eq_zero due), eq_comm] at this
      rw [turn]
      exact ih.check
    · exact ih

/-- Checks that fail one after the other have seen the same counts. -/
theorem seen_eq {k m : Nat} (failed : Failed chan timer chans k m) {c : V} (mem : c ∈ chans) :
    seen chan timer c k = seen chan timer c (k - m) := by
  obtain ⟨le, idle, -⟩ := failed
  have back {i : Nat} (le_m : i ≤ m) : seen chan timer c (k - i) = seen chan timer c k := by
    induction i with
    | zero => rfl
    | succ i ih =>
      have still := idle (k - (i + 1)) (by omega) (by omega)
      simp only [Moved, not_exists, not_and, not_not] at still
      rw [← ih (by omega), ← still c mem]
      congr 1
      omega
  exact (back le_rfl).symm

variable (chan) in
/-- In an iteration the count of a channel changes only by one call of `get`. -/
def Called (cfg : ChanConfig) (i : Nat) (c : V) : Prop :=
  ∃ e up downstream sendable data x, x.chanDataCnt = (chan i c).chanDataCnt ∧
    chan (i + 1) c = (Chan.get cfg e up downstream sendable data x).1

theorem Called.chanDataCnt {cfg : ChanConfig} {i : Nat} {c : V} (called : Called chan cfg i c) :
    (chan (i + 1) c).chanDataCnt = (chan i c).chanDataCnt + (chan (i + 1) c).valid.toNat := by
  obtain ⟨e, up, downstream, sendable, data, x, same, eq⟩ := called
  rw [eq, ← same]
  exact Chan.get_chanDataCnt e up downstream sendable data x

theorem Failed.quiet {n m : Nat} (failed : Failed chan timer chans (n / timer + 1) m)
    {cfg : ChanConfig} {c : V} (called : ∀ i, Called chan cfg i c) (mem : c ∈ chans) {i : Nat}
    (after : (n / timer - m) * timer ≤ i) (before : i < n / timer * timer) :
    (chan (i + 1) c).valid = false := by
  have grows : Monotone fun i => (chan i c).chanDataCnt := monotone_nat_of_le_succ fun i => by
    rw [(called i).chanDataCnt]
    exact Nat.le_add_right _ _
  -- the count is the same at both ends
  have same : (chan (n / timer * timer) c).chanDataCnt ≤
      (chan ((n / timer - m) * timer) c).chanDataCnt := by
    have seen_same := seen_eq failed mem
    rcases Nat.lt_or_ge (n / timer) m with never | earlier
    · rw [show n / timer + 1 - m = 0 by omega] at seen_same
      change (chan (n / timer * timer) c).chanDataCnt = 0 at seen_same
      omega
    · rw [show n / timer + 1 - m = n / timer - m + 1 by omega] at seen_same
      exact seen_same.le
  have one := (called i).chanDataCnt
  have low : (chan ((n / timer - m) * timer) c).chanDataCnt ≤ (chan i c).chanDataCnt := grows after
  have high : (chan (i + 1) c).chanDataCnt ≤ (chan (n / timer * timer) c).chanDataCnt :=
    grows before
  cases valid : (chan (i + 1) c).valid with
  | false => rfl
  | true =>
    rw [valid, Bool.toNat_true] at one
    omega

variable (chan timer chans) in
/-- When a watchdog over the channels barks, and what its barking tells. -/
structure Guards (maxFeedTimes : Nat) (bark : Nat → Option Nat) : Prop where
  /-- It barks when the last `maxFeedTimes` checks have failed and the one before has not. -/
  barks_iff : ∀ n, (bark n).isSome ↔ Failed chan timer chans (n / timer + 1) maxFeedTimes
  /-- The message names the check that succeeded last. -/
  named : ∀ n iter, bark n = some iter → iter = (n / timer - maxFeedTimes) * timer
  /-- Since then no channel has sent. -/
  quiet : ∀ n, (bark n).isSome → ∀ cfg : V → ChanConfig,
    (∀ i, ∀ c ∈ chans, Called chan (cfg c) i c) → ∀ c ∈ chans, ∀ i, (n / timer - maxFeedTimes) * timer ≤ i → i < n / timer * timer →
      (chan (i + 1) c).valid = false
  /-- When the channels stop for good, it barks at some time. -/
  detects : ∀ N, 0 < maxFeedTimes →
    (∀ i, N ≤ i → ∀ c ∈ chans, (chan i c).chanDataCnt = (chan N c).chanDataCnt) →
    ∃ n < N + (maxFeedTimes + 1) * timer, (bark n).isSome

theorem Failed.exists_of_still {N : Nat} (every : 0 < timer) (some_checks : 0 < maxFeedTimes)
    (still : ∀ i, N ≤ i → ∀ c ∈ chans, (chan i c).chanDataCnt = (chan N c).chanDataCnt) :
    ∃ k, k * timer < N + (maxFeedTimes + 1) * timer ∧
      Failed chan timer chans (k + 1) maxFeedTimes := by
  have later {k : Nat} (after : N ≤ k * timer) : ¬Moved chan timer chans (k + 1) := by
    rintro ⟨c, mem, differs⟩
    apply differs
    change (chan ((k + 1) * timer) c).chanDataCnt = (chan (k * timer) c).chanDataCnt
    rw [still _ after c mem]
    exact still _ (after.trans (Nat.mul_le_mul_right _ (Nat.le_succ k))) c mem
  have early {p : Nat} (moved : Moved chan timer chans p) : p * timer < N + timer := by
    cases p with
    | zero => omega
    | succ p =>
      have before : p * timer < N := lt_of_not_ge fun after => later after moved
      rw [Nat.add_one_mul]
      omega
  by_cases some_moved : ∃ p, Moved chan timer chans p
  · -- the last check that succeeds
    have bounded : BddAbove {p | Moved chan timer chans p} :=
      ⟨N + timer, fun p moved => (Nat.le_mul_of_pos_right p every).trans (early moved).le⟩
    obtain ⟨p, moved, last⟩ :
        ∃ p, Moved chan timer chans p ∧ ∀ j, Moved chan timer chans j → j ≤ p :=
      ⟨_, Nat.sSup_mem some_moved bounded, fun j moved => le_csSup bounded moved⟩
    refine ⟨p + maxFeedTimes, ?_, by omega, fun j _ after moved => ?_, fun _ => ?_⟩
    · have := early moved
      rw [Nat.add_mul, Nat.add_one_mul]
      omega
    · have := last j moved
      omega
    · rwa [show p + maxFeedTimes + 1 - maxFeedTimes - 1 = p by omega]
  · refine ⟨maxFeedTimes - 1, ?_, by omega, fun j _ _ moved => some_moved ⟨j, moved⟩, by omega⟩
    calc (maxFeedTimes - 1) * timer < (maxFeedTimes + 1) * timer :=
          Nat.mul_lt_mul_of_pos_right (by omega) every
      _ ≤ N + (maxFeedTimes + 1) * timer := Nat.le_add_left _ _

theorem bark_guards (every : 0 < timer) (maxFeedTimes : Nat) : Guards chan timer chans maxFeedTimes
    (bark (addCheckPointChan { timer := timer, maxFeedTimes := maxFeedTimes } chans) chan) := by
  have start : Fed chan timer chans maxFeedTimes 0
      (addCheckPointChan { timer := timer, maxFeedTimes := maxFeedTimes } chans) :=
    ⟨rfl, rfl, rfl, ⟨le_rfl, by omega, by omega⟩, by simp [addCheckPointChan]⟩
  generalize addCheckPointChan { timer := timer, maxFeedTimes := maxFeedTimes } chans = w at start
  have barks (n : Nat) : ∃ u : Watchdog V, Fed chan timer chans maxFeedTimes (n / timer + 1) u ∧
      bark w chan n = if u.feedTimes = maxFeedTimes then some u.iterExe else none := by
    have fed := run_fed start n
    refine ⟨_, fed, ?_⟩
    conv_rhs => rw [← fed.limit]
    rfl
  have barks_iff (n : Nat) :
      (bark w chan n).isSome ↔ Failed chan timer chans (n / timer + 1) maxFeedTimes := by
    obtain ⟨u, fed, eq⟩ := barks n
    rw [eq]
    constructor
    · intro some
      have full : u.feedTimes = maxFeedTimes := by by_contra h; simp [h] at some
      exact full ▸ fed.failed
    · intro failed
      simp [fed.failed.unique failed]
  constructor
  · exact barks_iff
  · intro n iter some
    obtain ⟨u, fed, eq⟩ := barks n
    rw [eq] at some
    split_ifs at some with full
    rw [← Option.some.inj some, fed.iterExe, full]
    congr 1
    omega
  · intro n some cfg called c mem i after before
    exact Failed.quiet ((barks_iff n).mp some) (fun i => called i c mem) mem after before
  · intro N some_checks still
    obtain ⟨k, early, failed⟩ := Failed.exists_of_still every some_checks still
    refine ⟨k * timer, early, (barks_iff _).mpr ?_⟩
    rwa [Nat.mul_div_cancel _ every]

/-- A channel that sends in each of the first three iterations. -/
def stopping (n : Nat) (_ : Unit) : Chan := { chanDataCnt := min n 3 }

/-- The check in iteration 4 is the last that succeeds, and those in 6 and 8 fail. -/
theorem bark_guards_stopping :
    bark (addCheckPointChan { timer := 2, maxFeedTimes := 2 } [()]) stopping 8 = some 4 ∧
      Guards stopping 2 [()] 2 (bark (addCheckPointChan { timer := 2, maxFeedTimes := 2 } [()]) stopping) :=
  ⟨by decide, bark_guards (by decide) 2⟩

end Watchdog

end DataflowSim.Execution
