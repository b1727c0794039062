import Mathlib

/-!
# The clock of the memory

`dramUpdate` of `MemSystem.cpp`, which is called once for each host clock. Two counters advance in
the frequencies of the memory and of the host, and both start again when they meet.

The addition of the counters is a parameter: that of the natural numbers, or that of 64 bits.
-/

namespace DataflowSim.Memory

structure DramClock where
  hostCnt : Nat := 0
  dramCnt : Nat := 0
  /-- The calls of `ClockTick`. -/
  ticks : Nat := 0
  /-- The largest sum that was asked for. Nothing reads it. -/
  peak : Nat := 0
  deriving DecidableEq, Repr

namespace DramClock

section
variable (add : Nat → Nat → Nat) (hostClkFreqHz dramsimClkFreqHz : Nat)

/-- One turn of the loop. -/
def catchUpOnce (s : DramClock) : DramClock :=
  { s with
    hostCnt := add s.hostCnt hostClkFreqHz
    ticks := s.ticks + 1
    peak := max s.peak (s.hostCnt + hostClkFreqHz) }

def catchUp : Nat → DramClock → Option DramClock
  | 0, s => if s.hostCnt < s.dramCnt then none else some s
  | fuel + 1, s =>
    if s.hostCnt < s.dramCnt then catchUp fuel (catchUpOnce add hostClkFreqHz s) else some s

/-- The counter of the memory advances by its frequency. -/
def advance (s : DramClock) : DramClock :=
  { s with
    dramCnt := add s.dramCnt dramsimClkFreqHz
    peak := max s.peak (s.dramCnt + dramsimClkFreqHz) }

/-- The counters start again when they meet. -/
def meet (s : DramClock) : DramClock :=
  if s.hostCnt = s.dramCnt then { s with hostCnt := 0, dramCnt := 0 } else s

def dramUpdate (fuel : Nat) (s : DramClock) : Option DramClock :=
  if hostClkFreqHz = dramsimClkFreqHz then some { s with ticks := s.ticks + 1 }
  else (catchUp add hostClkFreqHz fuel (advance add dramsimClkFreqHz s)).map meet

/-- The state after a number of calls. -/
def calls (fuel : Nat) : Nat → Option DramClock
  | 0 => some {}
  | k + 1 => (calls fuel k).bind (dramUpdate add hostClkFreqHz dramsimClkFreqHz fuel)

end

/-- The addition of `uint64_t`. -/
def add64 (a b : Nat) : Nat := (a + b) % 2 ^ 64

/-- At a ratio of three to four, four calls are six ticks. -/
example : calls add64 3 4 4 4 = some { hostCnt := 6, dramCnt := 4, ticks := 6, peak := 12 } := by
  decide

/-! ## The invariant -/

/-- The counters after `k` calls: the host counter leads by less than a step, and what it leads by
is what the ticks are ahead. -/
structure Paced (fh fd top k : Nat) (s : DramClock) : Prop where
  paid : s.ticks * fh + s.dramCnt = k * fd + s.hostCnt
  behind : s.dramCnt ≤ s.hostCnt
  near : s.hostCnt < s.dramCnt + fh
  host : fh ∣ s.hostCnt
  dram : fd ∣ s.dramCnt
  low : s.dramCnt < top
  peak : s.peak ≤ top

variable {add : Nat → Nat → Nat} {fh fd top k : Nat} {s : DramClock}

theorem add_le_of_dvd {a b d : Nat} (ha : d ∣ a) (hb : d ∣ b) (lt : a < b) : a + d ≤ b := by
  obtain ⟨m, rfl⟩ := ha
  obtain ⟨n, rfl⟩ := hb
  have step : m + 1 ≤ n := Nat.lt_of_mul_lt_mul_left lt
  calc d * m + d = d * (m + 1) := by ring
    _ ≤ d * n := Nat.mul_le_mul_left d step

/-- The loop ends as soon as the host counter has caught up. -/
theorem catchUp_spec {fuel : Nat} (sums : ∀ a b, a + b ≤ top → add a b = a + b) (step : 0 < fh)
    (ends : fh ∣ top) (host : fh ∣ s.hostCnt) (low : s.dramCnt ≤ top) (peak : s.peak ≤ top)
    (near : s.hostCnt < s.dramCnt + fh) (enough : s.dramCnt ≤ s.hostCnt + fuel) :
    ∃ t, catchUp add fh fuel s = some t ∧ t.dramCnt = s.dramCnt ∧ t.dramCnt ≤ t.hostCnt ∧
      t.hostCnt < t.dramCnt + fh ∧ fh ∣ t.hostCnt ∧ t.peak ≤ top ∧
      t.ticks * fh + s.hostCnt = s.ticks * fh + t.hostCnt := by
  induction fuel generalizing s with
  | zero => exact ⟨s, by simp [catchUp]; omega, rfl, by omega, near, host, peak, rfl⟩
  | succ fuel ih =>
    by_cases late : s.hostCnt < s.dramCnt
    · have room := add_le_of_dvd host ends (late.trans_le low)
      have sum : (catchUpOnce add fh s).hostCnt = s.hostCnt + fh := sums _ _ room
      obtain ⟨t, run, dram, caught, near', host', peak', paid⟩ := @ih (catchUpOnce add fh s)
        (sum ▸ Nat.dvd_add_self_right.mpr host) low (max_le peak room)
        (by rw [sum]; exact Nat.add_lt_add_right late fh) (by
          have same : (catchUpOnce add fh s).dramCnt = s.dramCnt := rfl
          omega)
      refine ⟨t, by rw [catchUp, if_pos late, run], dram, caught, near', host', peak', ?_⟩
      rw [sum] at paid
      simp only [catchUpOnce, Nat.succ_mul] at paid
      omega
    · exact ⟨s, by rw [catchUp, if_neg late], rfl, by omega, near, host, peak, rfl⟩

theorem Paced.dramUpdate (h : Paced fh fd top k s) (sums : ∀ a b, a + b ≤ top → add a b = a + b)
    (step : 0 < fh) (hostEnds : fh ∣ top) (dramEnds : fd ∣ top) :
    ∃ t, DramClock.dramUpdate add fh fd fd s = some t ∧ Paced fh fd top (k + 1) t := by
  by_cases same : fh = fd
  · refine ⟨_, if_pos same, { h with paid := ?_ }⟩
    have paid := h.paid
    simp only [Nat.succ_mul, same] at paid ⊢
    omega
  · have room := add_le_of_dvd h.dram dramEnds h.low
    have sum : (advance add fd s).dramCnt = s.dramCnt + fd := sums _ _ room
    have same_host : (advance add fd s).hostCnt = s.hostCnt := rfl
    have near := h.near
    have behind := h.behind
    obtain ⟨t, run, dram, caught, near', host, peak, paid⟩ := @catchUp_spec add fh top
      (advance add fd s) fd sums step hostEnds h.host (sum ▸ room) (max_le h.peak room) (by omega)
      (by omega)
    refine ⟨meet t, by rw [DramClock.dramUpdate, if_neg same, run]; rfl, ?_⟩
    have total : t.ticks * fh + t.dramCnt = (k + 1) * fd + t.hostCnt := by
      have before := h.paid
      have same_ticks : (advance add fd s).ticks = s.ticks := rfl
      rw [same_ticks, same_host] at paid
      rw [Nat.succ_mul, dram, sum]
      omega
    unfold meet
    split_ifs with met
    · have pos : 0 < top := Nat.zero_lt_of_lt h.low
      refine ⟨?_, le_rfl, by simpa using step, dvd_zero _, dvd_zero _, pos, peak⟩
      dsimp only
      omega
    · refine ⟨total, caught, near', host, ?_, ?_, peak⟩
      · rw [dram, sum]
        exact Nat.dvd_add_self_right.mpr h.dram
      · -- the host counter cannot be between two multiples of its step
        refine lt_of_le_of_ne (dram ▸ sum ▸ room) fun full => ?_
        have beyond := add_le_of_dvd hostEnds host (by omega)
        omega

theorem Paced.ticks (h : Paced fh fd top k s) (step : 0 < fh) : s.ticks = (k * fd) ⌈/⌉ fh := by
  have paid := h.paid
  have behind := h.behind
  have near := h.near
  refine le_antisymm ?_ ((ceilDiv_le_iff_le_mul step).mpr ?_)
  · by_contra more
    have enough : k * fd ≤ fh * ((k * fd) ⌈/⌉ fh) := (ceilDiv_le_iff_le_mul step).mp le_rfl
    have next : fh * ((k * fd) ⌈/⌉ fh + 1) ≤ fh * s.ticks := Nat.mul_le_mul_left fh (by omega)
    rw [Nat.mul_add, Nat.mul_comm fh s.ticks] at next
    omega
  · rw [Nat.mul_comm fh]
    omega

theorem calls_paced (sums : ∀ a b, a + b ≤ Nat.lcm fh fd → add a b = a + b) (host : 0 < fh)
    (dram : 0 < fd) (k : Nat) :
    ∃ s, calls add fh fd fd k = some s ∧ Paced fh fd (Nat.lcm fh fd) k s := by
  induction k with
  | zero =>
    exact ⟨_, rfl, ⟨by simp, le_rfl, by simpa using host, dvd_zero _, dvd_zero _,
      Nat.lcm_pos host dram, Nat.zero_le _⟩⟩
  | succ k ih =>
    obtain ⟨s, run, paced⟩ := ih
    obtain ⟨t, one, paced'⟩ := paced.dramUpdate sums host (Nat.dvd_lcm_left fh fd)
      (Nat.dvd_lcm_right fh fd)
    exact ⟨t, by rw [calls, run, Option.bind_some, one], paced'⟩

/-- After any number of calls the memory has ticked as often as the frequencies say, the host
counter is not behind, and the same holds of 64 bits as long as the least common multiple fits. -/
theorem calls_ticks (fh fd : Nat) (host : 0 < fh) (dram : 0 < fd) :
    ∃ fuel, ∀ k, (∃ s, calls (· + ·) fh fd fuel k = some s ∧ s.ticks = (k * fd) ⌈/⌉ fh ∧
        s.dramCnt ≤ s.hostCnt) ∧
      (Nat.lcm fh fd < 2 ^ 64 → ∃ s, calls add64 fh fd fuel k = some s ∧
        s.ticks = (k * fd) ⌈/⌉ fh ∧ s.dramCnt ≤ s.hostCnt ∧ s.peak < 2 ^ 64) := by
  refine ⟨fd, fun k => ⟨?_, fun fits => ?_⟩⟩
  · obtain ⟨s, run, paced⟩ := @calls_paced (· + ·) fh fd (fun a b _ => rfl) host dram k
    exact ⟨s, run, paced.ticks host, paced.behind⟩
  · obtain ⟨s, run, paced⟩ := @calls_paced add64 fh fd
      (fun a b le => Nat.mod_eq_of_lt (le.trans_lt fits)) host dram k
    exact ⟨s, run, paced.ticks host, paced.behind, paced.peak.trans_lt fits⟩

/-- A host of 1 GHz and a memory of 1.5 ns. -/
theorem calls_ticks_ddr : ∃ fuel, ∀ k,
    (∃ s, calls (· + ·) 1000000000 666666666 fuel k = some s ∧
        s.ticks = (k * 666666666) ⌈/⌉ 1000000000 ∧ s.dramCnt ≤ s.hostCnt) ∧
      (Nat.lcm 1000000000 666666666 < 2 ^ 64 → ∃ s,
        calls add64 1000000000 666666666 fuel k = some s ∧
        s.ticks = (k * 666666666) ⌈/⌉ 1000000000 ∧ s.dramCnt ≤ s.hostCnt ∧ s.peak < 2 ^ 64) :=
  calls_ticks 1000000000 666666666 (by decide) (by decide)

end DramClock

end DataflowSim.Memory
