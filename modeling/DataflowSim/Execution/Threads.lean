import DataflowSim.Execution.Speedup

/-!
# Threads and the clock

With `S` the maximum of the speedups, the clock advances once in `S` iterations. In the
`j`-th iteration of a clock, counted from zero, a module of speedup `s` above one has the
thread id `j + 1`, at most `s + 1`, and stalls the clock while `j + 1 < s`. It updates its
status in its own iterations only; a module of speedup one does not count threads and updates
its status in all of them. The memory system looks at the position of the current thread of
an LSE in every iteration, also when its threads are through.
-/

namespace DataflowSim.Execution.Design

variable {d : Design}

theorem speedup_le_max {m : Nat} (bound : m < d.num) : d.speedup m ≤ d.maxSpeedup :=
  (Finset.le_sup (Finset.mem_range.mpr bound)).trans (le_max_right ..)

theorem maxSpeedup_le_iff {b : Nat} :
    d.maxSpeedup ≤ b ↔ 1 ≤ b ∧ ∀ m < d.num, d.speedup m ≤ b := by
  simp [maxSpeedup]

theorem maxSpeedup_pos : 1 ≤ d.maxSpeedup := le_max_left ..

theorem Complete.mem {calls : List Call} (complete : d.Complete calls) {m : Nat} :
    m ∈ updated calls ↔ m < d.num :=
  complete.mem_iff.trans List.mem_range

theorem Complete.once {calls : List Call} (complete : d.Complete calls) : (updated calls).Nodup :=
  complete.nodup_iff.mpr List.nodup_range

/-- The thread id of a module in the `j`-th iteration of a clock. -/
def threadId (d : Design) (j m : Nat) : Nat :=
  if 1 < d.speedup m then min (j + 1) (d.speedup m + 1) else 1

theorem threadId_pos (j m : Nat) : 1 ≤ d.threadId j m := by
  unfold threadId
  split_ifs <;> omega

theorem threadId_le_iff {j m : Nat} (threads : 1 < d.speedup m) :
    d.threadId j m ≤ d.speedup m ↔ j < d.speedup m := by
  rw [threadId, if_pos threads]
  omega

/-- The `j`-th iteration of a clock is over. -/
structure At (s : System d) (j : Nat) : Prop where
  ids : ∀ m < d.num, (s.core m).currId = d.threadId j m
  stall : s.clock.clkStall = [] ↔ j + 1 = d.maxSpeedup

/-- The `j`-th iteration of a clock is next. -/
structure Ready (s : System d) (j : Nat) : Prop where
  within : j < d.maxSpeedup
  clkAdd : s.clock.clkUpdate.clkAdd = decide (j = 0)
  clk : s.clock.clkUpdate.clk = s.clock.clk + if j = 0 then 1 else 0
  stall : s.clock.clkUpdate.clkStall = []
  next : ∀ m < d.num,
    System.next { s with clock := s.clock.clkUpdate } m = d.threadId j m

theorem ready_zero {s : System d} (through : s.clock.clkStall = [])
    (slow : ∀ m < d.num, ¬ 1 < d.speedup m → (s.core m).currId = 1) : Ready s 0 := by
  have updated : s.clock.clkUpdate = { clk := s.clock.clk + 1, clkAdd := true } := by
    simp [ClkDomain.clkUpdate, through]
  refine ⟨maxSpeedup_pos, by simp [updated], by simp [updated], by simp [updated], ?_⟩
  intro m bound
  simp only [System.next, updated, Chan.nextId, threadId, ↓reduceIte]
  change (if 1 < d.speedup m then 1 else (s.core m).currId) = _
  split_ifs with threads
  · omega
  · exact slow m bound threads

theorem ready_succ {s : System d} {j : Nat} (passed : At s j) (left : j + 1 < d.maxSpeedup) :
    Ready s (j + 1) := by
  have stalled : s.clock.clkStall ≠ [] := fun through => by
    have := passed.stall.mp through
    omega
  have updated : s.clock.clkUpdate = { clk := s.clock.clk, clkAdd := false } := by
    simp [ClkDomain.clkUpdate, stalled]
  refine ⟨left, by simp [updated], by simp [updated], by simp [updated], ?_⟩
  intro m bound
  have before := passed.ids m bound
  simp only [System.next, updated, Chan.nextId, Bool.false_eq_true, ↓reduceIte]
  change (if 1 < d.speedup m then
    if (s.core m).currId ≤ d.speedup m then (s.core m).currId + 1 else (s.core m).currId
    else (s.core m).currId) = _
  rw [before]
  unfold threadId
  split_ifs with threads <;> omega

/-- What one iteration does, from what is known before it. -/
structure Iterated (s t : System d) (j : Nat) : Prop where
  passed : At t j
  clk : t.clock.clk = s.clock.clk + if j = 0 then 1 else 0
  status : ∀ m < d.num, (d.config m).isDgsf = false →
    (t.core m).statusUpdates = (s.core m).statusUpdates +
        (if d.threadId j m ≤ d.speedup m then 1 else 0) ∧
      ((t.core m).valid = true → d.threadId j m ≤ d.speedup m)
  accesses : ∀ m < d.num, ∀ a ∈ t.accesses m,
    a ∈ s.accesses m ∨ a = (s.core m).currId ∨ a = d.threadId j m

theorem Ready.iterate {s : System d} {j : Nat} (ready : Ready s j) {calls : List Call}
    (complete : d.Complete calls) : Iterated s (s.iterate calls) j := by
  have called := System.calls_called { s with clock := s.clock.clkUpdate } complete.once
  change System.Called _ (s.iterate calls) calls at called
  generalize s.iterate calls = t at called
  have first (m : Nat) (bound : m < d.num) : s.clock.clkUpdate.clkAdd = true →
      System.next { s with clock := s.clock.clkUpdate } m ≤ d.speedup m := by
    intro added
    obtain rfl : j = 0 := by simpa [ready.clkAdd] using added
    rw [ready.next m bound, threadId]
    have positive : 1 ≤ d.speedup m := d.threads m
    split_ifs <;> omega
  refine ⟨⟨?_, ?_⟩, ?_, ?_, ?_⟩
  · intro m bound
    rw [called.currId, if_pos (complete.mem.mpr bound), ready.next m bound]
  · rw [called.stall]
    have within := ready.within
    have all : (∀ m ∈ updated calls, 1 < d.speedup m → d.speedup m ≤
        System.next { s with clock := s.clock.clkUpdate } m) ↔ d.maxSpeedup ≤ j + 1 := by
      rw [maxSpeedup_le_iff]
      constructor
      · intro done
        refine ⟨by omega, fun m bound => ?_⟩
        by_cases threads : 1 < d.speedup m
        · have := done m (complete.mem.mpr bound) threads
          rw [ready.next m bound, threadId, if_pos threads] at this
          omega
        · omega
      · rintro ⟨-, done⟩ m mem threads
        have bound := complete.mem.mp mem
        have := done m bound
        rw [ready.next m bound, threadId, if_pos threads]
        omega
    rw [all]
    constructor
    · rintro ⟨-, done⟩
      omega
    · intro last
      exact ⟨ready.stall, last.ge⟩
  · have same : t.clock.clk = s.clock.clkUpdate.clk := congrArg Clock.clk called.clock
    rw [same, ready.clk]
  · intro m bound plain
    have status := called.status m (complete.mem.mpr bound) plain (first m bound)
    rwa [ready.next m bound] at status
  · intro m bound a mem
    have := called.accesses m a mem
    rwa [ready.next m bound] at this

/-- Where a run stands: in the `j`-th iteration of the `q`-th clock. -/
structure Standing (s : System d) (n : Nat) : Prop where
  ready : Ready s (n % d.maxSpeedup)
  ids : ∀ m < d.num, ∃ i < d.maxSpeedup, (s.core m).currId = d.threadId i m

theorem initial_core (m : Nat) : ((initial d).core m).currId = 1 := by
  unfold System.core initial
  dsimp only
  cases d.config m with
  | chan c =>
    simp only [ModuleConfig.initial, ModuleConfig.core, Chan.initial]
    split <;> rfl
  | lse c lc => rfl

theorem initial_standing (d : Design) : Standing (initial d) 0 := by
  constructor
  · rw [Nat.zero_mod]
    exact ready_zero rfl fun m _ _ => initial_core m
  · intro m bound
    refine ⟨0, maxSpeedup_pos, ?_⟩
    have positive : 1 ≤ d.speedup m := d.threads m
    rw [initial_core, threadId]
    split_ifs <;> omega

/-- The next iteration is the next of the same clock, or the first of the next clock. -/
theorem Standing.iterate {s : System d} {n : Nat} (h : Standing s n) {calls : List Call}
    (complete : d.Complete calls) :
    Iterated s (s.iterate calls) (n % d.maxSpeedup) ∧ Standing (s.iterate calls) (n + 1) := by
  have iterated := h.ready.iterate complete
  have within := h.ready.within
  refine ⟨iterated, ?_, fun m bound => ⟨_, within, iterated.passed.ids m bound⟩⟩
  by_cases last : n % d.maxSpeedup + 1 = d.maxSpeedup
  · have first : (n + 1) % d.maxSpeedup = 0 := by
      rw [Nat.add_mod, ← Nat.mod_add_mod, Nat.mod_mod, ← Nat.add_mod, ← Nat.mod_add_mod, last,
        Nat.mod_self]
    rw [first]
    refine ready_zero (iterated.passed.stall.mpr last) fun m bound slow => ?_
    rw [iterated.passed.ids m bound, threadId, if_neg slow]
  · have next : (n + 1) % d.maxSpeedup = n % d.maxSpeedup + 1 := by
      rw [← Nat.mod_add_mod, Nat.mod_eq_of_lt (by omega)]
    rw [next]
    exact ready_succ iterated.passed (by omega)

theorem run_standing {its : List (List Call)} (complete : ∀ calls ∈ its, d.Complete calls) :
    Standing (d.run its) its.length := by
  induction its using List.reverseRecOn with
  | nil => exact initial_standing d
  | append_singleton its calls ih =>
    have before := ih fun c mem => complete c (List.mem_append_left _ mem)
    have after := (before.iterate (complete calls (by simp))).2
    rw [List.length_append, List.length_singleton]
    unfold run at after ⊢
    rwa [List.foldl_append]

theorem run_iterated {its : List (List Call)} (complete : ∀ calls ∈ its, d.Complete calls)
    {calls : List Call} (last : d.Complete calls) :
    Iterated (d.run its) (d.run (its ++ [calls])) (its.length % d.maxSpeedup) := by
  have step := ((run_standing complete).iterate last).1
  unfold run at step ⊢
  rwa [List.foldl_append]

/-! ## The clock law -/

/-- The clock advances once in `S` iterations, and each module that is not a `ChanDGSF`
updates its status in the first iterations of each clock, as many as its speedup, and sends
at most that many data. -/
structure SpeedupLaw (d : Design) : Prop where
  advance : ∀ (its : List (List Call)) (calls : List Call), (∀ c ∈ its, d.Complete c) → d.Complete calls →
    (d.run (its ++ [calls])).clock.clk =
      (d.run its).clock.clk + if its.length % d.maxSpeedup = 0 then 1 else 0
  status : ∀ (its : List (List Call)) (calls : List Call), (∀ c ∈ its, d.Complete c) → d.Complete calls → ∀ m < d.num,
    (d.config m).isDgsf = false → ((d.run (its ++ [calls])).core m).statusUpdates =
      ((d.run its).core m).statusUpdates +
        if its.length % d.maxSpeedup < d.speedup m then 1 else 0
  sends : ∀ its clock : List (List Call), (∀ c ∈ its, d.Complete c) → (∀ c ∈ clock, d.Complete c) →
    its.length % d.maxSpeedup = 0 → clock.length = d.maxSpeedup → ∀ m < d.num,
    (d.config m).isDgsf = false → (List.range d.maxSpeedup).countP (fun j =>
      ((d.run (its ++ clock.take (j + 1))).core m).valid) ≤ d.speedup m

/-- Update all modules in their order, without data. -/
def updateAll (d : Design) : List Call :=
  (List.range d.num).map fun m => .get m ⟨fun _ => {}, [], false, []⟩

theorem updateAll_complete (d : Design) : d.Complete d.updateAll := by
  unfold Complete updateAll
  rw [List.filterMap_map]
  change ((List.range d.num).filterMap some).Perm _
  rw [List.filterMap_some]

/-- A module of speedup one next to a faster one does not wait for the clock. -/
theorem slow_breaks_law {m : Nat} (bound : m < d.num) (plain : (d.config m).isDgsf = false)
    (slow : d.speedup m = 1) (faster : d.maxSpeedup ≠ 1) : ¬ SpeedupLaw d := by
  intro law
  have positive := maxSpeedup_pos (d := d)
  have one : 1 % d.maxSpeedup = 1 := Nat.mod_eq_of_lt (by omega)
  have all : ∀ c ∈ [d.updateAll], d.Complete c := by
    simpa using updateAll_complete d
  have expected := law.status [d.updateAll] d.updateAll all (updateAll_complete d) m bound plain
  have actual := ((run_iterated all (updateAll_complete d)).status m bound plain).1
  rw [List.length_singleton, one, slow, if_neg (by omega)] at expected
  have own : d.threadId 1 m = 1 := by rw [threadId, if_neg (by omega)]
  rw [List.length_singleton, one, own, slow, if_pos le_rfl] at actual
  omega

/-- The number of a module's own iterations in one clock. -/
theorem own_iterations (s n : Nat) (p : Nat → Bool) (own : ∀ j < n, p j = true → j < s) :
    (List.range n).countP p ≤ s := by
  have within : (List.range n).countP p ≤ (List.range n).countP (· < s) := by
    apply List.countP_mono_left
    intro j mem holds
    simpa using own j (List.mem_range.mp mem) holds
  have count : ∀ n, (List.range n).countP (· < s) ≤ s ∧ (List.range n).countP (· < s) ≤ n := by
    intro n
    induction n with
    | zero => simp
    | succ n ih =>
      rw [List.range_succ, List.countP_append, List.countP_singleton]
      split_ifs with lt
      · have : n < s := by simpa using lt
        omega
      · omega
  exact within.trans (count n).1

/-- The law holds exactly when no module of speedup one is driven by a faster clock. -/
theorem speedup_law_iff (d : Design) : SpeedupLaw d ↔
    d.maxSpeedup = 1 ∨ ∀ m < d.num, (d.config m).isDgsf = false → 1 < d.speedup m := by
  constructor
  · intro law
    by_contra broken
    rw [not_or] at broken
    obtain ⟨faster, some_slow⟩ := broken
    push Not at some_slow
    obtain ⟨m, bound, plain, slow⟩ := some_slow
    have positive : 1 ≤ d.speedup m := d.threads m
    exact slow_breaks_law bound plain (by omega) faster law
  · intro condition
    have own {m n : Nat} (bound : m < d.num) (plain : (d.config m).isDgsf = false) :
        d.threadId (n % d.maxSpeedup) m ≤ d.speedup m ↔ n % d.maxSpeedup < d.speedup m := by
      by_cases threads : 1 < d.speedup m
      · exact threadId_le_iff threads
      · have one : d.maxSpeedup = 1 := condition.resolve_right fun all => threads (all m bound plain)
        have positive : 1 ≤ d.speedup m := d.threads m
        rw [one, Nat.mod_one, threadId, if_neg threads]
        omega
    refine ⟨fun its calls before last => (run_iterated before last).clk, ?_, ?_⟩
    · intro its calls before last m bound plain
      rw [((run_iterated before last).status m bound plain).1]
      simp only [own bound plain]
    · intro its clock before during start length m bound plain
      refine own_iterations _ _ _ fun j within valid => ?_
      have here : j < clock.length := by omega
      rw [← List.take_concat_get' clock j here, ← List.append_assoc] at valid
      have complete : ∀ c ∈ its ++ clock.take j, d.Complete c := by
        intro c mem
        obtain old | new := List.mem_append.mp mem
        · exact before c old
        · exact during c (List.mem_of_mem_take new)
      have sent := ((run_iterated complete (during _ (List.getElem_mem here))).status m bound
        plain).2 valid
      rw [own bound plain, List.length_append, List.length_take_of_le here.le, Nat.add_mod, start,
        Nat.zero_add, Nat.mod_mod, Nat.mod_eq_of_lt within] at sent
      exact sent

/-- Two channels without neighbours, of the given speedups. -/
def pair (a b : Nat) (ha : 1 ≤ a) (hb : 1 ≤ b) : Design where
  num := 2
  config m := .chan { size := 1, upNum := 0, speedup := if m = 0 then a else b }
  threads m := by
    simp only [ModuleConfig.base]
    split_ifs <;> assumption

/-- A channel of speedup one next to one of speedup two updates its status in both iterations
of a clock. -/
theorem pair_breaks_law : ¬ SpeedupLaw (pair 1 2 le_rfl (by omega)) :=
  slow_breaks_law (m := 0) (by decide) rfl rfl (by decide)

/-! ## The positions of the suspended requests -/

/-- Every access of `suspendReqVec` has the thread id of a position. -/
def SuspendSafe (d : Design) : Prop :=
  ∀ its, (∀ c ∈ its, d.Complete c) → ∀ m < d.num, ∀ a ∈ (d.run its).accesses m,
    1 ≤ a ∧ a ≤ d.speedup m

theorem accesses_of_not_lse (s : System d) {m : Nat} (plain : (d.config m).isLse = false) :
    s.accesses m = [] := by
  unfold System.accesses
  generalize s.modules m = x
  revert x plain
  cases d.config m with
  | chan c => exact fun _ _ => rfl
  | lse c lc => exact fun plain => absurd plain (by simp [ModuleConfig.isLse])

/-- The memory system looks at the position of the current thread. -/
theorem visit_accesses (s : System d) {m : Nat} (lse : (d.config m).isLse = true) :
    (s.core m).currId ∈ (s.call (.visit m none)).accesses m := by
  unfold System.call
  rw [System.set_accesses]
  unfold System.core
  generalize s.modules m = x
  revert x lse
  cases d.config m with
  | chan c => exact fun lse => absurd lse (by simp [ModuleConfig.isLse])
  | lse c lc =>
    intro _ x
    have seen : (x.visit none).accesses = x.accesses ++ [x.currId] := by
      unfold Lse.visit
      split
      · simp_all
      · rfl
    change x.currId ∈ (x.visit none).accesses
    rw [seen]
    simp

/-- An LSE that is slower than the clock is visited with a thread id above its speedup. -/
theorem slower_breaks_suspend {m : Nat} (bound : m < d.num) (lse : (d.config m).isLse = true)
    (threads : 1 < d.speedup m) (slower : d.speedup m < d.maxSpeedup) : ¬ SuspendSafe d := by
  intro safe
  have all : ∀ c ∈ List.replicate (d.speedup m) d.updateAll, d.Complete c := by
    intro c mem
    rw [List.eq_of_mem_replicate mem]
    exact updateAll_complete d
  have visiting : d.Complete (d.updateAll ++ [.visit m none]) := by
    have complete := updateAll_complete d
    unfold Complete at complete ⊢
    rw [List.filterMap_append, show [Call.visit m none].filterMap Call.updated = [] from rfl,
      List.append_nil]
    exact complete
  have passed := (run_iterated all (updateAll_complete d)).passed.ids m bound
  rw [List.length_replicate, Nat.mod_eq_of_lt slower, threadId, if_pos threads] at passed
  have seen : (d.run (List.replicate (d.speedup m) d.updateAll ++
      [d.updateAll ++ [.visit m none]])) =
      (d.run (List.replicate (d.speedup m) d.updateAll ++ [d.updateAll])).call (.visit m none) := by
    simp only [run, List.foldl_append, List.foldl_cons, List.foldl_nil, System.iterate]
  have complete : ∀ c ∈ List.replicate (d.speedup m) d.updateAll ++
      [d.updateAll ++ [.visit m none]], d.Complete c := by
    intro c mem
    obtain old | new := List.mem_append.mp mem
    · exact all c old
    · rw [List.mem_singleton.mp new]
      exact visiting
  have within := (safe _ complete m bound _ (seen ▸ visit_accesses _ lse)).2
  omega

/-- The accesses are safe exactly when each LSE is as fast as the clock, or does not count
threads. -/
theorem suspend_safe_iff (d : Design) : SuspendSafe d ↔
    ∀ m < d.num, (d.config m).isLse = true →
      d.speedup m = 1 ∨ d.speedup m = d.maxSpeedup := by
  constructor
  · intro safe m bound lse
    by_contra neither
    have positive : 1 ≤ d.speedup m := d.threads m
    have le := speedup_le_max bound
    exact slower_breaks_suspend bound lse (by omega) (by omega) safe
  · intro fast its complete m bound
    cases lse : (d.config m).isLse with
    | false => simp [accesses_of_not_lse _ lse]
    | true =>
      have range (j : Nat) (within : j < d.maxSpeedup) :
          1 ≤ d.threadId j m ∧ d.threadId j m ≤ d.speedup m := by
        refine ⟨threadId_pos j m, ?_⟩
        have positive : 1 ≤ d.speedup m := d.threads m
        have same := fast m bound lse
        unfold threadId
        split_ifs <;> omega
      induction its using List.reverseRecOn with
      | nil =>
        have none : (d.run []).accesses m = [] := by
          change (initial d).accesses m = []
          unfold System.accesses initial
          dsimp only
          cases d.config m <;> rfl
        simp [none]
      | append_singleton its calls ih =>
        have before : ∀ c ∈ its, d.Complete c := fun c mem =>
          complete c (List.mem_append_left _ mem)
        have standing := run_standing before
        have step := run_iterated before (complete calls (by simp))
        obtain ⟨i, within, current⟩ := standing.ids m bound
        intro a mem
        obtain old | rfl | rfl := step.accesses m bound a mem
        · exact ih before a old
        · rw [current]
          exact range i within
        · exact range _ standing.ready.within

/-- An LSE of speedup two next to a channel of speedup three. -/
def slowLse : Design where
  num := 2
  config m := if m = 0 then .lse { size := 1, upNum := 0, speedup := 2 } { reqQueueSize := 1 }
    else .chan { size := 1, upNum := 0, speedup := 3 }
  threads m := by
    split_ifs <;> decide

/-- In the third iteration of a clock the memory system looks at the third position of two. -/
theorem slowLse_breaks_suspend : ¬ SuspendSafe slowLse :=
  slower_breaks_suspend (m := 0) (by decide) rfl (by decide) (by decide)

end DataflowSim.Execution.Design
