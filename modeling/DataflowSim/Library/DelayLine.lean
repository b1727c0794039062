import Mathlib

/-!
# Delay lines

What is pushed into the line leaves it at the front after a number of ticks. Every tick counts
all entries down and releases those at the front whose count has ended, so it looks at the front
only; the entries leave in the order of arrival because the counts grow along the line.
-/

namespace DelayLine

variable {α : Type*}

inductive Event (α : Type*) where
  | push (a : α)
  | tick
  deriving DecidableEq, Repr

def push (delay : Nat) (queue : List (α × Nat)) (a : α) : List (α × Nat) := queue ++ [(a, delay)]

def countDown (queue : List (α × Nat)) : List (α × Nat) := queue.map fun r => (r.1, r.2 - 1)

/-- What leaves the line at a tick, and what stays. -/
def tick (queue : List (α × Nat)) : List α × List (α × Nat) :=
  (((countDown queue).takeWhile fun r => r.2 == 0).map Prod.fst,
    (countDown queue).dropWhile fun r => r.2 == 0)

/-- The line and what left it, tick by tick. -/
structure Line (α : Type*) where
  queue : List (α × Nat) := []
  out : List (List α) := []

def step (delay : Nat) (s : Line α) : Event α → Line α
  | .push a => { s with queue := push delay s.queue a }
  | .tick => { queue := (tick s.queue).2, out := s.out ++ [(tick s.queue).1] }

def run (delay : Nat) (events : List (Event α)) : Line α := events.foldl (step delay) {}

def ticks : List (Event α) → Nat
  | [] => 0
  | .push _ :: events => ticks events
  | .tick :: events => ticks events + 1

/-- What is pushed, with the number of ticks before it. -/
def arrivals : Nat → List (Event α) → List (α × Nat)
  | _, [] => []
  | n, .push a :: events => (a, n) :: arrivals n events
  | n, .tick :: events => arrivals (n + 1) events

/-- The tick, counted from one, at which an arrival leaves. -/
def due (delay : Nat) (a : α × Nat) : Nat := a.2 + max delay 1

/-! ## One more event -/

variable {delay : Nat} {events : List (Event α)} {e : Event α} {a : α}

theorem run_concat : run delay (events ++ [e]) = step delay (run delay events) e := by
  simp [run]

@[simp] theorem ticks_push : ticks (events ++ [.push a]) = ticks events := by
  induction events with
  | nil => rfl
  | cons e events ih => cases e <;> simp [ticks, ih]

@[simp] theorem ticks_tick : ticks (events ++ [.tick]) = ticks events + 1 := by
  induction events with
  | nil => rfl
  | cons e events ih => cases e <;> simp [ticks, ih]

theorem arrivals_push (n : Nat) :
    arrivals n (events ++ [.push a]) = arrivals n events ++ [(a, n + ticks events)] := by
  induction events generalizing n with
  | nil => rfl
  | cons e events ih => cases e <;> simp [arrivals, ticks, ih, Nat.add_comm, Nat.add_left_comm]

theorem arrivals_tick (n : Nat) : arrivals n (events ++ [.tick]) = arrivals n events := by
  induction events generalizing n with
  | nil => rfl
  | cons e events ih => cases e <;> simp [arrivals, ih]

/-- Arrivals come after the ticks before them, and in order. -/
theorem arrivals_sorted (n : Nat) (events : List (Event α)) :
    (∀ a ∈ arrivals n events, n ≤ a.2 ∧ a.2 ≤ n + ticks events) ∧
      (arrivals n events).Pairwise fun a b => a.2 ≤ b.2 := by
  induction events generalizing n with
  | nil => simp [arrivals]
  | cons e events ih =>
    cases e with
    | push a =>
      obtain ⟨bounds, sorted⟩ := ih n
      refine ⟨List.forall_mem_cons.mpr ⟨⟨le_rfl, Nat.le_add_right _ _⟩, bounds⟩, ?_⟩
      exact List.pairwise_cons.mpr ⟨fun b mem => (bounds b mem).1, sorted⟩
    | tick =>
      obtain ⟨bounds, sorted⟩ := ih (n + 1)
      refine ⟨fun a mem => ?_, sorted⟩
      have bound := bounds a mem
      simp only [ticks]
      omega

/-! ## The front of a sorted list -/

/-- A property of the first elements only. -/
theorem takeWhile_eq_filter {p : α → Bool} {l : List α}
    (first : l.Pairwise fun a b => p b = true → p a = true) :
    l.takeWhile p = l.filter p ∧ l.dropWhile p = l.filter fun a => !p a := by
  induction l with
  | nil => exact ⟨rfl, rfl⟩
  | cons a l ih =>
    obtain ⟨here, rest⟩ := List.pairwise_cons.mp first
    obtain ⟨taken, dropped⟩ := ih rest
    cases holds : p a with
    | true => simp [holds, taken, dropped]
    | false =>
      have none : ∀ b ∈ l, p b = false := fun b mem => by
        by_contra other
        simp [here b mem (by simpa using other)] at holds
      have empty : l.filter p = [] := List.filter_eq_nil_iff.mpr fun b mem => by simp [none b mem]
      have whole : (l.filter fun a => !p a) = l :=
        List.filter_eq_self.mpr fun b mem => by simp [none b mem]
      simp [holds, empty, whole]

/-! ## The law -/

/-- The arrivals that are still in the line after `n` ticks, with what is left of their counts. -/
def waiting (delay n : Nat) (l : List (α × Nat)) : List (α × Nat) :=
  (l.filter fun a => n < due delay a).map fun a => (a.1, a.2 + delay - n)

/-- One tick of a line that holds what waits in it. -/
theorem tick_waiting {n : Nat} {l : List (α × Nat)} (sorted : l.Pairwise fun a b => a.2 ≤ b.2)
    (before : ∀ a ∈ l, a.2 ≤ n) :
    tick (waiting delay n l) =
      ((l.filter fun a => due delay a = n + 1).map Prod.fst, waiting delay (n + 1) l) := by
  let view : α × Nat → α × Nat := fun a => (a.1, a.2 + delay - (n + 1))
  let ready : α × Nat → Bool := fun a => a.2 + delay - (n + 1) == 0
  set rest := l.filter fun a => n < due delay a
  have counted : countDown (waiting delay n l) = rest.map view := by
    simp [countDown, waiting, view, rest, Nat.sub_sub]
  have first : rest.Pairwise fun a b => ready b = true → ready a = true := by
    refine (sorted.filter _).imp fun {a b} le => ?_
    simp only [ready, beq_iff_eq]
    omega
  obtain ⟨taken, dropped⟩ := takeWhile_eq_filter first
  have now : rest.filter ready = l.filter fun a => due delay a = n + 1 := by
    rw [List.filter_filter]
    refine List.filter_congr fun a mem => ?_
    have early := before a mem
    rw [Bool.eq_iff_iff]
    simp only [ready, Bool.and_eq_true, beq_iff_eq, decide_eq_true_eq]
    unfold due
    omega
  have later : (rest.filter fun a => !ready a) = l.filter fun a => n + 1 < due delay a := by
    rw [List.filter_filter]
    refine List.filter_congr fun a mem => ?_
    have early := before a mem
    rw [Bool.eq_iff_iff]
    simp only [ready, Bool.and_eq_true, Bool.not_eq_true', beq_eq_false_iff_ne, decide_eq_true_eq]
    unfold due
    omega
  rw [tick, counted, List.takeWhile_map, List.dropWhile_map]
  refine Prod.ext ?_ ?_
  · change ((rest.takeWhile ready).map view).map Prod.fst = _
    rw [taken, now, List.map_map]
    rfl
  · change (rest.dropWhile ready).map view = _
    rw [dropped, later]
    rfl

theorem run_queue (delay : Nat) (events : List (Event α)) :
    (run delay events).queue = waiting delay (ticks events) (arrivals 0 events) := by
  induction events using List.reverseRecOn with
  | nil => rfl
  | append_singleton events e ih =>
    obtain ⟨bounds, sorted⟩ := arrivals_sorted 0 events
    have before : ∀ a ∈ arrivals 0 events, a.2 ≤ ticks events := fun a mem => by
      simpa using (bounds a mem).2
    rw [run_concat]
    cases e with
    | push a =>
      have stays : ticks events < due delay (a, ticks events) := by
        simp only [due]
        omega
      rw [step, push, ih, arrivals_push, ticks_push]
      simp [waiting, stays]
    | tick => rw [step, ih, tick_waiting sorted before, ticks_tick, arrivals_tick]

/-- Every arrival leaves at the tick that it is due at. -/
theorem run_out (delay : Nat) (events : List (Event α)) :
    (run delay events).out = (List.range (ticks events)).map fun m =>
      ((arrivals 0 events).filter fun a => due delay a = m + 1).map Prod.fst := by
  induction events using List.reverseRecOn with
  | nil => rfl
  | append_singleton events e ih =>
    obtain ⟨bounds, sorted⟩ := arrivals_sorted 0 events
    have before : ∀ a ∈ arrivals 0 events, a.2 ≤ ticks events := fun a mem => by
      simpa using (bounds a mem).2
    rw [run_concat]
    cases e with
    | push a =>
      rw [step, ih, arrivals_push, ticks_push]
      refine List.map_congr_left fun m mem => ?_
      have past := List.mem_range.mp mem
      have later : ¬ due delay (a, ticks events) = m + 1 := by
        simp only [due]
        omega
      simp [later]
    | tick =>
      rw [step, ih, run_queue, tick_waiting sorted before, ticks_tick, arrivals_tick,
        List.range_succ, List.map_append]
      rfl

/-- What has left and what is in the line is what has arrived. -/
theorem run_flatten (delay : Nat) (events : List (Event α)) :
    (run delay events).out.flatten ++ (run delay events).queue.map Prod.fst =
      (arrivals 0 events).map Prod.fst := by
  induction events using List.reverseRecOn with
  | nil => rfl
  | append_singleton events e ih =>
    rw [run_concat]
    cases e with
    | push a => simp [step, push, arrivals_push, ← ih]
    | tick =>
      have split (queue : List (α × Nat)) :
          (tick queue).1 ++ (tick queue).2.map Prod.fst = queue.map Prod.fst := by
        rw [tick, ← List.map_append, List.takeWhile_append_dropWhile]
        simp [countDown]
      simp [step, arrivals_tick, split, ih]

/-- After a tick no count in the line has ended. -/
theorem tick_positive (delay : Nat) (events : List (Event α)) :
    ∀ r ∈ (run delay (events ++ [.tick])).queue, 0 < r.2 := by
  intro r mem
  rw [run_queue, waiting, List.mem_map] at mem
  obtain ⟨a, there, rfl⟩ := mem
  obtain ⟨known, late⟩ := List.mem_filter.mp there
  rw [arrivals_tick] at known
  have early := ((arrivals_sorted 0 events).1 a known).2
  simp only [ticks_tick, decide_eq_true_eq] at late ⊢
  unfold due at late
  omega

end DelayLine
