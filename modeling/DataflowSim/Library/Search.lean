import Mathlib

/-!
# Breadth-first search

Two searches with a queue. `levels` enters every successor again, so it ends where no path goes
on for ever; `explore` enters each vertex once. The result is the order in which the vertices
leave the queue, and there is none when the fuel is used up.
-/

namespace Search

variable {α : Type*}

/-! ## Every path -/

def levels (next : α → List α) : Nat → List α → Option (List α)
  | _, [] => some []
  | 0, _ :: _ => none
  | fuel + 1, a :: queue => (levels next fuel (queue ++ next a)).map (a :: ·)

/-- Fuel for a queue: a vertex of higher rank pays for all its successors. -/
def cost (width : Nat) (rank : α → Nat) (queue : List α) : Nat :=
  (queue.map fun a => (width + 1) ^ rank a).sum

theorem cost_append (width : Nat) (rank : α → Nat) (k l : List α) :
    cost width rank (k ++ l) = cost width rank k + cost width rank l := by
  simp [cost]

theorem cost_lt {width : Nat} {rank : α → Nat} {a : α} {l : List α} (short : l.length ≤ width)
    (lower : ∀ b ∈ l, rank b < rank a) : cost width rank l < (width + 1) ^ rank a := by
  cases l with
  | nil => exact Nat.pow_pos (Nat.succ_pos width)
  | cons c l =>
    obtain ⟨r, hr⟩ := Nat.exists_eq_succ_of_ne_zero (Nat.ne_zero_of_lt (lower c List.mem_cons_self))
    have each : ∀ x ∈ (c :: l).map fun b => (width + 1) ^ rank b, x ≤ (width + 1) ^ r := by
      intro x mem
      obtain ⟨b, there, rfl⟩ := List.mem_map.mp mem
      exact Nat.pow_le_pow_right (Nat.succ_pos width) (by have := lower b there; omega)
    calc cost width rank (c :: l) ≤ (c :: l).length * (width + 1) ^ r := by
          simpa [cost] using List.sum_le_card_nsmul _ _ each
      _ ≤ width * (width + 1) ^ r := Nat.mul_le_mul_right _ short
      _ < (width + 1) * (width + 1) ^ r :=
          Nat.mul_lt_mul_of_pos_right (Nat.lt_succ_self width) (Nat.pow_pos (Nat.succ_pos width))
      _ = (width + 1) ^ rank a := by rw [hr, Nat.pow_succ, Nat.mul_comm]

/-- Where successors have a lower rank the search ends, and it stays among the vertices that are
closed under successors. -/
theorem levels_eq_some {next : α → List α} {P : α → Prop} {width : Nat} {rank : α → Nat}
    (closed : ∀ a, P a → ∀ b ∈ next a, P b) (short : ∀ a, P a → (next a).length ≤ width)
    (lower : ∀ a, P a → ∀ b ∈ next a, rank b < rank a) {fuel : Nat} {queue : List α}
    (start : ∀ a ∈ queue, P a) (enough : cost width rank queue ≤ fuel) :
    ∃ l, levels next fuel queue = some l ∧ ∀ a ∈ l, P a := by
  induction fuel generalizing queue with
  | zero =>
    cases queue with
    | nil => exact ⟨[], rfl, by simp⟩
    | cons a queue =>
      have pos : 0 < (width + 1) ^ rank a := Nat.pow_pos (Nat.succ_pos width)
      simp only [cost, List.map_cons, List.sum_cons] at enough
      omega
  | succ fuel ih =>
    cases queue with
    | nil => exact ⟨[], rfl, by simp⟩
    | cons a queue =>
      obtain ⟨here, rest⟩ := List.forall_mem_cons.mp start
      have paid := cost_lt (short a here) (lower a here)
      have enough' : cost width rank (queue ++ next a) ≤ fuel := by
        rw [cost_append]
        simp only [cost, List.map_cons, List.sum_cons] at enough paid ⊢
        omega
      obtain ⟨l, run, inside⟩ := ih (List.forall_mem_append.mpr ⟨rest, closed a here⟩) enough'
      exact ⟨a :: l, by simp [levels, run], List.forall_mem_cons.mpr ⟨here, inside⟩⟩

/-- The search finds what can be reached from its queue. -/
theorem mem_levels_iff {next : α → List α} {fuel : Nat} {queue l : List α} {b : α}
    (run : levels next fuel queue = some l) :
    b ∈ l ↔ ∃ a ∈ queue, Relation.ReflTransGen (fun a b => b ∈ next a) a b := by
  induction fuel generalizing queue l with
  | zero =>
    cases queue with
    | nil => simp [← Option.some.inj run]
    | cons a queue => cases run
  | succ fuel ih =>
    cases queue with
    | nil => simp [← Option.some.inj run]
    | cons a queue =>
      simp only [levels, Option.map_eq_some_iff] at run
      obtain ⟨rest, run, rfl⟩ := run
      have onward : Relation.ReflTransGen (fun a b => b ∈ next a) a b ↔
          b = a ∨ ∃ c ∈ next a, Relation.ReflTransGen (fun a b => b ∈ next a) c b := by
        rw [Relation.ReflTransGen.cases_head_iff, eq_comm]
      simp only [List.mem_cons, ih run, List.mem_append, exists_eq_or_imp, onward]
      grind

/-- Where successors are one level deeper, the search goes level by level. -/
theorem levels_sorted {next : α → List α} {depth : α → Nat} {fuel : Nat} {queue l : List α}
    (run : levels next fuel queue = some l) (deeper : ∀ a ∈ l, ∀ b ∈ next a, depth b = depth a + 1)
    (sorted : queue.Pairwise fun a b => depth a ≤ depth b)
    (flat : ∀ a ∈ queue, ∀ b ∈ queue, depth b ≤ depth a + 1) :
    l.Pairwise fun a b => depth a ≤ depth b := by
  suffices bound : l.Pairwise (fun a b => depth a ≤ depth b) ∧
      ∀ k, (∀ a ∈ queue, k ≤ depth a) → ∀ a ∈ l, k ≤ depth a from bound.1
  induction fuel generalizing queue l with
  | zero =>
    cases queue with
    | nil => simp [← Option.some.inj run]
    | cons a queue => cases run
  | succ fuel ih =>
    cases queue with
    | nil => simp [← Option.some.inj run]
    | cons a queue =>
      simp only [levels, Option.map_eq_some_iff] at run
      obtain ⟨rest, run, rfl⟩ := run
      obtain ⟨children, later⟩ := List.forall_mem_cons.mp deeper
      obtain ⟨first, others⟩ := List.pairwise_cons.mp sorted
      have near := flat a List.mem_cons_self
      obtain ⟨order, least⟩ := ih run later
        (List.pairwise_append.mpr ⟨others, List.pairwise_of_forall_mem_list (by grind), by grind⟩)
        (by grind)
      refine ⟨List.pairwise_cons.mpr ⟨least (depth a) (by grind), order⟩, fun k low => ?_⟩
      have here := low a List.mem_cons_self
      exact List.forall_mem_cons.mpr ⟨here, fun b mem => here.trans (least (depth a) (by grind) b mem)⟩

/-! ## Every vertex once -/

section
variable [DecidableEq α]

/-- Enter one successor unless it has been visited. -/
def enter (lists : List α × List α) (b : α) : List α × List α :=
  if b ∈ lists.2 then lists else (lists.1 ++ [b], lists.2 ++ [b])

def explore (next : α → List α) : Nat → List α → List α → Option (List α)
  | _, [], _ => some []
  | 0, _ :: _, _ => none
  | fuel + 1, a :: queue, visited =>
    let lists := (next a).foldl enter (queue, visited)
    (explore next fuel lists.1 lists.2).map (a :: ·)

/-- What is entered is new, comes once and goes to the ends of both lists. -/
theorem foldl_enter (succs queue visited : List α) :
    ∃ fresh, succs.foldl enter (queue, visited) = (queue ++ fresh, visited ++ fresh) ∧
      fresh.Nodup ∧ (∀ b ∈ fresh, b ∈ succs ∧ b ∉ visited) := by
  induction succs generalizing queue visited with
  | nil => exact ⟨[], by simp, by simp, by simp⟩
  | cons b succs ih =>
    by_cases there : b ∈ visited
    · obtain ⟨fresh, eq, nodup, new⟩ := ih queue visited
      refine ⟨fresh, by simpa [enter, there] using eq, nodup, fun c mem => ?_⟩
      exact ⟨List.mem_cons_of_mem b (new c mem).1, (new c mem).2⟩
    · obtain ⟨fresh, eq, nodup, new⟩ := ih (queue ++ [b]) (visited ++ [b])
      have apart : b ∉ fresh := fun mem => (new b mem).2 (by simp)
      refine ⟨b :: fresh, by simpa [enter, there] using eq, List.nodup_cons.mpr ⟨apart, nodup⟩, ?_⟩
      refine List.forall_mem_cons.mpr ⟨⟨List.mem_cons_self, there⟩, fun c mem => ?_⟩
      obtain ⟨listed, outside⟩ := new c mem
      exact ⟨List.mem_cons_of_mem b listed, fun old => outside (List.mem_append_left _ old)⟩

/-- Among finitely many vertices the search ends, and after the queue come vertices that had not
been visited, each once. -/
theorem explore_eq_some {next : α → List α} {S : Finset α} (inside : ∀ a, ∀ b ∈ next a, b ∈ S)
    {fuel : Nat} {queue visited : List α} (nodup : visited.Nodup) (known : ∀ a ∈ visited, a ∈ S)
    (enough : queue.length + (S.card - visited.length) ≤ fuel) :
    ∃ new, explore next fuel queue visited = some (queue ++ new) ∧ new.Nodup ∧
      ∀ b ∈ new, b ∈ S ∧ b ∉ visited := by
  induction fuel generalizing queue visited with
  | zero =>
    cases queue with
    | nil => exact ⟨[], rfl, by simp, by simp⟩
    | cons a queue => simp at enough
  | succ fuel ih =>
    cases queue with
    | nil => exact ⟨[], rfl, by simp, by simp⟩
    | cons a queue =>
      obtain ⟨fresh, eq, once, new⟩ := foldl_enter (next a) queue visited
      have apart : visited.Disjoint fresh := fun b old mem => (new b mem).2 old
      have nodup' : (visited ++ fresh).Nodup := nodup.append once apart
      have known' : ∀ b ∈ visited ++ fresh, b ∈ S :=
        List.forall_mem_append.mpr ⟨known, fun b mem => inside a b (new b mem).1⟩
      have room : (visited ++ fresh).length ≤ S.card := by
        rw [← List.toFinset_card_of_nodup nodup']
        exact Finset.card_le_card fun b mem => known' b (List.mem_toFinset.mp mem)
      have enough' : (queue ++ fresh).length + (S.card - (visited ++ fresh).length) ≤ fuel := by
        simp only [List.length_append, List.length_cons] at enough room ⊢
        omega
      obtain ⟨later, run, onceLater, newLater⟩ := ih nodup' known' enough'
      have outside : fresh.Disjoint later := fun b mem late =>
        (newLater b late).2 (List.mem_append_right _ mem)
      refine ⟨fresh ++ later, by simp [explore, eq, run], once.append onceLater outside, ?_⟩
      refine List.forall_mem_append.mpr ⟨fun b mem => ⟨inside a b (new b mem).1, (new b mem).2⟩, ?_⟩
      intro b late
      exact ⟨(newLater b late).1, fun old => (newLater b late).2 (List.mem_append_left _ old)⟩

theorem mem_foldl_enter {succs queue visited : List α} {b : α} (mem : b ∈ succs) :
    b ∈ (succs.foldl enter (queue, visited)).2 := by
  induction succs generalizing queue visited with
  | nil => cases mem
  | cons c succs ih =>
    by_cases later : b ∈ succs
    · rw [List.foldl_cons]
      exact ih later
    · obtain rfl : b = c := by simpa [later] using mem
      obtain ⟨fresh, eq, -, -⟩ := foldl_enter succs (enter (queue, visited) b).1
        (enter (queue, visited) b).2
      have there : b ∈ (enter (queue, visited) b).2 := by
        unfold enter
        split_ifs with old
        · exact old
        · exact List.mem_append_right _ (List.mem_singleton_self b)
      rw [List.foldl_cons, eq]
      exact List.mem_append_left _ there

/-- The search finds what can be reached from its queue, up to what had been visited. -/
theorem explore_reaches {next : α → List α} {fuel : Nat} {queue visited l : List α}
    (h : explore next fuel queue visited = some l) :
    queue ⊆ l ∧ (∀ a ∈ l, ∀ b ∈ next a, b ∈ visited ∨ b ∈ l) ∧
      ∀ b ∈ l, ∃ a ∈ queue, Relation.ReflTransGen (fun a b => b ∈ next a) a b := by
  induction fuel generalizing queue visited l with
  | zero =>
    cases queue with
    | nil => simp [explore] at h; simp [h]
    | cons a queue => simp [explore] at h
  | succ fuel ih =>
    cases queue with
    | nil => simp [explore] at h; simp [h]
    | cons a queue =>
      obtain ⟨fresh, eq, -, new⟩ := foldl_enter (next a) queue visited
      simp only [explore, eq, Option.map_eq_some_iff] at h
      obtain ⟨rest, run, rfl⟩ := h
      obtain ⟨sub, closed, reached⟩ := ih run
      obtain ⟨old, entered⟩ := List.append_subset.mp sub
      refine ⟨List.cons_subset_cons a old, ?_, ?_⟩
      · have known {b : α} (mem : b ∈ visited ++ fresh) : b ∈ visited ∨ b ∈ a :: rest :=
          (List.mem_append.mp mem).imp_right fun there => List.mem_cons_of_mem a (entered there)
        refine List.forall_mem_cons.mpr ⟨fun b mem => ?_, fun c there b mem => ?_⟩
        · have there := @mem_foldl_enter _ _ _ queue visited _ mem
          rw [eq] at there
          exact known there
        · rcases closed c there b mem with before | later
          · exact known before
          · exact .inr (List.mem_cons_of_mem a later)
      · refine List.forall_mem_cons.mpr ⟨⟨a, List.mem_cons_self, .refl⟩, fun b mem => ?_⟩
        obtain ⟨c, start, path⟩ := reached b mem
        rcases List.mem_append.mp start with old | there
        · exact ⟨c, List.mem_cons_of_mem a old, path⟩
        · exact ⟨a, List.mem_cons_self, path.head (new c there).1⟩

/-- A search that starts with the whole of its visited vertices finds exactly what they reach. -/
theorem mem_explore_iff {next : α → List α} {fuel : Nat} {start l : List α} {b : α}
    (h : explore next fuel start start = some l) :
    b ∈ l ↔ ∃ a ∈ start, Relation.ReflTransGen (fun a b => b ∈ next a) a b := by
  obtain ⟨sub, closed, reached⟩ := explore_reaches h
  constructor
  · exact reached b
  · rintro ⟨a, mem, path⟩
    induction path with
    | refl => exact sub mem
    | tail _ edge ih => exact (closed _ ih _ edge).elim (fun there => sub there) id

end

end Search
