import Mathlib

/-!
# Pipelines with bubbles

A pipeline is a row of stages, each of which holds at most one item. Items enter at stage 0
and leave at the last stage; in between an item moves up when the stage above it is free.
`contents n` reads the first `n` stages from the last one down, so the oldest item comes first.
-/

namespace Pipeline

variable {α : Type*}

/-- The items of the first `n` stages, the one nearest to the end first. -/
def contents (stages : Nat → Option α) : Nat → List α
  | 0 => []
  | n + 1 => (stages n).toList ++ contents stages n

/-- The item of stage `r` moves up, if there is room for it. -/
def advance (stages : Nat → Option α) (r : Nat) : Nat → Option α :=
  if (stages (r + 1)).isNone then Function.update (Function.update stages (r + 1) (stages r)) r none
  else stages

variable {stages stages' : Nat → Option α} {n r : Nat} {a : α}

theorem contents_none (n : Nat) : contents (fun _ => (none : Option α)) n = [] := by
  induction n with
  | zero => rfl
  | succ n ih => exact ih

theorem contents_congr (same : ∀ r < n, stages r = stages' r) :
    contents stages n = contents stages' n := by
  induction n with
  | zero => rfl
  | succ n ih =>
    rw [contents, contents, same n n.lt_succ_self, ih fun r lt => same r (lt.trans n.lt_succ_self)]

/-- Moving an item up does not change the order of the items. -/
theorem contents_advance (lt : r + 1 < n) : contents (advance stages r) n = contents stages n := by
  unfold advance
  split_ifs with free
  · rw [Option.isNone_iff_eq_none] at free
    induction n with
    | zero => omega
    | succ n ih =>
      by_cases last : r + 1 = n
      · subst last
        have below : contents (Function.update (Function.update stages (r + 1) (stages r)) r none) r =
            contents stages r := by
          refine contents_congr fun s less => ?_
          rw [Function.update_of_ne less.ne, Function.update_of_ne (by omega)]
        simp [contents, below, free]
      · rw [contents, contents, ih (by omega), Function.update_of_ne (by omega),
          Function.update_of_ne (by omega)]
  · rfl

/-- An item at the end stays there. -/
theorem advance_last (lt : r < n) (some : (stages n).isSome) : advance stages r n = stages n := by
  unfold advance
  split_ifs with free
  · have : r + 1 ≠ n := by
      rintro rfl
      simp_all
    rw [Function.update_of_ne (by omega), Function.update_of_ne (by omega)]
  · rfl

theorem contents_enter (free : stages 0 = none) (pos : 0 < n) :
    contents (Function.update stages 0 (some a)) n = contents stages n ++ [a] := by
  induction n with
  | zero => omega
  | succ n ih =>
    cases n with
    | zero => simp [contents, free]
    | succ n =>
      rw [contents, ih n.succ_pos, Function.update_of_ne (by omega), ← List.append_assoc]
      rfl

theorem contents_leave (last : stages n = some a) :
    contents stages (n + 1) = a :: contents (Function.update stages n none) (n + 1) := by
  have below : contents (Function.update stages n none) n = contents stages n :=
    contents_congr fun r lt => Function.update_of_ne lt.ne _ _
  simp [contents, last, below]

theorem head?_contents (last : stages n = some a) : (contents stages (n + 1)).head? = some a := by
  simp [contents, last]

/-- Stages move up one after the other, from the end of the row down. -/
theorem contents_foldl {rs : List Nat} (lt : ∀ r ∈ rs, r + 1 < n) :
    contents (rs.foldl advance stages) n = contents stages n := by
  induction rs generalizing stages with
  | nil => rfl
  | cons r rs ih =>
    rw [List.foldl_cons, ih fun s mem => lt s (.tail _ mem), contents_advance (lt r (.head _))]

theorem foldl_last {rs : List Nat} (lt : ∀ r ∈ rs, r < n) (some : (stages n).isSome) :
    rs.foldl advance stages n = stages n := by
  induction rs generalizing stages with
  | nil => rfl
  | cons r rs ih =>
    have kept := advance_last (lt r (.head _)) some
    rw [List.foldl_cons, ih (fun s mem => lt s (.tail _ mem)) (kept ▸ some), kept]

end Pipeline
