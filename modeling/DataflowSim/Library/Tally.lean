import Mathlib

/-!
# Counting over a family of queues

`tally n q p` counts the elements of the first `n` queues that satisfy `p`. The rules say how
the count changes when one queue of the family is replaced.
-/

/-- The number of elements of the first `n` queues that satisfy `p`. -/
def tally {α : Type*} (n : Nat) (q : Nat → List α) (p : α → Bool) : Nat :=
  ∑ b ∈ Finset.range n, (q b).countP p

namespace Tally

variable {α β : Type*} {n b : Nat} {q : Nat → List α} {p : α → Bool}

theorem congr {r : Nat → List β} {p' : β → Bool}
    (same : ∀ b < n, (q b).countP p = (r b).countP p') : tally n q p = tally n r p' := by
  apply Finset.sum_congr rfl
  intro b hb
  exact same b (Finset.mem_range.mp hb)

theorem eq_zero (none : ∀ b < n, (q b).countP p = 0) : tally n q p = 0 := by
  apply Finset.sum_eq_zero
  intro b hb
  exact none b (Finset.mem_range.mp hb)

@[simp] theorem empty : tally n (fun _ => []) p = 0 := by simp [tally]

theorem succ (n : Nat) (q : Nat → List α) (p : α → Bool) :
    tally (n + 1) q p = tally n q p + (q n).countP p := Finset.sum_range_succ _ _

theorem mono {m : Nat} (le : m ≤ n) : tally m q p ≤ tally n q p :=
  Finset.sum_le_sum_of_subset (Finset.range_mono le)

/-- Counts that add up queue by queue add up over the family. -/
theorem split {γ : Type*} {u : Nat → List β} {v : Nat → List γ} {p' : β → Bool} {p'' : γ → Bool}
    (pointwise : ∀ b < n, (q b).countP p = (u b).countP p' + (v b).countP p'') :
    tally n q p = tally n u p' + tally n v p'' := by
  unfold tally
  rw [← Finset.sum_add_distrib]
  apply Finset.sum_congr rfl
  intro b hb
  exact pointwise b (Finset.mem_range.mp hb)

/-- Replacing one queue of the family exchanges its count. -/
theorem update (hb : b < n) (q : Nat → List α) (l : List α) (p : α → Bool) :
    tally n (Function.update q b l) p + (q b).countP p = tally n q p + l.countP p := by
  have mem : b ∈ Finset.range n := Finset.mem_range.mpr hb
  unfold tally
  rw [← Finset.add_sum_erase _ _ mem, ← Finset.add_sum_erase _ _ mem, Function.update_self]
  have rest : ∑ x ∈ (Finset.range n).erase b, (Function.update q b l x).countP p =
      ∑ x ∈ (Finset.range n).erase b, (q x).countP p := by
    apply Finset.sum_congr rfl
    intro x hx
    rw [Function.update_of_ne (Finset.ne_of_mem_erase hx)]
  omega

theorem update_of_le (hb : n ≤ b) (q : Nat → List α) (l : List α) (p : α → Bool) :
    tally n (Function.update q b l) p = tally n q p := by
  apply congr
  intro x hx
  rw [Function.update_of_ne (by omega)]

theorem push (hb : b < n) (q : Nat → List α) (a : α) (p : α → Bool) :
    tally n (Function.update q b (q b ++ [a])) p = tally n q p + if p a then 1 else 0 := by
  have := update hb q (q b ++ [a]) p
  rw [List.countP_append, List.countP_singleton] at this
  omega

theorem pop (hb : b < n) {a : α} {l : List α} (front : q b = a :: l) (p : α → Bool) :
    tally n (Function.update q b l) p + (if p a then 1 else 0) = tally n q p := by
  have := update hb q l p
  rw [front, List.countP_cons] at this
  omega

theorem pos (hb : b < n) {a : α} (mem : a ∈ q b) (ha : p a = true) : 0 < tally n q p := by
  apply Finset.sum_pos' (fun _ _ => Nat.zero_le _)
  exact ⟨b, Finset.mem_range.mpr hb, List.countP_pos_iff.mpr ⟨a, mem, ha⟩⟩

end Tally
