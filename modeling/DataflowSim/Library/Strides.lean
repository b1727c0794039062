import Mathlib

/-!
# Growing strides

Stops in a circle of `n` places that advance by 0, 1, 2 and so on. They meet every place once
exactly when `n` is a power of two.
-/

namespace Strides

/-- The sum of the first strides. -/
def triangle : Nat → Nat
  | 0 => 0
  | k + 1 => triangle k + (k + 1)

theorem two_mul_triangle (k : Nat) : 2 * triangle k = k * (k + 1) := by
  induction k with
  | zero => rfl
  | succ k ih =>
    rw [triangle, Nat.mul_add, ih]
    ring

/-- Two stops differ by a product of numbers that are not both even. -/
theorem two_mul_triangle_add (j d : Nat) :
    2 * triangle (j + d) = 2 * triangle j + d * (2 * j + d + 1) := by
  rw [two_mul_triangle, two_mul_triangle]
  ring

/-- The stops that start at `start`. -/
def stops (n start : Nat) : List Nat := (List.range n).map fun j => (start + triangle j) % n

theorem stop_inj_of_two_pow {k start i j : Nat} (lt : i < j) (below : j < 2 ^ k) :
    (start + triangle i) % 2 ^ k ≠ (start + triangle j) % 2 ^ k := by
  intro same
  obtain ⟨d, rfl⟩ := Nat.exists_eq_add_of_lt lt
  have dvd : 2 ^ k ∣ triangle (i + d + 1) - triangle i := by
    have mod : start + triangle i ≡ start + triangle (i + d + 1) [MOD 2 ^ k] := same
    have le : triangle i ≤ triangle (i + d + 1) := by
      have diff := two_mul_triangle_add i (d + 1)
      rw [← Nat.add_assoc] at diff
      omega
    exact (Nat.modEq_iff_dvd' le).mp (Nat.ModEq.add_left_cancel' start mod)
  have product : 2 * (triangle (i + d + 1) - triangle i) = (d + 1) * (2 * i + (d + 1) + 1) := by
    have diff := two_mul_triangle_add i (d + 1)
    rw [← Nat.add_assoc] at diff
    omega
  have double : 2 ^ (k + 1) ∣ (d + 1) * (2 * i + (d + 1) + 1) := by
    rw [← product, pow_succ, Nat.mul_comm]
    exact Nat.mul_dvd_mul_left 2 dvd
  -- the odd factor does not help
  rcases Nat.even_or_odd (d + 1) with even | odd
  · have other : Nat.Coprime (2 ^ (k + 1)) (2 * i + (d + 1) + 1) := by
      refine Nat.Coprime.pow_left _ (Nat.coprime_two_left.mpr ?_)
      grind
    have bound := Nat.le_of_dvd (by omega) (other.dvd_of_dvd_mul_right double)
    rw [pow_succ] at bound
    omega
  · have other : Nat.Coprime (2 ^ (k + 1)) (d + 1) :=
      Nat.Coprime.pow_left _ (Nat.coprime_two_left.mpr odd)
    have bound := Nat.le_of_dvd (by omega) (other.dvd_of_dvd_mul_left double)
    rw [pow_succ] at bound
    omega

/-- For any other number of places two of the stops are the same. -/
theorem exists_stop_eq {n : Nat} (pos : 0 < n) (other : ¬ ∃ k, n = 2 ^ k) :
    ∃ i j, i < j ∧ j < n ∧ triangle j = triangle i + n := by
  obtain ⟨a, m, odd, rfl⟩ := Nat.exists_eq_two_pow_mul_odd pos.ne'
  obtain ⟨c, rfl⟩ := odd
  have one : 0 < c := by
    rcases Nat.eq_zero_or_pos c with rfl | pos
    · exact absurd ⟨a, by simp⟩ other
    · exact pos
  have two : 0 < 2 ^ a := Nat.two_pow_pos a
  have room : 2 ^ a + c < 2 ^ a * (2 * c + 1) := by nlinarith
  -- the factors of `2 * n` are the odd part and the rest
  rcases Nat.lt_or_ge (2 ^ a) (c + 1) with low | high
  · refine ⟨c - 2 ^ a, c + 2 ^ a, by omega, by omega, ?_⟩
    have diff := two_mul_triangle_add (c - 2 ^ a) (2 * 2 ^ a)
    have sum : c - 2 ^ a + 2 * 2 ^ a = c + 2 ^ a := by omega
    have factor : 2 * (c - 2 ^ a) + 2 * 2 ^ a + 1 = 2 * c + 1 := by omega
    rw [sum, factor] at diff
    nlinarith
  · refine ⟨2 ^ a - c - 1, 2 ^ a + c, by omega, by omega, ?_⟩
    have diff := two_mul_triangle_add (2 ^ a - c - 1) (2 * c + 1)
    have sum : 2 ^ a - c - 1 + (2 * c + 1) = 2 ^ a + c := by omega
    have factor : 2 * (2 ^ a - c - 1) + (2 * c + 1) + 1 = 2 * 2 ^ a := by omega
    rw [sum, factor] at diff
    nlinarith

/-- The stops meet every place once exactly when their number is a power of two. -/
theorem stops_perm_iff {n : Nat} (pos : 0 < n) (start : Nat) :
    (stops n start).Perm (List.range n) ↔ ∃ k, n = 2 ^ k := by
  constructor
  · intro perm
    by_contra other
    obtain ⟨i, j, lt, below, eq⟩ := exists_stop_eq pos other
    have once : (stops n start).Nodup := perm.nodup_iff.mpr List.nodup_range
    have inj := List.inj_on_of_nodup_map once
    have same : (start + triangle i) % n = (start + triangle j) % n := by
      rw [eq, ← Nat.add_assoc, Nat.add_mod_right]
    exact lt.ne (inj (List.mem_range.mpr (lt.trans below)) (List.mem_range.mpr below) same)
  · rintro ⟨k, rfl⟩
    have once : (stops (2 ^ k) start).Nodup := by
      refine List.Nodup.map_on (fun i hi j hj same => ?_) List.nodup_range
      rcases Nat.lt_trichotomy i j with lt | rfl | lt
      · exact absurd same (stop_inj_of_two_pow lt (List.mem_range.mp hj))
      · rfl
      · exact absurd same.symm (stop_inj_of_two_pow lt (List.mem_range.mp hi))
    refine (once.subperm fun p mem => ?_).perm_of_length_le (by simp [stops])
    obtain ⟨j, -, rfl⟩ := List.mem_map.mp mem
    exact List.mem_range.mpr (Nat.mod_lt _ pos)

theorem stops_getLast? {n : Nat} (pos : 0 < n) (start : Nat) :
    (stops n start).getLast? = some ((start + triangle (n - 1)) % n) := by
  obtain ⟨m, rfl⟩ := Nat.exists_eq_succ_of_ne_zero pos.ne'
  simp [stops, List.range_succ]

/-- From the next start the last stop is another one. -/
theorem getLast?_ne {n : Nat} (two : 2 ≤ n) (start : Nat) :
    (stops n ((start + 1) % n)).getLast? ≠ (stops n start).getLast? := by
  rw [stops_getLast? (by omega), stops_getLast? (by omega)]
  intro same
  have mod : 1 + (start + triangle (n - 1)) ≡ 0 + (start + triangle (n - 1)) [MOD n] := by
    have eq := Option.some.inj same
    rw [Nat.mod_add_mod] at eq
    rw [Nat.ModEq, Nat.zero_add, ← eq]
    congr 1
    omega
  have cancelled := Nat.ModEq.add_right_cancel' _ mod
  rw [Nat.ModEq, Nat.mod_eq_of_lt (by omega), Nat.zero_mod] at cancelled
  exact absurd cancelled (by decide)

end Strides
