import Mathlib

/-!
# Merkle.Split

The split point of a left-balanced binary tree: a tree over `n ≥ 2` leaves has the largest power of
two strictly below `n` leaves on its left, and the rest on its right.

* `split_spec`: `split n` is a power of two with `split n < n ≤ 2 * split n`.
* `split_eq`: it is the only one, so every way of computing it agrees.
* `split_of_between`: a size between `split n` and `n` splits at the same point. This is what lets
  one proof walk an old tree and a new tree together.
-/

namespace Merkle

/-- Largest power of two strictly below `n`, for `n ≥ 2`. -/
def split (n : Nat) : Nat := 2 ^ (n - 1).log2

theorem split_spec {n : Nat} (h : 2 ≤ n) :
    ∃ a, split n = 2 ^ a ∧ 2 ^ a < n ∧ n ≤ 2 ^ (a + 1) := by
  refine ⟨(n - 1).log2, rfl, ?_, ?_⟩
  · have := Nat.log2_self_le (n := n - 1) (by omega)
    omega
  · have := Nat.lt_log2_self (n := n - 1)
    omega

theorem split_eq {n a : Nat} (hlo : 2 ^ a < n) (hhi : n ≤ 2 ^ (a + 1)) : split n = 2 ^ a := by
  have hpos : 0 < 2 ^ a := Nat.two_pow_pos a
  have hlog : (n - 1).log2 = a := (Nat.log2_eq_iff (by omega)).mpr ⟨by omega, by omega⟩
  rw [split, hlog]

theorem split_pos (n : Nat) : 0 < split n := Nat.two_pow_pos _

theorem split_lt {n : Nat} (h : 2 ≤ n) : split n < n := by
  obtain ⟨a, ha, hlt, _⟩ := split_spec h
  omega

theorem le_two_mul_split {n : Nat} (h : 2 ≤ n) : n ≤ 2 * split n := by
  obtain ⟨a, ha, _, hle⟩ := split_spec h
  rw [ha]
  rw [Nat.pow_succ] at hle
  omega

theorem split_of_between {m n : Nat} (hk : split n < m) (hmn : m ≤ n) : split m = split n := by
  have hpos := split_pos n
  obtain ⟨a, ha, _, hle⟩ := split_spec (n := n) (by omega)
  rw [ha]
  exact split_eq (by omega) (by omega)

theorem split_two_pow_succ (a : Nat) : split (2 ^ (a + 1)) = 2 ^ a :=
  split_eq (by have := Nat.two_pow_pos a; rw [Nat.pow_succ]; omega) (Nat.le_refl _)

/-- Below a power of two, both halves are below the previous one. -/
theorem split_le_of_le_pow {n a : Nat} (h : 2 ≤ n) (hle : n ≤ 2 ^ (a + 1)) : split n ≤ 2 ^ a := by
  obtain ⟨b, hb, hlt, _⟩ := split_spec h
  rw [hb]
  have hba : b < a + 1 := (Nat.pow_lt_pow_iff_right (by omega)).mp (by omega : 2 ^ b < 2 ^ (a + 1))
  exact Nat.pow_le_pow_right (by omega) (by omega)

/-- Powers of two below `n` reach at most to the split point. -/
theorem le_split_of_isPowerOfTwo {m n : Nat} (hp : m.isPowerOfTwo) (hm : m < n) : m ≤ split n := by
  obtain ⟨c, rfl⟩ := hp
  have hpos := Nat.two_pow_pos c
  obtain ⟨a, ha, _, hle⟩ := split_spec (n := n) (by omega)
  have hca : c < a + 1 := (Nat.pow_lt_pow_iff_right (by omega)).mp (by omega : 2 ^ c < 2 ^ (a + 1))
  rw [ha]
  exact Nat.pow_le_pow_right (by omega) (by omega)

end Merkle
