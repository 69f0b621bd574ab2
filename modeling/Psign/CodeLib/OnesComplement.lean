import Mathlib

/-!
# Sums with end-around carry

A checksum in ones' complement adds words and brings what overflows a word back in at the
low end.  `endAround base n` does so until the number fits a word.  It may be done at any
time: neither one step of it (`endAround_fold`) nor folding a part of a sum
(`endAround_add_congr`) changes the result, because a step subtracts a multiple of `base - 1`
and never reaches zero.
-/

namespace CodeLib

/-- One step of the end-around carry. -/
def foldOnce (base n : Nat) : Nat :=
  n / base + n % base

/-- A number folded until it is smaller than the base. -/
def endAround (base n : Nat) : Nat :=
  if _h : 2 ≤ base ∧ base ≤ n then endAround base (foldOnce base n) else n
termination_by n
decreasing_by
  have hdiv := Nat.div_add_mod n base
  have hpos : 0 < n / base := Nat.div_pos _h.2 (by omega)
  have hmul : 2 * (n / base) ≤ base * (n / base) := Nat.mul_le_mul_right _ _h.1
  rw [foldOnce]
  omega

variable {base n m : Nat}

theorem endAround_of_lt (h : n < base) : endAround base n = n := by
  rw [endAround, dif_neg (by omega)]

/-- A step subtracts a multiple of `base - 1`. -/
theorem foldOnce_add_mul (hbase : 2 ≤ base) : foldOnce base n + (base - 1) * (n / base) = n := by
  have hdiv := Nat.div_add_mod n base
  have hmul : (base - 1) * (n / base) + n / base = base * (n / base) := by
    rw [← Nat.succ_mul, show (base - 1).succ = base by omega]
  rw [foldOnce]
  omega

theorem foldOnce_pos (h : 0 < n) : 0 < foldOnce base n := by
  by_contra hzero
  obtain ⟨hdiv, hmod⟩ := Nat.add_eq_zero_iff.mp (Nat.le_zero.mp (not_lt.mp hzero))
  have hn := Nat.div_add_mod n base
  rw [hdiv, hmod, Nat.mul_zero] at hn
  omega

/-- What folding comes to: the residue modulo `base - 1`, from one on. -/
theorem endAround_of_pos (hbase : 2 ≤ base) (h : 0 < n) :
    endAround base n = (n - 1) % (base - 1) + 1 := by
  induction n using Nat.strong_induction_on with
  | _ n ih =>
    by_cases hlt : n < base
    · rw [endAround_of_lt hlt, Nat.mod_eq_of_lt (by omega)]
      omega
    · have hstep := foldOnce_add_mul (n := n) hbase
      have hpos : 0 < foldOnce base n := foldOnce_pos h
      have hdiv : 0 < n / base := Nat.div_pos (by omega) (by omega)
      have hmul : 0 < (base - 1) * (n / base) := Nat.mul_pos (by omega) hdiv
      rw [endAround, dif_pos ⟨hbase, by omega⟩, ih (foldOnce base n) (by omega) hpos]
      congr 1
      rw [show n - 1 = foldOnce base n - 1 + (base - 1) * (n / base) by omega,
        Nat.add_mul_mod_self_left]

theorem endAround_zero : endAround base 0 = 0 := by
  rw [endAround, dif_neg (by omega)]

/-- A step of the carry does not change the result. -/
theorem endAround_fold (hbase : 2 ≤ base) : endAround base (foldOnce base n) = endAround base n := by
  by_cases hlt : n < base
  · rw [foldOnce, Nat.div_eq_of_lt hlt, Nat.mod_eq_of_lt hlt, Nat.zero_add]
  · have hstep : endAround base n = endAround base (foldOnce base n) := by
      rw [endAround, dif_pos ⟨hbase, not_lt.mp hlt⟩]
    exact hstep.symm

/-- Numbers that fold to the same do so with anything added to them. -/
theorem endAround_add_congr (hbase : 2 ≤ base) (k : Nat) (h : endAround base n = endAround base m) :
    endAround base (n + k) = endAround base (m + k) := by
  rcases Nat.eq_zero_or_pos n with rfl | hn
  · rcases Nat.eq_zero_or_pos m with rfl | hm
    · rfl
    · rw [endAround_zero, endAround_of_pos hbase hm] at h
      omega
  · rcases Nat.eq_zero_or_pos m with rfl | hm
    · rw [endAround_zero, endAround_of_pos hbase hn] at h
      omega
    · rw [endAround_of_pos hbase hn, endAround_of_pos hbase hm] at h
      rw [endAround_of_pos hbase (by omega), endAround_of_pos hbase (by omega),
        show n + k - 1 = n - 1 + k by omega, show m + k - 1 = m - 1 + k by omega,
        Nat.add_mod (n - 1), Nat.add_mod (m - 1), Nat.add_right_cancel h]

end CodeLib
