import Mathlib

/-!
# Base-128 numbers

Numbers in groups of seven bits, the highest first, as the subidentifiers of object identifiers are
written.  Every byte but the last has its high bit set, and the first group of several is not zero.

A decoder goes through the bytes with the number it has so far.  That number is zero exactly at the
beginning of an encoding; `high_cons` and `base128_of_last` say what one more byte makes of it.
-/

namespace CodeLib.Base128

/-- The groups of a number with further groups behind them; none for zero. -/
def high (n : ℕ) : List UInt8 :=
  (Nat.digits 128 n).reverse.map fun digit => UInt8.ofNat (128 + digit)

/-- The encoding of a number. -/
def base128 (n : ℕ) : List UInt8 :=
  high (n / 128) ++ [UInt8.ofNat (n % 128)]

theorem high_zero : high 0 = [] := by
  rw [high, Nat.digits_zero]
  rfl

theorem high_of_pos {n : ℕ} (h : 0 < n) :
    high n = high (n / 128) ++ [UInt8.ofNat (128 + n % 128)] := by
  rw [high, Nat.digits_def' (by decide) h, List.reverse_cons, List.map_append]
  rfl

/-- One more byte that is not the last. -/
theorem high_cons {n : ℕ} {byte : UInt8} (hbyte : ¬ byte < 0x80)
    (hstart : ¬ (n = 0 ∧ byte = 0x80)) :
    high (n * 128 + byte.toNat % 128) = high n ++ [byte] := by
  have hlt := byte.toNat_lt
  have hge : 128 ≤ byte.toNat := by
    rw [UInt8.lt_iff_toNat_lt] at hbyte
    exact Nat.le_of_not_lt hbyte
  have hpos : 0 < n * 128 + byte.toNat % 128 := by
    by_contra hzero
    refine hstart ⟨by omega, ?_⟩
    apply UInt8.toNat_inj.mp
    show byte.toNat = 128
    omega
  have hgroup : UInt8.ofNat (128 + (n * 128 + byte.toNat % 128) % 128) = byte := by
    apply UInt8.toNat_inj.mp
    rw [UInt8.toNat_ofNat']
    omega
  rw [high_of_pos hpos, hgroup, show (n * 128 + byte.toNat % 128) / 128 = n by omega]

/-- The last byte. -/
theorem base128_of_last {n : ℕ} {byte : UInt8} (hbyte : byte < 0x80) :
    base128 (n * 128 + byte.toNat % 128) = high n ++ [byte] := by
  have hlt : byte.toNat < 128 := UInt8.lt_iff_toNat_lt.mp hbyte
  have hgroup : UInt8.ofNat ((n * 128 + byte.toNat % 128) % 128) = byte := by
    apply UInt8.toNat_inj.mp
    rw [UInt8.toNat_ofNat']
    omega
  rw [base128, hgroup, show (n * 128 + byte.toNat % 128) / 128 = n by omega]

end CodeLib.Base128
