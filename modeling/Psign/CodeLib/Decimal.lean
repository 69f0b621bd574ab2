import Mathlib

/-!
# Decimal integers

Reading a signed 64-bit integer and writing one with leading zeros.  A number between two numbers
is no longer than the longer of the two (`length_formatPadded_le_of_between`), and no number is
longer than the text it was read from (`length_le_of_parseI64`).
-/

namespace CodeLib.Decimal

/-- The value of a list of digits. -/
def ofDigits (digits : List Char) : ℕ :=
  digits.foldl (fun n c => n * 10 + (c.toNat - 48)) 0

/-- The sign and the digits of a number. -/
def signAndDigits (s : List Char) : Bool × List Char :=
  match s with
  | '-' :: rest => (true, rest)
  | '+' :: rest => (false, rest)
  | _ => (false, s)

/-- `str::parse::<i64>`. -/
def parseI64 (s : List Char) : Option ℤ :=
  let r := signAndDigits s
  let n : ℤ := if r.1 then - (ofDigits r.2 : ℤ) else ofDigits r.2
  if r.2 ≠ [] ∧ r.2.all Char.isDigit ∧ -2 ^ 63 ≤ n ∧ n < 2 ^ 63 then some n else none

/-- `format!` with leading zeros up to a width: they stand between the sign and the digits. -/
def formatPadded (width : ℕ) (n : ℤ) : List Char :=
  let sign : List Char := if n < 0 then ['-'] else []
  let digits := Nat.toDigits 10 n.natAbs
  sign ++ (List.replicate (width - (sign.length + digits.length)) '0' ++ digits)

/-- `to_string`. -/
def format (n : ℤ) : List Char := formatPadded 0 n

example : parseI64 "-07".toList = some (-7) ∧ formatPadded 4 (-7) = "-007".toList := by
  decide

/-- The digits of a number are read back. -/
theorem ofDigits_toDigits (n : ℕ) : ofDigits (Nat.toDigits 10 n) = n := by
  have hread := Nat.ofDigitChars_ten_toDigits (n := n)
  rw [Nat.ofDigitChars_eq_foldl] at hread
  refine Eq.trans ?_ hread
  unfold ofDigits
  congr 1
  funext n c
  rw [Nat.mul_comm]
  rfl

/-! ## Lengths -/

theorem length_formatPadded (width : ℕ) (n : ℤ) :
    (formatPadded width n).length = max width (format n).length := by
  simp only [format, formatPadded, List.length_append, List.length_replicate]
  omega

theorem length_format (n : ℤ) :
    (format n).length = (if n < 0 then 1 else 0) + (Nat.toDigits 10 n.natAbs).length := by
  rw [format, formatPadded]
  split <;> simp [Nat.add_comm]

theorem length_toDigits_mono {m n : ℕ} (h : m ≤ n) :
    (Nat.toDigits 10 m).length ≤ (Nat.toDigits 10 n).length := by
  have hn := (Nat.length_toDigits_le_iff (by decide) Nat.length_toDigits_pos).mp
    (Nat.le_refl (Nat.toDigits 10 n).length)
  exact (Nat.length_toDigits_le_iff (by decide) Nat.length_toDigits_pos).mpr
    (Nat.lt_of_le_of_lt h hn)

/-- A number between two others is not longer than both. -/
theorem length_format_le_of_between {a b n : ℤ} (ha : a ≤ n) (hb : n ≤ b) :
    (format n).length ≤ max (format a).length (format b).length := by
  simp only [length_format]
  by_cases hn : n < 0
  · have hmono := length_toDigits_mono (show n.natAbs ≤ a.natAbs by omega)
    rw [if_pos hn, if_pos (by omega : a < 0)]
    omega
  · have hmono := length_toDigits_mono (show n.natAbs ≤ b.natAbs by omega)
    rw [if_neg hn, if_neg (by omega : ¬ b < 0)]
    omega

theorem ofDigits_lt {digits : List Char} (h : digits.all Char.isDigit = true) :
    ofDigits digits < 10 ^ digits.length := by
  have hfold : ∀ (digits : List Char) (n k : ℕ), digits.all Char.isDigit = true → n < 10 ^ k →
      digits.foldl (fun n c => n * 10 + (c.toNat - 48)) n < 10 ^ (k + digits.length) := by
    intro digits
    induction digits with
    | nil => exact fun n k _ hn => hn
    | cons c digits ih =>
      intro n k h hn
      rw [List.all_cons, Bool.and_eq_true] at h
      have hc : c.toNat ≤ 57 := by
        have h := h.1
        simp only [Char.isDigit, Bool.and_eq_true, decide_eq_true_eq] at h
        exact UInt32.le_iff_toNat_le.mp h.2
      have hnext := ih (n * 10 + (c.toNat - 48)) (k + 1) h.2 (by rw [Nat.pow_succ]; omega)
      rw [List.foldl_cons, List.length_cons, ← Nat.add_assoc, Nat.add_right_comm]
      exact hnext
  have hall := hfold digits 0 0 h Nat.one_pos
  rwa [Nat.zero_add] at hall

/-- A number is not longer than the text it was read from. -/
theorem length_le_of_parseI64 {s : List Char} {n : ℤ} (h : parseI64 s = some n) :
    (format n).length ≤ s.length := by
  have hsign : (signAndDigits s).2.length + (if (signAndDigits s).1 then 1 else 0) ≤
      s.length := by
    unfold signAndDigits
    split <;> simp
  unfold parseI64 at h
  generalize signAndDigits s = r at h hsign
  obtain ⟨negative, digits⟩ := r
  rw [Option.ite_none_right_eq_some] at h
  obtain ⟨⟨hne, hdigits, _⟩, hn⟩ := h
  have hlen : (Nat.toDigits 10 (ofDigits digits)).length ≤ digits.length :=
    (Nat.length_toDigits_le_iff (by decide) (List.length_pos_iff.mpr hne)).mpr
      (ofDigits_lt hdigits)
  rw [length_format, ← Option.some.inj hn]
  cases negative with
  | true =>
    simp only [if_true, Int.natAbs_neg, Int.natAbs_natCast] at hsign ⊢
    split <;> omega
  | false =>
    simp only [Bool.false_eq_true, if_false, Int.natAbs_natCast] at hsign ⊢
    rw [if_neg (by omega)]
    omega

theorem mem_formatPadded {width : ℕ} {n : ℤ} {c : Char} (h : c ∈ formatPadded width n) :
    c = '-' ∨ c.isDigit = true := by
  rcases List.mem_append.mp h with h | h
  · split at h
    · exact Or.inl (List.mem_singleton.mp h)
    · exact absurd h List.not_mem_nil
  · rcases List.mem_append.mp h with h | h
    · rw [List.eq_of_mem_replicate h]
      exact Or.inr rfl
    · exact Or.inr (Nat.isDigit_of_mem_toDigits (by decide) (by decide) h)

/-- A number is read from signs and digits. -/
theorem mem_of_parseI64 {s : List Char} {n : ℤ} (h : parseI64 s = some n) :
    ∀ c ∈ s, c = '-' ∨ c = '+' ∨ c.isDigit = true := by
  unfold parseI64 at h
  rw [Option.ite_none_right_eq_some] at h
  have hdigits := List.all_eq_true.mp h.1.2.1
  intro c hc
  unfold signAndDigits at hdigits
  split at hdigits
  · rcases List.mem_cons.mp hc with rfl | hc
    · exact Or.inl rfl
    · exact Or.inr (Or.inr (hdigits c hc))
  · rcases List.mem_cons.mp hc with rfl | hc
    · exact Or.inr (Or.inl rfl)
    · exact Or.inr (Or.inr (hdigits c hc))
  · exact Or.inr (Or.inr (hdigits c hc))

end CodeLib.Decimal
