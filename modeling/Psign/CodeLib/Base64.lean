import Mathlib.Data.List.Basic
import Mathlib.Data.List.Induction
import Psign.CodeLib.Outcome

/-!
# Base64

A program that calls a base64 package relies on a few documented facts about
it: what is encoded decodes to itself, and the text has the standard alphabet
and whole groups of four characters.  `Base64Engine` is such a package with
these facts as fields.

`standard` is the engine with the standard alphabet and canonical padding
(RFC 4648, section 4).
-/

namespace CodeLib

/-- A character of base64 text, padding included. -/
def IsBase64Char (c : Char) : Prop :=
  c.isAlphanum = true ∨ c = '+' ∨ c = '/' ∨ c = '='

instance (c : Char) : Decidable (IsBase64Char c) :=
  inferInstanceAs (Decidable (_ ∨ _ ∨ _ ∨ _))

theorem toNat_of_isBase64Char {c : Char} (h : IsBase64Char c) :
    0x20 < c.toNat ∧ c.toNat < 0x80 := by
  rcases h with halnum | rfl | rfl | rfl
  · simp only [Char.isAlphanum, Char.isAlpha, Char.isUpper, Char.isLower, Char.isDigit,
      Bool.or_eq_true, Bool.and_eq_true, decide_eq_true_eq, UInt32.le_iff_toNat_le, ge_iff_le] at halnum
    simp only [Char.toNat, Char.reduceVal, UInt32.reduceToNat] at *
    omega
  all_goals decide

/-- A base64 package. -/
structure Base64Engine where
  encode : List UInt8 → List Char
  decode : List Char → Outcome (List UInt8)
  decode_encode : ∀ bytes, decode (encode bytes) = .ok bytes
  length_encode : ∀ bytes, (encode bytes).length = 4 * ((bytes.length + 2) / 3)
  isBase64Char_of_mem_encode : ∀ bytes, ∀ c ∈ encode bytes, IsBase64Char c

namespace Base64Engine

/-! ## The standard engine -/

/-- The digits of the standard alphabet. -/
def alphabet : List Char :=
  "ABCDEFGHIJKLMNOPQRSTUVWXYZabcdefghijklmnopqrstuvwxyz0123456789+/".toList

/-- The digit of six bits. -/
def digit (n : Nat) : Char :=
  alphabet.getD n '='

/-- The six bits of a digit. -/
def digitValue? (c : Char) : Option Nat :=
  alphabet.findIdx? (· == c)

/-- Encode three bytes at a time; the last group is padded. -/
def encodeStandard : List UInt8 → List Char
  | [] => []
  | [a] => [digit (a.toNat / 4), digit (a.toNat % 4 * 16), '=', '=']
  | [a, b] =>
      [digit (a.toNat / 4), digit (a.toNat % 4 * 16 + b.toNat / 16),
        digit (b.toNat % 16 * 4), '=']
  | a :: b :: c :: rest =>
      digit (a.toNat / 4) :: digit (a.toNat % 4 * 16 + b.toNat / 16) ::
        digit (b.toNat % 16 * 4 + c.toNat / 64) :: digit (c.toNat % 64) :: encodeStandard rest

/-- The bytes of a last group; its unused bits have to be zero. -/
def decodeLast (w x y z : Char) : Option (List UInt8) :=
  match digitValue? w, digitValue? x, digitValue? y, digitValue? z with
  | some p, some q, some r, some s =>
      some [UInt8.ofNat (p * 4 + q / 16), UInt8.ofNat (q % 16 * 16 + r / 4),
        UInt8.ofNat (r % 4 * 64 + s)]
  | some p, some q, some r, none =>
      if z = '=' ∧ r % 4 = 0 then
        some [UInt8.ofNat (p * 4 + q / 16), UInt8.ofNat (q % 16 * 16 + r / 4)]
      else none
  | some p, some q, none, none =>
      if y = '=' ∧ z = '=' ∧ q % 16 = 0 then some [UInt8.ofNat (p * 4 + q / 16)] else none
  | _, _, _, _ => none

/-- The bytes of a group that others follow. -/
def decodeGroup (w x y z : Char) : Option (List UInt8) :=
  match digitValue? w, digitValue? x, digitValue? y, digitValue? z with
  | some p, some q, some r, some s =>
      some [UInt8.ofNat (p * 4 + q / 16), UInt8.ofNat (q % 16 * 16 + r / 4),
        UInt8.ofNat (r % 4 * 64 + s)]
  | _, _, _, _ => none

/-- Decode four characters at a time. -/
def decodeStandard? : List Char → Option (List UInt8)
  | [] => some []
  | [w, x, y, z] => decodeLast w x y z
  | w :: x :: y :: z :: rest => do
      let group ← decodeGroup w x y z
      let tail ← decodeStandard? rest
      return group ++ tail
  | _ => none

theorem digitValue?_digit {n : Nat} (h : n < 64) : digitValue? (digit n) = some n := by
  have hall : ∀ k : Fin 64, digitValue? (digit k) = some k.val := by
    unfold digitValue? digit alphabet
    rw [String.toList_ofList]
    decide
  exact hall ⟨n, h⟩

theorem digitValue?_pad : digitValue? '=' = none := by decide

theorem isBase64Char_digit (n : Nat) : IsBase64Char (digit n) := by
  rcases Nat.lt_or_ge n 64 with h | h
  · have hall : ∀ k : Fin 64, IsBase64Char (digit k) := by
      unfold digit alphabet
      rw [String.toList_ofList]
      decide
    exact hall ⟨n, h⟩
  · have hlength : alphabet.length ≤ n := h
    rw [digit, List.getD, List.getElem?_eq_none hlength]
    exact Or.inr (Or.inr (Or.inr rfl))

private theorem decodeStandard?_three (a b c : UInt8) (rest : List Char) (tail : List UInt8)
    (htail : decodeStandard? rest = some tail) :
    decodeStandard? (digit (a.toNat / 4) :: digit (a.toNat % 4 * 16 + b.toNat / 16) ::
      digit (b.toNat % 16 * 4 + c.toNat / 64) :: digit (c.toNat % 64) :: rest) =
      some (a :: b :: c :: tail) := by
  have ha := a.toNat_lt
  have hb := b.toNat_lt
  have hc := c.toNat_lt
  have hfirst : a.toNat / 4 * 4 + (a.toNat % 4 * 16 + b.toNat / 16) / 16 = a.toNat := by omega
  have hsecond : (a.toNat % 4 * 16 + b.toNat / 16) % 16 * 16 +
      (b.toNat % 16 * 4 + c.toNat / 64) / 4 = b.toNat := by omega
  have hthird : (b.toNat % 16 * 4 + c.toNat / 64) % 4 * 64 + c.toNat % 64 = c.toNat := by omega
  have hv1 := digitValue?_digit (n := a.toNat / 4) (by omega)
  have hv2 := digitValue?_digit (n := a.toNat % 4 * 16 + b.toNat / 16) (by omega)
  have hv3 := digitValue?_digit (n := b.toNat % 16 * 4 + c.toNat / 64) (by omega)
  have hv4 := digitValue?_digit (n := c.toNat % 64) (by omega)
  cases rest with
  | nil =>
    obtain rfl : tail = [] := (Option.some.inj htail).symm
    simp only [decodeStandard?, decodeLast, hv1, hv2, hv3, hv4, hfirst, hsecond, hthird,
      UInt8.ofNat_toNat]
  | cons d rest =>
    simp only [decodeStandard?, decodeGroup, hv1, hv2, hv3, hv4, hfirst, hsecond, hthird,
      UInt8.ofNat_toNat, htail]
    rfl

theorem decodeStandard?_encodeStandard (bytes : List UInt8) :
    decodeStandard? (encodeStandard bytes) = some bytes := by
  induction bytes using encodeStandard.induct with
  | case1 => rfl
  | case2 a =>
    have ha := a.toNat_lt
    have hv1 := digitValue?_digit (n := a.toNat / 4) (by omega)
    have hv2 := digitValue?_digit (n := a.toNat % 4 * 16) (by omega)
    have hfirst : a.toNat / 4 * 4 + a.toNat % 4 * 16 / 16 = a.toNat := by omega
    have hzero : a.toNat % 4 * 16 % 16 = 0 := by omega
    simp only [encodeStandard, decodeStandard?, decodeLast, hv1, hv2, digitValue?_pad, hfirst,
      hzero, UInt8.ofNat_toNat, and_self, if_true]
  | case3 a b =>
    have ha := a.toNat_lt
    have hb := b.toNat_lt
    have hv1 := digitValue?_digit (n := a.toNat / 4) (by omega)
    have hv2 := digitValue?_digit (n := a.toNat % 4 * 16 + b.toNat / 16) (by omega)
    have hv3 := digitValue?_digit (n := b.toNat % 16 * 4) (by omega)
    have hfirst : a.toNat / 4 * 4 + (a.toNat % 4 * 16 + b.toNat / 16) / 16 = a.toNat := by omega
    have hsecond : (a.toNat % 4 * 16 + b.toNat / 16) % 16 * 16 + b.toNat % 16 * 4 / 4 = b.toNat := by
      omega
    have hzero : b.toNat % 16 * 4 % 4 = 0 := by omega
    simp only [encodeStandard, decodeStandard?, decodeLast, hv1, hv2, hv3, digitValue?_pad, hfirst,
      hsecond, hzero, UInt8.ofNat_toNat, and_self, if_true]
  | case4 a b c rest ih => exact decodeStandard?_three a b c _ rest ih

theorem length_encodeStandard (bytes : List UInt8) :
    (encodeStandard bytes).length = 4 * ((bytes.length + 2) / 3) := by
  induction bytes using encodeStandard.induct with
  | case1 => rfl
  | case2 a => simp [encodeStandard]
  | case3 a b => simp [encodeStandard]
  | case4 a b c rest ih =>
    simp only [encodeStandard, List.length_cons, ih]
    omega

theorem isBase64Char_of_mem_encodeStandard (bytes : List UInt8) :
    ∀ c ∈ encodeStandard bytes, IsBase64Char c := by
  have hpad : IsBase64Char '=' := by decide
  induction bytes using encodeStandard.induct with
  | case1 => simp [encodeStandard]
  | case2 a => simp [encodeStandard, isBase64Char_digit, hpad]
  | case3 a b => simp [encodeStandard, isBase64Char_digit, hpad]
  | case4 a b c rest ih => simpa [encodeStandard, isBase64Char_digit] using ih

/-- The engine with the standard alphabet and canonical padding. -/
def standard : Base64Engine where
  encode := encodeStandard
  decode text := Outcome.ofOption (decodeStandard? text) "Invalid base64"
  decode_encode bytes := by rw [decodeStandard?_encodeStandard, Outcome.ofOption]
  length_encode := length_encodeStandard
  isBase64Char_of_mem_encode := isBase64Char_of_mem_encodeStandard

end Base64Engine

end CodeLib
