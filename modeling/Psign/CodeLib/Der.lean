import Mathlib.Data.List.Basic
import Mathlib.Data.List.Induction
import Psign.CodeLib.Members

/-!
# Tag, length, value

The framing that DER and BER share: an identifier octet, a definite length and
that many contents octets.  `readTlv` takes one element off the front of a byte
string, `readTlvs` cuts a whole byte string into elements, `encodeTlv` writes one
element with the shortest length.

`readLength` takes the number of length octets it accepts as a parameter, since
readers differ in it.  A string that `readTlvs` accepts is exactly a
concatenation of elements (`readTlvs_eq_some`), so replacing one element of it by
another gives the same elements with that one replaced.
-/

namespace CodeLib.Der

/-- One element: its identifier octet, all of its bytes and its contents. -/
structure Tlv where
  tag : UInt8
  raw : List UInt8
  value : List UInt8
  deriving DecidableEq, Repr

/-! ## Lengths -/

/-- The number a big-endian byte string spells. -/
def beNat (bytes : List UInt8) : Nat :=
  bytes.foldl (fun n byte => n * 256 + byte.toNat) 0

/-- The shortest big-endian spelling of a number, of at most `width` bytes. -/
def beBytes : Nat → Nat → List UInt8
  | 0, _ => []
  | width + 1, n => if n = 0 then [] else beBytes width (n / 256) ++ [UInt8.ofNat (n % 256)]

/-- A definite length at the start of a byte string: the length, and how many
bytes spell it.  The long form may have up to `maxOctets` length octets. -/
def readLength (maxOctets : Nat) (bytes : List UInt8) : Option (Nat × Nat) :=
  match bytes with
  | [] => none
  | first :: rest =>
    if first.toNat < 128 then some (first.toNat, 1)
    else if first.toNat = 128 ∨ maxOctets < first.toNat - 128 ∨ rest.length < first.toNat - 128 then
      none
    else some (beNat (rest.take (first.toNat - 128)), 1 + (first.toNat - 128))

/-- The shortest definite length, as a 64-bit program writes it. -/
def encodeLength (n : Nat) : List UInt8 :=
  if n < 128 then [UInt8.ofNat n]
  else UInt8.ofNat (128 + (beBytes 8 n).length) :: beBytes 8 n

theorem beNat_append_byte (bytes : List UInt8) (byte : UInt8) :
    beNat (bytes ++ [byte]) = beNat bytes * 256 + byte.toNat := by
  simp [beNat, List.foldl_append]

theorem beNat_beBytes {width n : Nat} (h : n < 256 ^ width) : beNat (beBytes width n) = n := by
  induction width generalizing n with
  | zero =>
    have hzero : n = 0 := by simpa using h
    subst hzero
    rfl
  | succ width ih =>
    unfold beBytes
    by_cases hn : n = 0
    · rw [if_pos hn, hn]
      rfl
    · rw [if_neg hn, beNat_append_byte, ih (by rw [Nat.pow_succ] at h; omega)]
      have hbyte : (UInt8.ofNat (n % 256)).toNat = n % 256 := by simp
      rw [hbyte]
      omega

theorem length_beBytes_le {width k n : Nat} (h : n < 256 ^ k) : (beBytes width n).length ≤ k := by
  induction width generalizing k n with
  | zero => exact Nat.zero_le k
  | succ width ih =>
    unfold beBytes
    by_cases hn : n = 0
    · rw [if_pos hn]
      exact Nat.zero_le k
    · rw [if_neg hn, List.length_append, List.length_singleton]
      cases k with
      | zero => exact absurd (by simpa using h) hn
      | succ k =>
        have := ih (k := k) (n := n / 256) (by rw [Nat.pow_succ] at h; omega)
        omega

theorem beNat_lt (bytes : List UInt8) : beNat bytes < 256 ^ bytes.length := by
  induction bytes using List.reverseRecOn with
  | nil => decide
  | append_singleton bytes byte ih =>
    have hbyte : byte.toNat < 256 := UInt8.toNat_lt byte
    rw [beNat_append_byte, List.length_append, List.length_singleton, Nat.pow_succ]
    omega

theorem beBytes_ne_nil {width n : Nat} (hn : n ≠ 0) : beBytes (width + 1) n ≠ [] := by
  unfold beBytes
  rw [if_neg hn]
  simp

theorem beNat_cons (first : UInt8) (rest : List UInt8) :
    beNat (first :: rest) = first.toNat * 256 ^ rest.length + beNat rest := by
  induction rest using List.reverseRecOn with
  | nil => simp [beNat]
  | append_singleton rest last ih =>
    rw [← List.cons_append, beNat_append_byte, ih, beNat_append_byte, List.length_append,
      List.length_singleton, Nat.pow_succ, Nat.add_mul, Nat.mul_assoc, Nat.add_assoc]

/-- The shortest spelling does not begin with a zero. -/
theorem beBytes_head_ne_zero {width n : Nat} {first : UInt8} {rest : List UInt8}
    (h : beBytes width n = first :: rest) (hn : n < 256 ^ width) : first ≠ 0 := by
  induction width generalizing n first rest with
  | zero => cases h
  | succ width ih =>
    rw [beBytes] at h
    split at h
    · cases h
    · rename_i hne
      cases hshorter : beBytes width (n / 256) with
      | nil =>
        have hdiv : n / 256 = 0 := by
          have hvalue := @beNat_beBytes width (n / 256) (by rw [Nat.pow_succ] at hn; omega)
          rw [hshorter] at hvalue
          exact hvalue.symm
        rw [hshorter, List.nil_append, List.cons.injEq] at h
        rw [← h.1]
        intro hzero
        have hnat := congrArg UInt8.toNat hzero
        rw [UInt8.toNat_ofNat'] at hnat
        have : (0 : UInt8).toNat = 0 := rfl
        omega
      | cons head tail =>
        rw [hshorter, List.cons_append, List.cons.injEq] at h
        exact h.1 ▸ ih hshorter (by rw [Nat.pow_succ] at hn; omega)

/-- What a reader makes of the bytes it reads as a length does not depend on what
follows them. -/
theorem readLength_append {maxOctets n hdr : Nat} {bytes : List UInt8}
    (h : readLength maxOctets bytes = some (n, hdr)) (more : List UInt8) :
    readLength maxOctets (bytes ++ more) = some (n, hdr) := by
  cases bytes with
  | nil => simp [readLength] at h
  | cons first rest =>
    simp only [readLength, List.cons_append] at h ⊢
    split at h
    · rename_i hshort
      rw [if_pos hshort]
      exact h
    · rename_i hlong
      rw [if_neg hlong]
      split at h
      · simp at h
      · rename_i hok
        rw [if_neg (by rw [List.length_append]; omega), List.take_append_of_le_length (by omega)]
        exact h

theorem hdr_le_of_readLength {maxOctets n hdr : Nat} {bytes : List UInt8}
    (h : readLength maxOctets bytes = some (n, hdr)) :
    1 ≤ hdr ∧ hdr ≤ bytes.length ∧ hdr ≤ 1 + maxOctets ∧ (128 ≤ n → n < 256 ^ (hdr - 1)) := by
  cases bytes with
  | nil => simp [readLength] at h
  | cons first rest =>
    simp only [readLength] at h
    split at h
    · obtain ⟨rfl, rfl⟩ : first.toNat = n ∧ 1 = hdr := by simpa using h
      simp only [List.length_cons]
      omega
    · split at h
      · simp at h
      · rename_i hlong hok
        obtain ⟨rfl, rfl⟩ :
            beNat (rest.take (first.toNat - 128)) = n ∧ 1 + (first.toNat - 128) = hdr := by
          simpa using h
        have hlen : (rest.take (first.toNat - 128)).length = first.toNat - 128 :=
          List.length_take_of_le (by omega)
        have hlt := beNat_lt (rest.take (first.toNat - 128))
        rw [hlen] at hlt
        simp only [List.length_cons]
        refine ⟨by omega, by omega, by omega, fun _ => ?_⟩
        rw [Nat.add_sub_cancel_left]
        exact hlt

/-- Reading the first `hdr` bytes alone gives the same length. -/
theorem readLength_take {maxOctets n hdr k : Nat} {bytes : List UInt8}
    (h : readLength maxOctets bytes = some (n, hdr)) (hk : hdr ≤ k) :
    readLength maxOctets (bytes.take k) = some (n, hdr) := by
  have hhdr := hdr_le_of_readLength h
  cases bytes with
  | nil => simp [readLength] at h
  | cons first rest =>
    obtain ⟨k, rfl⟩ : ∃ m, k = m + 1 := ⟨k - 1, by omega⟩
    simp only [readLength, List.take_succ_cons] at h ⊢
    split at h
    · rename_i hshort
      rw [if_pos hshort]
      exact h
    · rename_i hlong
      rw [if_neg hlong]
      split at h
      · simp at h
      · rename_i hok
        have hdr_eq : 1 + (first.toNat - 128) = hdr := by simpa using (And.right (by simpa using h))
        rw [if_neg (by rw [List.length_take]; omega), List.take_take,
          Nat.min_eq_left (by omega)]
        exact h

theorem readLength_encodeLength {maxOctets n : Nat} (h : n < 256 ^ maxOctets)
    (hmax : maxOctets ≤ 8) (rest : List UInt8) :
    readLength maxOctets (encodeLength n ++ rest) = some (n, (encodeLength n).length) := by
  unfold encodeLength
  by_cases hn : n < 128
  · have hbyte : (UInt8.ofNat n).toNat = n := by simp; omega
    simp only [if_pos hn, List.cons_append, List.nil_append, readLength, hbyte,
      List.length_singleton]
  · have hle : (beBytes 8 n).length ≤ maxOctets := length_beBytes_le h
    have hpos : (beBytes 8 n).length ≠ 0 := by
      rw [ne_eq, List.length_eq_zero_iff]
      exact beBytes_ne_nil (by omega)
    have hbyte : (UInt8.ofNat (128 + (beBytes 8 n).length)).toNat = 128 + (beBytes 8 n).length := by
      simp
      omega
    have hval : beNat (beBytes 8 n) = n :=
      beNat_beBytes (Nat.lt_of_lt_of_le h (Nat.pow_le_pow_right (by decide) hmax))
    simp only [if_neg hn, List.cons_append, readLength, hbyte, Nat.add_sub_cancel_left,
      List.take_left, hval, List.length_cons]
    rw [if_neg (by omega), if_neg (by rw [List.length_append]; omega), Nat.add_comm]

theorem one_le_length_encodeLength (n : Nat) : 1 ≤ (encodeLength n).length := by
  unfold encodeLength
  split
  · simp
  · simp

/-- The shortest spelling of a length of at most three octets, octet by octet. -/
theorem encodeLength_of_lt {n : Nat} (h : n < 256 ^ 3) :
    encodeLength n =
      if n < 0x80 then [UInt8.ofNat n]
      else if n ≤ 0xff then [0x81, UInt8.ofNat n]
      else if n ≤ 0xffff then [0x82, UInt8.ofNat (n / 256), UInt8.ofNat (n % 256)]
      else [0x83, UInt8.ofNat (n / 65536), UInt8.ofNat (n / 256 % 256), UInt8.ofNat (n % 256)] := by
  unfold encodeLength
  by_cases h1 : n < 128
  · rw [if_pos h1, if_pos h1]
  · rw [if_neg h1, if_neg h1]
    by_cases h2 : n ≤ 0xff
    · have hbytes : beBytes 8 n = [UInt8.ofNat n] := by
        have hdiv : n / 256 = 0 := by omega
        have hmod : n % 256 = n := by omega
        simp [beBytes, hdiv, hmod, show n ≠ 0 by omega]
      rw [if_pos h2, hbytes]
      rfl
    · rw [if_neg h2]
      by_cases h3 : n ≤ 0xffff
      · have hbytes : beBytes 8 n = [UInt8.ofNat (n / 256), UInt8.ofNat (n % 256)] := by
          have hdiv : n / 256 / 256 = 0 := by omega
          have hmod : n / 256 % 256 = n / 256 := by omega
          simp [beBytes, hdiv, hmod, show n ≠ 0 by omega, show n / 256 ≠ 0 by omega]
        rw [if_pos h3, hbytes]
        rfl
      · have hbytes : beBytes 8 n =
            [UInt8.ofNat (n / 65536), UInt8.ofNat (n / 256 % 256), UInt8.ofNat (n % 256)] := by
          have hdiv2 : n / 256 / 256 = n / 65536 := by omega
          have hdiv3 : n / 65536 / 256 = 0 := by omega
          have hmod : n / 65536 % 256 = n / 65536 := by omega
          simp [beBytes, hdiv2, hdiv3, hmod, show n ≠ 0 by omega, show n / 256 ≠ 0 by omega,
            show n / 65536 ≠ 0 by omega]
        rw [if_neg h3, hbytes]
        rfl

/-- No spelling of a length is shorter than the shortest spelling of a length
that is not larger. -/
theorem length_encodeLength_le {maxOctets n m hdr : Nat} {bytes : List UInt8}
    (h : readLength maxOctets bytes = some (n, hdr)) (hm : m ≤ n) :
    (encodeLength m).length ≤ hdr := by
  obtain ⟨hone, -, -, hbig⟩ := hdr_le_of_readLength h
  unfold encodeLength
  by_cases hsmall : m < 128
  · rw [if_pos hsmall, List.length_singleton]
    exact hone
  · have hlen := @length_beBytes_le 8 _ _ (Nat.lt_of_le_of_lt hm (hbig (by omega)))
    rw [if_neg hsmall, List.length_cons]
    omega

theorem length_beBytes_le_width (width n : Nat) : (beBytes width n).length ≤ width := by
  induction width generalizing n with
  | zero => exact Nat.le_refl 0
  | succ width ih =>
    unfold beBytes
    by_cases hn : n = 0
    · rw [if_pos hn]
      exact Nat.zero_le _
    · have := ih (n / 256)
      rw [if_neg hn, List.length_append, List.length_singleton]
      omega

/-- A number from `256 ^ k` on takes more than `k` bytes. -/
theorem lt_length_beBytes {width k n : Nat} (hk : k < width) (h : 256 ^ k ≤ n) :
    k < (beBytes width n).length := by
  induction width generalizing k n with
  | zero => omega
  | succ width ih =>
    have hpos : 0 < 256 ^ k := Nat.pow_pos (by decide)
    unfold beBytes
    rw [if_neg (by omega), List.length_append, List.length_singleton]
    cases k with
    | zero => omega
    | succ k =>
      have := ih (k := k) (n := n / 256) (by omega) (by rw [Nat.pow_succ] at h; omega)
      omega

/-- The first octet of a written length says how many octets follow. -/
theorem encodeLength_append_inj {n m : Nat} {x y : List UInt8}
    (h : encodeLength n ++ x = encodeLength m ++ y) : encodeLength n = encodeLength m ∧ x = y := by
  have hn8 := length_beBytes_le_width 8 n
  have hm8 := length_beBytes_le_width 8 m
  unfold encodeLength at h ⊢
  by_cases hn : n < 128
  · by_cases hm : m < 128
    · rw [if_pos hn, if_pos hm] at h ⊢
      simpa using h
    · rw [if_pos hn, if_neg hm, List.cons_append, List.cons_append, List.cons.injEq] at h
      have hbyte := congrArg UInt8.toNat h.1
      rw [UInt8.toNat_ofNat', UInt8.toNat_ofNat'] at hbyte
      omega
  · by_cases hm : m < 128
    · rw [if_neg hn, if_pos hm, List.cons_append, List.cons_append, List.cons.injEq] at h
      have hbyte := congrArg UInt8.toNat h.1
      rw [UInt8.toNat_ofNat', UInt8.toNat_ofNat'] at hbyte
      omega
    · rw [if_neg hn, if_neg hm] at h ⊢
      have hbyte := congrArg UInt8.toNat (List.cons.inj h).1
      rw [UInt8.toNat_ofNat', UInt8.toNat_ofNat'] at hbyte
      exact List.append_inj h (by rw [List.length_cons, List.length_cons]; omega)

theorem encodeLength_inj {n m : Nat} (hn : n < 256 ^ 8) (hm : m < 256 ^ 8)
    (h : encodeLength n = encodeLength m) : n = m := by
  have hread := readLength_encodeLength hn (Nat.le_refl 8) []
  rw [h, readLength_encodeLength hm (Nat.le_refl 8) [], Option.some.injEq, Prod.mk.injEq] at hread
  exact hread.1.symm

/-- A length that takes too many octets is not read. -/
theorem readLength_encodeLength_eq_none {maxOctets n : Nat} (hmax : maxOctets < 8)
    (hpos : 0 < maxOctets) (h : 256 ^ maxOctets ≤ n) (rest : List UInt8) :
    readLength maxOctets (encodeLength n ++ rest) = none := by
  have hlong := lt_length_beBytes hmax h
  have hle := length_beBytes_le_width 8 n
  have hpow : 256 ^ 1 ≤ 256 ^ maxOctets := Nat.pow_le_pow_right (by decide) hpos
  have hbyte : (UInt8.ofNat (128 + (beBytes 8 n).length)).toNat = 128 + (beBytes 8 n).length := by
    rw [UInt8.toNat_ofNat']
    omega
  unfold encodeLength
  rw [if_neg (by omega), List.cons_append]
  simp only [readLength, hbyte]
  rw [if_neg (by omega), if_pos (by omega)]

/-! ## Elements -/

/-- The element at the start of a byte string, and the bytes after it. -/
def readTlv (maxOctets : Nat) (bytes : List UInt8) : Option (Tlv × List UInt8) :=
  match bytes with
  | [] => none
  | tag :: rest =>
    match readLength maxOctets rest with
    | none => none
    | some (len, hdr) =>
      if hdr + len ≤ rest.length then
        some (⟨tag, tag :: rest.take (hdr + len), (rest.drop hdr).take len⟩,
          rest.drop (hdr + len))
      else none

/-- Cut at most `fuel` elements off a byte string until nothing is left. -/
def readTlvsFuel (maxOctets : Nat) : Nat → List UInt8 → Option (List Tlv)
  | _, [] => some []
  | 0, _ :: _ => none
  | fuel + 1, byte :: rest =>
    match readTlv maxOctets (byte :: rest) with
    | none => none
    | some (tlv, after) => (readTlvsFuel maxOctets fuel after).map (tlv :: ·)

/-- The elements a byte string consists of. -/
def readTlvs (maxOctets : Nat) (bytes : List UInt8) : Option (List Tlv) :=
  readTlvsFuel maxOctets bytes.length bytes

/-- An element with the shortest length. -/
def encodeTlv (tag : UInt8) (content : List UInt8) : List UInt8 :=
  tag :: (encodeLength content.length ++ content)

/-- The bytes of an element are the element and nothing else. -/
def IsTlv (maxOctets : Nat) (tlv : Tlv) : Prop :=
  readTlv maxOctets tlv.raw = some (tlv, [])

instance (maxOctets : Nat) (tlv : Tlv) : Decidable (IsTlv maxOctets tlv) :=
  inferInstanceAs (Decidable (readTlv maxOctets tlv.raw = some (tlv, [])))

variable {maxOctets : Nat}

theorem readTlv_eq_some {bytes rest : List UInt8} {tlv : Tlv} :
    readTlv maxOctets bytes = some (tlv, rest) ↔
      bytes = tlv.raw ++ rest ∧ IsTlv maxOctets tlv := by
  constructor
  · intro h
    cases bytes with
    | nil => simp [readTlv] at h
    | cons tag tail =>
      simp only [readTlv] at h
      split at h
      · simp at h
      · rename_i len hdr hlen
        split at h
        · rename_i hle
          simp only [Option.some.injEq, Prod.mk.injEq] at h
          obtain ⟨rfl, rfl⟩ := h
          have htake : (tail.take (hdr + len)).length = hdr + len := List.length_take_of_le hle
          refine ⟨by simp, ?_⟩
          simp only [IsTlv, readTlv, readLength_take hlen (Nat.le_add_right hdr len), htake,
            Nat.le_refl, if_true, List.take_take, Nat.min_self]
          have hrest : (tail.take (hdr + len)).drop (hdr + len) = [] :=
            List.drop_eq_nil_of_le (Nat.le_of_eq htake)
          rw [hrest, List.drop_take, Nat.add_sub_cancel_left, List.take_take, Nat.min_self]
        · simp at h
  · rintro ⟨rfl, h⟩
    obtain ⟨tag, raw, value⟩ := tlv
    simp only [IsTlv] at h
    cases raw with
    | nil => simp [readTlv] at h
    | cons first tail =>
      simp only [readTlv] at h
      split at h
      · simp at h
      · rename_i len hdr hlen
        split at h
        · rename_i hle
          simp only [Option.some.injEq, Prod.mk.injEq, Tlv.mk.injEq, List.cons.injEq,
            true_and] at h
          obtain ⟨⟨rfl, hraw, rfl⟩, hrest⟩ := h
          have hlength : tail.length = hdr + len := by
            have := congrArg List.length hrest
            rw [List.length_drop, List.length_nil] at this
            omega
          have hhdr := (hdr_le_of_readLength hlen).2.1
          simp only [List.cons_append, readTlv, readLength_append hlen, List.length_append]
          rw [if_pos (by omega), List.take_append_of_le_length hle, hraw,
            List.drop_append_of_le_length hle, hrest, List.nil_append,
            List.drop_append_of_le_length hhdr, List.take_append_of_le_length (by
              rw [List.length_drop]; omega)]
        · simp at h

theorem IsTlv.readTlv_append {tlv : Tlv} (h : IsTlv maxOctets tlv) (rest : List UInt8) :
    readTlv maxOctets (tlv.raw ++ rest) = some (tlv, rest) :=
  readTlv_eq_some.mpr ⟨rfl, h⟩

/-- The shape of an element: identifier octet, length octets, contents. -/
theorem IsTlv.exists_header {tlv : Tlv} (h : IsTlv maxOctets tlv) :
    ∃ lengthOctets, tlv.raw = tlv.tag :: (lengthOctets ++ tlv.value) ∧
      readLength maxOctets (lengthOctets ++ tlv.value) =
        some (tlv.value.length, lengthOctets.length) := by
  obtain ⟨tag, raw, value⟩ := tlv
  simp only [IsTlv] at h
  cases raw with
  | nil => simp [readTlv] at h
  | cons first tail =>
    simp only [readTlv] at h
    split at h
    · simp at h
    · rename_i len hdr hlen
      split at h
      · rename_i hle
        simp only [Option.some.injEq, Prod.mk.injEq, Tlv.mk.injEq, List.cons.injEq,
          true_and] at h
        obtain ⟨⟨rfl, hraw, rfl⟩, hrest⟩ := h
        have hlength : tail.length = hdr + len := by
          have := congrArg List.length hrest
          rw [List.length_drop, List.length_nil] at this
          omega
        have hvalue : (tail.drop hdr).take len = tail.drop hdr :=
          List.take_of_length_le (by rw [List.length_drop]; omega)
        refine ⟨tail.take hdr, ?_, ?_⟩
        · rw [hvalue, List.take_append_drop]
        · have hhdr : (tail.take hdr).length = hdr := List.length_take_of_le (by omega)
          rw [hvalue, List.take_append_drop, hlen, hhdr, List.length_drop, hlength,
            Nat.add_sub_cancel_left]
      · simp at h

theorem IsTlv.raw_ne_nil {tlv : Tlv} (h : IsTlv maxOctets tlv) : tlv.raw ≠ [] := by
  obtain ⟨lengthOctets, hraw, -⟩ := h.exists_header
  rw [hraw]
  exact List.cons_ne_nil _ _

theorem IsTlv.length_value_lt {tlv : Tlv} (h : IsTlv maxOctets tlv) :
    tlv.value.length < max 128 (256 ^ maxOctets) := by
  obtain ⟨lengthOctets, -, hlen⟩ := h.exists_header
  obtain ⟨hone, -, hmax, hbig⟩ := hdr_le_of_readLength hlen
  by_cases hsmall : tlv.value.length < 128
  · omega
  · have hpow : 256 ^ (lengthOctets.length - 1) ≤ 256 ^ maxOctets :=
      Nat.pow_le_pow_right (by decide) (by omega)
    have := hbig (by omega)
    omega

theorem isTlv_encodeTlv {tag : UInt8} {content : List UInt8}
    (h : content.length < 256 ^ maxOctets) (hmax : maxOctets ≤ 8) :
    IsTlv maxOctets ⟨tag, encodeTlv tag content, content⟩ := by
  simp only [IsTlv, encodeTlv, readTlv, readLength_encodeLength h hmax, List.length_append,
    Nat.le_refl, if_true, List.drop_left, List.take_length]
  rw [← List.length_append, List.take_length, List.drop_length]

/-- Reading back an element with the shortest length. -/
theorem readTlv_encodeTlv (hmax : maxOctets < 8) (hpos : 0 < maxOctets)
    (tag : UInt8) (content rest : List UInt8) :
    readTlv maxOctets (encodeTlv tag content ++ rest) =
      if content.length < 256 ^ maxOctets then some (⟨tag, encodeTlv tag content, content⟩, rest)
      else none := by
  by_cases h : content.length < 256 ^ maxOctets
  · rw [if_pos h]
    exact (isTlv_encodeTlv h (Nat.le_of_lt hmax)).readTlv_append rest
  · rw [if_neg h, encodeTlv, List.cons_append, List.append_assoc]
    simp only [readTlv]
    rw [readLength_encodeLength_eq_none hmax hpos (Nat.le_of_not_lt h)]

/-- Elements with the shortest length are told apart by their bytes. -/
theorem encodeTlv_append_inj {tag tag' : UInt8} {content content' x y : List UInt8}
    (hlt : content.length < 256 ^ 8) (hlt' : content'.length < 256 ^ 8)
    (h : encodeTlv tag content ++ x = encodeTlv tag' content' ++ y) :
    tag = tag' ∧ content = content' ∧ x = y := by
  simp only [encodeTlv, List.cons_append, List.append_assoc, List.cons.injEq] at h
  obtain ⟨htag, hrest⟩ := h
  obtain ⟨hlength, hcontent⟩ := encodeLength_append_inj hrest
  have happend := List.append_inj hcontent (encodeLength_inj hlt hlt' hlength)
  exact ⟨htag, happend.1, happend.2⟩

/-- Encoding contents that are not longer than those of an element gives bytes
that are not more than the element's. -/
theorem IsTlv.length_encodeTlv_le {tlv : Tlv} (h : IsTlv maxOctets tlv) {content : List UInt8}
    (hle : content.length ≤ tlv.value.length) (tag : UInt8) :
    (encodeTlv tag content).length ≤ tlv.raw.length := by
  obtain ⟨lengthOctets, hraw, hlen⟩ := h.exists_header
  have := length_encodeLength_le hlen hle
  rw [hraw, encodeTlv, List.length_cons, List.length_cons, List.length_append, List.length_append]
  omega

/-! ## Sequences of elements -/

/-- The bytes of a sequence of elements. -/
def rawOf (tlvs : List Tlv) : List UInt8 :=
  (tlvs.map Tlv.raw).flatten

@[simp] theorem rawOf_nil : rawOf [] = [] := rfl

@[simp] theorem rawOf_cons (tlv : Tlv) (tlvs : List Tlv) :
    rawOf (tlv :: tlvs) = tlv.raw ++ rawOf tlvs := rfl

@[simp] theorem rawOf_append (first second : List Tlv) :
    rawOf (first ++ second) = rawOf first ++ rawOf second := by
  simp [rawOf]

private theorem readTlvsFuel_eq_some {fuel : Nat} {bytes : List UInt8} {tlvs : List Tlv}
    (hfuel : bytes.length ≤ fuel) :
    readTlvsFuel maxOctets fuel bytes = some tlvs ↔
      bytes = rawOf tlvs ∧ ∀ tlv ∈ tlvs, IsTlv maxOctets tlv := by
  induction fuel generalizing bytes tlvs with
  | zero =>
    obtain rfl : bytes = [] := List.length_eq_zero_iff.mp (Nat.le_zero.mp hfuel)
    cases tlvs with
    | nil => simp [readTlvsFuel]
    | cons tlv tlvs =>
      simp only [readTlvsFuel, Option.some.injEq, reduceCtorEq, rawOf_cons, false_iff, not_and]
      intro hbytes hall
      exact (hall tlv List.mem_cons_self).raw_ne_nil (List.append_eq_nil_iff.mp hbytes.symm).1
  | succ fuel ih =>
    cases bytes with
    | nil =>
      cases tlvs with
      | nil => simp [readTlvsFuel]
      | cons tlv tlvs =>
        simp only [readTlvsFuel, Option.some.injEq, reduceCtorEq, rawOf_cons, false_iff, not_and]
        intro hbytes hall
        exact (hall tlv List.mem_cons_self).raw_ne_nil (List.append_eq_nil_iff.mp hbytes.symm).1
    | cons byte rest =>
      simp only [readTlvsFuel]
      constructor
      · intro h
        split at h
        · simp at h
        · rename_i tlv after hread
          obtain ⟨htail, htlv, htlvs⟩ := Option.map_eq_some_iff.mp h
          obtain ⟨hbytes, hisTlv⟩ := readTlv_eq_some.mp hread
          have hpos := List.length_pos_of_ne_nil hisTlv.raw_ne_nil
          have hlength : after.length ≤ fuel := by
            have := congrArg List.length hbytes
            rw [List.length_append] at this
            omega
          obtain ⟨hafter, hall⟩ := (ih hlength).mp htlv
          subst htlvs
          refine ⟨by rw [hbytes, rawOf_cons, hafter], ?_⟩
          intro other hother
          rcases List.mem_cons.mp hother with rfl | hother
          · exact hisTlv
          · exact hall other hother
      · rintro ⟨hbytes, hall⟩
        cases tlvs with
        | nil => simp at hbytes
        | cons tlv tlvs =>
          have hisTlv := hall tlv List.mem_cons_self
          have hread := hisTlv.readTlv_append (rawOf tlvs)
          rw [rawOf_cons] at hbytes
          rw [hbytes, hread]
          have hpos := List.length_pos_of_ne_nil hisTlv.raw_ne_nil
          have hlength : (rawOf tlvs).length ≤ fuel := by
            have := congrArg List.length hbytes
            rw [List.length_append] at this
            omega
          have htail := (ih hlength).mpr ⟨rfl, fun t ht => hall t (List.mem_cons_of_mem _ ht)⟩
          simp [htail]

/-- A byte string consists of elements exactly when it is their concatenation. -/
theorem readTlvs_eq_some {bytes : List UInt8} {tlvs : List Tlv} :
    readTlvs maxOctets bytes = some tlvs ↔
      bytes = rawOf tlvs ∧ ∀ tlv ∈ tlvs, IsTlv maxOctets tlv :=
  readTlvsFuel_eq_some (Nat.le_refl _)

theorem readTlvs_nil : readTlvs maxOctets [] = some [] := rfl

/-- A byte string that does not begin with an element does not consist of elements. -/
theorem readTlvs_eq_none {bytes : List UInt8} (hne : bytes ≠ [])
    (h : readTlv maxOctets bytes = none) : readTlvs maxOctets bytes = none := by
  apply Option.eq_none_iff_forall_ne_some.mpr
  intro tlvs htlvs
  obtain ⟨hbytes, hall⟩ := readTlvs_eq_some.mp htlvs
  cases tlvs with
  | nil => exact hne hbytes
  | cons tlv tlvs =>
    have hsome := (hall tlv List.mem_cons_self).readTlv_append (rawOf tlvs)
    rw [← rawOf_cons, ← hbytes, h] at hsome
    exact Option.some_ne_none _ hsome.symm

/-- The elements of a byte string that begins with an element. -/
theorem readTlvs_of_readTlv {bytes rest : List UInt8} {tlv : Tlv}
    (h : readTlv maxOctets bytes = some (tlv, rest)) :
    readTlvs maxOctets bytes = (readTlvs maxOctets rest).map (tlv :: ·) := by
  obtain ⟨hbytes, hisTlv⟩ := readTlv_eq_some.mp h
  apply Option.ext
  intro tlvs
  rw [Option.map_eq_some_iff, readTlvs_eq_some]
  constructor
  · intro hread
    obtain ⟨hraw, hall⟩ := hread
    cases tlvs with
    | nil => exact absurd (List.append_eq_nil_iff.mp (hbytes.symm.trans hraw)).1 hisTlv.raw_ne_nil
    | cons first tlvs =>
      have hfirst := (hall first List.mem_cons_self).readTlv_append (rawOf tlvs)
      rw [← rawOf_cons, ← hraw, h, Option.some.injEq, Prod.mk.injEq] at hfirst
      obtain ⟨rfl, hrest⟩ := hfirst
      exact ⟨tlvs, readTlvs_eq_some.mpr ⟨hrest, fun t ht => hall t (List.mem_cons_of_mem _ ht)⟩, rfl⟩
  · intro hread
    obtain ⟨after, hafter, rfl⟩ := hread
    obtain ⟨hraw, hall⟩ := readTlvs_eq_some.mp hafter
    refine ⟨by rw [hbytes, hraw, rawOf_cons], ?_⟩
    intro other hother
    rcases List.mem_cons.mp hother with rfl | hother
    · exact hisTlv
    · exact hall other hother

/-- The elements of a byte string that begins with one with the shortest length. -/
theorem readTlvs_encodeTlv (hmax : maxOctets < 8) (hpos : 0 < maxOctets) (tag : UInt8)
    (content rest : List UInt8) :
    readTlvs maxOctets (encodeTlv tag content ++ rest) =
      if content.length < 256 ^ maxOctets then
        (readTlvs maxOctets rest).map (⟨tag, encodeTlv tag content, content⟩ :: ·)
      else none := by
  have hread := readTlv_encodeTlv hmax hpos tag content rest
  by_cases h : content.length < 256 ^ maxOctets
  · rw [if_pos h] at hread ⊢
    exact readTlvs_of_readTlv hread
  · rw [if_neg h] at hread ⊢
    exact readTlvs_eq_none (List.cons_ne_nil _ _) hread

/-- Replacing one element of a byte string replaces it among its elements. -/
theorem readTlvs_replace {before after : List Tlv} {old new : Tlv} {bytes : List UInt8}
    (h : readTlvs maxOctets bytes = some (before ++ old :: after)) (hnew : IsTlv maxOctets new) :
    readTlvs maxOctets (rawOf before ++ new.raw ++ rawOf after) =
      some (before ++ new :: after) := by
  obtain ⟨-, hall⟩ := readTlvs_eq_some.mp h
  refine readTlvs_eq_some.mpr ⟨by simp, ?_⟩
  intro tlv htlv
  rcases List.mem_append.mp htlv with hmem | hmem
  · exact hall tlv (List.mem_append_left _ hmem)
  · rcases List.mem_cons.mp hmem with rfl | hmem
    · exact hnew
    · exact hall tlv (List.mem_append_right _ (List.mem_cons_of_mem _ hmem))

/-- An element written again with one of its children replaced. -/
def withChild (parent : Tlv) (before : List Tlv) (child : List UInt8) (after : List Tlv) : Tlv :=
  ⟨parent.tag, encodeTlv parent.tag (rawOf before ++ child ++ rawOf after),
    rawOf before ++ child ++ rawOf after⟩

/-- Replacing a child by one that is not longer gives an element that is not
longer, with that child replaced. -/
theorem IsTlv.withChild {parent old new : Tlv} (before : List Tlv) {after : List Tlv}
    (h : IsTlv maxOctets parent) (hmax : maxOctets ≤ 8) (hpos : 0 < maxOctets)
    (hchildren : readTlvs maxOctets parent.value = some (before ++ old :: after))
    (hnew : IsTlv maxOctets new) (hle : new.raw.length ≤ old.raw.length) :
    IsTlv maxOctets (withChild parent before new.raw after) ∧
      readTlvs maxOctets (Der.withChild parent before new.raw after).value =
        some (before ++ new :: after) ∧
      (Der.withChild parent before new.raw after).raw.length ≤ parent.raw.length := by
  have hvalue := congrArg List.length (readTlvs_eq_some.mp hchildren).1
  simp only [rawOf_append, rawOf_cons, List.length_append] at hvalue
  have hcontent : (rawOf before ++ new.raw ++ rawOf after).length ≤ parent.value.length := by
    simp only [List.length_append]
    omega
  have hlt := h.length_value_lt
  have hpow : 256 ^ 1 ≤ 256 ^ maxOctets := Nat.pow_le_pow_right (by decide) hpos
  refine ⟨isTlv_encodeTlv (by omega) hmax, readTlvs_replace hchildren hnew, ?_⟩
  exact h.length_encodeTlv_le hcontent parent.tag

end CodeLib.Der
