import Mathlib.Data.List.Basic
import Mathlib.Data.Nat.Bitwise
import Psign.CodeLib.Transducer

/-!
# Text encodings

A string is a list of characters.  This module has its two encodings and their
lossy decoders, which replace every maximal malformed piece by one U+FFFD:

* `utf8Lossy` reads UTF-8 bytes; the ranges of the second byte are those of the
  Unicode table of well-formed sequences, so overlong forms, surrogates and
  values past U+10FFFF are malformed;
* `encodeUtf16` writes UTF-16 code units and `fromUtf16Lossy` reads them, an
  unpaired surrogate being malformed.

Both decoders are transducers in which an ASCII symbol is synchronizing
(`utf8Decoder_onlyFrom_ascii`, `utf16Decoder_onlyFrom_ascii`): ASCII text is
found in the output exactly where it stands in the input.
-/

namespace CodeLib.Unicode

/-- U+FFFD, which stands for a malformed sequence. -/
def replacement : Char := Char.ofNat 0xFFFD

/-- A character of the ASCII range. -/
def IsAscii (c : Char) : Prop :=
  c.toNat < 0x80

instance (c : Char) : Decidable (IsAscii c) :=
  inferInstanceAs (Decidable (c.toNat < 0x80))

/-- The byte of an ASCII character. -/
def asciiByte (c : Char) : UInt8 :=
  UInt8.ofNat c.toNat

/-- The code unit of a character of the basic plane. -/
def unit (c : Char) : UInt16 :=
  UInt16.ofNat c.toNat

/-! ## UTF-8 -/

/-- The UTF-8 bytes of a text. -/
def utf8Encode (text : List Char) : List UInt8 :=
  text.flatMap String.utf8EncodeChar

/-- An unfinished UTF-8 sequence: how many bytes are missing, the range of the
next one, which never is an ASCII byte, and the bits read so far. -/
inductive Utf8State where
  | start
  | pending (missing lo hi bits : Nat) (hlo : 0x80 ≤ lo)

/-- Read the first byte of a sequence. -/
def utf8Start (b : UInt8) : List Char × Utf8State :=
  let n := b.toNat
  if n < 0x80 then ([Char.ofNat n], .start)
  else if 0xC2 ≤ n ∧ n ≤ 0xDF then ([], .pending 1 0x80 0xBF (n - 0xC0) (by decide))
  else if n = 0xE0 then ([], .pending 2 0xA0 0xBF 0 (by decide))
  else if n = 0xED then ([], .pending 2 0x80 0x9F 0xD (by decide))
  else if 0xE1 ≤ n ∧ n ≤ 0xEF then ([], .pending 2 0x80 0xBF (n - 0xE0) (by decide))
  else if n = 0xF0 then ([], .pending 3 0x90 0xBF 0 (by decide))
  else if 0xF1 ≤ n ∧ n ≤ 0xF3 then ([], .pending 3 0x80 0xBF (n - 0xF0) (by decide))
  else if n = 0xF4 then ([], .pending 3 0x80 0x8F 4 (by decide))
  else ([replacement], .start)

/-- Read one byte. -/
def utf8Step (state : Utf8State) (b : UInt8) : List Char × Utf8State :=
  match state with
  | .start => utf8Start b
  | .pending missing lo hi bits _ =>
      if lo ≤ b.toNat ∧ b.toNat ≤ hi then
        let bits := bits * 64 + (b.toNat - 0x80)
        if missing = 1 then ([Char.ofNat bits], .start)
        else ([], .pending (missing - 1) 0x80 0xBF bits (by decide))
      else
        -- the malformed piece ends before `b`, which starts a sequence of its own
        (replacement :: (utf8Start b).1, (utf8Start b).2)

/-- The lossy UTF-8 decoder. -/
def utf8Decoder : Transducer Utf8State UInt8 Char where
  initial := .start
  step := utf8Step
  finish
    | .start => []
    | .pending .. => [replacement]

/-- `String::from_utf8_lossy`. -/
def utf8Lossy (bytes : List UInt8) : List Char :=
  utf8Decoder.run bytes

/-- `str::from_utf8`: the text of bytes that are UTF-8 throughout, which are those
that no replacement character stands in for. -/
def fromUtf8 (bytes : List UInt8) : Option (List Char) :=
  if utf8Encode (utf8Lossy bytes) = bytes then some (utf8Lossy bytes) else none

/-! ## UTF-16 -/

def IsHighSurrogate (u : UInt16) : Prop :=
  0xD800 ≤ u.toNat ∧ u.toNat < 0xDC00

def IsLowSurrogate (u : UInt16) : Prop :=
  0xDC00 ≤ u.toNat ∧ u.toNat < 0xE000

instance (u : UInt16) : Decidable (IsHighSurrogate u) :=
  inferInstanceAs (Decidable (_ ∧ _))

instance (u : UInt16) : Decidable (IsLowSurrogate u) :=
  inferInstanceAs (Decidable (_ ∧ _))

/-- The code units of one character. -/
def utf16Units (c : Char) : List UInt16 :=
  if c.toNat < 0x10000 then [unit c]
  else
    [UInt16.ofNat (0xD800 + (c.toNat - 0x10000) / 0x400),
      UInt16.ofNat (0xDC00 + (c.toNat - 0x10000) % 0x400)]

/-- `str::encode_utf16`. -/
def encodeUtf16 (text : List Char) : List UInt16 :=
  text.flatMap utf16Units

/-- An open high surrogate. -/
abbrev HighSurrogate := { u : UInt16 // IsHighSurrogate u }

/-- The character of a surrogate pair. -/
def pairChar (high : HighSurrogate) (low : UInt16) : Char :=
  Char.ofNat (0x10000 + (high.val.toNat - 0xD800) * 0x400 + (low.toNat - 0xDC00))

/-- Read a code unit when no surrogate is open. -/
def utf16Start (u : UInt16) : List Char × Option HighSurrogate :=
  if hhigh : IsHighSurrogate u then ([], some ⟨u, hhigh⟩)
  else if IsLowSurrogate u then ([replacement], none)
  else ([Char.ofNat u.toNat], none)

/-- Read one code unit; the state is the open high surrogate. -/
def utf16Step (state : Option HighSurrogate) (u : UInt16) : List Char × Option HighSurrogate :=
  match state with
  | none => utf16Start u
  | some high =>
      if IsLowSurrogate u then ([pairChar high u], none)
      else (replacement :: (utf16Start u).1, (utf16Start u).2)

/-- The lossy UTF-16 decoder. -/
def utf16Decoder : Transducer (Option HighSurrogate) UInt16 Char where
  initial := none
  step := utf16Step
  finish
    | none => []
    | some _ => [replacement]

/-- `String::from_utf16_lossy`. -/
def fromUtf16Lossy (units : List UInt16) : List Char :=
  utf16Decoder.run units

/-- `String::from_utf16`: the text of code units without an unpaired surrogate, which
are those that no replacement character stands in for. -/
def fromUtf16 (units : List UInt16) : Option (List Char) :=
  if encodeUtf16 (fromUtf16Lossy units) = units then some (fromUtf16Lossy units) else none

/-! ## Numbers of characters -/

theorem toNat_ofNat {n : Nat} (h : n.isValidChar) : (Char.ofNat n).toNat = n := by
  rw [Char.ofNat, dif_pos h]
  rfl

theorem toNat_valid (c : Char) : c.toNat < 0xD800 ∨ 0xDFFF < c.toNat ∧ c.toNat < 0x110000 :=
  c.valid

theorem ne_replacement_of_isAscii {c : Char} (h : IsAscii c) : c ≠ replacement := by
  rintro rfl
  exact absurd h (by decide)

theorem toNat_unit {c : Char} (h : c.toNat < 0x10000) : (unit c).toNat = c.toNat := by
  rw [unit, UInt16.toNat_ofNat', Nat.mod_eq_of_lt h]

theorem toNat_asciiByte {c : Char} (h : IsAscii c) : (asciiByte c).toNat = c.toNat := by
  rw [asciiByte, UInt8.toNat_ofNat', Nat.mod_eq_of_lt (by unfold IsAscii at h; omega)]

/-! ## ASCII text -/

theorem utf16Units_of_isAscii {c : Char} (h : IsAscii c) : utf16Units c = [unit c] :=
  if_pos (by unfold IsAscii at h; omega)

theorem encodeUtf16_of_isAscii {text : List Char} (h : ∀ c ∈ text, IsAscii c) :
    encodeUtf16 text = text.map unit := by
  induction text with
  | nil => rfl
  | cons c text ih =>
    rw [encodeUtf16, List.flatMap_cons, utf16Units_of_isAscii (h c List.mem_cons_self)]
    exact congrArg (unit c :: ·) (ih fun d hd => h d (List.mem_cons_of_mem _ hd))

theorem utf8Encode_of_isAscii {text : List Char} (h : ∀ c ∈ text, IsAscii c) :
    utf8Encode text = text.map asciiByte := by
  induction text with
  | nil => rfl
  | cons c text ih =>
    have hc : c.val.toNat ≤ 0x7f := Nat.le_of_lt_succ (h c List.mem_cons_self)
    rw [utf8Encode, List.flatMap_cons, String.utf8EncodeChar, if_pos hc]
    exact congrArg (asciiByte c :: ·) (ih fun d hd => h d (List.mem_cons_of_mem _ hd))

theorem utf8Start_asciiByte {c : Char} (h : IsAscii c) :
    utf8Start (asciiByte c) = ([c], .start) := by
  have hn := toNat_asciiByte h
  unfold IsAscii at h
  simp [utf8Start, hn, h]

theorem utf8Decoder_synchronizing {c : Char} (h : IsAscii c) :
    utf8Decoder.Synchronizing (asciiByte c) := by
  intro state
  cases state with
  | start => rfl
  | pending missing lo hi bits hlo =>
    have hn := toNat_asciiByte h
    have hrange : ¬ (lo ≤ (asciiByte c).toNat ∧ (asciiByte c).toNat ≤ hi) := by
      unfold IsAscii at h
      omega
    simp only [utf8Decoder, utf8Step, if_neg hrange, List.singleton_append]

theorem utf16Start_unit {c : Char} (h : c.toNat < 0x10000) :
    utf16Start (unit c) = ([c], none) := by
  have hn := toNat_unit h
  have hvalid := toNat_valid c
  rw [utf16Start, dif_neg (by unfold IsHighSurrogate; omega),
    if_neg (by unfold IsLowSurrogate; omega), hn, Char.ofNat_toNat]

theorem utf16Decoder_onlyFrom_ascii {c : Char} (h : IsAscii c) :
    utf16Decoder.OnlyFrom c (unit c) where
  synchronizing state := by
    cases state with
    | none => rfl
    | some high =>
      have hn := toNat_unit (c := c) (by unfold IsAscii at h; omega)
      have hlow : ¬ IsLowSurrogate (unit c) := by
        unfold IsAscii at h
        unfold IsLowSurrogate
        omega
      simp only [utf16Decoder, utf16Step, if_neg hlow, List.singleton_append]
  step_initial := utf16Start_unit (by unfold IsAscii at h; omega)
  symbol_of_mem_step state u hmem := by
    have hstart : c ∈ (utf16Start u).1 → u = unit c := by
      intro hmem
      unfold utf16Start at hmem
      split at hmem
      · simp at hmem
      · split at hmem
        · exact absurd (List.mem_singleton.mp hmem) (ne_replacement_of_isAscii h)
        · have hc : c = Char.ofNat u.toNat := List.mem_singleton.mp hmem
          have hu : u.toNat.isValidChar := by
            have := u.toNat_lt
            unfold IsHighSurrogate IsLowSurrogate at *
            unfold Nat.isValidChar
            omega
          rw [hc, unit, toNat_ofNat hu]
          simp
    cases state with
    | none => exact hstart hmem
    | some high =>
      simp only [utf16Decoder, utf16Step] at hmem
      split at hmem
      · rename_i hlow
        have hhigh := high.property
        have hc : c = pairChar high u := List.mem_singleton.mp hmem
        rw [hc, IsAscii, pairChar] at h
        unfold IsHighSurrogate at hhigh
        unfold IsLowSurrogate at hlow
        rw [toNat_ofNat (by unfold Nat.isValidChar; omega)] at h
        omega
      · rcases List.mem_cons.mp hmem with hc | hmem
        · exact absurd hc (ne_replacement_of_isAscii h)
        · exact hstart hmem
  not_mem_finish state := by
    cases state with
    | none => simp [utf16Decoder]
    | some high =>
      simpa [utf16Decoder] using ne_replacement_of_isAscii h

/-- ASCII text is read as itself, whatever stands before it. -/
theorem utf8Lossy_append_of_isAscii {text : List Char} (h : ∀ c ∈ text, IsAscii c)
    (bytes : List UInt8) :
    utf8Lossy (bytes ++ utf8Encode text) = utf8Lossy bytes ++ text := by
  rw [utf8Encode_of_isAscii h]
  have hrun : utf8Lossy (text.map asciiByte) = text := by
    have := utf8Decoder.run_map_of_step rfl asciiByte id text
      fun c hc => utf8Start_asciiByte (h c hc)
    rwa [List.map_id] at this
  cases text with
  | nil => rw [List.map_nil, List.append_nil, List.append_nil]
  | cons c text =>
    rw [List.map_cons] at hrun ⊢
    rw [utf8Lossy, Transducer.run_append_of_synchronizing
      (utf8Decoder_synchronizing (h c List.mem_cons_self))]
    exact congrArg (utf8Lossy bytes ++ ·) hrun

/-! ## Encoded text is read back -/

/-- A continuation byte that is not the last one. -/
theorem utf8Step_more {lo hi : Nat} (missing bits : Nat) (hlo : 0x80 ≤ lo) {b : UInt8}
    (hb : lo ≤ b.toNat ∧ b.toNat ≤ hi) (hmissing : missing ≠ 1) :
    utf8Step (.pending missing lo hi bits hlo) b =
      ([], .pending (missing - 1) 0x80 0xBF (bits * 64 + (b.toNat - 0x80)) (by decide)) := by
  simp only [utf8Step, if_pos hb, if_neg hmissing]

/-- The last continuation byte. -/
theorem utf8Step_last {lo hi bits : Nat} {hlo : 0x80 ≤ lo} {b : UInt8}
    (hb : lo ≤ b.toNat ∧ b.toNat ≤ hi) :
    utf8Step (.pending 1 lo hi bits hlo) b =
      ([Char.ofNat (bits * 64 + (b.toNat - 0x80))], .start) := by
  simp only [utf8Step, if_pos hb, if_true]

theorem toNat_byte (n : Nat) : (UInt8.ofNat n).toNat = n % 256 := UInt8.toNat_ofNat' ..

/-- The first byte of three, and the bytes that can follow it. -/
theorem utf8Start_three {k : Nat} (hk : k < 16) :
    ∃ lo hi hlo, utf8Start (UInt8.ofNat (k + 224)) = ([], .pending 2 lo hi k hlo) ∧
      ∀ n, 0x80 ≤ n → n ≤ 0xBF → (k = 0 → 0xA0 ≤ n) → (k = 13 → n ≤ 0x9F) → lo ≤ n ∧ n ≤ hi := by
  have hn : (UInt8.ofNat (k + 224)).toNat = k + 224 := by
    rw [toNat_byte]
    omega
  simp only [utf8Start, hn]
  rw [if_neg (by omega), if_neg (by omega)]
  by_cases hzero : k = 0
  · subst hzero
    exact ⟨0xA0, 0xBF, by decide, rfl, fun n _ hhi hlo _ => ⟨hlo rfl, hhi⟩⟩
  · rw [if_neg (by omega)]
    by_cases hsurrogate : k = 13
    · subst hsurrogate
      exact ⟨0x80, 0x9F, by decide, rfl, fun n hlo _ _ hhi => ⟨hlo, hhi rfl⟩⟩
    · rw [if_neg (by omega), if_pos (by omega), Nat.add_sub_cancel]
      exact ⟨0x80, 0xBF, by decide, rfl, fun n hlo hhi _ _ => ⟨hlo, hhi⟩⟩

/-- The first byte of four, and the bytes that can follow it. -/
theorem utf8Start_four {k : Nat} (hk : k ≤ 4) :
    ∃ lo hi hlo, utf8Start (UInt8.ofNat (k + 240)) = ([], .pending 3 lo hi k hlo) ∧
      ∀ n, 0x80 ≤ n → n ≤ 0xBF → (k = 0 → 0x90 ≤ n) → (k = 4 → n ≤ 0x8F) → lo ≤ n ∧ n ≤ hi := by
  have hn : (UInt8.ofNat (k + 240)).toNat = k + 240 := by
    rw [toNat_byte]
    omega
  simp only [utf8Start, hn]
  rw [if_neg (by omega), if_neg (by omega), if_neg (by omega), if_neg (by omega), if_neg (by omega)]
  by_cases hzero : k = 0
  · subst hzero
    exact ⟨0x90, 0xBF, by decide, rfl, fun n _ hhi hlo _ => ⟨hlo rfl, hhi⟩⟩
  · rw [if_neg (by omega)]
    by_cases hfour : k = 4
    · subst hfour
      exact ⟨0x80, 0x8F, by decide, rfl, fun n hlo _ _ hhi => ⟨hlo, hhi rfl⟩⟩
    · rw [if_pos (by omega), Nat.add_sub_cancel]
      exact ⟨0x80, 0xBF, by decide, rfl, fun n hlo hhi _ _ => ⟨hlo, hhi⟩⟩

/-- The bytes of a character are read as the character. -/
theorem utf8Lossy_char (c : Char) (rest : List UInt8) :
    utf8Lossy (String.utf8EncodeChar c ++ rest) = c :: utf8Lossy rest := by
  have hvalid := toNat_valid c
  have hself : ∀ {n : Nat}, n = c.toNat → Char.ofNat n = c := by
    intro n hn
    rw [hn, Char.ofNat_toNat]
  show utf8Decoder.runFrom .start _ = c :: utf8Decoder.runFrom .start rest
  rw [String.utf8EncodeChar]
  simp only [show c.val.toNat = c.toNat from rfl]
  split
  · rename_i h
    have hstart : utf8Start (UInt8.ofNat c.toNat) = ([c], .start) :=
      utf8Start_asciiByte (show c.toNat < 0x80 by omega)
    simp only [List.cons_append, List.nil_append, Transducer.runFrom, utf8Decoder, utf8Step, hstart]
  · split
    · have hstart : utf8Start (UInt8.ofNat (c.toNat / 64 % 32 + 192)) =
          ([], .pending 1 0x80 0xBF (c.toNat / 64) (by decide)) := by
        simp only [utf8Start, toNat_byte]
        rw [if_neg (by omega), if_pos (by omega)]
        have hbits : (c.toNat / 64 % 32 + 192) % 256 - 192 = c.toNat / 64 := by omega
        simp only [hbits]
      have hlast : utf8Step (.pending 1 0x80 0xBF (c.toNat / 64) (by decide))
          (UInt8.ofNat (c.toNat % 64 + 128)) = ([c], .start) := by
        rw [utf8Step_last (by rw [toNat_byte]; omega), toNat_byte, hself (by omega)]
      simp only [List.cons_append, List.nil_append, Transducer.runFrom, utf8Decoder] at hlast ⊢
      simp only [utf8Step.eq_1, hstart, hlast]
      rfl
    · have hcont : ∀ n, 0x80 ≤ (UInt8.ofNat (n % 64 + 128)).toNat ∧
          (UInt8.ofNat (n % 64 + 128)).toNat ≤ 0xBF := by
        intro n
        rw [toNat_byte]
        omega
      split
      · obtain ⟨lo, hi, hlo, hstart, hsecond⟩ := utf8Start_three (k := c.toNat / 4096 % 16) (by omega)
        have hmore := utf8Step_more 2 (c.toNat / 4096 % 16) hlo
          (b := UInt8.ofNat (c.toNat / 64 % 64 + 128))
          (hsecond _ (hcont _).1 (hcont _).2 (by rw [toNat_byte]; omega) (by rw [toNat_byte]; omega))
          (by decide)
        have hlast : ∀ h80, utf8Step (.pending (2 - 1) 0x80 0xBF
            (c.toNat / 4096 % 16 * 64 + ((UInt8.ofNat (c.toNat / 64 % 64 + 128)).toNat - 0x80)) h80)
            (UInt8.ofNat (c.toNat % 64 + 128)) = ([c], .start) := by
          intro h80
          rw [utf8Step_last (hcont _), toNat_byte, toNat_byte, hself (by omega)]
        simp only [List.cons_append, List.nil_append, Transducer.runFrom, utf8Decoder]
        simp only [utf8Step.eq_1, hstart, hmore, hlast]
        rfl
      · obtain ⟨lo, hi, hlo, hstart, hsecond⟩ := utf8Start_four (k := c.toNat / 262144 % 8) (by omega)
        have hmore := utf8Step_more 3 (c.toNat / 262144 % 8) hlo
          (b := UInt8.ofNat (c.toNat / 4096 % 64 + 128))
          (hsecond _ (hcont _).1 (hcont _).2 (by rw [toNat_byte]; omega) (by rw [toNat_byte]; omega))
          (by decide)
        have hmore' : ∀ bits h80, utf8Step (.pending (3 - 1) 0x80 0xBF bits h80)
            (UInt8.ofNat (c.toNat / 64 % 64 + 128)) = ([], .pending (3 - 1 - 1) 0x80 0xBF
              (bits * 64 + ((UInt8.ofNat (c.toNat / 64 % 64 + 128)).toNat - 0x80)) (by decide)) :=
          fun bits h80 => utf8Step_more (3 - 1) bits h80 (hcont _) (by decide)
        have hlast : ∀ h80, utf8Step (.pending (3 - 1 - 1) 0x80 0xBF
            ((c.toNat / 262144 % 8 * 64 + ((UInt8.ofNat (c.toNat / 4096 % 64 + 128)).toNat - 0x80)) * 64 +
              ((UInt8.ofNat (c.toNat / 64 % 64 + 128)).toNat - 0x80)) h80)
            (UInt8.ofNat (c.toNat % 64 + 128)) = ([c], .start) := by
          intro h80
          rw [utf8Step_last (hcont _), toNat_byte, toNat_byte, toNat_byte, hself (by omega)]
        simp only [List.cons_append, List.nil_append, Transducer.runFrom, utf8Decoder]
        simp only [utf8Step.eq_1, hstart, hmore, hmore', hlast]
        rfl

theorem utf8Lossy_utf8Encode (text : List Char) : utf8Lossy (utf8Encode text) = text := by
  induction text with
  | nil => rfl
  | cons c text ih =>
    rw [utf8Encode, List.flatMap_cons, utf8Lossy_char]
    exact congrArg (c :: ·) ih

/-- A text that was encoded is read back. -/
@[simp] theorem fromUtf8_utf8Encode (text : List Char) : fromUtf8 (utf8Encode text) = some text := by
  rw [fromUtf8, utf8Lossy_utf8Encode, if_pos rfl]

/-! ## ASCII text in UTF-16 -/

/-- Every code unit leaves something in the text. -/
theorem eq_nil_of_fromUtf16Lossy_eq_nil {units : List UInt16} (h : fromUtf16Lossy units = []) :
    units = [] := by
  have hopen : ∀ (high : HighSurrogate) (units : List UInt16),
      utf16Decoder.runFrom (some high) units ≠ [] := by
    intro high units
    cases units with
    | nil => simp [Transducer.runFrom, utf16Decoder]
    | cons u units =>
      simp only [Transducer.runFrom, utf16Decoder, utf16Step]
      split <;> simp
  cases units with
  | nil => rfl
  | cons u units =>
    simp only [fromUtf16Lossy, Transducer.run, Transducer.runFrom] at h
    obtain ⟨hfirst, hrest⟩ := List.append_eq_nil_iff.mp h
    simp only [utf16Decoder, utf16Step, utf16Start] at hfirst
    split at hfirst
    · rename_i hhigh
      refine absurd ?_ (hopen ⟨u, hhigh⟩ units)
      simpa [utf16Decoder, utf16Step, utf16Start, hhigh] using hrest
    · split at hfirst <;> simp at hfirst

/-- ASCII text that starts the output starts the input. -/
private theorem prefix_of_fromUtf16Lossy_eq {text : List Char} (h : ∀ c ∈ text, IsAscii c) :
    ∀ {units : List UInt16} {post : List Char}, fromUtf16Lossy units = text ++ post →
      text.map unit <+: units := by
  induction text with
  | nil => simp
  | cons c text ih =>
    intro units post hrun
    obtain ⟨before, after, rfl, hbefore, hafter⟩ := Transducer.exists_split_of_run_eq
      (utf16Decoder_onlyFrom_ascii (h c List.mem_cons_self)) [] hrun
    have htail := ih (fun d hd => h d (List.mem_cons_of_mem _ hd)) hafter
    rw [eq_nil_of_fromUtf16Lossy_eq_nil hbefore, List.nil_append, List.map_cons, List.cons_prefix_cons]
    exact ⟨rfl, htail⟩

/-- ASCII text found in the decoded text is found in the code units. -/
theorem contains_of_contains_fromUtf16Lossy {text : List Char} (h : ∀ c ∈ text, IsAscii c)
    {units : List UInt16} (hcontains : text <:+: fromUtf16Lossy units) :
    text.map unit <:+: units := by
  cases text with
  | nil => simp
  | cons c text =>
    obtain ⟨pre, post, hrun⟩ := hcontains
    rw [List.append_assoc] at hrun
    obtain ⟨before, after, rfl, -, hafter⟩ := Transducer.exists_split_of_run_eq
      (utf16Decoder_onlyFrom_ascii (h c List.mem_cons_self)) pre hrun.symm
    obtain ⟨rest, hrest⟩ :=
      prefix_of_fromUtf16Lossy_eq (fun d hd => h d (List.mem_cons_of_mem _ hd)) hafter
    exact ⟨before, rest, by simp [← hrest]⟩

/-- ASCII text is read as itself, whatever stands before it. -/
theorem fromUtf16Lossy_append_of_isAscii {text : List Char} (h : ∀ c ∈ text, IsAscii c)
    (units : List UInt16) :
    fromUtf16Lossy (units ++ text.map unit) = fromUtf16Lossy units ++ text := by
  have hrun : fromUtf16Lossy (text.map unit) = text := by
    have := utf16Decoder.run_map_of_step rfl unit id text
      fun c hc => (utf16Decoder_onlyFrom_ascii (h c hc)).step_initial
    rwa [List.map_id] at this
  cases text with
  | nil => rw [List.map_nil, List.append_nil, List.append_nil]
  | cons c text =>
    rw [List.map_cons] at hrun ⊢
    rw [fromUtf16Lossy, Transducer.run_append_of_synchronizing
      (utf16Decoder_onlyFrom_ascii (h c List.mem_cons_self)).synchronizing]
    exact congrArg (fromUtf16Lossy units ++ ·) hrun

theorem unit_injOn_ascii {c d : Char} (hc : IsAscii c) (hd : IsAscii d) (h : unit c = unit d) :
    c = d := by
  unfold IsAscii at hc hd
  have hnumber := congrArg UInt16.toNat h
  rw [toNat_unit (by omega), toNat_unit (by omega)] at hnumber
  rw [← Char.ofNat_toNat c, ← Char.ofNat_toNat d, hnumber]

/-! ## UTF-16 round trips -/

/-- A character past the basic plane is a surrogate pair. -/
theorem exists_pair_of_supplementary {c : Char} (h : 0x10000 ≤ c.toNat) :
    ∃ (high : HighSurrogate) (low : UInt16),
      IsLowSurrogate low ∧ utf16Units c = [high.val, low] ∧ pairChar high low = c := by
  have hvalid := toNat_valid c
  have hhigh : (UInt16.ofNat (0xD800 + (c.toNat - 0x10000) / 0x400)).toNat =
      0xD800 + (c.toNat - 0x10000) / 0x400 := by
    rw [UInt16.toNat_ofNat', Nat.mod_eq_of_lt (by omega)]
  have hlow : (UInt16.ofNat (0xDC00 + (c.toNat - 0x10000) % 0x400)).toNat =
      0xDC00 + (c.toNat - 0x10000) % 0x400 := by
    rw [UInt16.toNat_ofNat', Nat.mod_eq_of_lt (by omega)]
  have hishigh : IsHighSurrogate (UInt16.ofNat (0xD800 + (c.toNat - 0x10000) / 0x400)) := by
    unfold IsHighSurrogate
    omega
  refine ⟨⟨_, hishigh⟩, UInt16.ofNat (0xDC00 + (c.toNat - 0x10000) % 0x400), ?_,
    if_neg (Nat.not_lt.mpr h), ?_⟩
  · unfold IsLowSurrogate
    omega
  · rw [pairChar, hhigh, hlow]
    have hnumber : 0x10000 + (0xD800 + (c.toNat - 0x10000) / 0x400 - 0xD800) * 0x400 +
        (0xDC00 + (c.toNat - 0x10000) % 0x400 - 0xDC00) = c.toNat := by
      omega
    rw [hnumber, Char.ofNat_toNat]

private theorem fromUtf16Lossy_utf16Units_append (c : Char) (rest : List UInt16) :
    fromUtf16Lossy (utf16Units c ++ rest) = c :: fromUtf16Lossy rest := by
  rcases Nat.lt_or_ge c.toNat 0x10000 with hbmp | hsupplementary
  · rw [utf16Units, if_pos hbmp]
    exact Transducer.run_cons_of_step (utf16Start_unit hbmp) rest
  · obtain ⟨high, low, hlow, hunits, hpair⟩ := exists_pair_of_supplementary hsupplementary
    rw [hunits, ← hpair]
    simp only [fromUtf16Lossy, Transducer.run, List.cons_append, List.nil_append,
      Transducer.runFrom, utf16Decoder, utf16Step, utf16Start, dif_pos high.property, if_pos hlow]

/-- Decoding what was encoded gives the text back. -/
theorem fromUtf16Lossy_encodeUtf16 (text : List Char) :
    fromUtf16Lossy (encodeUtf16 text) = text := by
  induction text with
  | nil => rfl
  | cons c text ih =>
    rw [encodeUtf16, List.flatMap_cons, fromUtf16Lossy_utf16Units_append]
    exact congrArg (c :: ·) ih

@[simp] theorem fromUtf16_encodeUtf16 (text : List Char) :
    fromUtf16 (encodeUtf16 text) = some text := by
  rw [fromUtf16, fromUtf16Lossy_encodeUtf16, if_pos rfl]

theorem utf16Units_ofNat {u : UInt16} (hhigh : ¬ IsHighSurrogate u) (hlow : ¬ IsLowSurrogate u) :
    utf16Units (Char.ofNat u.toNat) = [u] := by
  have hlt := u.toNat_lt
  have hvalid : u.toNat.isValidChar := by
    unfold IsHighSurrogate IsLowSurrogate at *
    unfold Nat.isValidChar
    omega
  rw [utf16Units, unit, toNat_ofNat hvalid, if_pos hlt]
  simp

theorem utf16Units_pairChar {high : HighSurrogate} {low : UInt16} (hlow : IsLowSurrogate low) :
    utf16Units (pairChar high low) = [high.val, low] := by
  have hhigh := high.property
  unfold IsHighSurrogate at hhigh
  unfold IsLowSurrogate at hlow
  have hnumber : 0x10000 + (high.val.toNat - 0xD800) * 0x400 + (low.toNat - 0xDC00) - 0x10000 =
      (high.val.toNat - 0xD800) * 0x400 + (low.toNat - 0xDC00) := by
    omega
  have hhighNumber : 0xD800 + ((high.val.toNat - 0xD800) * 0x400 + (low.toNat - 0xDC00)) / 0x400 =
      high.val.toNat := by
    omega
  have hlowNumber : 0xDC00 + ((high.val.toNat - 0xD800) * 0x400 + (low.toNat - 0xDC00)) % 0x400 =
      low.toNat := by
    omega
  rw [utf16Units, pairChar, toNat_ofNat (by unfold Nat.isValidChar; omega), if_neg (by omega),
    hnumber, hhighNumber, hlowNumber, UInt16.ofNat_toNat, UInt16.ofNat_toNat]

/-- The code units a state stands for. -/
private def openUnits : Option HighSurrogate → List UInt16
  | none => []
  | some high => [high.val]

private theorem encodeUtf16_runFrom {units : List UInt16} :
    ∀ {state : Option HighSurrogate}, replacement ∉ utf16Decoder.runFrom state units →
      encodeUtf16 (utf16Decoder.runFrom state units) = openUnits state ++ units := by
  induction units with
  | nil =>
    intro state hno
    cases state with
    | none => rfl
    | some high => simp [Transducer.runFrom, utf16Decoder] at hno
  | cons u units ih =>
    intro state hno
    rw [Transducer.runFrom] at hno ⊢
    have hfirst := fun h => hno (List.mem_append_left _ h)
    have hrest := ih fun h => hno (List.mem_append_right _ h)
    have hstart : replacement ∉ (utf16Start u).1 →
        encodeUtf16 (utf16Start u).1 ++ openUnits (utf16Start u).2 = [u] := by
      unfold utf16Start
      split
      · simp [encodeUtf16, openUnits]
      · split
        · simp
        · rename_i hhigh hlow
          simp [encodeUtf16, openUnits, utf16Units_ofNat hhigh hlow]
    rw [encodeUtf16, List.flatMap_append, ← encodeUtf16, ← encodeUtf16, hrest, ← List.append_assoc]
    cases state with
    | none =>
      exact congrArg (· ++ units) (hstart hfirst)
    | some high =>
      simp only [utf16Decoder, utf16Step] at hfirst ⊢
      split
      · rename_i hlow
        simp [encodeUtf16, openUnits, utf16Units_pairChar hlow]
      · rename_i hlow
        simp [if_neg hlow] at hfirst

/-- Encoding what was decoded gives the units back, unless a surrogate was
unpaired. -/
theorem encodeUtf16_fromUtf16Lossy {units : List UInt16}
    (h : replacement ∉ fromUtf16Lossy units) : encodeUtf16 (fromUtf16Lossy units) = units :=
  encodeUtf16_runFrom h

end CodeLib.Unicode
