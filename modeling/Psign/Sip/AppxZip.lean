import Psign.CodeLib.Bytes
import Psign.Sip.ZipAuthenticode

/-!
# The end of an APPX package

`find_classic_eocd` of `msix_digest.rs`: the last record of a package, as the APPX digest
finds it.  `findClassicEocd_eq_ok` says that it is the last end record of the file, as for
`find_eocd`.
-/

namespace Psign.Sip.Appx

open CodeLib CodeLib.Bytes

/-- `read_u16_le`. -/
def readU16Le (buf : List UInt8) (off : Nat) : Outcome Nat :=
  Outcome.ofOption ((slice buf off (off + 2)).map fun _ => u16At buf off)
    ("read past end at " ++ toString off)

/-- `read_u32_le`. -/
def readU32Le (buf : List UInt8) (off : Nat) : Outcome Nat :=
  Outcome.ofOption ((slice buf off (off + 4)).map fun _ => u32At buf off)
    ("read past end at " ++ toString off)

/-- `EOCD_SIG`. -/
def eocdSig : Nat := 0x06054b50

/-- `ClassicEocd`. -/
structure ClassicEocd where
  diskNumber : Nat
  diskWithCentralDirectory : Nat
  numberOfFilesOnThisDisk : Nat
  numberOfFiles : Nat
  centralDirectorySize : Nat
  centralDirectoryOffset : Nat
  zipFileComment : List UInt8
  deriving DecidableEq, Repr

/-- The loop of `find_classic_eocd`, with the positions from `first` on that are still to
be tried. -/
def findClassicEocdFrom (buf : List UInt8) (first : Nat) : Nat → Outcome (Nat × ClassicEocd)
  | 0 => Outcome.bail "could not find ZIP end-of-central-directory"
  | count + 1 => do
    let p := first + count
    let sig ← readU32Le buf p
    if sig = eocdSig then do
      let diskNumber ← readU16Le buf (p + 4)
      let diskWithCentralDirectory ← readU16Le buf (p + 6)
      let numberOfFilesOnThisDisk ← readU16Le buf (p + 8)
      let numberOfFiles ← readU16Le buf (p + 10)
      let centralDirectorySize ← readU32Le buf (p + 12)
      let centralDirectoryOffset ← readU32Le buf (p + 16)
      let zipFileCommentLength ← readU16Le buf (p + 20)
      let cstart := p + 22
      let cend := cstart + zipFileCommentLength
      if cend ≠ buf.length then findClassicEocdFrom buf first count
      else do
        let zipFileComment ← Outcome.ofOption (slice buf cstart cend) "EOCD comment out of range"
        return (p, ⟨diskNumber, diskWithCentralDirectory, numberOfFilesOnThisDisk, numberOfFiles,
          centralDirectorySize, centralDirectoryOffset, zipFileComment⟩)
    else findClassicEocdFrom buf first count

/-- `find_classic_eocd`. -/
def findClassicEocd (buf : List UInt8) : Outcome (Nat × ClassicEocd) :=
  if buf.length < 22 then Outcome.bail "buffer too small for EOCD"
  else
    let searchUpperBound := buf.length - (22 + 65535)
    findClassicEocdFrom buf searchUpperBound (buf.length - 22 + 1 - searchUpperBound)

/-! ## What the search returns -/

@[simp] theorem readU16Le_eq_ok {buf : List UInt8} {off n : Nat} :
    readU16Le buf off = .ok n ↔ off + 2 ≤ buf.length ∧ u16At buf off = n := by
  rw [readU16Le, Outcome.ofOption_eq_ok, Option.map_eq_some_iff]
  simp only [slice_eq_some]
  constructor
  · intro ⟨_, ⟨_, hlen, _⟩, hvalue⟩
    exact ⟨hlen, hvalue⟩
  · intro ⟨hlen, hvalue⟩
    exact ⟨_, ⟨by omega, hlen, rfl⟩, hvalue⟩

@[simp] theorem readU32Le_eq_ok {buf : List UInt8} {off n : Nat} :
    readU32Le buf off = .ok n ↔ off + 4 ≤ buf.length ∧ u32At buf off = n := by
  rw [readU32Le, Outcome.ofOption_eq_ok, Option.map_eq_some_iff]
  simp only [slice_eq_some]
  constructor
  · intro ⟨_, ⟨_, hlen, _⟩, hvalue⟩
    exact ⟨hlen, hvalue⟩
  · intro ⟨hlen, hvalue⟩
    exact ⟨_, ⟨by omega, hlen, rfl⟩, hvalue⟩

/-- The fields of an end record. -/
def classicAt (buf : List UInt8) (p : Nat) : ClassicEocd :=
  ⟨u16At buf (p + 4), u16At buf (p + 6), u16At buf (p + 8), u16At buf (p + 10),
    u32At buf (p + 12), u32At buf (p + 16), buf.drop (p + 22)⟩

theorem isEocd_iff {buf : List UInt8} {p : Nat} :
    IsEocd buf p ↔ (p + 4 ≤ buf.length ∧ u32At buf p = eocdSig) ∧
      p + 22 + u16At buf (p + 20) = buf.length :=
  and_congr_left' (slice_four_eq_u32le (n := eocdSig) (by decide))

/-- One position of the loop. -/
theorem findClassicEocdFrom_succ {buf : List UInt8} {first count : Nat}
    (hroom : first + count + 22 ≤ buf.length) :
    findClassicEocdFrom buf first (count + 1) =
      if u32At buf (first + count) = eocdSig ∧
          first + count + 22 + u16At buf (first + count + 20) = buf.length then
        .ok (first + count, classicAt buf (first + count))
      else findClassicEocdFrom buf first count := by
  have h16 : ∀ k ≤ 20, readU16Le buf (first + count + k) = .ok (u16At buf (first + count + k)) :=
    fun k hk => readU16Le_eq_ok.mpr ⟨by omega, rfl⟩
  have h32 : ∀ k ≤ 18, readU32Le buf (first + count + k) = .ok (u32At buf (first + count + k)) :=
    fun k hk => readU32Le_eq_ok.mpr ⟨by omega, rfl⟩
  rw [findClassicEocdFrom]
  have hsig := h32 0 (by decide)
  rw [Nat.add_zero] at hsig
  simp only [hsig, Outcome.ok_bind, h16 4 (by decide), h16 6 (by decide), h16 8 (by decide),
    h16 10 (by decide), h16 20 (by decide), h32 12 (by decide), h32 16 (by decide)]
  by_cases hat : u32At buf (first + count) = eocdSig
  · by_cases hend : first + count + 22 + u16At buf (first + count + 20) = buf.length
    · have hcomment : slice buf (first + count + 22) buf.length = some (buf.drop (first + count + 22)) :=
        slice_eq_some.mpr ⟨by omega, Nat.le_refl _, by rw [List.take_length]⟩
      simp only [hat, hend, hcomment, if_true, and_self, ne_eq, not_true, if_false]
      rfl
    · simp only [hat, hend, if_true, and_false, ne_eq, not_false_eq_true, if_false]
  · simp only [hat, false_and, if_false]

theorem findClassicEocdFrom_eq_ok {buf : List UInt8} {first count p : Nat} {classic : ClassicEocd}
    (hroom : first + count + 21 ≤ buf.length) :
    findClassicEocdFrom buf first count = .ok (p, classic) ↔
      IsLastEocd buf first (first + count) p ∧ classic = classicAt buf p := by
  induction count with
  | zero =>
    refine iff_of_false (by simp [findClassicEocdFrom]) ?_
    intro ⟨⟨hfirst, hbound, _⟩, _⟩
    omega
  | succ count ih =>
    rw [findClassicEocdFrom_succ (by omega), ← Nat.add_assoc]
    have hiff : (u32At buf (first + count) = eocdSig ∧
        first + count + 22 + u16At buf (first + count + 20) = buf.length) ↔
        IsEocd buf (first + count) := by
      rw [isEocd_iff, and_iff_right (show first + count + 4 ≤ buf.length by omega)]
    by_cases hat : IsEocd buf (first + count)
    · rw [if_pos (hiff.mpr hat), isLastEocd_succ (Nat.le_add_right _ _) hat]
      simp only [Except.ok.injEq, Prod.mk.injEq]
      constructor
      · intro ⟨hp, hclassic⟩
        exact ⟨hp.symm, by rw [← hclassic, hp]⟩
      · intro ⟨hp, hclassic⟩
        exact ⟨hp.symm, by rw [hclassic, hp]⟩
    · rw [if_neg fun h => hat (hiff.mp h), ih (by omega), isLastEocd_succ_of_not hat]

/-- The APPX finder returns the last end record of the file. -/
theorem findClassicEocd_eq_ok {buf : List UInt8} {p : Nat} {classic : ClassicEocd} :
    findClassicEocd buf = .ok (p, classic) ↔
      (IsEocd buf p ∧ ∀ later, p < later → ¬ IsEocd buf later) ∧ classic = classicAt buf p := by
  have hbound : ∀ {offset}, IsEocd buf offset →
      offset + 22 ≤ buf.length ∧ buf.length ≤ offset + 22 + 65535 := by
    intro offset h
    have hlt := u16At_lt buf (offset + 20)
    have hlen := h.2
    omega
  unfold findClassicEocd
  by_cases hshort : buf.length < 22
  · rw [if_pos hshort]
    refine iff_of_false Outcome.bail_ne_ok ?_
    intro ⟨⟨hat, _⟩, _⟩
    have := (hbound hat).1
    omega
  · rw [if_neg hshort, findClassicEocdFrom_eq_ok (by omega)]
    refine and_congr_left' ?_
    constructor
    · intro ⟨_, _, hat, hlater⟩
      refine ⟨hat, ?_⟩
      intro later hlt hother
      have := hbound hother
      exact hlater later hlt (by omega) hother
    · intro ⟨hat, hlater⟩
      have := hbound hat
      exact ⟨by omega, by omega, hat, fun later hlt _ => hlater later hlt⟩

end Psign.Sip.Appx
