import Psign.Opc.NugetCut
import Psign.Sip.AppxZip

/-!
# Three searches for the end record

The NuGet cut, the ZIP signature and the APPX digest each look for the end record of an
archive from the end of the file.  The last two take the last offset whose record and
comment reach the end of the file exactly.  The NuGet cut takes the last offset with the
signature of a record, and fails if its comment does not reach the end.

`end_record_finders_agree` compares them.  Bytes of a comment are taken for the end record
only where they imitate one, with a comment length that reaches the end of the file; then
no search can tell.
-/

namespace Psign.Opc

open CodeLib CodeLib.Bytes Psign.Sip

/-- The search of `signed_package_unsigned_bytes`, with its check of the comment. -/
def nugetEocd (bytes : List UInt8) : Outcome Nat := do
  let searchFrom := bytes.length - (22 + 65535)
  let eocd ← Outcome.ofOption (lastWindow bytes eocdSig searchFrom (bytes.length - searchFrom))
    "ZIP end of central directory not found"
  let commentLen ← le16 bytes (eocd + 20)
  Outcome.guardThat (eocd + 22 + commentLen = bytes.length)
    "ZIP end of central directory has trailing data"
  return eocd

/-- The search is the first step of the cut. -/
theorem nugetEocd_of_locateSignature {bytes : List UInt8} {found : Located}
    (h : locateSignature bytes = .ok found) : nugetEocd bytes = .ok found.eocd := by
  simp only [locateSignature, Outcome.bind_eq_ok] at h
  obtain ⟨eocd, heocd, commentLen, hcomment, u, hend, _, -, _, -, _, -, _, -, _, -, _, -, _, -, _, -,
    _, -, _, -, _, -, _, -, hfound⟩ := h
  simp only [nugetEocd, heocd, hcomment, hend, Outcome.ok_bind]
  rw [← Except.ok.inj hfound]
  rfl

/-- The last window with the signature. -/
theorem lastWindow_eq_some {bytes sig : List UInt8} {first count offset : Nat} :
    lastWindow bytes sig first count = some offset ↔
      (first ≤ offset ∧ offset < first + count ∧ slice bytes offset (offset + 4) = some sig) ∧
        ∀ later, offset < later → later < first + count →
          slice bytes later (later + 4) ≠ some sig := by
  induction count with
  | zero =>
    refine iff_of_false (by simp [lastWindow]) ?_
    rintro ⟨⟨hfirst, hbound, _⟩, _⟩
    omega
  | succ count ih =>
    rw [lastWindow]
    by_cases hat : slice bytes (first + count) (first + count + 4) = some sig
    · rw [if_pos hat, Option.some.injEq]
      constructor
      · intro h
        subst h
        exact ⟨⟨by omega, by omega, hat⟩, fun later hlt hbound => by omega⟩
      · rintro ⟨⟨_, hbound, _⟩, hlater⟩
        by_contra hne
        exact hlater (first + count) (by omega) (by omega) hat
    · rw [if_neg hat, ih]
      constructor
      · rintro ⟨⟨hfirst, hbound, hsig⟩, hlater⟩
        refine ⟨⟨hfirst, by omega, hsig⟩, ?_⟩
        intro later hlt hless
        by_cases heq : later = first + count
        · rwa [heq]
        · exact hlater later hlt (by omega)
      · rintro ⟨⟨hfirst, hbound, hsig⟩, hlater⟩
        have hne : offset ≠ first + count := fun heq => hat (heq ▸ hsig)
        exact ⟨⟨hfirst, by omega, hsig⟩, fun later hlt hless => hlater later hlt (by omega)⟩

/-- The NuGet search returns an end record behind which there is no other signature. -/
theorem nugetEocd_eq_ok {bytes : List UInt8} {p : Nat} :
    nugetEocd bytes = .ok p ↔
      IsEocd bytes p ∧ ∀ later, p < later → slice bytes later (later + 4) ≠ some eocdSig := by
  simp only [nugetEocd, Outcome.bind_eq_ok, Outcome.ofOption_eq_ok, le16_eq_ok,
    Outcome.guardThat_eq_ok, Outcome.pure_eq_ok, Except.ok.injEq, lastWindow_eq_some]
  constructor
  · rintro ⟨eocd, ⟨⟨_, _, hsig⟩, hlater⟩, commentLen, ⟨_, hcomment⟩, _, hend, heocd⟩
    subst heocd hcomment
    refine ⟨⟨hsig, hend⟩, ?_⟩
    intro later hlt hother
    obtain ⟨-, hlen, -⟩ := slice_eq_some.mp hother
    exact hlater later hlt (by omega) hother
  · rintro ⟨⟨hsig, hend⟩, hlater⟩
    have hcomment := u16At_lt bytes (p + 20)
    exact ⟨p, ⟨⟨by omega, by omega, hsig⟩, fun later hlt _ => hlater later hlt⟩, _,
      ⟨by omega, rfl⟩, (), hend, rfl⟩

/-! ## The three searches -/

/-- The offsets that the searches return. -/
def NugetFinds (bytes : List UInt8) (p : Nat) : Prop := nugetEocd bytes = .ok p

def ZipFinds (bytes : List UInt8) (p : Nat) : Prop :=
  ∃ eocd, findEocd bytes = .ok eocd ∧ eocd.offset = p

def AppxFinds (bytes : List UInt8) (p : Nat) : Prop :=
  ∃ classic, Appx.findClassicEocd bytes = .ok (p, classic)

variable {bytes : List UInt8} {p q : Nat}

theorem zipFinds_iff :
    ZipFinds bytes p ↔ IsEocd bytes p ∧ ∀ later, p < later → ¬ IsEocd bytes later := by
  unfold ZipFinds
  simp only [findEocd_eq_ok]
  constructor
  · intro ⟨eocd, ⟨hat, hlater, _, _⟩, hoffset⟩
    exact hoffset ▸ ⟨hat, hlater⟩
  · intro ⟨hat, hlater⟩
    exact ⟨⟨p, p + 22, u16At bytes (p + 20)⟩, ⟨hat, hlater, rfl, rfl⟩, rfl⟩

theorem appxFinds_iff :
    AppxFinds bytes p ↔ IsEocd bytes p ∧ ∀ later, p < later → ¬ IsEocd bytes later := by
  unfold AppxFinds
  simp only [Appx.findClassicEocd_eq_ok]
  exact ⟨fun ⟨_, h, _⟩ => h, fun h => ⟨_, h, rfl⟩⟩

theorem zipFinds_of_nugetFinds (h : NugetFinds bytes p) : ZipFinds bytes p := by
  obtain ⟨hat, hlater⟩ := nugetEocd_eq_ok.mp h
  exact zipFinds_iff.mpr ⟨hat, fun later hlt hother => hlater later hlt hother.1⟩

/-- There is one last end record. -/
theorem eq_of_zipFinds (hp : ZipFinds bytes p) (hq : ZipFinds bytes q) : p = q := by
  obtain ⟨hat, hlater⟩ := zipFinds_iff.mp hp
  obtain ⟨hat', hlater'⟩ := zipFinds_iff.mp hq
  rcases Nat.lt_trichotomy p q with hlt | heq | hgt
  · exact absurd hat' (hlater q hlt)
  · exact heq
  · exact absurd hat (hlater' p hgt)

/-- Behind an end record the last one is found. -/
theorem exists_zipFinds {e : Nat} (he : IsEocd bytes e) : ∃ p, e ≤ p ∧ ZipFinds bytes p := by
  by_cases hlast : ∀ later, e < later → ¬ IsEocd bytes later
  · exact ⟨e, Nat.le_refl e, zipFinds_iff.mpr ⟨he, hlast⟩⟩
  · obtain ⟨later, hlast⟩ := Classical.not_forall.mp hlast
    obtain ⟨hlt, hother⟩ := Classical.not_imp.mp hlast
    have hother := Classical.not_not.mp hother
    have hbound := hother.2
    obtain ⟨p, hp, hfinds⟩ := exists_zipFinds hother
    exact ⟨p, by omega, hfinds⟩
termination_by bytes.length - e

/-- **The searches for the end record.**  The ZIP and the APPX search find the same offset,
and the NuGet search finds none or the same.  What is found is a record whose comment ends
with the file.  In an archive with an end record, a later record is found exactly if there
is one, and the NuGet search finds the end record exactly if no signature stands behind
it. -/
theorem end_record_finders_agree (bytes : List UInt8) :
    (∀ p, NugetFinds bytes p → ZipFinds bytes p) ∧
    (∀ p, ZipFinds bytes p ↔ AppxFinds bytes p) ∧
    (∀ p q, ZipFinds bytes p → ZipFinds bytes q → p = q) ∧
    (∀ p, ZipFinds bytes p → slice bytes p (p + 4) = some eocdSig ∧
      p + 22 + u16At bytes (p + 20) = bytes.length) ∧
    ∀ e, IsEocd bytes e →
      ((∃ p, e < p ∧ ZipFinds bytes p) ↔ ∃ p, e < p ∧ IsEocd bytes p) ∧
      (NugetFinds bytes e ↔ ∀ later, e < later → slice bytes later (later + 4) ≠ some eocdSig) := by
  refine ⟨fun p => zipFinds_of_nugetFinds, fun p => zipFinds_iff.trans appxFinds_iff.symm,
    fun p q => eq_of_zipFinds, fun p h => (zipFinds_iff.mp h).1, ?_⟩
  intro e he
  refine ⟨⟨?_, ?_⟩, ?_⟩
  · intro ⟨p, hlt, hfinds⟩
    exact ⟨p, hlt, (zipFinds_iff.mp hfinds).1⟩
  · intro ⟨p, hlt, hat⟩
    obtain ⟨q, hle, hfinds⟩ := exists_zipFinds hat
    exact ⟨q, by omega, hfinds⟩
  · exact nugetEocd_eq_ok.trans (and_iff_right he)

/-- An end record of a comment of this length. -/
def endRecordOf (commentLen : Nat) : List UInt8 :=
  eocdSig ++ List.replicate 16 0 ++ u16le commentLen

/-- A comment that is an end record is taken for the end record, and a comment that has its
signature alone is where the NuGet search stops. -/
theorem comment_taken_for_end_record :
    (IsEocd (endRecordOf 22 ++ endRecordOf 0) 0 ∧
      NugetFinds (endRecordOf 22 ++ endRecordOf 0) 22 ∧
      ZipFinds (endRecordOf 22 ++ endRecordOf 0) 22 ∧
      AppxFinds (endRecordOf 22 ++ endRecordOf 0) 22) ∧
    (ZipFinds (endRecordOf 4 ++ eocdSig) 0 ∧ AppxFinds (endRecordOf 4 ++ eocdSig) 0 ∧
      lastWindow (endRecordOf 4 ++ eocdSig) eocdSig 0 26 = some 22) := by
  refine ⟨⟨⟨by decide, by decide⟩, ?_, ⟨⟨22, 44, 0⟩, by decide⟩, ?_⟩,
    ⟨⟨0, 22, 4⟩, by decide⟩, ?_, by decide⟩
  · show nugetEocd _ = _
    decide
  · exact ⟨⟨0, 0, 0, 0, 0, 0, []⟩, by decide⟩
  · exact ⟨⟨0, 0, 0, 0, 0, 0, eocdSig⟩, by decide⟩

end Psign.Opc
