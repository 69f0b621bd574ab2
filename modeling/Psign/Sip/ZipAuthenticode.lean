import Psign.CodeLib.Base64
import Psign.CodeLib.Bytes
import Psign.CodeLib.RustStr
import Psign.CodeLib.Unicode
import Psign.Sip.Digest

/-!
# Signatures in ZIP comments

`zip_authenticode.rs`: the comment of a ZIP archive holds one line with the digest
of the archive without its comment, and the PKCS#7.

The comment belongs to the end record, which is found by a scan from the end of the
file.  `findEocd_eq_ok` says what the scan returns: the last offset with the signature
of an end record and a comment length that reaches the end of the file.
-/

namespace Psign.Sip

open CodeLib CodeLib.Bytes CodeLib.RustStr CodeLib.Unicode

/-! ## The end record -/

/-- `EOCD_SIG`. -/
def eocdSig : List UInt8 := [0x50, 0x4B, 0x05, 0x06]

def zipAuthenticodePrefix : List Char := "ZipAuthenticode=".toList
def sha256DigestPrefix : List Char := "sha256:".toList

/-- `ZipEocd`. -/
structure ZipEocd where
  offset : Nat
  commentOffset : Nat
  commentLen : Nat
  deriving DecidableEq, Repr

/-- `read_u16_le`. -/
def readU16Le (bytes : List UInt8) (offset : Nat) : Outcome Nat :=
  match slice bytes offset (offset + 2) with
  | some _ => .ok (u16At bytes offset)
  | none => Outcome.bail "ZIP EOCD field out of range"

/-- The loop of `find_eocd`, with the offsets from `first` on that are still to be
tried. -/
def findEocdFrom (bytes : List UInt8) (first : Nat) : Nat → Outcome ZipEocd
  | 0 => Outcome.bail "could not find a valid ZIP end-of-central-directory record"
  | count + 1 =>
    let offset := first + count
    if slice bytes offset (offset + 4) ≠ some eocdSig then findEocdFrom bytes first count
    else do
      let commentLen ← readU16Le bytes (offset + 20)
      let commentOffset := offset + 22
      if commentOffset + commentLen = bytes.length then
        return ⟨offset, commentOffset, commentLen⟩
      else findEocdFrom bytes first count

/-- `find_eocd`. -/
def findEocd (bytes : List UInt8) : Outcome ZipEocd :=
  if bytes.length < 22 then Outcome.bail "ZIP file is too short to contain an EOCD record"
  else
    let lastPossible := bytes.length - 22
    let firstPossible := bytes.length - (22 + 65535)
    findEocdFrom bytes firstPossible (lastPossible + 1 - firstPossible)

/-- `zip_comment`. -/
def zipComment (bytes : List UInt8) : Outcome (List UInt8) := do
  let eocd ← findEocd bytes
  return (bytes.take (eocd.commentOffset + eocd.commentLen)).drop eocd.commentOffset

/-- `set_zip_comment`. -/
def setZipComment (bytes comment : List UInt8) : Outcome (List UInt8) :=
  if 65535 < comment.length then
    Outcome.bail ("ZIP comment is too large for EOCD comment field (" ++
      toString comment.length ++ " > 65535)")
  else do
    let eocd ← findEocd bytes
    return patch (bytes.take eocd.commentOffset) (eocd.offset + 20) (u16le comment.length) ++ comment

/-! ## The signature line -/

/-- `u8::is_ascii_hexdigit`. -/
def isAsciiHexdigit (b : UInt8) : Bool :=
  (48 ≤ b && b ≤ 57) || (65 ≤ b && b ≤ 70) || (97 ≤ b && b ≤ 102)

/-- `is_sha256_digest_string`. -/
def IsSha256DigestString (value : List Char) : Prop :=
  (utf8Encode value).length = 7 + 64 ∧ sha256DigestPrefix <+: value ∧
    ∀ b ∈ (utf8Encode value).drop 7, isAsciiHexdigit b = true

instance (value : List Char) : Decidable (IsSha256DigestString value) :=
  inferInstanceAs (Decidable (_ ∧ _ ∧ _))

/-- `ZipAuthenticodeSignature`. -/
structure ZipAuthenticodeSignature where
  digest : List Char
  pkcs7Base64 : List Char
  deriving DecidableEq, Repr

section signatures

variable (hashes : Hashes) (base64 : Base64Engine)

/-- `compute_zip_authenticode_digest`. -/
def computeZipAuthenticodeDigest (bytes : List UInt8) : Outcome (List UInt8) := do
  let eocd ← findEocd bytes
  return hashes.hash .sha256 (patch (bytes.take eocd.commentOffset) (eocd.offset + 20) [0, 0])

/-- `zip_authenticode_digest_string`. -/
def zipAuthenticodeDigestString (bytes : List UInt8) : Outcome (List Char) := do
  let digest ← computeZipAuthenticodeDigest hashes bytes
  return sha256DigestPrefix ++ (hexLower digest).toList

/-- `signature_comment_line`. -/
def signatureCommentLine (bytes : List UInt8) : Outcome (List Char) := do
  let comment ← zipComment bytes
  let text ← Outcome.ofOption (fromUtf8 comment) "ZIP comment is not UTF-8"
  Outcome.ofOption (((lines text).map trim).find? fun line => zipAuthenticodePrefix.isPrefixOf line)
    "ZIP Authenticode signature comment not found"

/-- `parse_signature_comment_line`. -/
def parseSignatureCommentLine (line : List Char) : Outcome ZipAuthenticodeSignature := do
  let rest ← Outcome.ofOption (stripPrefix zipAuthenticodePrefix (trim line))
    "ZIP signature comment must start with ZipAuthenticode="
  let (digest, pkcs7Base64) ← Outcome.ofOption (splitOnce ',' rest)
    "ZIP signature comment is missing PKCS#7 separator"
  if ¬ IsSha256DigestString digest then
    Outcome.bail "ZIP signature digest must use sha256:<64 hex chars>"
  else if trim pkcs7Base64 = [] then
    Outcome.bail "ZIP signature PKCS#7 payload is empty"
  else do
    let _ ← (base64.decode (trim pkcs7Base64)).mapErr fun _ => "ZIP signature PKCS#7 base64 decode"
    return ⟨toAsciiLowercase digest, trim pkcs7Base64⟩

/-- `signature_pkcs7_der`. -/
def signaturePkcs7Der (sig : ZipAuthenticodeSignature) : Outcome (List UInt8) :=
  (base64.decode (trim sig.pkcs7Base64)).mapErr fun _ => "ZIP signature PKCS#7 base64 decode"

/-- `signature_comment_line_from_pkcs7_der`. -/
def signatureCommentLineFromPkcs7Der (digest : List Char) (pkcs7Der : List UInt8) :
    Outcome (List Char) :=
  if ¬ IsSha256DigestString digest then
    Outcome.bail "ZIP signature digest must use sha256:<64 hex chars>"
  else do
    let line := zipAuthenticodePrefix ++ toAsciiLowercase digest ++ ',' :: base64.encode pkcs7Der
    let _ ← parseSignatureCommentLine base64 line
    return line

/-- `embed_signature_comment_line`. -/
def embedSignatureCommentLine (bytes : List UInt8) (line : List Char) : Outcome (List UInt8) := do
  let _ ← parseSignatureCommentLine base64 line
  setZipComment bytes (utf8Encode line)

/-- `verify_zip_digest_binding`. -/
def verifyZipDigestBinding (bytes : List UInt8) : Outcome ZipAuthenticodeSignature := do
  let line ← signatureCommentLine bytes
  let sig ← parseSignatureCommentLine base64 line
  let computed ← zipAuthenticodeDigestString hashes bytes
  if sig.digest ≠ computed then
    Outcome.bail ("ZIP Authenticode digest mismatch: embedded " ++ String.ofList sig.digest ++
      " computed " ++ String.ofList computed)
  else return sig

end signatures

/-! ## Which record is found -/

/-- An end record whose comment reaches the end of the file. -/
def IsEocd (bytes : List UInt8) (offset : Nat) : Prop :=
  slice bytes offset (offset + 4) = some eocdSig ∧
    offset + 22 + u16At bytes (offset + 20) = bytes.length

theorem readU16Le_of_le {bytes : List UInt8} {offset : Nat} (h : offset + 2 ≤ bytes.length) :
    readU16Le bytes offset = .ok (u16At bytes offset) := by
  have hslice : slice bytes offset (offset + 2) =
      some ((bytes.take (offset + 2)).drop offset) :=
    slice_eq_some.mpr ⟨by omega, h, rfl⟩
  rw [readU16Le, hslice]

/-- The last end record of those at `first` up to `bound`. -/
def IsLastEocd (bytes : List UInt8) (first bound offset : Nat) : Prop :=
  first ≤ offset ∧ offset < bound ∧ IsEocd bytes offset ∧
    ∀ later, offset < later → later < bound → ¬ IsEocd bytes later

theorem isLastEocd_succ_of_not {bytes : List UInt8} {first bound offset : Nat}
    (hnot : ¬ IsEocd bytes bound) :
    IsLastEocd bytes first (bound + 1) offset ↔ IsLastEocd bytes first bound offset := by
  constructor
  · intro h
    obtain ⟨hfirst, hbound, hat, hlater⟩ := h
    have hne : offset ≠ bound := fun heq => hnot (heq ▸ hat)
    exact ⟨hfirst, by omega, hat, fun later hlt hless => hlater later hlt (by omega)⟩
  · intro h
    obtain ⟨hfirst, hbound, hat, hlater⟩ := h
    refine ⟨hfirst, by omega, hat, ?_⟩
    intro later hlt hless
    by_cases heq : later = bound
    · rwa [heq]
    · exact hlater later hlt (by omega)

theorem isLastEocd_succ {bytes : List UInt8} {first bound offset : Nat}
    (hfirst : first ≤ bound) (hat : IsEocd bytes bound) :
    IsLastEocd bytes first (bound + 1) offset ↔ offset = bound := by
  constructor
  · intro h
    obtain ⟨-, hbound, -, hlater⟩ := h
    by_contra hne
    exact hlater bound (by omega) (by omega) hat
  · intro h
    rw [h]
    exact ⟨hfirst, by omega, hat, fun later _ _ => by omega⟩

/-- The loop returns the last end record of the offsets it tries. -/
theorem findEocdFrom_eq_ok {bytes : List UInt8} {first count : Nat} {eocd : ZipEocd}
    (hlast : first + count + 21 ≤ bytes.length) :
    findEocdFrom bytes first count = .ok eocd ↔
      ∃ offset, IsLastEocd bytes first (first + count) offset ∧
        eocd = ⟨offset, offset + 22, u16At bytes (offset + 20)⟩ := by
  induction count with
  | zero =>
    simp only [findEocdFrom, Outcome.bail_eq_ok_iff, false_iff]
    intro hex
    obtain ⟨offset, ⟨hfirst, hbound, -⟩, -⟩ := hex
    omega
  | succ count ih =>
    have hrest := ih (by omega)
    rw [findEocdFrom, ← Nat.add_assoc]
    by_cases hsig : slice bytes (first + count) (first + count + 4) = some eocdSig
    · have hread := readU16Le_of_le (show first + count + 20 + 2 ≤ bytes.length by omega)
      simp only [hsig, ne_eq, not_true, if_false, hread, Outcome.ok_bind]
      by_cases hlen : first + count + 22 + u16At bytes (first + count + 20) = bytes.length
      · simp only [if_pos hlen, Outcome.pure_eq_ok, Except.ok.injEq,
          isLastEocd_succ (Nat.le_add_right first count) ⟨hsig, hlen⟩, exists_eq_left]
        exact eq_comm
      · have hnot : ¬ IsEocd bytes (first + count) := fun h => hlen h.2
        simp only [if_neg hlen, hrest, isLastEocd_succ_of_not hnot]
    · have hnot : ¬ IsEocd bytes (first + count) := fun h => hsig h.1
      simp only [ne_eq, hsig, not_false_eq_true, if_true, hrest, isLastEocd_succ_of_not hnot]

theorem findEocd_eq_ok {bytes : List UInt8} {eocd : ZipEocd} : findEocd bytes = .ok eocd ↔
    IsEocd bytes eocd.offset ∧ (∀ later, eocd.offset < later → ¬ IsEocd bytes later) ∧
      eocd.commentOffset = eocd.offset + 22 ∧
      eocd.commentLen = u16At bytes (eocd.offset + 20) := by
  have hbound : ∀ {offset}, IsEocd bytes offset →
      offset + 22 ≤ bytes.length ∧ bytes.length ≤ offset + 22 + 65535 := by
    intro offset h
    have hlt := u16At_lt bytes (offset + 20)
    have hlen := h.2
    omega
  unfold findEocd
  split
  · rename_i hshort
    simp only [Outcome.bail_eq_ok_iff, false_iff]
    intro h
    have := (hbound h.1).1
    omega
  · rename_i hlong
    rw [findEocdFrom_eq_ok (by omega)]
    constructor
    · intro hex
      obtain ⟨offset, ⟨hfirst, hcount, hat, hlater⟩, rfl⟩ := hex
      refine ⟨hat, ?_, rfl, rfl⟩
      intro later hlt hother
      have := hbound hother
      exact hlater later hlt (by omega) hother
    · intro h
      obtain ⟨hat, hlater, hoffset, hlen⟩ := h
      have := hbound hat
      refine ⟨eocd.offset,
        ⟨by omega, by omega, hat, fun later hlt _ => hlater later hlt⟩, ?_⟩
      rw [← hoffset, ← hlen]

end Psign.Sip
