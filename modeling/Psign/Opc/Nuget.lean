import Psign.CodeLib.Bytes
import Psign.Sip.Digest

/-!
# NuGet packages

`nuget.rs` of `psign-opc-sign`: a NuGet package is a ZIP archive, and its signature is
the entry `.signature.p7s`, the last one of the archive.  The signed bytes are those
of the archive without this entry.  `signedPackageUnsignedBytes` cuts it out: the
local record in front of the central directory, its directory record, and the numbers
in the end record.
-/

namespace Psign.Opc

open CodeLib CodeLib.Bytes Psign.Sip

/-- `NuGetHashAlgorithm`. -/
inductive NuGetHashAlgorithm where
  | sha256
  | sha384
  | sha512
  deriving DecidableEq, Repr

/-- `NuGetHashAlgorithm::hash`. -/
def NuGetHashAlgorithm.hash (hashes : Hashes) : NuGetHashAlgorithm → List UInt8 → List UInt8
  | sha256 => hashes.hash .sha256
  | sha384 => hashes.hash .sha384
  | sha512 => hashes.hash .sha512

/-- The signatures of the end record and of a directory record. -/
def eocdSig : List UInt8 := [0x50, 0x4B, 0x05, 0x06]
def cdfhSig : List UInt8 := [0x50, 0x4B, 0x01, 0x02]

/-- The bytes of `PACKAGE_SIGNATURE_FILE_NAME`, `.signature.p7s`. -/
def packageSignatureFileName : List UInt8 :=
  [0x2E, 0x73, 0x69, 0x67, 0x6E, 0x61, 0x74, 0x75, 0x72, 0x65, 0x2E, 0x70, 0x37, 0x73]

/-- `le16`. -/
def le16 (bytes : List UInt8) (offset : Nat) : Outcome Nat :=
  Outcome.ofOption ((slice bytes offset (offset + 2)).map fun _ => u16At bytes offset)
    "truncated ZIP structure"

/-- `le32`. -/
def le32 (bytes : List UInt8) (offset : Nat) : Outcome Nat :=
  Outcome.ofOption ((slice bytes offset (offset + 4)).map fun _ => u32At bytes offset)
    "truncated ZIP structure"

/-- `windows(4).rposition(..)`: the last of `count` offsets from `first` on at which a
signature stands. -/
def lastWindow (bytes sig : List UInt8) (first : Nat) : Nat → Option Nat
  | 0 => none
  | count + 1 =>
    if slice bytes (first + count) (first + count + 4) = some sig then some (first + count)
    else lastWindow bytes sig first count

/-- What the walk over the directory remembers of a record. -/
structure CdRecord where
  pos : Nat
  len : Nat
  isSignature : Bool
  localOffset : Nat
  deriving DecidableEq, Repr

/-- The walk over the directory: the records, and the offset behind the last. -/
def walkRecords (bytes : List UInt8) : Nat → Nat → Outcome (List CdRecord × Nat)
  | 0, pos => .ok ([], pos)
  | entries + 1, pos => do
    Outcome.guardThat (slice bytes pos (pos + 4) = some cdfhSig)
      "invalid ZIP central directory record"
    let nameLen ← le16 bytes (pos + 28)
    let extraLen ← le16 bytes (pos + 30)
    let commentLen ← le16 bytes (pos + 32)
    let len := 46 + nameLen + extraLen + commentLen
    let name ← Outcome.ofOption (slice bytes (pos + 46) (pos + 46 + nameLen))
      "truncated ZIP central directory record"
    let localOffset ← le32 bytes (pos + 42)
    let (records, stop) ← walkRecords bytes entries (pos + len)
    return (⟨pos, len, decide (name = packageSignatureFileName), localOffset⟩ :: records, stop)

/-- Where the parts of a signed package are. -/
structure Located where
  eocd : Nat
  totalEntries : Nat
  cdOffset : Nat
  record : CdRecord
  deriving DecidableEq, Repr

/-- The checks of `signed_package_unsigned_bytes`, and what they find. -/
def locateSignature (bytes : List UInt8) : Outcome Located := do
  let searchFrom := bytes.length - (22 + 65535)
  let eocd ← Outcome.ofOption (lastWindow bytes eocdSig searchFrom (bytes.length - searchFrom))
    "ZIP end of central directory not found"
  let commentLen ← le16 bytes (eocd + 20)
  Outcome.guardThat (eocd + 22 + commentLen = bytes.length)
    "ZIP end of central directory has trailing data"
  let diskEntries ← le16 bytes (eocd + 8)
  let totalEntries ← le16 bytes (eocd + 10)
  let cdSize ← le32 bytes (eocd + 12)
  let cdOffset ← le32 bytes (eocd + 16)
  Outcome.guardThat
    (¬ (diskEntries ≠ totalEntries ∨ totalEntries = 0xFFFF ∨ cdOffset = 0xFFFFFFFF))
    "multi-disk or ZIP64 NuGet packages are not supported for signature verification"
  Outcome.guardThat (cdOffset + cdSize = eocd)
    "ZIP central directory does not end at the EOCD record"
  let (records, pos) ← walkRecords bytes totalEntries cdOffset
  Outcome.guardThat (pos = eocd) "ZIP central directory size mismatch"
  let signatureIndex ← Outcome.ofOption (records.findIdx? CdRecord.isSignature)
    "package does not contain .signature.p7s"
  Outcome.guardThat
    (¬ ((records.filter CdRecord.isSignature).length ≠ 1 ∨ signatureIndex + 1 ≠ records.length))
    ".signature.p7s must be the single, last central directory record"
  let record ← Outcome.ofOption records[signatureIndex]? "index out of bounds"
  Outcome.guardThat (∀ other ∈ records.take signatureIndex, other.localOffset < record.localOffset)
    ".signature.p7s must be the last local file entry"
  return ⟨eocd, totalEntries, cdOffset, record⟩

/-- The end record with the numbers of another directory. -/
def adjustEnd (endRecord : List UInt8) (entries cdSize cdOffset : Nat) : List UInt8 :=
  patch endRecord 8 (u16le entries ++ u16le entries ++ u32le cdSize ++ u32le cdOffset)

/-- `signed_package_unsigned_bytes`; the program stops where the offset of the local
record is not in the file. -/
def signedPackageUnsignedBytes (bytes : List UInt8) : Outcome (List UInt8) := do
  let found ← locateSignature bytes
  let signatureLocalOffset := found.record.localOffset
  let keptCdSize := found.record.pos - found.cdOffset
  let before ← Outcome.ofOption (slice bytes 0 signatureLocalOffset) "range out of bounds"
  let kept ← Outcome.ofOption (slice bytes found.cdOffset (found.cdOffset + keptCdSize))
    "range out of bounds"
  return before ++ kept ++
    adjustEnd (bytes.drop found.eocd) (found.totalEntries - 1) keptCdSize signatureLocalOffset

end Psign.Opc
