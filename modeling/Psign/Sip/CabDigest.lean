import Psign.CodeLib.Bytes
import Psign.Sip.Digest

/-!
# Cabinets

`cab_digest.rs`: where the signature of a cabinet is (`parseCabContext`), how a
cabinet is made ready for one (`prepareUnsignedCabForAuthenticodeSignature`) and what
of it is hashed (`cabDigestInput`).

A signed cabinet has a reserve area behind the header with the position and the
length of the signature.  Making room for it moves everything behind the header, so
the offsets in the header and in the folder table grow by its length.

The hasher takes bytes piece by piece.  Here the pieces are joined
(`cabDigestInput`), and the digest is the hash of the whole.
-/

namespace Psign.Sip.Cab

open CodeLib CodeLib.Bytes

/-! ## Reading and writing -/

/-- `read_u16_le`. -/
def readU16Le (buf : List UInt8) (off : Nat) : Outcome Nat :=
  Outcome.ofOption ((slice buf off (off + 2)).map fun _ => u16At buf off)
    ("read past end at " ++ toString off)

/-- `read_u32_le`. -/
def readU32Le (buf : List UInt8) (off : Nat) : Outcome Nat :=
  Outcome.ofOption ((slice buf off (off + 4)).map fun _ => u32At buf off)
    ("read past end at " ++ toString off)

/-- `write_u16_le`. -/
def writeU16Le (buf : List UInt8) (off value : Nat) : Outcome (List UInt8) :=
  if off + 2 ≤ buf.length then .ok (patch buf off (u16le value))
  else Outcome.bail ("write past end at " ++ toString off)

/-- `write_u32_le`. -/
def writeU32Le (buf : List UInt8) (off value : Nat) : Outcome (List UInt8) :=
  if off + 4 ≤ buf.length then .ok (patch buf off (u32le value))
  else Outcome.bail ("write past end at " ++ toString off)

/-- `checked_u32_add`. -/
def checkedU32Add (a b : Nat) (what : String) : Outcome Nat :=
  if a + b < 2 ^ 32 then .ok (a + b) else Outcome.bail (what ++ " exceeds CAB u32 range")

/-- `&data[start..stop]`; the program stops where the range is not in the data. -/
def index (data : List UInt8) (start stop : Nat) : Outcome (List UInt8) :=
  Outcome.ofOption (slice data start stop) "range out of bounds"

/-! ## Layout -/

def flagPrevCabinet : Nat := 0x0001
def flagNextCabinet : Nat := 0x0002
def flagReservePresent : Nat := 0x0004
def abReserveExpected : Nat := 0x00100000
def signedHeaderExtra : Nat := 20

/-- `MSCF`. -/
def mscf : List UInt8 := [0x4D, 0x53, 0x43, 0x46]

/-- `CabCtx`. -/
structure CabCtx where
  headerSize : Nat
  sigpos : Nat
  siglen : Nat
  fileend : Nat
  flags : Nat
  deriving DecidableEq, Repr

/-- The loop of `skip_cab_sz`. -/
def skipCabSzFrom : List UInt8 → Nat → Outcome Nat
  | [], _ => Outcome.bail "truncated CAB sz field"
  | b :: rest, idx => if b = 0 then .ok (idx + 1) else skipCabSzFrom rest (idx + 1)

/-- `skip_cab_sz`. -/
def skipCabSz (data : List UInt8) (idx : Nat) : Outcome Nat :=
  skipCabSzFrom (data.drop idx) idx

/-- `cffolder_table_offset`. -/
def cffolderTableOffset (data : List UInt8) (flags : Nat) : Outcome Nat := do
  Outcome.guardThat (flags &&& flagPrevCabinet = 0)
    "multivolume CAB (FLAG_PREV_CABINET) is unsupported for portable signing"
  if flags &&& flagNextCabinet ≠ 0 then
    let idx ← skipCabSz data 36
    skipCabSz data idx
  else return 36

/-- The part of `parse_cab_context` for a cabinet with a reserve area. -/
def parseReserve (data : List UInt8) (flags : Nat) : Outcome CabCtx := do
  let fileend := data.length
  let headerSize ← readU32Le data 36
  Outcome.guardThat (headerSize = signedHeaderExtra)
    ("unsupported CAB additional header size " ++ toString headerSize ++ " (expected 20)")
  let abReserved ← readU32Le data 40
  Outcome.guardThat (abReserved = abReserveExpected)
    ("unexpected CAB abReserve value 0x" ++ hex08 abReserved ++ " (expected 0x00100000)")
  let sigpos ← readU32Le data 44
  let siglen ← readU32Le data 48
  Outcome.guardThat (¬ (0 < sigpos ∧ siglen = 0 ∨ sigpos = 0 ∧ 0 < siglen))
    "corrupt CAB signature extent (sigpos/siglen)"
  Outcome.guardThat (¬ (sigpos < fileend ∧ min (sigpos + siglen) (2 ^ 32 - 1) ≠ fileend))
    ("CAB signature extent does not match file size (sigpos=" ++ toString sigpos ++ ", siglen=" ++
      toString siglen ++ ", file=" ++ toString fileend ++ ")")
  Outcome.guardThat (sigpos < fileend) "CAB sigpos past end of file"
  return ⟨headerSize, sigpos, siglen, fileend, flags⟩

/-- `parse_cab_context`. -/
def parseCabContext (data : List UInt8) : Outcome CabCtx := do
  Outcome.guardThat (44 ≤ data.length) "CAB file too short"
  Outcome.guardThat (data.take 4 = mscf) "not a CAB file (missing MSCF signature)"
  let reserved ← readU32Le data 4
  Outcome.guardThat (reserved = 0) "CAB reserved1 must be zero"
  let flags ← readU16Le data 30
  Outcome.guardThat (flags &&& flagPrevCabinet = 0)
    "multivolume CAB (FLAG_PREV_CABINET) is unsupported for Rust SIP digest"
  Outcome.guardThat (data.length < 2 ^ 32) "CAB file too large"
  if flags &&& flagReservePresent ≠ 0 then parseReserve data flags
  else return ⟨0, 0, 0, data.length, flags⟩

/-! ## Making room for a signature -/

/-- The reserve area that is put in, without position and length. -/
def reserveArea : List UInt8 :=
  [0x14, 0, 0, 0, 0, 0, 0x10, 0] ++ List.replicate 16 0

/-- The loop over the folder table: each folder's data moves by the reserve area. -/
def shiftFolders (out : List UInt8) (entry : Nat) : Nat → Outcome (List UInt8)
  | 0 => .ok out
  | count + 1 => do
    let coffCabStart ← readU32Le out entry
    let shifted ← checkedU32Add coffCabStart 24 "CFFOLDER coffCabStart"
    let out ← writeU32Le out entry shifted
    shiftFolders out (entry + 8) count

/-- `prepare_unsigned_cab_for_authenticode_signature`. -/
def prepareUnsignedCabForAuthenticodeSignature (data : List UInt8) (signatureLen : Nat) :
    Outcome (List UInt8) := do
  let ctx ← parseCabContext data
  Outcome.guardThat (ctx.flags &&& flagReservePresent = 0)
    "CAB already has a reserve header; replacing CAB signatures is not implemented"
  Outcome.guardThat (¬ (ctx.sigpos ≠ 0 ∨ ctx.siglen ≠ 0)) "CAB already has an embedded signature"
  Outcome.guardThat (signatureLen < 2 ^ 32) "CAB signature too large"
  Outcome.guardThat (data.length < 2 ^ 32) "CAB file too large"
  let sigpos ← checkedU32Add data.length 24 "signed CAB header"
  let originalCbCabinet ← readU32Le data 8
  Outcome.guardThat (originalCbCabinet = data.length)
    ("unsupported CAB cbCabinet " ++ toString originalCbCabinet ++
      " (expected unsigned file size " ++ toString data.length ++ ")")
  let originalCoffFiles ← readU32Le data 16
  let folderCount ← readU16Le data 26
  let originalFolderTable ← cffolderTableOffset data ctx.flags
  let folderTableEnd := originalFolderTable + folderCount * 8
  Outcome.guardThat (folderTableEnd ≤ originalCoffFiles)
    ("CFFOLDER table extends past coffFiles (end=" ++ toString folderTableEnd ++ ", coffFiles=" ++
      toString originalCoffFiles ++ ")")
  let out := data.take 36 ++ reserveArea ++ data.drop 36
  let out ← writeU32Le out 8 sigpos
  let coffFiles ← checkedU32Add originalCoffFiles 24 "coffFiles"
  let out ← writeU32Le out 16 coffFiles
  let out ← writeU16Le out 30 (ctx.flags ||| flagReservePresent)
  let out ← writeU32Le out 44 sigpos
  let out ← writeU32Le out 48 signatureLen
  shiftFolders out (originalFolderTable + 24) folderCount

/-- `cab_append_authenticode_pkcs7_signature`. -/
def cabAppendAuthenticodePkcs7Signature (data pkcs7 : List UInt8) : Outcome (List UInt8) := do
  let out ← prepareUnsignedCabForAuthenticodeSignature data pkcs7.length
  return out ++ pkcs7

/-! ## What is hashed -/

/-- `hash_sz_field`: the bytes that are hashed and the index behind them; the last
argument counts the bytes before the end. -/
def hashSzField (data : List UInt8) (idx : Nat) : Nat → Outcome (List UInt8 × Nat)
  | 0 => .ok ([], idx)
  | count + 1 => do
    let b ← Outcome.ofOption data[idx]? "index out of bounds"
    if b = 0 then return ([b], idx + 1)
    else do
      let (rest, stop) ← hashSzField data (idx + 1) count
      return (b :: rest, stop)

/-- The loop over the folder table. -/
def hashFolders (data : List UInt8) (sigpos idx : Nat) : Nat → Outcome (List UInt8 × Nat)
  | 0 => .ok ([], idx)
  | remaining + 1 => do
    Outcome.guardThat (idx < sigpos) "truncated CFFOLDER table"
    Outcome.guardThat (idx + 8 ≤ sigpos) "CFFOLDER entries overflow signature offset"
    let entry ← index data idx (idx + 8)
    let (rest, stop) ← hashFolders data sigpos (idx + 8) remaining
    return (entry ++ rest, stop)

/-- The names of the next cabinet, where the flags announce one. -/
def hashNextCabinet (data : List UInt8) (sigpos flags : Nat) : Outcome (List UInt8 × Nat) := do
  if flags &&& flagNextCabinet ≠ 0 then
    let (cabinet, idx) ← hashSzField data 60 (sigpos - 60)
    let (disk, idx) ← hashSzField data idx (sigpos - idx)
    return (cabinet ++ disk, idx)
  else return ([], 60)

/-- The fields of the header that are hashed. -/
def headerInput (data : List UInt8) : Outcome (List UInt8) := do
  let a ← index data 8 16
  let b ← index data 16 20
  let c ← index data 20 26
  let d ← index data 26 28
  let e ← index data 28 30
  let f ← index data 30 32
  let g ← index data 32 34
  let h ← index data 56 60
  return a ++ b ++ c ++ d ++ e ++ f ++ g ++ h

/-- The bytes that `compute_cab_authenticode_digest` hashes. -/
def cabDigestInput (data : List UInt8) (ctx : CabCtx) : Outcome (List UInt8) := do
  let signature ← index data 0 4
  if ctx.sigpos ≠ 0 then
    let coffFiles ← readU32Le data 16
    let nfolders ← readU16Le data 26
    let flags ← readU16Le data 30
    let header ← headerInput data
    let (names, idx) ← hashNextCabinet data ctx.sigpos flags
    let (folders, idx) ← hashFolders data ctx.sigpos idx nfolders
    Outcome.guardThat (idx = coffFiles)
      ("corrupt CAB coffFiles: expected header to end at 0x" ++ hex coffFiles ++ ", got 0x" ++
        hex idx)
    Outcome.guardThat (ctx.sigpos ≤ ctx.fileend) "sigpos past file"
    let rest ← index data idx ctx.sigpos
    return signature ++ header ++ names ++ folders ++ rest
  else
    let rest ← index data 8 ctx.fileend
    return signature ++ rest

variable (hashes : Hashes)

/-- `compute_cab_authenticode_digest`. -/
def computeCabAuthenticodeDigest (data : List UInt8) (ctx : CabCtx)
    (kind : PeAuthenticodeHashKind) : Outcome (List UInt8) := do
  let input ← cabDigestInput data ctx
  return hashes.hash kind input

/-- `cab_authenticode_digest_for_signing`. -/
def cabAuthenticodeDigestForSigning (unsignedCab : List UInt8) (kind : PeAuthenticodeHashKind) :
    Outcome (List UInt8) := do
  let prepared ← prepareUnsignedCabForAuthenticodeSignature unsignedCab 0
  Outcome.guardThat (prepared.length < 2 ^ 32) "CAB file too large"
  let flags ← readU16Le prepared 30
  computeCabAuthenticodeDigest hashes prepared
    ⟨signedHeaderExtra, prepared.length, 0, prepared.length, flags⟩ kind

/-- `cab_signature_pkcs7_der`. -/
def cabSignaturePkcs7Der (data : List UInt8) : Outcome (List UInt8) := do
  let ctx ← parseCabContext data
  Outcome.guardThat (¬ (ctx.headerSize ≠ signedHeaderExtra ∨ ctx.sigpos = 0 ∨ ctx.siglen = 0))
    "CAB has no embedded Authenticode signature (expected reserve header + PKCS#7)"
  Outcome.ofOption (slice data ctx.sigpos (ctx.sigpos + ctx.siglen)) "PKCS#7 extent out of range"

/-- The digest that `verify_cab_digest_consistency` recomputes. -/
def cabVerifierDigest (data : List UInt8) (kind : PeAuthenticodeHashKind) :
    Outcome (List UInt8) := do
  let ctx ← parseCabContext data
  Outcome.guardThat (¬ (ctx.headerSize ≠ signedHeaderExtra ∨ ctx.sigpos = 0 ∨ ctx.siglen = 0))
    "CAB has no embedded Authenticode signature (expected 20-byte reserve header + PKCS#7)"
  computeCabAuthenticodeDigest hashes data ctx kind

end Psign.Sip.Cab
