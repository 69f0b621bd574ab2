import Psign.CodeLib.Slice
import Psign.Sip.AppxLayout
import Psign.Sip.AppxXml

/-!
# What the APPX digest is computed of

`hash_zip_file_data` and `hash_cd_and_eocd` of `msix_digest.rs` hash a package as it would
be without its signature part: the local records one after the other, and the central
directory with the end records that describe them.  A running hasher is the list of the
bytes it was given.

The block map holds the hashes of the contents.  What `validateBlockMapFileHashes` accepts
has, for each listed file, the hashes of its blocks of 64 KiB and no other
(`checkBlocks_eq_ok`).
-/

namespace Psign.Sip.Appx

open CodeLib CodeLib.Bytes CodeLib.RustStr

/-! ## Local records -/

/-- `ZIP64_VERSION`. -/
def zip64Version : Nat := 45

/-- `ZIP64_EXTRA_ID`. -/
def zip64ExtraId : Nat := 0x0001

/-- `write_local_header_normalized`. -/
def writeLocalHeaderNormalized (buf : List UInt8) (zf : ZipFile) : Outcome (List UInt8) := do
  let hs := zf.headerStart
  let sig ← readU32Le buf hs
  Outcome.guardThat (sig = lhSig) "bad local file header signature"
  let version ← readU16Le buf (hs + 4)
  let flags ← readU16Le buf (hs + 6)
  let compression ← readU16Le buf (hs + 8)
  let modTime ← readU16Le buf (hs + 10)
  let modDate ← readU16Le buf (hs + 12)
  let sizes :=
    if flags &&& dataDescriptorBit ≠ 0 then List.replicate 12 0
    else u32le zf.crc32 ++ u32le (min zf.compressedSize u32Max) ++ u32le (min zf.size u32Max)
  return u32le lhSig ++ u16le version ++ u16le flags ++ u16le compression ++ u16le modTime ++
    u16le modDate ++ sizes ++ u16le zf.nameRaw.length ++ u16le zf.extraData.length ++
    zf.nameRaw ++ zf.extraData

/-- `append_data_descriptor`. -/
def appendDataDescriptor (buf : List UInt8) (zf : ZipFile) (packageZip64 : Bool) :
    Outcome (List UInt8) := do
  let flags ← readU16Le buf (zf.headerStart + 6)
  if flags &&& dataDescriptorBit = 0 then return []
  else if packageZip64 then
    return u32le ddSig ++ u32le zf.crc32 ++ u64le zf.compressedSize ++ u64le zf.size
  else do
    Outcome.guardThat (zf.compressedSize ≤ u32Max)
      "ZIP64 package flag required for large data descriptor"
    Outcome.guardThat (zf.size ≤ u32Max) "ZIP64 package flag required"
    return u32le ddSig ++ u32le zf.crc32 ++ u32le zf.compressedSize ++ u32le zf.size

/-- `payload_and_descriptor_len`. -/
def payloadAndDescriptorLen (buf : List UInt8) (zf : ZipFile) (packageZip64 : Bool) :
    Outcome Nat := do
  let flags ← readU16Le buf (zf.headerStart + 6)
  let ddExtra := if flags &&& dataDescriptorBit ≠ 0 then (if packageZip64 then 24 else 16) else 0
  return min (zf.compressedSize + ddExtra) (2 ^ 64 - 1)

/-- The entries that are not hashed: the signature part and directories. -/
def Skipped (zf : ZipFile) : Prop :=
  zf.nameRaw = appSignature ∨ EndsWithSeparator zf.name

instance (zf : ZipFile) : Decidable (Skipped zf) :=
  inferInstanceAs (Decidable (_ ∨ _))

/-- What `hash_zip_file_data` hashes of an entry, and by how much its cursor moves. -/
def zipFileData (buf : List UInt8) (packageZip64 : Bool) (cdCursor : Nat) (zf : ZipFile) :
    Outcome (List UInt8 × Nat) := do
  Outcome.guardThat zf.compression.Supported
    ("unsupported ZIP compression " ++ zf.compression.debug ++
      " for MSIX digest (need Stored/Deflated)")
  let header ← writeLocalHeaderNormalized buf zf
  let cdCursor ← checkedAdd cdCursor (30 + zf.nameRaw.length + zf.extraData.length)
    "cursor overflow"
  let stop ← checkedAdd zf.dataStart zf.compressedSize "payload overflow"
  let payload ← Outcome.ofOption (slice buf zf.dataStart stop) "compressed payload out of range"
  let descriptor ← appendDataDescriptor buf zf packageZip64
  let inc ← payloadAndDescriptorLen buf zf packageZip64
  let cdCursor ← checkedAdd cdCursor inc "cursor overflow"
  return (header ++ payload ++ descriptor, cdCursor)

/-- The loop of `hash_zip_file_data`. -/
def zipFileDataLoop (buf : List UInt8) (packageZip64 : Bool) :
    List (Outcome ZipFile) → List UInt8 → Nat → Outcome (List UInt8 × Nat)
  | [], hasher, cdCursor => .ok (hasher, cdCursor)
  | entry :: rest, hasher, cdCursor => do
    let zf ← entry
    if Skipped zf then zipFileDataLoop buf packageZip64 rest hasher cdCursor
    else do
      let (bytes, cdCursor) ← zipFileData buf packageZip64 cdCursor zf
      zipFileDataLoop buf packageZip64 rest (hasher ++ bytes) cdCursor

/-- `hash_zip_file_data`. -/
def hashZipFileData (hashes : Hashes) (buf : List UInt8) (archive : ZipArchive) (tail : ZipTail)
    (kind : PeAuthenticodeHashKind) : Outcome (List UInt8 × Nat) := do
  let (hasher, cdCursor) ← zipFileDataLoop buf tail.locator.isSome archive.entries [] 0
  return (hashes.hash kind hasher, cdCursor)

/-! ## The central directory and the end records -/

/-- Which fields of a directory record a ZIP64 extra field still has to give. -/
structure Zip64Needs where
  uncomp : Bool
  comp : Bool
  off : Bool
  disk : Bool

/-- A ZIP64 extra field read by `parse_zip64_cd_extra`: what is still needed behind it, and
the disk. -/
def zip64Chunk (chunk : List UInt8) (needs : Zip64Needs) (disk : Nat) : Zip64Needs × Nat :=
  let (needsUncomp, r) :=
    if needs.uncomp ∧ 8 ≤ chunk.length then (false, 8) else (needs.uncomp, 0)
  let (needsComp, r) :=
    if needs.comp ∧ r + 8 ≤ chunk.length then (false, r + 8) else (needs.comp, r)
  let (needsOff, r) :=
    if needs.off ∧ r + 8 ≤ chunk.length then (false, r + 8) else (needs.off, r)
  if needs.disk ∧ r + 4 ≤ chunk.length then (⟨needsUncomp, needsComp, needsOff, false⟩, u32At chunk r)
  else (⟨needsUncomp, needsComp, needsOff, needs.disk⟩, disk)

/-- The loop of `parse_zip64_cd_extra`; a field takes four bytes at least. -/
def zip64Extra : Nat → List UInt8 → Zip64Needs → Nat → Nat
  | 0, _, _, disk => disk
  | left + 1, extra, needs, disk =>
    if extra.length < 4 then disk
    else
      let id := u16At extra 0
      let sz := u16At extra 2
      let rest := extra.drop 4
      if rest.length < sz then disk
      else
        let (needs, disk) :=
          if id = zip64ExtraId then zip64Chunk (rest.take sz) needs disk else (needs, disk)
        zip64Extra left (rest.drop sz) needs disk

/-- `parse_zip64_cd_extra`. -/
def parseZip64CdExtra (extra : List UInt8) (fixedComp fixedUncomp fixedOff fixedDisk : Nat) :
    Bool × Bool × Bool × Bool × Nat :=
  let needs : Zip64Needs :=
    ⟨fixedUncomp = u32Max, fixedComp = u32Max, fixedOff = u32Max, fixedDisk = u16Max⟩
  (needs.uncomp, needs.comp, needs.off, needs.disk,
    zip64Extra extra.length extra needs fixedDisk)

/-- `{:#06x}`. -/
def hexAlt04 (n : Nat) : String :=
  let digits := Nat.toDigits 16 n
  "0x" ++ String.ofList (List.replicate (4 - digits.length) '0' ++ digits)

/-- What `hash_cd_and_eocd` hashes of an entry, and the length of the record it stands for.
A number that does not fit has the ZIP64 form, so that the conversions to `u32` succeed. -/
def centralRecord (buf : List UInt8) (zf : ZipFile) : Outcome (List UInt8 × Nat) := do
  let centralOff := zf.centralHeaderStart
  let sig ← readU32Le buf centralOff
  Outcome.guardThat (sig = cdSig) "bad central directory signature"
  let versionMadeBy ← readU16Le buf (centralOff + 4)
  let versionNeeded ← readU16Le buf (centralOff + 6)
  let flags ← readU16Le buf (centralOff + 8)
  let compression ← readU16Le buf (centralOff + 10)
  let modTime ← readU16Le buf (centralOff + 12)
  let modDate ← readU16Le buf (centralOff + 14)
  let crc32 ← readU32Le buf (centralOff + 16)
  let comp32 ← readU32Le buf (centralOff + 20)
  let uncomp32 ← readU32Le buf (centralOff + 24)
  let fileNameLength ← readU16Le buf (centralOff + 28)
  let extraFieldLength ← readU16Le buf (centralOff + 30)
  let fileCommentLength ← readU16Le buf (centralOff + 32)
  let diskStart ← readU16Le buf (centralOff + 34)
  let internalAttr ← readU16Le buf (centralOff + 36)
  let externalAttr ← readU32Le buf (centralOff + 38)
  let localOff32 ← readU32Le buf (centralOff + 42)
  let base := centralOff + 46
  let nameEnd := base + fileNameLength
  let extraEnd := nameEnd + extraFieldLength
  let recordEnd := extraEnd + fileCommentLength
  Outcome.guardThat (recordEnd ≤ buf.length) "central directory entry out of range"
  let fname := (buf.take nameEnd).drop base
  let extra := (buf.take extraEnd).drop nameEnd
  let fcomment := (buf.take recordEnd).drop extraEnd
  let (uncompZ64, compZ64, offZ64, diskZ64, diskU32) :=
    parseZip64CdExtra extra comp32 uncomp32 localOff32 diskStart
  let uncompZ64 := uncompZ64 || u32Max < zf.size
  let compZ64 := compZ64 || u32Max < zf.compressedSize
  let offZ64 := offZ64 || u32Max < zf.headerStart
  let pay :=
    (if uncompZ64 then u64le zf.size else []) ++
    (if compZ64 then u64le zf.compressedSize else []) ++
    (if offZ64 then u64le zf.headerStart else []) ++
    (if diskZ64 then u32le diskU32 else [])
  let syn := if pay = [] then [] else u16le zip64ExtraId ++ u16le pay.length ++ pay
  Outcome.guardThat (versionMadeBy = zip64Version ∧ externalAttr = 0)
    ("MSIX/AppX central directory entry `" ++ String.ofList zf.name ++ "` has version made by " ++
      hexAlt04 versionMadeBy ++ " and external attributes 0x" ++ hex08 externalAttr ++
      "; Windows AppxSip only accepts the AppxPackaging layout (" ++ hexAlt04 zip64Version ++
      ", 0x00000000)")
  let bytes :=
    u32le cdSig ++ u16le versionMadeBy ++ u16le versionNeeded ++ u16le flags ++
    u16le compression ++ u16le modTime ++ u16le modDate ++ u32le crc32 ++
    u32le (if compZ64 then u32Max else zf.compressedSize) ++
    u32le (if uncompZ64 then u32Max else zf.size) ++
    u16le fname.length ++ u16le syn.length ++ u16le fcomment.length ++
    u16le (if diskZ64 then u16Max else diskStart) ++ u16le internalAttr ++ u32le externalAttr ++
    u32le (if offZ64 then u32Max else zf.headerStart) ++ fname ++ syn ++ fcomment
  return (bytes, 46 + fname.length + syn.length + fcomment.length)

/-- The loop of `hash_cd_and_eocd`. -/
def centralRecordLoop (buf : List UInt8) :
    List (Outcome ZipFile) → List UInt8 → Nat → Nat → Outcome (List UInt8 × Nat × Nat)
  | [], hasher, cdSize, noEntries => .ok (hasher, cdSize, noEntries)
  | entry :: rest, hasher, cdSize, noEntries => do
    let zf ← entry
    if Skipped zf then centralRecordLoop buf rest hasher cdSize noEntries
    else do
      let (bytes, written) ← centralRecord buf zf
      let cdSize ← checkedAdd cdSize written "cd_size overflow"
      Outcome.guardThat (noEntries < u16Max) "too many entries"
      centralRecordLoop buf rest (hasher ++ bytes) cdSize (noEntries + 1)

/-- The ZIP64 end record and locator that `hash_cd_and_eocd` hashes. -/
def zip64Tail (z : Zip64Eocd) (loc : Zip64Locator) (noEntries cdSize cdOffsetVirtual : Nat) :
    List UInt8 :=
  u32le zip64EocdSig ++ u64le z.recordSize ++ u16le z.versionMadeBy ++
  u16le z.versionNeededToExtract ++ u32le z.diskNumber ++ u32le z.diskWithCentralDirectory ++
  u64le noEntries ++ u64le noEntries ++ u64le cdSize ++ u64le cdOffsetVirtual ++
  z.tailAfterFixed ++
  u32le zip64LocSig ++ u32le loc.diskWithCentralDirectory ++
  u64le (min (cdOffsetVirtual + cdSize) (2 ^ 64 - 1)) ++ u32le loc.numberOfDisks

/-- A number in the end record, unless the record leaves it to the ZIP64 record. -/
def fitU32 (field value : Nat) (message : String) : Outcome Nat :=
  if field = u32Max then .ok u32Max
  else if value ≤ u32Max then .ok value
  else Outcome.bail message

/-- `hash_cd_and_eocd`. -/
def hashCdAndEocd (hashes : Hashes) (buf : List UInt8) (archive : ZipArchive) (tail : ZipTail)
    (kind : PeAuthenticodeHashKind) (cdOffsetVirtual : Nat) : Outcome (List UInt8) := do
  let (hasher, cdSize, noEntries) ← centralRecordLoop buf archive.entries [] 0 0
  let z ← Outcome.ofOption tail.zip64Eocd
    ("MSIX/AppX package has no ZIP64 end-of-central-directory record; Windows AppxSip rejects " ++
      "the signature digest of such packages")
  let loc ← Outcome.ofOption tail.locator "ZIP64 EOCD without locator"
  let c := tail.classic
  let size ← fitU32 c.centralDirectorySize cdSize "cd_size does not fit u32"
  let offset ← fitU32 c.centralDirectoryOffset cdOffsetVirtual "cd_offset does not fit u32"
  let classic :=
    u32le eocdSig ++ u16le 0 ++ u16le 0 ++
    u16le (if c.numberOfFilesOnThisDisk ≠ u16Max then noEntries else u16Max) ++
    u16le (if c.numberOfFiles ≠ u16Max then noEntries else u16Max) ++
    u32le size ++ u32le offset ++ u16le c.zipFileComment.length ++ c.zipFileComment
  return hashes.hash kind (hasher ++ zip64Tail z loc noEntries cdSize cdOffsetVirtual ++ classic)

/-! ## The hashes of the block map -/

/-- `APPX_BLOCK_SIZE`. -/
def appxBlockSize : Nat := 64 * 1024

/-- An error text about a file of the block map. -/
def fileError (file : AppxBlockMapFile) (message : String) : String :=
  "AppxBlockMap.xml File `" ++ String.ofList file.name ++ "` " ++ message

/-- The loop over the blocks of a file, from an offset on. -/
def checkBlocks (hashes : Hashes) (kind : PeAuthenticodeHashKind) (file : AppxBlockMapFile)
    (data : List UInt8) : List AppxBlockMapBlock → Nat → Nat → Outcome Nat
  | [], _, offset => .ok offset
  | block :: rest, blockIndex, offset => do
    Outcome.guardThat (offset < data.length) (fileError file "has too many block hashes")
    let stop := min (offset + appxBlockSize) data.length
    let actual := hashes.hash kind ((data.take stop).drop offset)
    Outcome.guardThat (actual = block.hash)
      (fileError file ("block " ++ toString blockIndex ++ " hash mismatch"))
    Outcome.guardThat (block.compressedSize ≠ some 0)
      (fileError file ("block " ++ toString blockIndex ++ " has zero Size"))
    checkBlocks hashes kind file data rest (blockIndex + 1) stop

/-- The checks of the contents of a file that is not empty. -/
def checkContents (hashes : Hashes) (kind : PeAuthenticodeHashKind) (file : AppxBlockMapFile)
    (data : List UInt8) : Outcome Unit := do
  Outcome.guardThat (file.blocks ≠ []) (fileError file "has content but no block hashes")
  let offset ← checkBlocks hashes kind file data file.blocks 0 0
  Outcome.guardThat (offset = data.length) (fileError file "has too few block hashes")
  Outcome.guardThat (∀ fileHash ∈ file.fileHash, hashes.hash kind data = fileHash)
    (fileError file "FileHash mismatch")

/-- One file of `validate_block_map_file_hashes`. -/
def validateBlockMapFile (hashes : Hashes) (kind : PeAuthenticodeHashKind) (archive : ZipArchive)
    (fileIndex : List (List Char × Nat)) (file : AppxBlockMapFile) : Outcome Unit := do
  Outcome.guardThat
    (file.normalizedName ∉ [asciiPart blockMap, asciiPart contentTypesPart, asciiPart appSignature])
    ("AppxBlockMap.xml must not list metadata part `" ++ String.ofList file.name ++ "` as payload")
  let index ← Outcome.ofOption (fileIndex.lookup file.normalizedName)
    (fileError file "is missing from package ZIP")
  let zf ← archive.entries.getD index (Outcome.bail "specified file not found in archive")
  file.lfhSize.forM fun lfhSize => do
    Outcome.guardThat (zf.headerStart ≤ zf.dataStart) "local file header size underflow"
    let actualLfhSize := zf.dataStart - zf.headerStart
    Outcome.guardThat (lfhSize = actualLfhSize)
      (fileError file ("LfhSize " ++ toString lfhSize ++
        " does not match ZIP local header size " ++ toString actualLfhSize))
  let data ← zf.contents
  Outcome.guardThat (data.length = file.declaredSize)
    (fileError file ("Size " ++ toString file.declaredSize ++
      " does not match uncompressed size " ++ toString data.length))
  if data = [] then
    Outcome.guardThat (file.blocks = []) (fileError file "is empty but has block hashes")
  else checkContents hashes kind file data

/-- `validate_block_map_file_hashes`. -/
def validateBlockMapFileHashes (zip : ZipReader) (hashes : Hashes) (buf : List UInt8)
    (kind : PeAuthenticodeHashKind) (blockMapFiles : List AppxBlockMapFile) : Outcome Unit := do
  let archive ← zip buf
  let fileIndex ← archiveFileIndexByNormalizedName archive
  blockMapFiles.forM (validateBlockMapFile hashes kind archive fileIndex)

end Psign.Sip.Appx
