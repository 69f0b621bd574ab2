import Mathlib.Data.List.Sort
import Psign.Sip.AppxArchive

/-!
# The layout of an APPX package

`parse_zip_tail` and `validate_zip_file_layout` of `msix_digest.rs`: the records at the end
of a package, and the check that local records, central directory and end records follow
each other without a gap.

The archive is what the `zip` crate reports; the checks compare it with the bytes.  On
success the local records tile the bytes in front of the central directory
(`tiles_of_validateZipFileLayout`).
-/

namespace Psign.Sip.Appx

open CodeLib CodeLib.Bytes CodeLib.RustStr

/-! ## Numbers -/

/-- `u64::from_le_bytes` at an offset. -/
def u64At (buf : List UInt8) (off : Nat) : Nat :=
  u32At buf off + 2 ^ 32 * u32At buf (off + 4)

/-- `u64::to_le_bytes`. -/
def u64le (n : Nat) : List UInt8 :=
  u32le (n % 2 ^ 32) ++ u32le (n / 2 ^ 32)

/-- `read_u64_le`. -/
def readU64Le (buf : List UInt8) (off : Nat) : Outcome Nat :=
  Outcome.ofOption ((slice buf off (off + 8)).map fun _ => u64At buf off)
    ("read past end at " ++ toString off)

/-- `checked_add` of two `u64`. -/
def checkedAdd (a b : Nat) (message : String) : Outcome Nat :=
  if a + b < 2 ^ 64 then .ok (a + b) else Outcome.bail message

/-- `u16::MAX`. -/
def u16Max : Nat := 0xFFFF

/-- `u32::MAX`. -/
def u32Max : Nat := 0xFFFFFFFF

/-- `LH_SIG`. -/
def lhSig : Nat := 0x04034b50

/-- `CD_SIG`. -/
def cdSig : Nat := 0x02014b50

/-- `ZIP64_EOCD_SIG`. -/
def zip64EocdSig : Nat := 0x06064b50

/-- `ZIP64_LOC_SIG`. -/
def zip64LocSig : Nat := 0x07064b50

/-- `DD_SIG`. -/
def ddSig : Nat := 0x08074b50

/-- `DATA_DESCRIPTOR_BIT`. -/
def dataDescriptorBit : Nat := 8

/-! ## The tail -/

/-- `Zip64Locator`. -/
structure Zip64Locator where
  diskWithCentralDirectory : Nat
  endOfCentralDirectoryOffset : Nat
  numberOfDisks : Nat
  deriving DecidableEq, Repr

/-- `Zip64Eocd`. -/
structure Zip64Eocd where
  recordSize : Nat
  versionMadeBy : Nat
  versionNeededToExtract : Nat
  diskNumber : Nat
  diskWithCentralDirectory : Nat
  numberOfFilesOnThisDisk : Nat
  numberOfFiles : Nat
  centralDirectorySize : Nat
  centralDirectoryOffset : Nat
  tailAfterFixed : List UInt8
  deriving DecidableEq, Repr

/-- `ZipTail`. -/
structure ZipTail where
  classic : ClassicEocd
  zip64Eocd : Option Zip64Eocd
  locator : Option Zip64Locator
  zip64EocdOffset : Option Nat
  eocdOffset : Nat
  centralDirectoryOffset : Nat
  centralDirectorySize : Nat
  deriving DecidableEq, Repr

/-- `parse_zip64_locator`. -/
def parseZip64Locator (buf : List UInt8) (off : Nat) : Outcome Zip64Locator := do
  let sig ← readU32Le buf off
  Outcome.guardThat (sig = zip64LocSig) "invalid ZIP64 locator signature"
  let diskWithCentralDirectory ← readU32Le buf (off + 4)
  let endOfCentralDirectoryOffset ← readU64Le buf (off + 8)
  let numberOfDisks ← readU32Le buf (off + 16)
  Outcome.guardThat (diskWithCentralDirectory = 0 ∧ numberOfDisks = 1)
    "multi-disk ZIP64 archives are not valid APPX/MSIX packages"
  return ⟨diskWithCentralDirectory, endOfCentralDirectoryOffset, numberOfDisks⟩

/-- The record that `find_zip64_eocd` reads behind a signature. -/
def readZip64Eocd (buf : List UInt8) (pos : Nat) : Outcome Zip64Eocd := do
  let recordSize ← readU64Le buf (pos + 4)
  Outcome.guardThat (44 ≤ recordSize) "ZIP64 end-of-central-directory record is too small"
  let versionMadeBy ← readU16Le buf (pos + 12)
  let versionNeededToExtract ← readU16Le buf (pos + 14)
  let diskNumber ← readU32Le buf (pos + 16)
  let diskWithCentralDirectory ← readU32Le buf (pos + 20)
  Outcome.guardThat (diskNumber = 0 ∧ diskWithCentralDirectory = 0)
    "multi-disk ZIP64 archives are not valid APPX/MSIX packages"
  let numberOfFilesOnThisDisk ← readU64Le buf (pos + 24)
  let numberOfFiles ← readU64Le buf (pos + 32)
  let centralDirectorySize ← readU64Le buf (pos + 40)
  let centralDirectoryOffset ← readU64Le buf (pos + 48)
  let tailStart := pos + 12 + 44
  let tailEnd ← checkedAdd tailStart (recordSize - 44) "zip64 tail overflow"
  let tailAfterFixed ← Outcome.ofOption (slice buf tailStart tailEnd) "zip64 tail out of range"
  return ⟨recordSize, versionMadeBy, versionNeededToExtract, diskNumber,
    diskWithCentralDirectory, numberOfFilesOnThisDisk, numberOfFiles, centralDirectorySize,
    centralDirectoryOffset, tailAfterFixed⟩

/-- The loop of `find_zip64_eocd`, with the number of positions that are still to be
tried. -/
def findZip64EocdFrom (buf : List UInt8) (nominalOffset : Nat) :
    Nat → Nat → Outcome (Nat × Zip64Eocd × Nat)
  | 0, _ => Outcome.bail "could not find ZIP64 end-of-central-directory"
  | count + 1, pos => do
    let sig ← readU32Le buf pos
    if sig = zip64EocdSig then do
      let z64 ← readZip64Eocd buf pos
      return (pos, z64, pos - nominalOffset)
    else findZip64EocdFrom buf nominalOffset count (pos + 1)

/-- `find_zip64_eocd`. -/
def findZip64Eocd (buf : List UInt8) (nominalOffset searchUpperBound : Nat) :
    Outcome (Nat × Zip64Eocd × Nat) :=
  findZip64EocdFrom buf nominalOffset (searchUpperBound + 1 - nominalOffset) nominalOffset

/-- The ZIP64 records of `parse_zip_tail`, if there is a locator in front of the end
record: the locator, and the offset and the record it leads to. -/
def zip64Records (buf : List UInt8) (cdePos : Nat) (classic : ClassicEocd) :
    Outcome (Option (Zip64Locator × Nat × Zip64Eocd)) := do
  let ahead := 20 + 22 + classic.zipFileComment.length
  if buf.length < ahead then return none
  else do
    let off := buf.length - ahead
    let sig ← readU32Le buf off
    if sig ≠ zip64LocSig then return none
    else do
      let loc ← parseZip64Locator buf off
      let (zpos, z64, _) ← findZip64Eocd buf loc.endOfCentralDirectoryOffset (cdePos - 60)
      Outcome.guardThat (z64.numberOfFilesOnThisDisk = z64.numberOfFiles)
        "multi-disk ZIP64 entry counts are not valid APPX/MSIX packages"
      return some (loc, zpos, z64)

/-- The checks of `parse_zip_tail` on an end record without a locator. -/
def checkClassicOnly (cdePos : Nat) (classic : ClassicEocd) : Outcome Unit := do
  Outcome.guardThat
    (classic.numberOfFilesOnThisDisk ≠ u16Max ∧ classic.numberOfFiles ≠ u16Max ∧
      classic.centralDirectorySize ≠ u32Max ∧ classic.centralDirectoryOffset ≠ u32Max)
    "classic EOCD uses ZIP64 sentinel values but ZIP64 locator is missing"
  Outcome.guardThat (classic.centralDirectorySize + classic.centralDirectoryOffset ≤ cdePos)
    "invalid EOCD central directory size/offset"

/-- `parse_zip_tail`. -/
def parseZipTail (buf : List UInt8) : Outcome ZipTail := do
  let (cdePos, classic) ← findClassicEocd buf
  let sentinels := classic.diskNumber = u16Max ∧ classic.diskWithCentralDirectory = u16Max
  Outcome.guardThat
    (sentinels ∨ (classic.diskNumber = 0 ∧ classic.diskWithCentralDirectory = 0))
    "multi-disk ZIP archives are not valid APPX/MSIX packages"
  let records ← zip64Records buf cdePos classic
  let (centralDirectoryOffset, centralDirectorySize) :=
    match records with
    | some (_, _, z64) =>
      (if classic.centralDirectoryOffset = u32Max then z64.centralDirectoryOffset
        else classic.centralDirectoryOffset,
       if classic.centralDirectorySize = u32Max then z64.centralDirectorySize
        else classic.centralDirectorySize)
    | none => (classic.centralDirectoryOffset, classic.centralDirectorySize)
  if records.isNone then checkClassicOnly cdePos classic
  let cdEnd ← checkedAdd centralDirectoryOffset centralDirectorySize
    "central directory extent overflow"
  let zip64EocdOffset := records.map fun (_, zpos, _) => zpos
  let expectedCdEnd := zip64EocdOffset.getD cdePos
  Outcome.guardThat (cdEnd = expectedCdEnd)
    ("central directory extent does not end at EOCD/ZIP64 EOCD (offset=" ++
      toString centralDirectoryOffset ++ ", size=" ++ toString centralDirectorySize ++
      ", expected_end=" ++ toString expectedCdEnd ++ ")")
  return {
    classic
    zip64Eocd := records.map fun (_, _, z64) => z64
    locator := records.map fun (loc, _, _) => loc
    zip64EocdOffset
    eocdOffset := cdePos
    centralDirectoryOffset
    centralDirectorySize }

/-! ## The central directory -/

/-- The loop of `validate_central_directory_records` with the records seen so far.  A record
takes bytes, so there are at most as many as the directory has bytes left. -/
def centralDirectoryRecords (buf : List UInt8) (cdEnd : Nat) : Nat → Nat → Nat → Outcome Nat
  | 0, _, seen => .ok seen
  | left + 1, cursor, seen =>
    if cdEnd ≤ cursor then .ok seen
    else do
      let sig ← readU32Le buf cursor
      Outcome.guardThat (sig = cdSig) "bad central directory signature"
      let flags ← readU16Le buf (cursor + 8)
      Outcome.guardThat (flags &&& 0x2041 = 0)
        "encrypted ZIP central directory records are not valid cleartext APPX/MSIX packages"
      let compression ← readU16Le buf (cursor + 10)
      Outcome.guardThat (compression = 0 ∨ compression = 8)
        ("unsupported ZIP compression method " ++ toString compression ++
          " in APPX/MSIX central directory")
      let fileNameLength ← readU16Le buf (cursor + 28)
      let extraFieldLength ← readU16Le buf (cursor + 30)
      let fileCommentLength ← readU16Le buf (cursor + 32)
      let diskStart ← readU16Le buf (cursor + 34)
      Outcome.guardThat (diskStart = 0) "central directory entry starts on a non-zero disk"
      Outcome.guardThat (fileCommentLength = 0)
        "central directory file comments are not valid in APPX/MSIX packages"
      let next := cursor + 46 + fileNameLength + extraFieldLength + fileCommentLength
      Outcome.guardThat (next ≤ cdEnd) "central directory record extends past directory"
      centralDirectoryRecords buf cdEnd left next (seen + 1)

/-- `validate_central_directory_records`. -/
def validateCentralDirectoryRecords (buf : List UInt8) (tail : ZipTail) : Outcome Unit := do
  let count := (tail.zip64Eocd.map fun z64 => z64.numberOfFiles).getD tail.classic.numberOfFiles
  Outcome.guardThat (count ≤ 0xA00000) "APPX/MSIX ZIP has too many central directory entries"
  let cdEnd ← checkedAdd tail.centralDirectoryOffset tail.centralDirectorySize
    "central directory extent overflow"
  let seen ← centralDirectoryRecords buf cdEnd tail.centralDirectorySize
    tail.centralDirectoryOffset 0
  Outcome.guardThat (seen = count)
    ("central directory entry count " ++ toString seen ++ " does not match EOCD count " ++
      toString count)

/-! ## Local records -/

/-- Two numbers that can be read and are the sizes of an entry. -/
def SizesMatch (compressedSize uncompressedSize : Outcome Nat) (zf : ZipFile) : Prop :=
  compressedSize.toOption = some zf.compressedSize ∧ uncompressedSize.toOption = some zf.size

instance (compressedSize uncompressedSize : Outcome Nat) (zf : ZipFile) :
    Decidable (SizesMatch compressedSize uncompressedSize zf) :=
  inferInstanceAs (Decidable (_ ∧ _))

/-- `data_descriptor_len_and_validate`. -/
def dataDescriptorLenAndValidate (buf : List UInt8) (off : Nat) (zf : ZipFile) : Outcome Nat := do
  let hasSig : Bool := (readU32Le buf off).toOption = some ddSig
  let cursor := off + if hasSig then 4 else 0
  let crc ← readU32Le buf cursor
  Outcome.guardThat (crc = zf.crc32) "ZIP data descriptor CRC does not match central directory"
  if SizesMatch (readU32Le buf (cursor + 4)) (readU32Le buf (cursor + 8)) zf then
    return if hasSig then 16 else 12
  else if SizesMatch (readU64Le buf (cursor + 4)) (readU64Le buf (cursor + 12)) zf then
    return if hasSig then 24 else 20
  else do
    let compressedSize ← readU64Le buf (cursor + 4)
    let uncompressedSize ← readU64Le buf (cursor + 12)
    Outcome.bail
      ("ZIP data descriptor sizes do not match central directory (compressed=" ++
        toString compressedSize ++ ", uncompressed=" ++ toString uncompressedSize ++ ")")

/-- The sizes in a local header without a data descriptor. -/
def checkLocalSizes (buf : List UInt8) (hs : Nat) (zf : ZipFile) : Outcome Unit := do
  let crc ← readU32Le buf (hs + 14)
  let compressedSize ← readU32Le buf (hs + 18)
  let uncompressedSize ← readU32Le buf (hs + 22)
  Outcome.guardThat (crc = zf.crc32)
    ("ZIP local file CRC does not match central directory for `" ++ String.ofList zf.name ++ "`")
  Outcome.guardThat (compressedSize = u32Max ∨ compressedSize = zf.compressedSize)
    ("ZIP local compressed size does not match central directory for `" ++
      String.ofList zf.name ++ "`")
  Outcome.guardThat (uncompressedSize = u32Max ∨ uncompressedSize = zf.size)
    ("ZIP local uncompressed size does not match central directory for `" ++
      String.ofList zf.name ++ "`")

/-- The `Debug` text of a compression method. -/
def CompressionMethod.debug : CompressionMethod → String
  | stored => "Stored"
  | deflated => "Deflated"
  | other debug => debug

/-- `CompressionMethod::Stored | CompressionMethod::Deflated`. -/
def CompressionMethod.Supported (method : CompressionMethod) : Prop :=
  method = stored ∨ method = deflated

instance (method : CompressionMethod) : Decidable method.Supported :=
  inferInstanceAs (Decidable (_ ∨ _))

/-- `local_file_record_extent`. -/
def localFileRecordExtent (buf : List UInt8) (zf : ZipFile) : Outcome (Nat × Nat) := do
  let hs := zf.headerStart
  let sig ← readU32Le buf hs
  Outcome.guardThat (sig = lhSig) "bad local file header signature"
  let flags ← readU16Le buf (hs + 6)
  Outcome.guardThat (flags &&& 0x2041 = 0)
    "encrypted ZIP local file records are not valid cleartext APPX/MSIX packages"
  let compression ← readU16Le buf (hs + 8)
  Outcome.guardThat (compression = 0 ∨ compression = 8)
    ("unsupported ZIP compression method " ++ toString compression ++
      " in APPX/MSIX local file record")
  Outcome.guardThat zf.compression.Supported
    ("unsupported ZIP compression method " ++ zf.compression.debug ++
      " in APPX/MSIX central directory")
  let nameLen ← readU16Le buf (hs + 26)
  let extraLen ← readU16Le buf (hs + 28)
  let nameStart := hs + 30
  let localName ← Outcome.ofOption (slice buf nameStart (nameStart + nameLen))
    "local file name out of range"
  Outcome.guardThat (localName = zf.nameRaw)
    ("ZIP local file name does not match central directory for `" ++ String.ofList zf.name ++ "`")
  Outcome.guardThat (zf.dataStart = hs + 30 + nameLen + extraLen)
    ("local file header/data offset mismatch for `" ++ String.ofList zf.name ++ "`")
  let compressedEnd ← checkedAdd zf.dataStart zf.compressedSize "compressed payload extent overflow"
  if flags &&& dataDescriptorBit = 0 then do
    checkLocalSizes buf hs zf
    return (hs, compressedEnd)
  else do
    let descriptorLen ← dataDescriptorLenAndValidate buf compressedEnd zf
    let stop ← checkedAdd compressedEnd descriptorLen "local file record extent overflow"
    return (hs, stop)

/-! ## The whole file -/

/-- The extent of a local record with the name of its entry. -/
structure Extent where
  start : Nat
  stop : Nat
  name : List Char
  deriving DecidableEq, Repr

/-- The loop of `validate_zip_file_layout` over the entries. -/
def extentsOf (buf : List UInt8) (entries : List (Outcome ZipFile)) : Outcome (List Extent) :=
  entries.mapM fun entry => do
    let zf ← entry
    let (start, stop) ← localFileRecordExtent buf zf
    return ⟨start, stop, zf.name⟩

/-- The loop over `extents.windows(2)`. -/
def checkAdjacent : List Extent → Outcome Unit
  | prev :: next :: rest => do
    Outcome.guardThat (prev.stop ≤ next.start)
      ("APPX/MSIX ZIP local file records overlap (`" ++ String.ofList prev.name ++ "` / `" ++
        String.ofList next.name ++ "`)")
    Outcome.guardThat (next.start ≤ prev.stop)
      ("APPX/MSIX ZIP has a gap between local file records `" ++ String.ofList prev.name ++
        "` and `" ++ String.ofList next.name ++ "`")
    checkAdjacent (next :: rest)
  | _ => .ok ()

/-- `validate_zip_file_layout`. -/
def validateZipFileLayout (buf : List UInt8) (archive : ZipArchive) (tail : ZipTail) :
    Outcome Unit := do
  validateCentralDirectoryRecords buf tail
  let unsorted ← extentsOf buf archive.entries
  let extents := unsorted.insertionSort fun a b => a.start ≤ b.start
  let first ← Outcome.ofOption extents.head? "APPX/MSIX ZIP has no local file records"
  Outcome.guardThat (first.start = 0)
    ("APPX/MSIX ZIP has leading bytes before first local file `" ++ String.ofList first.name ++ "`")
  checkAdjacent extents
  let last := extents.getLast?.getD first
  Outcome.guardThat (last.stop = tail.centralDirectoryOffset)
    ("APPX/MSIX ZIP has a gap before the central directory after `" ++
      String.ofList last.name ++ "`")
  let cdEnd ← checkedAdd tail.centralDirectoryOffset tail.centralDirectorySize
    "central directory extent overflow"
  Outcome.guardThat (cdEnd = tail.zip64EocdOffset.getD tail.eocdOffset)
    "APPX/MSIX ZIP central directory does not end at EOCD/ZIP64 EOCD"

/-! ## Records side by side -/

/-- Extents that follow each other from one offset up to another. -/
def Tiled : Nat → List Extent → Nat → Prop
  | start, [], stop => start = stop
  | start, extent :: rest, stop => extent.start = start ∧ Tiled extent.stop rest stop

@[simp] theorem checkedAdd_eq_ok {a b n : Nat} {message : String} :
    checkedAdd a b message = .ok n ↔ a + b < 2 ^ 64 ∧ a + b = n := by
  unfold checkedAdd
  by_cases h : a + b < 2 ^ 64
  · rw [if_pos h, Except.ok.injEq, and_iff_right h]
  · rw [if_neg h]
    exact iff_of_false Outcome.bail_ne_ok fun hn => h hn.1

/-- Adjacent extents tile what lies between the first and the last. -/
theorem tiled_of_checkAdjacent {first : Extent} {rest : List Extent}
    (h : checkAdjacent (first :: rest) = .ok ()) :
    Tiled first.start (first :: rest) (((first :: rest).getLast?.getD first).stop) := by
  induction rest generalizing first with
  | nil => exact ⟨rfl, rfl⟩
  | cons next rest ih =>
    simp only [checkAdjacent, Outcome.guardThat_bind_eq_ok] at h
    obtain ⟨hle, hge, hrest⟩ := h
    have heq : next.start = first.stop := by omega
    refine ⟨rfl, ?_⟩
    have htiled := ih hrest
    rw [heq] at htiled
    rw [List.getLast?_cons_cons]
    rw [List.getLast?_cons, Option.getD_some] at htiled ⊢
    exact htiled

/-- The entries of an accepted file are local records of the file, and these lie side by
side from its start up to the central directory. -/
theorem tiles_of_validateZipFileLayout {buf : List UInt8} {archive : ZipArchive} {tail : ZipTail}
    (h : validateZipFileLayout buf archive tail = .ok ()) :
    ∃ unsorted extents, extentsOf buf archive.entries = .ok unsorted ∧ extents.Perm unsorted ∧
      extents ≠ [] ∧ Tiled 0 extents tail.centralDirectoryOffset := by
  simp only [validateZipFileLayout, Outcome.bind_eq_ok, Outcome.guardThat_eq_ok,
    Outcome.ofOption_eq_ok] at h
  obtain ⟨_, _, unsorted, hunsorted, first, hhead, _, hstart, _, hadjacent, _, hstop, _⟩ := h
  refine ⟨unsorted, _, hunsorted,
    List.perm_insertionSort (fun a b : Extent => a.start ≤ b.start) unsorted, ?_, ?_⟩
  · intro hnil
    rw [hnil] at hhead
    exact absurd hhead (by simp)
  · generalize unsorted.insertionSort (fun a b : Extent => a.start ≤ b.start) = extents at *
    cases extents with
    | nil => exact absurd hhead (by simp)
    | cons a rest =>
      have hfirst : a = first := Option.some.inj hhead
      subst hfirst
      have htiled := tiled_of_checkAdjacent hadjacent
      rw [hstart, hstop] at htiled
      exact htiled

end Psign.Sip.Appx
