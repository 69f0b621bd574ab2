import Psign.CodeLib.RustStr
import Psign.Sip.AppxZip

/-!
# The parts of an APPX package

`msix_digest.rs` reads a package with the `zip` crate.  A `ZipArchive` is what the crate
reports of one: its entries by index, the names of its index, and the entry of a name.  How
the crate gets there from the bytes is a parameter of the functions that open a package.

The names of a package are checked before anything is hashed
(`validatePackagePartInventory`): each part has one spelling, no two parts differ in case
only, and the parts that the format reserves are there once or not at all
(`partsOf_of_validatePackagePartInventory`).
-/

namespace Psign.Sip.Appx

open CodeLib CodeLib.Bytes CodeLib.RustStr

/-! ## Archives -/

/-- `zip::CompressionMethod`, with the text of a method that is not used here. -/
inductive CompressionMethod where
  | stored
  | deflated
  | other (debug : String)
  deriving DecidableEq, Repr

/-- What `zip::read::ZipFile` reports of an entry. -/
structure ZipFile where
  /-- `name`: the decoded name. -/
  name : List Char
  nameRaw : List UInt8
  headerStart : Nat
  centralHeaderStart : Nat
  dataStart : Nat
  crc32 : Nat
  compressedSize : Nat
  size : Nat
  compression : CompressionMethod
  extraData : List UInt8
  /-- `read_to_end`: the uncompressed data. -/
  contents : Outcome (List UInt8)

/-- `zip::read::ZipArchive`. -/
structure ZipArchive where
  /-- `by_index` of each index. -/
  entries : List (Outcome ZipFile)
  fileNames : List (List Char)
  byName : List Char → Outcome ZipFile

/-- `ZipArchive::new`. -/
abbrev ZipReader := List UInt8 → Outcome ZipArchive

/-- `read_zip_entry_raw`. -/
def readZipEntryRaw (archive : ZipArchive) (name : List Char) : Outcome (List UInt8) := do
  let f ← archive.byName name
  f.contents

/-! ## Part names -/

/-- The octets of an ASCII constant. -/
def asciiBytes (text : String) : List UInt8 :=
  text.toList.map fun c => UInt8.ofNat c.toNat

/-- `ascii_part`. -/
def asciiPart (bytes : List UInt8) : List Char :=
  bytes.map fun b => Char.ofNat b.toNat

/-- `APP_SIGNATURE`. -/
def appSignature : List UInt8 := asciiBytes "AppxSignature.p7x"

/-- `CONTENT_TYPES`. -/
def contentTypesPart : List UInt8 := asciiBytes "[Content_Types].xml"

/-- `BLOCK_MAP`. -/
def blockMap : List UInt8 := asciiBytes "AppxBlockMap.xml"

/-- `APP_MANIFEST`. -/
def appManifest : List UInt8 := asciiBytes "AppxManifest.xml"

/-- `BUNDLE_MANIFEST`. -/
def bundleManifest : List UInt8 := asciiBytes "AppxMetadata/AppxBundleManifest.xml"

/-- `CODE_INTEGRITY`. -/
def codeIntegrity : List UInt8 := asciiBytes "AppxMetadata/CodeIntegrity.cat"

/-- `name.ends_with('/') || name.ends_with('\\')`. -/
def EndsWithSeparator (name : List Char) : Prop :=
  name.getLast? = some '/' ∨ name.getLast? = some '\\'

instance (name : List Char) : Decidable (EndsWithSeparator name) :=
  inferInstanceAs (Decidable (_ ∨ _))

/-- A segment of a path that stands for a name. -/
def IsSegment (segment : List Char) : Prop :=
  segment ≠ [] ∧ segment ≠ ['.'] ∧ segment ≠ ['.', '.']

instance (segment : List Char) : Decidable (IsSegment segment) :=
  inferInstanceAs (Decidable (_ ∧ _ ∧ _))

/-- `normalize_appx_part_name`. -/
def normalizeAppxPartName (name : List Char) : Outcome (List Char) := do
  Outcome.guardThat (name ≠ [] ∧ Char.ofNat 0 ∉ name)
    "AppxBlockMap.xml contains an empty or NUL part name"
  let normalized := replace ['\\'] ['/'] name
  Outcome.guardThat (normalized.head? ≠ some '/' ∧ ':' ∉ normalized)
    ("AppxBlockMap.xml part `" ++ String.ofList name ++ "` is absolute or drive-qualified")
  Outcome.guardThat (∀ segment ∈ split '/' normalized, IsSegment segment)
    ("AppxBlockMap.xml part `" ++ String.ofList name ++ "` contains an invalid path segment")
  return normalized

/-- `canonical_reserved_part`. -/
def canonicalReservedPart (normalizedName : List Char) : Option (List Char) :=
  ([contentTypesPart, blockMap, appSignature, appManifest, bundleManifest, codeIntegrity].map
    asciiPart).find? fun reserved => EqIgnoreAsciiCase normalizedName reserved

/-! ## Extensions -/

/-- `is_encrypted_msix_extension`. -/
def isEncryptedMsixExtension (ext : List Char) : Bool :=
  ext ∈ ["eappx".toList, "eappxbundle".toList, "emsix".toList, "emsixbundle".toList]

/-- `matches!(ext, "msixbundle" | "appxbundle")`. -/
def isBundleExtension (ext : List Char) : Bool :=
  ext ∈ ["msixbundle".toList, "appxbundle".toList]

/-- `matches!(ext, "msix" | "appx" | "msixbundle" | "appxbundle")`. -/
def isCleartextMsixExtension (ext : List Char) : Bool :=
  ext ∈ ["msix".toList, "appx".toList, "msixbundle".toList, "appxbundle".toList]

theorem not_isEncryptedMsixExtension {ext : List Char} (h : isCleartextMsixExtension ext) :
    isEncryptedMsixExtension ext = false := by
  simp only [isCleartextMsixExtension, decide_eq_true_eq, List.mem_cons, List.not_mem_nil,
    or_false] at h
  rcases h with rfl | rfl | rfl | rfl
  all_goals decide

/-! ## The inventory -/

/-- `AppxPackageInventory`. -/
structure AppxPackageInventory where
  hasCodeIntegrity : Bool
  deriving DecidableEq, Repr

/-- What the loop of `validate_package_part_inventory` remembers.  A reserved part is in
`requiredCounts` once for each time it was counted. -/
structure InventoryState where
  seen : List (List Char)
  seenCasefolded : List (List Char × List Char)
  requiredCounts : List (List Char)

/-- One name of `validate_package_part_inventory`. -/
def inventoryStep (isBundle : Bool) (state : InventoryState) (name : List Char) :
    Outcome InventoryState :=
  if EndsWithSeparator name then .ok state
  else do
    Outcome.guardThat ('\\' ∉ name)
      ("APPX/MSIX ZIP entry `" ++ String.ofList name ++
        "` uses backslashes; package part names must use `/`")
    let normalized ← normalizeAppxPartName name
    Outcome.guardThat (normalized ∉ state.seen)
      ("duplicate APPX/MSIX ZIP part `" ++ String.ofList normalized ++ "`")
    let folded := toAsciiLowercase normalized
    match state.seenCasefolded.lookup folded with
    | some previous =>
      Outcome.bail
        ("duplicate APPX/MSIX ZIP part after case-insensitive normalization: `" ++
          String.ofList previous ++ "` / `" ++ String.ofList normalized ++ "`")
    | none => do
      let requiredCounts ←
        match canonicalReservedPart normalized with
        | some canonical => do
          Outcome.guardThat (normalized = canonical)
            ("reserved APPX/MSIX part `" ++ String.ofList normalized ++
              "` must use canonical path `" ++ String.ofList canonical ++ "`")
          pure (canonical :: state.requiredCounts)
        | none => pure state.requiredCounts
      let childExt := (rsplitOnce '.' normalized).map fun (_, ext) => toAsciiLowercase ext
      Outcome.guardThat (¬ (isBundle ∧ childExt.any isEncryptedMsixExtension))
        ("cleartext APPX/MSIX bundle contains encrypted child package `" ++
          String.ofList normalized ++ "`")
      return ⟨normalized :: state.seen, (folded, normalized) :: state.seenCasefolded,
        requiredCounts⟩

/-- `validate_package_part_inventory`. -/
def validatePackagePartInventory (archive : ZipArchive) (ext : List Char) :
    Outcome AppxPackageInventory := do
  let isBundle := isBundleExtension ext
  let state ← archive.fileNames.foldlM (inventoryStep isBundle) ⟨[], [], []⟩
  let count := fun part => state.requiredCounts.count (asciiPart part)
  [contentTypesPart, blockMap, appSignature].forM fun required =>
    Outcome.guardThat (count required = 1)
      ("APPX/MSIX package must contain exactly one required part `" ++
        String.ofList (asciiPart required) ++ "`")
  if isBundle then do
    Outcome.guardThat (count bundleManifest = 1)
      ("APPX/MSIX bundle must contain exactly one required part `" ++
        String.ofList (asciiPart bundleManifest) ++ "`")
    Outcome.guardThat (count appManifest = 0)
      ("APPX/MSIX bundle must not contain top-level `" ++
        String.ofList (asciiPart appManifest) ++ "`")
  else do
    Outcome.guardThat (count appManifest = 1)
      ("APPX/MSIX package must contain exactly one required part `" ++
        String.ofList (asciiPart appManifest) ++ "`")
    Outcome.guardThat (count bundleManifest = 0)
      ("flat APPX/MSIX package must not contain bundle part `" ++
        String.ofList (asciiPart bundleManifest) ++ "`")
  Outcome.guardThat (count codeIntegrity ≤ 1)
    ("APPX/MSIX package must contain at most one `" ++
      String.ofList (asciiPart codeIntegrity) ++ "`")
  return ⟨count codeIntegrity = 1⟩

/-- The loop of `archive_file_index_by_normalized_name`, from an index on. -/
def fileIndexFrom : Nat → List (Outcome ZipFile) → List (List Char × Nat) →
    Outcome (List (List Char × Nat))
  | _, [], files => .ok files
  | i, entry :: rest, files => do
    let zf ← entry
    if EndsWithSeparator zf.name then fileIndexFrom (i + 1) rest files
    else do
      let normalized ← normalizeAppxPartName zf.name
      Outcome.guardThat (files.lookup normalized = none)
        ("duplicate ZIP entry after APPX path normalization: `" ++ String.ofList normalized ++ "`")
      fileIndexFrom (i + 1) rest ((normalized, i) :: files)

/-- `archive_file_index_by_normalized_name`. -/
def archiveFileIndexByNormalizedName (archive : ZipArchive) : Outcome (List (List Char × Nat)) :=
  fileIndexFrom 0 archive.entries []

end Psign.Sip.Appx
