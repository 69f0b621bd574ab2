import Mathlib.Data.List.Lex
import Psign.CodeLib.Bytes
import Psign.CodeLib.Sort
import Psign.Sip.PsScript

/-!
# Windows Installer digests

`msi_digest.rs`: the digest of an MSI file, staging a file for signing, writing the
signature, and verifying it.

A compound file is its tree of storages and streams; opening and writing the bytes
of the file are the `cfb` crate.  Of the crate the model keeps what the code relies
on.  Two names denote the same entry of a storage if they are the same after
`foldName`, so a lookup does not see the case of a name; names of different lengths
are different.  A stream that is written for the first time gets its entry from the
crate (`newStream`), and writing may set the time of the last change of a stream
(`touch`).

The walk compares names as they are spelled.  Its order is that of the UTF-16 bytes,
a longer name before its beginning.  It looks the entries up by their paths, which finds the
entries themselves where siblings differ (`entryAt_of_isAt`).
-/

namespace Psign.Sip

open CodeLib CodeLib.Unicode

/-! ## Compound files -/

/-- A time in nanoseconds from 1970 on. -/
abbrev SystemTime := Int

/-- What an entry has besides its name and contents. -/
structure EntryInfo where
  /-- `clsid().to_bytes_le()`. -/
  clsid : List UInt8
  stateBits : Nat
  created : SystemTime
  modified : SystemTime
  deriving DecidableEq, Repr

/-- An entry of a storage. -/
inductive Entry where
  | stream (name : List Char) (info : EntryInfo) (contents : List UInt8)
  | storage (name : List Char) (info : EntryInfo) (entries : List Entry)

namespace Entry

/-- `Entry::name`. -/
def name : Entry → List Char
  | stream name _ _ => name
  | storage name _ _ => name

/-- The properties of an entry. -/
def info : Entry → EntryInfo
  | stream _ info _ => info
  | storage _ info _ => info

/-- The entries of a storage. -/
def entries : Entry → List Entry
  | stream .. => []
  | storage _ _ entries => entries

end Entry

/-- The root storage. -/
structure CompoundFile where
  clsid : List UInt8
  stateBits : Nat
  entries : List Entry

/-- What the code relies on of the `cfb` crate. -/
structure CfbCrate where
  /-- The spelling by which names are compared. -/
  foldName : List Char → List Char
  /-- The entry of a new stream. -/
  newStream : EntryInfo
  /-- Names of different lengths are different. -/
  length_of_foldName : ∀ {a b}, foldName a = foldName b →
    (encodeUtf16 a).length = (encodeUtf16 b).length

/-! ## Constants and order -/

/-- `DIGITAL_SIGNATURE_ENTRY`. -/
def digitalSignatureEntry : List Char := '\x05' :: "DigitalSignature".toList

/-- `EXTENDED_SIGNATURE_ENTRY`. -/
def extendedSignatureEntry : List Char := '\x05' :: "MsiDigitalSignatureEx".toList

/-- The UTF-16 bytes of a name. -/
def nameBytes (name : List Char) : List UInt8 :=
  utf16leBytes (encodeUtf16 name)

/-- `cmp_utf16_name`, of the UTF-16 bytes: by the bytes that both have, then the longer
name first. -/
def cmpNameBytes (a b : List UInt8) : Ordering :=
  let common := min a.length b.length
  if a.take common < b.take common then .lt
  else if a.take common = b.take common then compare b.length a.length
  else .gt

/-- `cmp_utf16_name`. -/
def cmpUtf16Name (a b : List Char) : Ordering :=
  cmpNameBytes (nameBytes a) (nameBytes b)

/-- The order of the entries: not behind. -/
def nameLe {β : Type} (a b : List Char × β) : Prop :=
  cmpUtf16Name a.1 b.1 ≠ .gt

instance {β : Type} : DecidableRel (nameLe (β := β)) :=
  fun a b => inferInstanceAs (Decidable (cmpUtf16Name a.1 b.1 ≠ .gt))

/-- The entries that the walk leaves out of the root. -/
def isSignatureName (name : List Char) : Bool :=
  name = digitalSignatureEntry || name = extendedSignatureEntry

/-! ## The metadata -/

/-- `u64::to_le_bytes`. -/
def u64le (n : Nat) : List UInt8 :=
  Bytes.u32le (n % 2 ^ 32) ++ Bytes.u32le (n / 2 ^ 32)

/-- `FILETIME_UNIX_EPOCH`. -/
def filetimeUnixEpoch : Nat := 116444736000000000

/-- `duration_to_filetime_ticks`, of a duration in nanoseconds. -/
def durationToFiletimeTicks (nanos : Nat) : Nat :=
  (min (nanos / 1000000000 * 10000000) (2 ^ 64 - 1) + nanos % 1000000000 / 100) % 2 ^ 64

/-- `system_time_to_filetime_le`. -/
def systemTimeToFiletimeLe (st : SystemTime) : List UInt8 :=
  if 0 ≤ st then
    u64le (min (filetimeUnixEpoch + durationToFiletimeTicks st.toNat) (2 ^ 64 - 1))
  else u64le (filetimeUnixEpoch - durationToFiletimeTicks (-st).toNat)

/-- `prehash_entry` of an entry below the root. -/
def prehashEntry : Entry → List UInt8
  | .stream name info contents =>
    nameBytes name ++ (Bytes.u32le (contents.length % 2 ^ 32) ++ (Bytes.u32le info.stateBits ++
      (systemTimeToFiletimeLe info.created ++ systemTimeToFiletimeLe info.modified)))
  | .storage name info _ =>
    nameBytes name ++ (info.clsid ++ (Bytes.u32le info.stateBits ++
      (systemTimeToFiletimeLe info.created ++ systemTimeToFiletimeLe info.modified)))

/-- `prehash_entry` of the root. -/
def prehashRoot (cfb : CompoundFile) : List UInt8 :=
  cfb.clsid ++ Bytes.u32le cfb.stateBits

mutual

/-- `prehash_storage_recursive` of a storage below the root, and `prehash_entry` of a
stream: what is hashed. -/
def prehashStorageRecursive : Entry → List UInt8
  | .stream name info contents => prehashEntry (.stream name info contents)
  | .storage name info entries =>
    prehashEntry (.storage name info entries) ++
      ((prehashEntries entries).insertionSort nameLe).flatMap Prod.snd

/-- The entries of a storage with what is hashed for each. -/
def prehashEntries : List Entry → List (List Char × List UInt8)
  | [] => []
  | entry :: rest => (entry.name, prehashStorageRecursive entry) :: prehashEntries rest

end

/-- What `compute_prehash` hashes. -/
def prehashInput (cfb : CompoundFile) : List UInt8 :=
  prehashRoot cfb ++ (((prehashEntries cfb.entries).insertionSort nameLe).filter fun entry =>
    !isSignatureName entry.1).flatMap Prod.snd

/-! ## The contents -/

mutual

/-- `hash_storage_content_recursive` of a storage below the root, and the contents of a
stream: what is hashed. -/
def hashStorageContentRecursive : Entry → List UInt8
  | .stream _ _ contents => contents
  | .storage _ info entries =>
    ((contentEntries entries).insertionSort nameLe).flatMap Prod.snd ++ info.clsid

/-- The entries of a storage with what is hashed for each. -/
def contentEntries : List Entry → List (List Char × List UInt8)
  | [] => []
  | entry :: rest => (entry.name, hashStorageContentRecursive entry) :: contentEntries rest

end

/-- What `hash_storage_content_recursive` of the root hashes. -/
def contentInput (cfb : CompoundFile) : List UInt8 :=
  (((contentEntries cfb.entries).insertionSort nameLe).filter fun entry =>
    !isSignatureName entry.1).flatMap Prod.snd ++ cfb.clsid

/-! ## Streams of the root -/

variable (crate : CfbCrate)

/-- The entry of the root that a name denotes. -/
def rootEntry (cfb : CompoundFile) (name : List Char) : Option Entry :=
  cfb.entries.find? fun entry => decide (crate.foldName entry.name = crate.foldName name)

/-- `cfb.exists(root_stream(..))`. -/
def rootExists (cfb : CompoundFile) (name : List Char) : Bool :=
  (rootEntry crate cfb name).isSome

/-- `msi_has_extended`. -/
def msiHasExtended (cfb : CompoundFile) : Bool :=
  rootExists crate cfb extendedSignatureEntry

/-- `read_stream_all` of a stream of the root. -/
def readStreamAll (cfb : CompoundFile) (name : List Char) : Outcome (List UInt8) :=
  match rootEntry crate cfb name with
  | some (.stream _ _ contents) => .ok contents
  | some (.storage ..) => Outcome.bail "Not a stream"
  | none => Outcome.bail "No such stream"

/-- An entry after its contents were written. -/
def overwrite (touch : SystemTime → SystemTime) (contents : List UInt8) : Entry → Entry
  | .stream name info _ => .stream name { info with modified := touch info.modified } contents
  | .storage name info entries => .storage name info entries

/-- The root with a stream of this name and contents. -/
def putStream (touch : SystemTime → SystemTime) (name : List Char) (contents : List UInt8)
    (cfb : CompoundFile) : CompoundFile :=
  if rootExists crate cfb name then
    { cfb with
      entries := cfb.entries.map fun entry =>
        if crate.foldName entry.name = crate.foldName name then overwrite touch contents entry
        else entry }
  else { cfb with entries := cfb.entries ++ [.stream name crate.newStream contents] }

/-- `create_stream(root_stream(..))` and `write_all`.  A stream that is there is cut and
written again, under the name it has. -/
def createStream (touch : SystemTime → SystemTime) (name : List Char) (contents : List UInt8)
    (cfb : CompoundFile) : Outcome CompoundFile :=
  match rootEntry crate cfb name with
  | some (.storage ..) =>
    Outcome.bail "Cannot create stream because a storage already exists there"
  | _ => .ok (putStream crate touch name contents cfb)

/-! ## Lookups by path -/

/-- The entry that a path denotes: `read_storage` and `open_stream` of the walk look it up. -/
def entryAt : List Entry → List (List Char) → Option Entry
  | _, [] => none
  | entries, name :: rest =>
    (entries.find? fun entry => decide (crate.foldName entry.name = crate.foldName name)).bind
      fun entry => if rest = [] then some entry else entryAt entry.entries rest

/-- `Entry::path` of the entries that the walk comes to. -/
inductive IsAt : List Entry → List (List Char) → Entry → Prop
  | here {entries : List Entry} {entry : Entry} (h : entry ∈ entries) :
      IsAt entries [entry.name] entry
  | inside {entries : List Entry} {path : List (List Char)} {entry found : Entry}
      (h : entry ∈ entries) (hfound : IsAt entry.entries path found) :
      IsAt entries (entry.name :: path) found

/-- The names of the entries denote different entries. -/
def NamesDiffer (entries : List Entry) : Prop :=
  (entries.map fun entry => crate.foldName entry.name).Nodup

variable {crate}

/-- Where siblings differ, up to case too, the entry with the path of an entry is that entry, so
the walk can take the entries themselves. -/
theorem entryAt_of_isAt {entries : List Entry} {path : List (List Char)} {found : Entry}
    (hnames : NamesDiffer crate entries)
    (hbelow : ∀ path entry, IsAt entries path entry → NamesDiffer crate entry.entries)
    (h : IsAt entries path found) : entryAt crate entries path = some found := by
  have hfind : ∀ {entries : List Entry} {entry : Entry}, NamesDiffer crate entries →
      entry ∈ entries →
      entries.find? (fun other => decide (crate.foldName other.name = crate.foldName entry.name)) =
        some entry := by
    intro entries entry hnames hmem
    cases hfound : entries.find?
        (fun other => decide (crate.foldName other.name = crate.foldName entry.name)) with
    | none => exact absurd (decide_eq_true rfl) (List.find?_eq_none.mp hfound entry hmem)
    | some other =>
      have hname : crate.foldName other.name = crate.foldName entry.name := by
        simpa using List.find?_some hfound
      rw [List.inj_on_of_nodup_map hnames (List.mem_of_find?_eq_some hfound) hmem hname]
  induction h with
  | here hmem =>
    unfold entryAt
    rw [hfind hnames hmem, Option.bind_some, if_pos rfl]
  | @inside entries path entry found hmem hinner ih =>
    unfold entryAt
    have hne : path ≠ [] := by
      cases hinner <;> exact List.cons_ne_nil _ _
    rw [hfind hnames hmem, Option.bind_some, if_neg hne]
    exact ih (hbelow _ entry (.here hmem)) fun path other hother =>
      hbelow _ other (.inside hmem hother)

variable (crate)

/-! ## Digests -/

variable (hashes : Hashes)

/-- `compute_prehash`. -/
def computePrehash (cfb : CompoundFile) (kind : PeAuthenticodeHashKind) : List UInt8 :=
  hashes.hash kind (prehashInput cfb)

/-- What `compute_msi_fingerprint` hashes. -/
def fingerprintInput (cfb : CompoundFile) (kind : PeAuthenticodeHashKind) : List UInt8 :=
  (if msiHasExtended crate cfb then computePrehash hashes cfb kind else []) ++ contentInput cfb

/-- `compute_msi_fingerprint`. -/
def computeMsiFingerprint (cfb : CompoundFile) (kind : PeAuthenticodeHashKind) : List UInt8 :=
  hashes.hash kind (fingerprintInput crate hashes cfb kind)

/-- `compute_prepared_msi_authenticode_digest`. -/
def computePreparedMsiAuthenticodeDigest (cfb : CompoundFile) (kind : PeAuthenticodeHashKind) :
    Outcome (List UInt8) := do
  Outcome.guardThat (msiHasExtended crate cfb)
    ("MSI signing requires the root \\u\x7b5\x7dMsiDigitalSignatureEx stream; " ++
      "stage the image with prepare_msi_for_authenticode_signing")
  let extended ← readStreamAll crate cfb extendedSignatureEntry
  Outcome.guardThat (extended = computePrehash hashes cfb kind)
    "MSI \\u\x7b5\x7dMsiDigitalSignatureEx stream does not match its metadata digest"
  return computeMsiFingerprint crate hashes cfb kind

/-! ## Signing -/

/-- `PreparedMsiAuthenticode`. -/
structure PreparedMsiAuthenticode where
  image : CompoundFile
  digest : List UInt8

/-- `prepare_msi_for_authenticode_signing`. -/
def prepareMsiForAuthenticodeSigning (touch : SystemTime → SystemTime) (cfb : CompoundFile)
    (kind : PeAuthenticodeHashKind) : Outcome PreparedMsiAuthenticode := do
  let metadataDigest := computePrehash hashes cfb kind
  let cfb ← createStream crate touch extendedSignatureEntry metadataDigest cfb
  return ⟨cfb, computeMsiFingerprint crate hashes cfb kind⟩

/-- `msi_embed_prepared_authenticode_pkcs7_signature`. -/
def msiEmbedPreparedAuthenticodePkcs7Signature (touch : SystemTime → SystemTime)
    (prepared : PreparedMsiAuthenticode) (pkcs7 : List UInt8) : Outcome CompoundFile :=
  createStream crate touch digitalSignatureEntry pkcs7 prepared.image

/-! ## Verifying -/

/-- `msi_digital_signature_pkcs7_from_cfb`. -/
def msiDigitalSignaturePkcs7FromCfb (cfb : CompoundFile) : Outcome (List UInt8) := do
  Outcome.guardThat (rootExists crate cfb digitalSignatureEntry)
    "MSI is missing \\u\x7b5\x7dDigitalSignature stream"
  readStreamAll crate cfb digitalSignatureEntry

/-- `verify_msi_digest_consistency`; `embeddedDigest` is the digest of a parsed
`AuthenticodeSignature`. -/
def verifyMsiDigestConsistency (embeddedDigest : List UInt8 → Outcome (List UInt8))
    (cfb : CompoundFile) : Outcome Unit := do
  let pkcs7 ← msiDigitalSignaturePkcs7FromCfb crate cfb
  let embedded ← (embeddedDigest pkcs7).mapErr fun e =>
    "MSI Authenticode PKCS#7 parse failed: " ++ e
  let kind ← PeAuthenticodeHashKind.fromDigestByteLen embedded.length
  Outcome.guardThat (computeMsiFingerprint crate hashes cfb kind = embedded)
    "MSI Authenticode digest mismatch (Rust SIP fingerprint vs PKCS#7 indirect digest)"
  if msiHasExtended crate cfb then do
    let expected ← readStreamAll crate cfb extendedSignatureEntry
    Outcome.guardThat (computePrehash hashes cfb kind = expected)
      ("MSI extended metadata digest mismatch (MsiDigitalSignatureEx stream vs Rust pre-hash)")
  else .ok ()

end Psign.Sip
