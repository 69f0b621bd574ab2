import Psign.Sip.AppxBlob
import Psign.Sip.AppxDigest
import Psign.Sip.PsScript

/-!
# The APPX digest, signed and verified

`msix_authenticode_digest_blob` of `msix_digest.rs` computes the digest of a package for its
signature; `verify_msix_digest_consistency_bytes` compares the digest in the signature with
the package.  Both open the package, check its layout, its parts and its block map, and hash
the same pieces; each does so with code of its own, in an order of its own.

An `Accepted` package has passed every check that the two share.  Each of the two functions
succeeds on the accepted packages, with the digest that these have
(`msixAuthenticodeDigestBlob_eq_ok`, `verifyMsixDigestConsistencyBytes_eq_ok`), so that they
agree (`msix_sign_and_verify_agree`).

A bundle is verified with the packages in it.  The model bounds how deep packages may lie in
each other; the bound does not change a result (`verifyMsixDigestConsistencyBytes_mono`).
-/

namespace Psign.Sip.Appx

open CodeLib CodeLib.Bytes CodeLib.RustStr

/-! ## The packages of a bundle -/

/-- `cleartext_msix_extension_for_name`. -/
def cleartextMsixExtensionForName (name : List Char) : Option (List Char) :=
  let lower := toAsciiLowercase ((split '/' name).getLast?.getD name)
  if ".msix".toList <:+ lower then some "msix".toList
  else if ".appx".toList <:+ lower then some "appx".toList
  else if ".msixbundle".toList <:+ lower then some "msixbundle".toList
  else if ".appxbundle".toList <:+ lower then some "appxbundle".toList
  else none

/-- A package in a bundle. -/
structure ChildPackage where
  name : List Char
  ext : List Char
  bytes : List UInt8

/-- The first loop of `verify_bundle_child_packages`. -/
def childPackages : List (Outcome ZipFile) → Outcome (List ChildPackage)
  | [] => .ok []
  | entry :: rest => do
    let zf ← entry
    if EndsWithSeparator zf.name then childPackages rest
    else do
      let normalized ← normalizeAppxPartName zf.name
      match cleartextMsixExtensionForName normalized with
      | none => childPackages rest
      | some ext => do
        let bytes ← zf.contents
        let children ← childPackages rest
        return ⟨normalized, ext, bytes⟩ :: children

/-- The second loop of `verify_bundle_child_packages`, with the function that verifies a
package. -/
def verifyChildren {α : Type} (verify : List UInt8 → List Char → Outcome α) :
    List ChildPackage → Outcome Unit
  | [] => .ok ()
  | child :: rest => do
    let _ ← (verify child.bytes child.ext).mapErr fun e =>
      "bundle child package `" ++ String.ofList child.name ++ "` failed MSIX SIP validation: " ++ e
    verifyChildren verify rest

/-- `verify_bundle_child_packages`. -/
def verifyBundleChildPackages {α : Type} (zip : ZipReader)
    (verify : List UInt8 → List Char → Outcome α) (buf : List UInt8) : Outcome Unit := do
  let archive ← zip buf
  let children ← childPackages archive.entries
  verifyChildren verify children

/-- The last check of a package: the packages in it, if it is a bundle. -/
def verifyNested {α : Type} (zip : ZipReader) (verify : List UInt8 → List Char → Outcome α)
    (buf : List UInt8) (ext : List Char) : Outcome Unit :=
  if isBundleExtension ext then verifyBundleChildPackages zip verify buf else .ok ()

/-! ## The two functions -/

/-- What `msix_digest.rs` uses of the `zip`, `quick-xml`, `base64` and `authenticode`
crates. -/
structure AppxCrates where
  zip : ZipReader
  xml : XmlReader
  base64 : Base64Engine
  signature : AuthenticodeParser

/-- `strip_pkcx`. -/
def stripPkcx (data : List UInt8) : Outcome (List UInt8) := do
  Outcome.guardThat (slice data 0 4 = some (asciiBytes "PKCX"))
    "AppxSignature.p7x did not start with PKCX (Windows P7X wrapper)"
  return data.drop 4

/-- The code integrity catalog of a package that has one. -/
def readCodeIntegrity (archive : ZipArchive) (inventory : AppxPackageInventory) :
    Outcome (Option (List UInt8)) :=
  if inventory.hasCodeIntegrity then do
    let ciRaw ← readZipEntryRaw archive (asciiPart codeIntegrity)
    return some ciRaw
  else return none

/-- The closure `check` of `verify_msix_digest_consistency_bytes`. -/
def checkPiece (label : String) (a b : List UInt8) : Outcome Unit :=
  Outcome.guardThat (a = b)
    ("MSIX Authenticode " ++ label ++ " mismatch (Rust SIP vs PKCS#7 APPX blob)")

/-- The comparison of the pieces that only some packages have. -/
def checkAxci (ciHash axci : Option (List UInt8)) : Outcome Unit :=
  match ciHash, axci with
  | some ciHash, some axci => checkPiece "AXCI (CodeIntegrity.cat)" ciHash axci
  | none, none => .ok ()
  | _, _ => Outcome.bail
      "MSIX Authenticode AXCI presence mismatch (CodeIntegrity.cat vs PKCS#7 APPX blob)"

variable (crates : AppxCrates) (hashes : Hashes)

/-- `verify_msix_digest_consistency_bytes`, with a bound on how deep packages lie in each
other.  `ext` has lowercase letters. -/
def verifyMsixDigestConsistencyBytes :
    Nat → List UInt8 → List Char → Outcome (List UInt8 × List UInt8)
  | 0, _, _ => .error .outOfFuel
  | depth + 1, buf, ext => do
    let tail ← parseZipTail buf
    let layoutArchive ← crates.zip buf
    validateZipFileLayout buf layoutArchive tail
    let archive ← crates.zip buf
    let inventory ← validatePackagePartInventory archive ext
    let p7x ← readZipEntryRaw archive (asciiPart appSignature)
    let pkcs7 ← stripPkcx p7x
    let embedded ← (crates.signature.digest pkcs7).mapErr fun e => "MSIX PKCS#7 parse failed: " ++ e
    let (pieceLen, parts) ← parseSignedAppxBlob embedded
    let blockMapBytes ← readZipEntryRaw archive (asciiPart blockMap)
    let (kind, blockMapFiles) ← parseBlockMapXml crates.base64 crates.xml blockMapBytes
    let ctRaw ← readZipEntryRaw archive (asciiPart contentTypesPart)
    let contentTypes ← validateContentTypesXml crates.xml ctRaw
    validateReservedContentTypes contentTypes inventory ext
    Outcome.guardThat (pieceLen = kind.digestOutputLen)
      ("PKCS#7 APPX digest width " ++ toString pieceLen ++
        " does not match AppxBlockMap HashMethod (" ++ toString kind.digestOutputLen ++ ")")
    let bmRaw ← readZipEntryRaw archive (asciiPart blockMap)
    let ciRaw ← readCodeIntegrity archive inventory
    Outcome.guardThat (inventory.hasCodeIntegrity = parts.axci.isSome)
      "CodeIntegrity.cat presence does not match PKCS#7 AXCI block"
    let ctHash := hashes.hash kind ctRaw
    let bmHash := hashes.hash kind bmRaw
    -- there is a catalog if and only if the blob has its hash
    let ciHash := ciRaw.map (hashes.hash kind)
    let archive2 ← crates.zip buf
    let (dataHash, cdOffVirt) ← hashZipFileData hashes buf archive2 tail kind
    let archive3 ← crates.zip buf
    let cdHash ← hashCdAndEocd hashes buf archive3 tail kind cdOffVirt
    checkPiece "AXPC (payload)" dataHash parts.axpc
    checkPiece "AXCD (central directory)" cdHash parts.axcd
    checkPiece "AXCT ([Content_Types].xml)" ctHash parts.axct
    checkPiece "AXBM (AppxBlockMap.xml)" bmHash parts.axbm
    checkAxci ciHash parts.axci
    validateBlockMapFileHashes crates.zip hashes buf kind blockMapFiles
    verifyNested crates.zip (verifyMsixDigestConsistencyBytes depth) buf ext
    return (pkcs7, embedded)

/-- `msix_authenticode_digest_blob`, with a bound on how deep packages lie in each other. -/
def msixAuthenticodeDigestBlob (depth : Nat) (buf : List UInt8) (ext : List Char) :
    Outcome (PeAuthenticodeHashKind × List UInt8) := do
  let ext := toAsciiLowercase ext
  Outcome.guardThat (isEncryptedMsixExtension ext = false)
    ("Rust MSIX SIP digest parity applies only to cleartext OPC/ZIP packages (.msix, .appx, " ++
      "bundles)")
  Outcome.guardThat (isCleartextMsixExtension ext)
    ("Rust MSIX SIP digest applies only to `.msix` / `.appx` / `.msixbundle` / `.appxbundle` " ++
      "files")
  let tail ← parseZipTail buf
  let layoutArchive ← crates.zip buf
  validateZipFileLayout buf layoutArchive tail
  let archive ← crates.zip buf
  let inventory ← validatePackagePartInventory archive ext
  let blockMapBytes ← readZipEntryRaw archive (asciiPart blockMap)
  let (kind, blockMapFiles) ← parseBlockMapXml crates.base64 crates.xml blockMapBytes
  let ctRaw ← readZipEntryRaw archive (asciiPart contentTypesPart)
  let contentTypes ← validateContentTypesXml crates.xml ctRaw
  validateReservedContentTypes contentTypes inventory ext
  let ciRaw ← readCodeIntegrity archive inventory
  let ctHash := hashes.hash kind ctRaw
  let bmHash := hashes.hash kind blockMapBytes
  let ciHash := ciRaw.map (hashes.hash kind)
  let archive2 ← crates.zip buf
  let (dataHash, cdOffVirt) ← hashZipFileData hashes buf archive2 tail kind
  let archive3 ← crates.zip buf
  let cdHash ← hashCdAndEocd hashes buf archive3 tail kind cdOffVirt
  validateBlockMapFileHashes crates.zip hashes buf kind blockMapFiles
  verifyNested crates.zip (verifyMsixDigestConsistencyBytes crates hashes depth) buf ext
  let parts : AppxDigestParts := ⟨dataHash, cdHash, ctHash, bmHash, ciHash⟩
  return (kind, parts.blob)

/-! ## What the two share -/

/-- The packages in a bundle verify. -/
def ChildrenVerified (depth : Nat) (buf : List UInt8) (ext : List Char) : Prop :=
  verifyNested crates.zip (verifyMsixDigestConsistencyBytes crates hashes depth) buf ext = .ok ()

/-- A package that has passed the checks of its layout, its parts and its block map, with the
hashes of its parts. -/
structure Accepted (buf : List UInt8) (ext : List Char) where
  tail : ZipTail
  archive : ZipArchive
  inventory : AppxPackageInventory
  blockMapBytes : List UInt8
  kind : PeAuthenticodeHashKind
  blockMapFiles : List AppxBlockMapFile
  ctRaw : List UInt8
  contentTypes : AppxContentTypes
  ciRaw : Option (List UInt8)
  dataHash : List UInt8
  cdOffVirt : Nat
  cdHash : List UInt8
  tail_ok : parseZipTail buf = .ok tail
  archive_ok : crates.zip buf = .ok archive
  layout_ok : validateZipFileLayout buf archive tail = .ok ()
  inventory_ok : validatePackagePartInventory archive ext = .ok inventory
  blockMapBytes_ok : readZipEntryRaw archive (asciiPart blockMap) = .ok blockMapBytes
  blockMap_ok : parseBlockMapXml crates.base64 crates.xml blockMapBytes = .ok (kind, blockMapFiles)
  ctRaw_ok : readZipEntryRaw archive (asciiPart contentTypesPart) = .ok ctRaw
  contentTypes_ok : validateContentTypesXml crates.xml ctRaw = .ok contentTypes
  reserved_ok : validateReservedContentTypes contentTypes inventory ext = .ok ()
  ciRaw_ok : readCodeIntegrity archive inventory = .ok ciRaw
  data_ok : hashZipFileData hashes buf archive tail kind = .ok (dataHash, cdOffVirt)
  cd_ok : hashCdAndEocd hashes buf archive tail kind cdOffVirt = .ok cdHash
  files_ok : validateBlockMapFileHashes crates.zip hashes buf kind blockMapFiles = .ok ()

variable {crates hashes}

/-- The hashes of an accepted package. -/
def Accepted.parts {buf : List UInt8} {ext : List Char} (p : Accepted crates hashes buf ext) :
    AppxDigestParts :=
  ⟨p.dataHash, p.cdHash, hashes.hash p.kind p.ctRaw, hashes.hash p.kind p.blockMapBytes,
    p.ciRaw.map (hashes.hash p.kind)⟩

theorem digestOutputLen_mem_blobWidths (kind : PeAuthenticodeHashKind) :
    kind.digestOutputLen ∈ blobWidths := by
  cases kind <;> decide

theorem isSome_of_readCodeIntegrity {archive : ZipArchive} {inventory : AppxPackageInventory}
    {ciRaw : Option (List UInt8)} (h : readCodeIntegrity archive inventory = .ok ciRaw) :
    ciRaw.isSome = inventory.hasCodeIntegrity := by
  unfold readCodeIntegrity at h
  cases hci : inventory.hasCodeIntegrity with
  | false =>
    rw [hci, if_neg (by decide)] at h
    obtain rfl := Except.ok.inj h
    rfl
  | true =>
    rw [hci, if_pos rfl, Outcome.bind_eq_ok] at h
    obtain ⟨bytes, _, hresult⟩ := h
    obtain rfl := Except.ok.inj hresult
    rfl

theorem length_of_hashZipFileData {buf dataHash : List UInt8} {archive : ZipArchive}
    {tail : ZipTail} {kind : PeAuthenticodeHashKind} {cdOffVirt : Nat}
    (h : hashZipFileData hashes buf archive tail kind = .ok (dataHash, cdOffVirt)) :
    dataHash.length = kind.digestOutputLen := by
  rw [hashZipFileData, Outcome.bind_eq_ok] at h
  obtain ⟨⟨hasher, cursor⟩, _, hresult⟩ := h
  rw [← (Prod.mk.inj (Except.ok.inj hresult)).1, hashes.length_hash]

theorem length_of_hashCdAndEocd {buf cdHash : List UInt8} {archive : ZipArchive} {tail : ZipTail}
    {kind : PeAuthenticodeHashKind} {cdOffVirt : Nat}
    (h : hashCdAndEocd hashes buf archive tail kind cdOffVirt = .ok cdHash) :
    cdHash.length = kind.digestOutputLen := by
  simp only [hashCdAndEocd, Outcome.bind_eq_ok] at h
  obtain ⟨_, _, _, _, _, _, _, _, _, _, hresult⟩ := h
  rw [← Except.ok.inj hresult, hashes.length_hash]

variable {buf : List UInt8} {ext : List Char} {depth : Nat}

/-- The hashes of an accepted package have the length of their kind. -/
theorem Accepted.hasWidth (p : Accepted crates hashes buf ext) :
    p.parts.HasWidth p.kind.digestOutputLen where
  axpc := length_of_hashZipFileData p.data_ok
  axcd := length_of_hashCdAndEocd p.cd_ok
  axct := hashes.length_hash _ _
  axbm := hashes.length_hash _ _
  axci := by
    intro axci haxci
    obtain ⟨ciRaw, _, hhash⟩ := Option.map_eq_some_iff.mp haxci
    rw [← hhash, hashes.length_hash]

/-- The sign path succeeds on the accepted packages. -/
theorem msixAuthenticodeDigestBlob_eq_ok {kind : PeAuthenticodeHashKind} {blob : List UInt8}
    (hext : isCleartextMsixExtension (toAsciiLowercase ext)) :
    msixAuthenticodeDigestBlob crates hashes depth buf ext = .ok (kind, blob) ↔
      ChildrenVerified crates hashes depth buf (toAsciiLowercase ext) ∧
        ∃ p : Accepted crates hashes buf (toAsciiLowercase ext),
          p.kind = kind ∧ p.parts.blob = blob := by
  constructor
  · intro h
    simp only [msixAuthenticodeDigestBlob, Outcome.bind_eq_ok] at h
    obtain ⟨_, _, _, _, tail, htail, archive, harchive, _, hlayout, archive1, harchive1, inventory,
      hinventory, blockMapBytes, hblockMapBytes, ⟨kind', blockMapFiles⟩, hblockMap, ctRaw, hctRaw,
      contentTypes, hcontentTypes, _, hreserved, ciRaw, hciRaw, archive2, harchive2,
      ⟨dataHash, cdOffVirt⟩, hdata, archive3, harchive3, cdHash, hcd, _, hfiles, _, hnested,
      hresult⟩ := h
    obtain rfl := Except.ok.inj (harchive.symm.trans harchive1)
    obtain rfl := Except.ok.inj (harchive.symm.trans harchive2)
    obtain rfl := Except.ok.inj (harchive.symm.trans harchive3)
    obtain ⟨hkind, hblob⟩ := Prod.mk.inj (Except.ok.inj hresult)
    exact ⟨hnested, ⟨tail, archive, inventory, blockMapBytes, kind', blockMapFiles, ctRaw,
      contentTypes, ciRaw, dataHash, cdOffVirt, cdHash, htail, harchive, hlayout, hinventory,
      hblockMapBytes, hblockMap, hctRaw, hcontentTypes, hreserved, hciRaw, hdata, hcd, hfiles⟩,
      hkind, hblob⟩
  · intro ⟨hnested, p, hkind, hblob⟩
    have hencrypted := not_isEncryptedMsixExtension hext
    simp only [msixAuthenticodeDigestBlob, Outcome.guardThat_of hencrypted,
      Outcome.guardThat_of hext, Outcome.ok_bind, p.tail_ok, p.archive_ok, p.layout_ok,
      p.inventory_ok, p.blockMapBytes_ok, p.blockMap_ok, p.ctRaw_ok, p.contentTypes_ok,
      p.reserved_ok, p.ciRaw_ok, p.data_ok, p.cd_ok, p.files_ok]
    rw [ChildrenVerified] at hnested
    rw [hnested, ← hkind, ← hblob]
    rfl

/-- A package whose signature part is a `PKCX` file with a digest in its PKCS#7. -/
def CarriesDigest (crates : AppxCrates) (buf pkcs7 digest : List UInt8) : Prop :=
  ∃ archive p7x, crates.zip buf = .ok archive ∧
    readZipEntryRaw archive (asciiPart appSignature) = .ok p7x ∧
    p7x = asciiBytes "PKCX" ++ pkcs7 ∧ crates.signature.digest pkcs7 = .ok digest

/-- A package carries one digest. -/
theorem CarriesDigest.unique {pkcs7 pkcs7' digest digest' : List UInt8}
    (h : CarriesDigest crates buf pkcs7 digest) (h' : CarriesDigest crates buf pkcs7' digest') :
    digest = digest' := by
  obtain ⟨archive, p7x, harchive, hp7x, hpkcx, hdigest⟩ := h
  obtain ⟨archive', p7x', harchive', hp7x', hpkcx', hdigest'⟩ := h'
  obtain rfl := Except.ok.inj (harchive.symm.trans harchive')
  obtain rfl := Except.ok.inj (hp7x.symm.trans hp7x')
  obtain rfl := List.append_cancel_left (hpkcx.symm.trans hpkcx')
  exact Except.ok.inj (hdigest.symm.trans hdigest')

theorem stripPkcx_eq_ok {data pkcs7 : List UInt8} :
    stripPkcx data = .ok pkcs7 ↔ data = asciiBytes "PKCX" ++ pkcs7 := by
  rw [stripPkcx, Outcome.guardThat_bind_eq_ok, slice_eq_some]
  have hfour : (asciiBytes "PKCX").length = 4 := by decide
  constructor
  · intro ⟨⟨_, _, hstart⟩, hresult⟩
    rw [hstart, ← Except.ok.inj hresult, List.drop_zero, List.take_append_drop]
  · intro h
    rw [h]
    refine ⟨⟨by omega, ?_, ?_⟩, ?_⟩
    · rw [List.length_append]
      omega
    · rw [List.drop_zero, List.take_left' hfour]
    · rw [List.drop_left' hfour]
      rfl

theorem checkAxci_eq_ok {ciHash axci : Option (List UInt8)} {u : Unit} :
    checkAxci ciHash axci = .ok u ↔ ciHash = axci := by
  cases ciHash with
  | none =>
    cases axci with
    | none => exact iff_of_true rfl rfl
    | some axci => exact iff_of_false Outcome.bail_ne_ok (by simp)
  | some ciHash =>
    cases axci with
    | none => exact iff_of_false Outcome.bail_ne_ok (by simp)
    | some axci => rw [checkAxci, checkPiece, Outcome.guardThat_eq_ok, Option.some.injEq]

/-- The verify path succeeds on the accepted packages whose signature holds their digest. -/
theorem verifyMsixDigestConsistencyBytes_eq_ok {signed : List UInt8 × List UInt8} :
    verifyMsixDigestConsistencyBytes crates hashes (depth + 1) buf ext = .ok signed ↔
      ChildrenVerified crates hashes depth buf ext ∧ CarriesDigest crates buf signed.1 signed.2 ∧
        ∃ p : Accepted crates hashes buf ext, p.parts.blob = signed.2 := by
  obtain ⟨pkcs7, embedded⟩ := signed
  constructor
  · intro h
    simp only [verifyMsixDigestConsistencyBytes, Outcome.bind_eq_ok, Outcome.mapErr_eq_ok,
      Outcome.guardThat_eq_ok, checkPiece] at h
    obtain ⟨tail, htail, archive, harchive, _, hlayout, archive1, harchive1, inventory,
      hinventory, p7x, hp7x, pkcs7', hpkcs7, embedded', hembedded, ⟨pieceLen, parts⟩, hparts,
      blockMapBytes, hblockMapBytes, ⟨kind', blockMapFiles⟩, hblockMap, ctRaw, hctRaw,
      contentTypes, hcontentTypes, _, hreserved, _, hpieceLen, bmRaw, hbmRaw, ciRaw, hciRaw,
      _, hpresence, archive2, harchive2, ⟨dataHash, cdOffVirt⟩, hdata, archive3, harchive3,
      cdHash, hcd, _, haxpc, _, haxcd, _, haxct, _, haxbm, _, haxci, _, hfiles, _, hnested,
      hresult⟩ := h
    obtain rfl := Except.ok.inj (harchive.symm.trans harchive1)
    obtain rfl := Except.ok.inj (harchive.symm.trans harchive2)
    obtain rfl := Except.ok.inj (harchive.symm.trans harchive3)
    obtain ⟨rfl, rfl⟩ := Prod.mk.inj (Except.ok.inj hresult)
    obtain rfl := Except.ok.inj (hblockMapBytes.symm.trans hbmRaw)
    obtain ⟨_, _, hblob⟩ := parseSignedAppxBlob_eq_ok.mp hparts
    refine ⟨hnested, ⟨archive, p7x, harchive, hp7x, stripPkcx_eq_ok.mp hpkcs7, hembedded⟩,
      ⟨tail, archive, inventory, blockMapBytes, kind', blockMapFiles, ctRaw, contentTypes, ciRaw,
        dataHash, cdOffVirt, cdHash, htail, harchive, hlayout, hinventory, hblockMapBytes,
        hblockMap, hctRaw, hcontentTypes, hreserved, hciRaw, hdata, hcd, hfiles⟩, ?_⟩
    show AppxDigestParts.blob ⟨dataHash, cdHash, hashes.hash kind' ctRaw,
      hashes.hash kind' blockMapBytes, ciRaw.map (hashes.hash kind')⟩ = embedded'
    rw [hblob, show dataHash = parts.axpc from haxpc, show cdHash = parts.axcd from haxcd,
      show hashes.hash kind' ctRaw = parts.axct from haxct,
      show hashes.hash kind' blockMapBytes = parts.axbm from haxbm, checkAxci_eq_ok.mp haxci]
  · rintro ⟨hnested, ⟨archive, p7x, harchive, hp7x, hpkcx, hdigest⟩, p, hblob⟩
    obtain rfl := Except.ok.inj (harchive.symm.trans p.archive_ok)
    have hparse := parseSignedAppxBlob_blob (digestOutputLen_mem_blobWidths p.kind) p.hasWidth
    have hpresence : p.inventory.hasCodeIntegrity = p.parts.axci.isSome := by
      rw [← isSome_of_readCodeIntegrity p.ciRaw_ok]
      exact Option.isSome_map.symm
    rw [ChildrenVerified] at hnested
    rw [hblob] at hparse
    simp only [verifyMsixDigestConsistencyBytes, p.tail_ok, p.archive_ok, p.layout_ok,
      p.inventory_ok, hp7x, stripPkcx_eq_ok.mpr hpkcx, hdigest, Outcome.mapErr, hparse,
      p.blockMapBytes_ok, p.blockMap_ok, p.ctRaw_ok, p.contentTypes_ok, p.reserved_ok,
      Outcome.guardThat_of, p.ciRaw_ok, hpresence, p.data_ok, p.cd_ok, p.files_ok, hnested,
      Outcome.ok_bind]
    have hsame : ∀ label bytes, checkPiece label bytes bytes = .ok () :=
      fun _ _ => Outcome.guardThat_of rfl
    have haxci : checkAxci (p.ciRaw.map (hashes.hash p.kind)) p.parts.axci = .ok () :=
      checkAxci_eq_ok.mpr rfl
    rw [haxci]
    simp only [Accepted.parts, hsame, Outcome.ok_bind]
    rfl

/-! ## Packages in packages -/

/-- What verifies more packages accepts more lists of children. -/
theorem verifyChildren_mono {α : Type} {verify verify' : List UInt8 → List Char → Outcome α}
    (hmore : ∀ bytes ext a, verify bytes ext = .ok a → verify' bytes ext = .ok a)
    {children : List ChildPackage} (h : verifyChildren verify children = .ok ()) :
    verifyChildren verify' children = .ok () := by
  induction children with
  | nil => rfl
  | cons child rest ih =>
    simp only [verifyChildren, Outcome.bind_eq_ok, Outcome.mapErr_eq_ok] at h ⊢
    obtain ⟨a, hchild, hrest⟩ := h
    exact ⟨a, hmore _ _ a hchild, ih hrest⟩

theorem verifyNested_mono {α : Type} {zip : ZipReader}
    {verify verify' : List UInt8 → List Char → Outcome α}
    (hmore : ∀ bytes ext a, verify bytes ext = .ok a → verify' bytes ext = .ok a)
    (h : verifyNested zip verify buf ext = .ok ()) : verifyNested zip verify' buf ext = .ok () := by
  unfold verifyNested at h ⊢
  by_cases hbundle : isBundleExtension ext
  · rw [if_pos hbundle] at h ⊢
    simp only [verifyBundleChildPackages, Outcome.bind_eq_ok] at h ⊢
    obtain ⟨archive, harchive, children, hchildren, hverify⟩ := h
    exact ⟨archive, harchive, children, hchildren, verifyChildren_mono hmore hverify⟩
  · rw [if_neg hbundle]

/-- A package that verifies still does when packages may lie deeper in each other. -/
theorem verifyMsixDigestConsistencyBytes_mono {depth' : Nat} (hdepth : depth ≤ depth')
    {signed : List UInt8 × List UInt8}
    (h : verifyMsixDigestConsistencyBytes crates hashes depth buf ext = .ok signed) :
    verifyMsixDigestConsistencyBytes crates hashes depth' buf ext = .ok signed := by
  induction depth generalizing buf ext signed depth' with
  | zero => exact absurd h (by simp [verifyMsixDigestConsistencyBytes])
  | succ depth ih =>
    obtain ⟨depth', rfl⟩ : ∃ n, depth' = n + 1 := ⟨depth' - 1, by omega⟩
    rw [verifyMsixDigestConsistencyBytes_eq_ok] at h ⊢
    obtain ⟨hnested, haccepted⟩ := h
    exact ⟨verifyNested_mono (fun _ _ _ hchild => ih (by omega) hchild) hnested, haccepted⟩

/-! ## The two functions agree -/

/-- A package whose signature part carries a digest is verified if and only if this is the
digest that would be signed. -/
theorem msix_sign_and_verify_agree (depth : Nat) {pkcs7 digest : List UInt8}
    (hext : isCleartextMsixExtension (toAsciiLowercase ext))
    (hcarries : CarriesDigest crates buf pkcs7 digest) :
    (∃ signed, verifyMsixDigestConsistencyBytes crates hashes (depth + 1) buf
        (toAsciiLowercase ext) = .ok signed) ↔
      ∃ kind, msixAuthenticodeDigestBlob crates hashes depth buf ext = .ok (kind, digest) := by
  constructor
  · intro ⟨signed, hverify⟩
    obtain ⟨hnested, hsigned, p, hblob⟩ := verifyMsixDigestConsistencyBytes_eq_ok.mp hverify
    rw [hsigned.unique hcarries] at hblob
    exact ⟨p.kind, (msixAuthenticodeDigestBlob_eq_ok hext).mpr ⟨hnested, p, rfl, hblob⟩⟩
  · intro ⟨kind, hsign⟩
    obtain ⟨hnested, p, _, hblob⟩ := (msixAuthenticodeDigestBlob_eq_ok hext).mp hsign
    exact ⟨(pkcs7, digest),
      verifyMsixDigestConsistencyBytes_eq_ok.mpr ⟨hnested, hcarries, p, hblob⟩⟩

/-! ## A package without files -/

/-- A stored entry: its name, its contents and their CRC. -/
structure TinyEntry where
  name : List UInt8
  contents : List UInt8
  crc : Nat

/-- The local record of an entry. -/
def TinyEntry.localRecord (e : TinyEntry) : List UInt8 :=
  u32le lhSig ++ u16le 20 ++ u16le 0 ++ u16le 0 ++ u16le 0 ++ u16le 0x21 ++ u32le e.crc ++
  u32le e.contents.length ++ u32le e.contents.length ++ u16le e.name.length ++ u16le 0 ++
  e.name ++ e.contents

/-- The directory record of an entry with its local record at an offset. -/
def TinyEntry.directoryRecord (e : TinyEntry) (off : Nat) : List UInt8 :=
  u32le cdSig ++ u16le zip64Version ++ u16le 20 ++ u16le 0 ++ u16le 0 ++ u16le 0 ++ u16le 0x21 ++
  u32le e.crc ++ u32le e.contents.length ++ u32le e.contents.length ++ u16le e.name.length ++
  u16le 0 ++ u16le 0 ++ u16le 0 ++ u16le 0 ++ u32le 0 ++ u32le off ++ e.name

/-- The records of entries, from an offset on: the local ones and those of the directory. -/
def tinyRecords : List TinyEntry → Nat → List UInt8 × List UInt8
  | [], _ => ([], [])
  | e :: rest, off =>
    let (locals, directory) := tinyRecords rest (off + e.localRecord.length)
    (e.localRecord ++ locals, e.directoryRecord off ++ directory)

/-- The directory of some entries, and the records behind it. -/
def tinyTail (entries : List TinyEntry) : List UInt8 :=
  let (locals, directory) := tinyRecords entries 0
  directory ++
    zip64Tail ⟨44, zip64Version, zip64Version, 0, 0, 0, 0, 0, 0, []⟩ ⟨0, 0, 1⟩ entries.length
      directory.length locals.length ++
    u32le eocdSig ++ u16le 0 ++ u16le 0 ++ u16le u16Max ++ u16le u16Max ++ u32le u32Max ++
    u32le u32Max ++ u16le 0

/-- What the crate reports of entries, from an offset and a directory offset on. -/
def tinyZipFiles : List TinyEntry → Nat → Nat → List ZipFile
  | [], _, _ => []
  | e :: rest, off, dirOff =>
    ⟨asciiPart e.name, e.name, off, dirOff, off + 30 + e.name.length, e.crc, e.contents.length,
      e.contents.length, .stored, [], .ok e.contents⟩ ::
    tinyZipFiles rest (off + e.localRecord.length) (dirOff + (e.directoryRecord off).length)

/-- An empty element with its attributes. -/
structure TinyTag where
  name : String
  attributes : List (String × String)

/-- The text of an empty element. -/
def TinyTag.text (tag : TinyTag) : List UInt8 :=
  asciiBytes "<" ++ asciiBytes tag.name ++
    (tag.attributes.flatMap fun (key, value) =>
      asciiBytes " " ++ asciiBytes key ++ asciiBytes "=\"" ++ asciiBytes value ++ asciiBytes "\"") ++
    asciiBytes "/>"

/-- The event of an empty element. -/
def TinyTag.event (tag : TinyTag) : Outcome Event :=
  .ok (.empty ⟨asciiBytes tag.name,
    tag.attributes.map fun (key, value) => .ok (asciiBytes key, .ok value.toList)⟩)

/-- The elements of the content types of `tinyPackage`. -/
def tinyTypes : List TinyTag :=
  [⟨"Default", [("Extension", "xml"), ("ContentType", "application/vnd.ms-appx.manifest+xml")]⟩,
    ⟨"Override", [("PartName", "/AppxBlockMap.xml"),
      ("ContentType", "application/vnd.ms-appx.blockmap+xml")]⟩,
    ⟨"Override", [("PartName", "/AppxSignature.p7x"),
      ("ContentType", "application/vnd.ms-appx.signature")]⟩]

/-- The root of the block map of `tinyPackage`, which lists no file. -/
def tinyRoot : TinyTag :=
  ⟨"BlockMap", [("HashMethod", "http://www.w3.org/2001/04/xmlenc#sha256")]⟩

/-- The content types of `tinyPackage`. -/
def tinyContentTypes : TinyEntry where
  name := contentTypesPart
  contents := asciiBytes "<Types>" ++ tinyTypes.flatMap TinyTag.text ++ asciiBytes "</Types>"
  crc := 0x3169639e

/-- The block map of `tinyPackage`. -/
def tinyBlockMap : TinyEntry where
  name := blockMap
  contents := tinyRoot.text
  crc := 0xc51f7296

/-- The parts of `tinyPackage` that are hashed. -/
def tinyParts : List TinyEntry :=
  [tinyContentTypes, tinyBlockMap, ⟨appManifest, asciiBytes "<Package/>", 0xb8f9ff38⟩]

/-- The digest of `tinyPackage`. -/
def tinyDigest : List UInt8 :=
  AppxDigestParts.blob {
    axpc := Hashes.mixing.hash .sha256 (tinyRecords tinyParts 0).1
    axcd := Hashes.mixing.hash .sha256 (tinyTail tinyParts)
    axct := Hashes.mixing.hash .sha256 tinyContentTypes.contents
    axbm := Hashes.mixing.hash .sha256 tinyBlockMap.contents
    axci := none }

/-- The PKCS#7 of `tinyPackage`, as `AuthenticodeParser.octetString` reads it. -/
def tinyPkcs7 : List UInt8 :=
  0x04 :: 148 :: tinyDigest

/-- The entries of `tinyPackage`. -/
def tinyEntries : List TinyEntry :=
  tinyParts ++ [⟨appSignature, asciiBytes "PKCX" ++ tinyPkcs7, 0x08b12532⟩]

/-- A signed package with nothing in it but what a package has to have. -/
def tinyPackage : List UInt8 :=
  (tinyRecords tinyEntries 0).1 ++ tinyTail tinyEntries

/-- What the crate reports of `tinyPackage`. -/
def tinyArchive : ZipArchive :=
  let files := tinyZipFiles tinyEntries 0 (tinyRecords tinyEntries 0).1.length
  { entries := files.map .ok
    fileNames := files.map ZipFile.name
    byName := fun name => Outcome.ofOption (files.find? fun zf => zf.name = name)
      "specified file not found in archive" }

/-- The events of the two documents of `tinyPackage`. -/
def tinyXml (xml : List UInt8) : List (Outcome Event) :=
  if xml = tinyBlockMap.contents then [tinyRoot.event]
  else if xml = tinyContentTypes.contents then
    .ok (.start ⟨asciiBytes "Types", []⟩) :: (tinyTypes.map TinyTag.event ++
      [.ok (.close (asciiBytes "Types"))])
  else [Outcome.bail "syntax error"]

/-- The crates as far as `tinyPackage` needs them. -/
def AppxCrates.tiny : AppxCrates where
  zip buf := if buf = tinyPackage then .ok tinyArchive else Outcome.bail "invalid Zip archive"
  xml := tinyXml
  base64 := Base64Engine.standard
  signature := AuthenticodeParser.octetString

theorem zip_tinyPackage : AppxCrates.tiny.zip tinyPackage = .ok tinyArchive := by
  simp only [AppxCrates.tiny, if_true]

set_option maxRecDepth 6000

theorem carriesDigest_tinyPackage :
    CarriesDigest AppxCrates.tiny tinyPackage tinyPkcs7 tinyDigest := by
  have hpart : readZipEntryRaw tinyArchive (asciiPart appSignature) =
      .ok (asciiBytes "PKCX" ++ tinyPkcs7) := by decide
  have hdigest : AuthenticodeParser.octetString.digest tinyPkcs7 = .ok tinyDigest := by
    decide
  exact ⟨tinyArchive, _, zip_tinyPackage, hpart, rfl, hdigest⟩

theorem msix_sign_and_verify_agree_tinyPackage :
    (∃ signed, verifyMsixDigestConsistencyBytes AppxCrates.tiny Hashes.mixing 1 tinyPackage
        (toAsciiLowercase "MSIX".toList) = .ok signed) ↔
      ∃ kind, msixAuthenticodeDigestBlob AppxCrates.tiny Hashes.mixing 0 tinyPackage
        "MSIX".toList = .ok (kind, tinyDigest) :=
  msix_sign_and_verify_agree 0 (by decide) carriesDigest_tinyPackage

end Psign.Sip.Appx
