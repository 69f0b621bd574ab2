import Psign.Sip.CatalogDigest
import Psign.Sip.Pkcs7
import Psign.Sip.PsScript

/-!
# Security catalogs

Writing and reading the trust list of a catalog: `catalog_digest.rs` and the part
of `pkcs7.rs` that wraps the list in a `SignedData` without signers.

The list is DER that the program writes itself: one SEQUENCE for each file, of its
name in UTF-16 and of its digest inside an `SpcIndirectDataContent`.  The reader
does not know the layout; it walks down through every SEQUENCE until one starts
with an OCTET STRING and has such a content somewhere below.

Object identifiers, `SpcIndirectDataContent`, `SignedData` and `ContentInfo` are
encoded and decoded by the `der`, `cms` and `authenticode` crates.  They are a
parameter, `CatalogCrates`; its laws say that what was encoded is decoded to the
same value, and that the encodings are elements with the shortest length.
-/

namespace Psign.Sip

open CodeLib CodeLib.Der CodeLib.RustStr CodeLib.Unicode

/-! ## Constants -/

/-- `ID_MS_CTL`. -/
def idMsCtl : String := "1.3.6.1.4.1.311.10.1"

/-- `ID_SPC_INDIRECT_DATA`. -/
def idSpcIndirectData : String := "1.3.6.1.4.1.311.2.1.4"

/-- `ID_MS_CTL_USAGE`. -/
def idMsCtlUsage : String := "1.3.6.1.4.1.311.12.1.1"

/-- `ID_MS_CTL_SUBJECT_ALG`. -/
def idMsCtlSubjectAlg : String := "1.3.6.1.4.1.311.12.1.2"

/-- `CATALOG_GENERIC_LINK_VALUE_DER`. -/
def catalogGenericLinkValueDer : List UInt8 := [0xa2, 0x02, 0x80, 0x00]

/-- `CATALOG_PE_IMAGE_DATA_VALUE`. -/
def catalogPeImageDataValue : List UInt8 :=
  [0x03, 0x01, 0x00, 0xa0, 0x20, 0xa2, 0x1e, 0x80, 0x1c, 0x00, 0x3c, 0x00, 0x3c, 0x00, 0x3c, 0x00,
    0x4f, 0x00, 0x62, 0x00, 0x73, 0x00, 0x6f, 0x00, 0x6c, 0x00, 0x65, 0x00, 0x74, 0x00, 0x65, 0x00,
    0x3e, 0x00, 0x3e, 0x00, 0x3e]

/-- `CATALOG_THIS_UPDATE_UTC`: `700101000000Z`. -/
def catalogThisUpdateUtc : List UInt8 :=
  [0x37, 0x30, 0x30, 0x31, 0x30, 0x31, 0x30, 0x30, 0x30, 0x30, 0x30, 0x30, 0x5a]

/-- `TAG_SEQUENCE`. -/
def tagSequence : UInt8 := 0x30

/-- `TAG_SET`. -/
def tagSet : UInt8 := 0x31

/-- `TAG_OBJECT_IDENTIFIER`. -/
def tagObjectIdentifier : UInt8 := 0x06

/-- `TAG_OCTET_STRING`. -/
def tagOctetString : UInt8 := 0x04

/-! ## The crates -/

/-- `CatalogHashAlgorithm::digest_algorithm_identifier`. -/
def CatalogHashAlgorithm.digestAlgorithmIdentifier (algorithm : CatalogHashAlgorithm) :
    AlgorithmIdentifier :=
  ⟨algorithm.digestAlgorithmOid, none⟩

/-- The contents that a catalog is written with. -/
inductive IsCatalogContent : SpcIndirectDataContent → Prop where
  | generic (algorithm : CatalogHashAlgorithm) {digest : List UInt8}
      (hlength : digest.length = algorithm.peHashKind.digestOutputLen) :
      IsCatalogContent ⟨idSpcCabData, catalogGenericLinkValueDer,
        algorithm.digestAlgorithmIdentifier, digest⟩
  | pe (algorithm : CatalogHashAlgorithm) {digest : List UInt8}
      (hlength : digest.length = algorithm.peHashKind.digestOutputLen) :
      IsCatalogContent ⟨idSpcPeImageData, encodeTlv tagSequence catalogPeImageDataValue,
        algorithm.digestAlgorithmIdentifier, digest⟩

/-- The crates behind the catalog code: `der`, `cms`, `authenticode`, and the hash
functions. -/
structure CatalogCrates where
  parser : PeParser
  hashes : Hashes
  /-- `ObjectIdentifier::to_der`. -/
  oidToDer : String → Outcome (List UInt8)
  /-- `SpcIndirectDataContent::to_der`. -/
  spcToDer : SpcIndirectDataContent → Outcome (List UInt8)
  /-- `SpcIndirectDataContent::from_der`. -/
  spcFromDer : List UInt8 → Outcome SpcIndirectDataContent
  /-- `SliceReader::new`. -/
  sliceReader : List UInt8 → Outcome Unit
  /-- `Any::decode` of a reader over the bytes, and the bytes that are left. -/
  anyDecode : List UInt8 → Outcome (DerAny × List UInt8)
  /-- `SliceReader::finish` of a reader with these bytes left. -/
  finish : List UInt8 → Outcome Unit
  /-- `SignedData::to_der` of a version, digest algorithms and the other fields. -/
  signedDataToDer : Nat → List AlgorithmIdentifier → SignedData → Outcome (List UInt8)
  /-- `SignedData::from_der`. -/
  signedDataFromDer : List UInt8 → Outcome SignedData
  /-- `ContentInfo::to_der`. -/
  contentInfoToDer : ContentInfo → Outcome (List UInt8)
  /-- `ContentInfo::decode`. -/
  contentInfoDecode : List UInt8 → Outcome ContentInfo
  /-- The identifiers of a trust list are encoded, as an OBJECT IDENTIFIER. -/
  oidToDer_eq : ∀ oid ∈ [idSpcIndirectData, idMsCtlUsage, idMsCtlSubjectAlg],
    ∃ body, oidToDer oid = .ok (encodeTlv tagObjectIdentifier body) ∧ body.length < 128
  /-- A content is encoded, as a SEQUENCE. -/
  spcToDer_eq : ∀ {indirect}, IsCatalogContent indirect →
    ∃ body, spcToDer indirect = .ok (encodeTlv tagSequence body)
  /-- A content is decoded to what was encoded. -/
  spcFromDer_spcToDer : ∀ {indirect der}, IsCatalogContent indirect →
    spcToDer indirect = .ok der → spcFromDer der = .ok indirect
  /-- A decoded value has the shortest length, and a reader has a maximal length. -/
  anyDecode_reads : ∀ {bytes any rest}, anyDecode bytes = .ok (any, rest) →
    bytes = any.toDer ++ rest ∧ bytes.length < 2 ^ 32
  /-- A `SignedData` is encoded as a SEQUENCE. -/
  signedDataToDer_eq : ∀ {version algorithms sd der},
    signedDataToDer version algorithms sd = .ok der → ∃ body, der = encodeTlv tagSequence body
  /-- A `SignedData` without certificates and signers is decoded to what was encoded. -/
  signedDataFromDer_toDer : ∀ {version algorithms sd der}, sd.certificates = none →
    sd.signerInfos = [] → signedDataToDer version algorithms sd = .ok der →
    signedDataFromDer der = .ok sd
  /-- A `ContentInfo` is decoded to what was encoded. -/
  contentInfoDecode_toDer : ∀ {ci der}, contentInfoToDer ci = .ok der →
    sliceReader der = .ok () ∧ contentInfoDecode der = .ok ci

variable (crates : CatalogCrates)

/-! ## Writing DER -/

/-- `der_tlv`, with the length of `der_len`. -/
def derTlv (tag : UInt8) (value : List UInt8) : List UInt8 :=
  encodeTlv tag value

/-- `der_sequence`. -/
def derSequence (items : List (List UInt8)) : List UInt8 :=
  derTlv tagSequence items.flatten

/-- `der_set`. -/
def derSet (items : List (List UInt8)) : List UInt8 :=
  derTlv tagSet items.flatten

/-- `der_oid`. -/
def derOid (oid : String) : Outcome (List UInt8) :=
  (crates.oidToDer oid).mapErr fun e => "encode OID " ++ oid ++ ": " ++ e

/-- `der_null`. -/
def derNull : List UInt8 := [0x05, 0x00]

/-- `der_octet_string`. -/
def derOctetString (bytes : List UInt8) : List UInt8 :=
  derTlv tagOctetString bytes

/-- `der_utc_time_literal`. -/
def derUtcTimeLiteral (bytes : List UInt8) : Outcome (List UInt8) :=
  if bytes.length ≠ 13 ∨ bytes.getLast? ≠ some 0x5a then
    Outcome.bail "catalog UTC_TIME literal must be YYMMDDHHMMSSZ"
  else .ok (derTlv 0x17 bytes)

/-! ## Subject identifiers -/

/-- `catalog_subject_identifier`. -/
def catalogSubjectIdentifier (name : List Char) : Outcome (List UInt8) := do
  Outcome.guardThat (name ≠ []) "catalog subject name must not be empty"
  Outcome.guardThat ('\x00' ∉ name) "catalog subject name must not contain NUL bytes"
  return utf16leBytes (encodeUtf16 ('<' :: name ++ ['>', '\x00']))

/-- `decode_utf16le_subject_identifier`. -/
def decodeUtf16leSubjectIdentifier (bytes : List UInt8) : Option (List Char) :=
  if bytes.length % 2 ≠ 0 then none
  else
    let units := (mapPairs fromLeBytes bytes).takeWhile (· ≠ 0)
    (fromUtf16 units).map fun s =>
      match (stripPrefix ['<'] s).bind (stripSuffix ['>']) with
      | some inner => inner
      | none => s

/-! ## Creating a catalog -/

/-- `CatalogSubjectInput`. -/
structure CatalogSubjectInput where
  name : List Char
  bytes : List UInt8

/-- `CatalogSignResult`. -/
structure CatalogSignResult where
  pkcs7Der : List UInt8
  members : List CatalogMember
  deriving DecidableEq

/-- The name `{:?}` prints. -/
def CatalogHashAlgorithm.debugName : CatalogHashAlgorithm → String
  | sha1 => "Sha1"
  | sha256 => "Sha256"
  | sha384 => "Sha384"
  | sha512 => "Sha512"

/-- The check that both kinds of content make of their digest, and the content. -/
def catalogSpcIndirectData (label : String) (valueType : String) (value : List UInt8)
    (digestAlgorithm : CatalogHashAlgorithm) (digest : List UInt8) :
    Outcome SpcIndirectDataContent := do
  let expected := digestAlgorithm.peHashKind.digestOutputLen
  Outcome.guardThat (digest.length = expected)
    ("catalog " ++ label ++ " digest length " ++ toString digest.length ++ " does not match " ++
      digestAlgorithm.debugName ++ " (" ++ toString expected ++ " octets)")
  return ⟨valueType, value, digestAlgorithm.digestAlgorithmIdentifier, digest⟩

/-- `catalog_generic_spc_indirect_data`. -/
def catalogGenericSpcIndirectData (digestAlgorithm : CatalogHashAlgorithm)
    (subjectDigest : List UInt8) : Outcome SpcIndirectDataContent :=
  catalogSpcIndirectData "subject" idSpcCabData catalogGenericLinkValueDer digestAlgorithm
    subjectDigest

/-- `catalog_pe_spc_indirect_data`. -/
def catalogPeSpcIndirectData (digestAlgorithm : CatalogHashAlgorithm) (peDigest : List UInt8) :
    Outcome SpcIndirectDataContent :=
  catalogSpcIndirectData "PE" idSpcPeImageData (encodeTlv tagSequence catalogPeImageDataValue)
    digestAlgorithm peDigest

/-- `catalog_subject_indirect_data`. -/
def catalogSubjectIndirectData (digestAlgorithm : CatalogHashAlgorithm) (subject : List UInt8) :
    Outcome (SpcIndirectDataContent × String × List UInt8) :=
  match peAuthenticodeDigest crates.parser crates.hashes subject digestAlgorithm.peHashKind with
  | .ok peDigest => do
    let indirect ← catalogPeSpcIndirectData digestAlgorithm peDigest
    return (indirect, idSpcPeImageData, peDigest)
  | .error _ => do
    let digest := hashSubjectBytes crates.hashes digestAlgorithm subject
    let indirect ← catalogGenericSpcIndirectData digestAlgorithm digest
    return (indirect, idSpcCabData, digest)

/-- `catalog_ctl_entry_der`. -/
def catalogCtlEntryDer (subjectIdentifier : List UInt8) (indirect : SpcIndirectDataContent) :
    Outcome (List UInt8) := do
  let indirectDer ← (crates.spcToDer indirect).mapErr fun e =>
    "encode catalog SpcIndirectDataContent: " ++ e
  let oid ← derOid crates idSpcIndirectData
  let attr := derSequence [oid, derSet [indirectDer]]
  return derSequence [derOctetString subjectIdentifier, derSet [attr]]

/-- `catalog_list_identifier`. -/
def catalogListIdentifier (members : List CatalogMember) : List UInt8 :=
  (crates.hashes.hash .sha256
    (members.flatMap fun member => member.subjectIdentifier ++ member.digest)).take 16

/-- The entry and the member of one file. -/
def catalogEntry (digestAlgorithm : CatalogHashAlgorithm) (subject : CatalogSubjectInput) :
    Outcome (List UInt8 × CatalogMember) := do
  let subjectIdentifier ← catalogSubjectIdentifier subject.name
  let (indirect, dataOid, digest) ←
    catalogSubjectIndirectData crates digestAlgorithm subject.bytes
  let entry ← catalogCtlEntryDer crates subjectIdentifier indirect
  return (entry, {
    subjectName := decodeUtf16leSubjectIdentifier subjectIdentifier
    subjectIdentifier
    dataOid
    digestAlgorithmOid := digestAlgorithm.digestAlgorithmOid
    digest })

/-- The loop over the files; `seen` are the names that were there, in lower case. -/
def catalogEntries (digestAlgorithm : CatalogHashAlgorithm) (seen : List (List Char)) :
    List CatalogSubjectInput → Outcome (List (List UInt8 × CatalogMember))
  | [] => .ok []
  | subject :: rest => do
    let key := toAsciiLowercase subject.name
    Outcome.guardThat (key ∉ seen)
      ("catalog contains duplicate subject file name " ++ String.ofList subject.name)
    let entry ← catalogEntry crates digestAlgorithm subject
    let entries ← catalogEntries digestAlgorithm (key :: seen) rest
    return entry :: entries

/-- `create_catalog_ctl_econtent_der_with_hash`. -/
def createCatalogCtlEcontentDerWithHash (subjects : List CatalogSubjectInput)
    (digestAlgorithm : CatalogHashAlgorithm) : Outcome (List UInt8 × List CatalogMember) := do
  Outcome.guardThat (subjects ≠ []) "catalog signing requires at least one subject file"
  let entries ← catalogEntries crates digestAlgorithm [] subjects
  let members := entries.map Prod.snd
  let trustedSubjects := derSequence (entries.map Prod.fst)
  let listIdentifier := catalogListIdentifier crates members
  let usage ← derOid crates idMsCtlUsage
  let thisUpdate ← derUtcTimeLiteral catalogThisUpdateUtc
  let subjectAlg ← derOid crates idMsCtlSubjectAlg
  let ctlInfo := derSequence [
    derSequence [usage],
    derOctetString listIdentifier,
    thisUpdate,
    derSequence [subjectAlg, derNull],
    trustedSubjects]
  return (ctlInfo, members)

/-- `encode_pkcs7_content_info_signed_data_der`. -/
def encodePkcs7ContentInfoSignedDataDer (version : Nat)
    (digestAlgorithms : List AlgorithmIdentifier) (sd : SignedData) : Outcome (List UInt8) := do
  let sdDer ← (crates.signedDataToDer version digestAlgorithms sd).mapErr fun e =>
    "encode SignedData: " ++ e
  (crates.sliceReader sdDer).mapErr fun e => "SignedData DER reader: " ++ e
  let (content, _) ← (crates.anyDecode sdDer).mapErr fun e => "SignedData as CMS Any: " ++ e
  (crates.contentInfoToDer ⟨idSignedDataOid, content⟩).mapErr fun e => "encode ContentInfo: " ++ e

/-- `create_pkcs7_unsigned_signed_data_der`. -/
def createPkcs7UnsignedSignedDataDer (econtentType : String) (econtentDer : List UInt8)
    (digestAlgorithm : AlgorithmIdentifier) : Outcome (List UInt8) := do
  (crates.sliceReader econtentDer).mapErr fun e => "encapsulated content DER reader: " ++ e
  let (econtent, rest) ← (crates.anyDecode econtentDer).mapErr fun e =>
    "encapsulated content as CMS Any: " ++ e
  (crates.finish rest).mapErr fun e =>
    "trailing octets after encapsulated content DER: " ++ e
  encodePkcs7ContentInfoSignedDataDer crates 1 [digestAlgorithm] {
    econtentType
    econtent := some econtent
    certificates := none
    signerInfos := [] }

/-- `create_unsigned_catalog_pkcs7_der`. -/
def createUnsignedCatalogPkcs7Der (subjects : List CatalogSubjectInput)
    (digestAlgorithm : CatalogHashAlgorithm) : Outcome CatalogSignResult := do
  let (econtentDer, members) ← createCatalogCtlEcontentDerWithHash crates subjects digestAlgorithm
  let pkcs7Der ← createPkcs7UnsignedSignedDataDer crates idMsCtl econtentDer
    digestAlgorithm.digestAlgorithmIdentifier
  return ⟨pkcs7Der, members⟩

/-! ## Reading DER -/

/-- `der_len_at`: a length, and how many bytes spell it. -/
def derLenAt (data : List UInt8) (lenOff : Nat) : Outcome (Nat × Nat) :=
  match data[lenOff]? with
  | none => Outcome.bail "truncated DER length"
  | some first =>
    if first.toNat < 0x80 then .ok (first.toNat, 1)
    else
      let n := first.toNat - 0x80
      if n = 0 then Outcome.bail "indefinite DER length is not allowed"
      else if 8 < n then Outcome.bail "DER length too large"
      else
        match Bytes.slice data (lenOff + 1) (lenOff + 1 + n) with
        | none => Outcome.bail "truncated DER long-form length"
        | some bytes =>
          if bytes.head? = some 0 then Outcome.bail "non-minimal DER length"
          else .ok (beNat bytes, 1 + n)

/-- `tlv_at`: an element, and the offset behind it. -/
def tlvAt (data : List UInt8) (off : Nat) : Outcome (Tlv × Nat) := do
  let tag ← Outcome.ofOption data[off]? "truncated DER tag"
  let (len, lenLen) ← derLenAt data (off + 1)
  let headerLen := 1 + lenLen
  Outcome.guardThat (off + headerLen < 2 ^ 64) "DER offset overflow"
  let valueStart := off + headerLen
  Outcome.guardThat (valueStart + len < 2 ^ 64) "DER value length overflow"
  let valueEnd := valueStart + len
  let value ← Outcome.ofOption (Bytes.slice data valueStart valueEnd) "truncated DER value"
  let full ← Outcome.ofOption (Bytes.slice data off valueEnd) "truncated DER TLV"
  return (⟨tag, full, value⟩, valueEnd)

/-- The loop of `children`. -/
def childrenFrom (data : List UInt8) : Nat → Nat → Outcome (List Tlv)
  | 0, off => if off < data.length then .error .outOfFuel else .ok []
  | fuel + 1, off =>
    if off < data.length then do
      let (tlv, next) ← tlvAt data off
      let rest ← childrenFrom data fuel next
      return tlv :: rest
    else .ok []

/-- `children`. -/
def children (data : List UInt8) : Outcome (List Tlv) :=
  childrenFrom data data.length 0

/-- `oid_value_bytes`. -/
def oidValueBytes (oid : String) : Outcome (List UInt8) := do
  let der ← derOid crates oid
  let (tlv, next) ← tlvAt der 0
  Outcome.guardThat (next = der.length ∧ tlv.tag = tagObjectIdentifier)
    ("encoded OID " ++ oid ++ " has unexpected DER shape")
  return tlv.value

/-! ## The members of a catalog -/

/-- `spc_indirect_from_attribute_sequence`. -/
def spcIndirectFromAttributeSequence (seqValue spcIndirectOid : List UInt8) :
    Outcome (Option SpcIndirectDataContent) := do
  match ← children seqValue with
  | oid :: values :: _ =>
    if oid.tag ≠ tagObjectIdentifier ∨ oid.value ≠ spcIndirectOid ∨ values.tag ≠ tagSet then
      return none
    else
      match (← children values.value).find? fun value => value.tag = tagSequence with
      | some value =>
        let indirect ← (crates.spcFromDer value.raw).mapErr fun e =>
          "catalog SpcIndirectDataContent: " ++ e
        return some indirect
      | none => Outcome.bail "catalog SPC_INDIRECT_DATA attribute has no SEQUENCE value"
  | _ => return none

/-- The loop of `find_spc_indirect_in_member_sequence`; `below` is the search in the
value of an element. -/
def findInChildren (below : List UInt8 → Outcome (Option SpcIndirectDataContent))
    (spcIndirectOid : List UInt8) : List Tlv → Outcome (Option SpcIndirectDataContent)
  | [] => .ok none
  | child :: rest => do
    let direct ←
      if child.tag = tagSequence then
        spcIndirectFromAttributeSequence crates child.value spcIndirectOid
      else .ok none
    match direct with
    | some indirect => return some indirect
    | none =>
      let nested ←
        if child.tag = tagSequence ∨ child.tag = tagSet then below child.value else .ok none
      match nested with
      | some indirect => return some indirect
      | none => findInChildren below spcIndirectOid rest

/-- `find_spc_indirect_in_member_sequence`, down to a depth. -/
def findSpcIndirectInMemberSequence (spcIndirectOid : List UInt8) :
    Nat → List UInt8 → Outcome (Option SpcIndirectDataContent)
  | 0, _ => .error .outOfFuel
  | depth + 1, memberValue => do
    let elements ← children memberValue
    findInChildren crates (findSpcIndirectInMemberSequence spcIndirectOid depth) spcIndirectOid
      elements

/-- The member of a SEQUENCE with this subject, where a content is below it. -/
def memberOfSequence (spcIndirectOid seqValue : List UInt8) (subject : Tlv) :
    Outcome (Option CatalogMember) := do
  let indirect ← findSpcIndirectInMemberSequence crates spcIndirectOid (seqValue.length + 1)
    seqValue
  return indirect.map fun indirect => {
    subjectIdentifier := subject.value
    subjectName := decodeUtf16leSubjectIdentifier subject.value
    dataOid := indirect.valueType
    digestAlgorithmOid := indirect.digestAlgorithm.oid
    digest := indirect.digest }

/-- The loop of `collect_catalog_members_from_sequence`; `below` collects in the value
of an element. -/
def collectInChildren (below : List UInt8 → Outcome (List CatalogMember))
    (spcIndirectOid : List UInt8) : List Tlv → Outcome (List CatalogMember)
  | [] => .ok []
  | seq :: rest =>
    if seq.tag ≠ tagSequence then collectInChildren below spcIndirectOid rest
    else do
      let seqChildren ← children seq.value
      let found ←
        match seqChildren.head? with
        | some subject =>
          if subject.tag = tagOctetString then
            memberOfSequence crates spcIndirectOid seq.value subject
          else .ok none
        | none => .ok none
      match found with
      | some member => do
        let members ← collectInChildren below spcIndirectOid rest
        return member :: members
      | none => do
        let nested ← below seq.value
        let members ← collectInChildren below spcIndirectOid rest
        return nested ++ members

/-- `collect_catalog_members_from_sequence`, down to a depth. -/
def collectCatalogMembersFromSequence (spcIndirectOid : List UInt8) :
    Nat → List UInt8 → Outcome (List CatalogMember)
  | 0, _ => .error .outOfFuel
  | depth + 1, seqValue => do
    let elements ← children seqValue
    collectInChildren crates (collectCatalogMembersFromSequence spcIndirectOid depth) spcIndirectOid
      elements

/-- `catalog_signed_data`. -/
def catalogSignedData (data : List UInt8) : Outcome SignedData := do
  (crates.sliceReader data).mapErr fun _ => "empty catalog file"
  let ci ← (crates.contentInfoDecode data).mapErr fun e => "catalog PKCS#7 ContentInfo: " ++ e
  Outcome.guardThat (ci.contentType = idSignedDataOid)
    ("catalog root content type is not SignedData (got " ++ ci.contentType ++ ")")
  let sd ← (crates.signedDataFromDer ci.content.toDer).mapErr fun e => "catalog SignedData: " ++ e
  Outcome.guardThat (sd.econtentType = idMsCtl)
    ("catalog encapsulated content type is not Microsoft CTL (got " ++ sd.econtentType ++ ")")
  return sd

/-- `catalog_members_bytes`. -/
def catalogMembersBytes (data : List UInt8) : Outcome (List CatalogMember) := do
  let sd ← catalogSignedData crates data
  let econtent ← Outcome.ofOption (sd.econtent.map DerAny.value)
    "catalog SignedData has no CTL eContent"
  let spcIndirectOid ← oidValueBytes crates idSpcIndirectData
  let members ←
    collectCatalogMembersFromSequence crates spcIndirectOid (econtent.length + 1) econtent
  Outcome.guardThat (members ≠ []) "catalog CTL contains no SPC_INDIRECT_DATA member entries"
  return members

/-! ## Verifying a member -/

/-- `CatalogMemberMatch`. -/
structure CatalogMemberMatch where
  memberIndex : Nat
  member : CatalogMember
  computedDigest : List UInt8
  deriving DecidableEq

/-- The text of a failed digest. -/
def digestErrorText (member : CatalogMember) (failure : Failure) : String :=
  String.ofList (member.subjectName.getD "<unnamed>".toList) ++ ": " ++
    match failure with
    | .error message => message
    | .outOfFuel => ""

/-- The loop over the members: the first with the digest of the file, or the errors. -/
def findMember (subject : List UInt8) :
    Nat → List String → List CatalogMember → CatalogMemberMatch ⊕ List String
  | _, digestErrors, [] => .inr digestErrors
  | idx, digestErrors, member :: rest =>
    match catalogMemberDigestForSubject crates.parser crates.hashes member subject with
    | .ok computed =>
      if computed = member.digest then .inl ⟨idx, member, computed⟩
      else findMember subject (idx + 1) digestErrors rest
    | .error e => findMember subject (idx + 1) (digestErrors ++ [digestErrorText member e]) rest

/-- `verify_catalog_member_bytes`. -/
def verifyCatalogMemberBytes (catalog subject : List UInt8) : Outcome CatalogMemberMatch := do
  let members ← catalogMembersBytes crates catalog
  match findMember crates subject 0 [] members with
  | .inl found => return found
  | .inr [] =>
    Outcome.bail ("subject file is not a member of the catalog (" ++ toString members.length ++
      " member entr" ++ (if members.length = 1 then "y" else "ies") ++ " checked)")
  | .inr digestErrors =>
    Outcome.bail ("subject file is not a member of the catalog; digest errors while checking " ++
      "members: " ++ String.intercalate "; " digestErrors)

end Psign.Sip
