import Psign.Trust.Chain

/-!
# An environment that can be evaluated

The laws of `CmsCrates` and `PickyCrate` have a model: decoders that know finitely
many byte strings.  `Tables` lists what they decode to, `Tables.Valid` checks the
laws entry by entry, and `Tables.environment` is the environment with these
decoders.

What does not depend on a listing is computed: framing, octet strings, the
encoding of attributes, and the validation that `picky` performs.  RSA has a
stand-in whose signature is the public key and the digest that it signs, hashing
is `Hashes.mixing`, and a chain is verified by its names.

`CertFields` and `SignerFields` encode certificates and signers in DER, with both
readings of what they encode.
-/

namespace Psign.Trust

open CodeLib CodeLib.Der Psign.Sip

/-! ## Listings -/

/-- What the decoders know. -/
structure Tables where
  signedDatas : List (List UInt8 × SignedData)
  indirects : List (DerAny × SpcIndirectDataContent)
  extendedKeyUsages : List (List UInt8 × List String)
  /-- The certificates, as each of the crates reads them. -/
  certificates : List Certificate
  certs : List Cert
  authenticodes : List (List UInt8 × AuthenticodeSignature)
  publicTrustRoots : List PinnedRoot
  files : List (String × List UInt8)

/-- The entry of a listing. -/
def lookedUp {α β : Type} [DecidableEq α] (table : List (α × β)) (key : α) : Outcome β :=
  Outcome.ofOption (table.lookup key) "unknown"

theorem mem_of_lookedUp {α β : Type} [DecidableEq α] {table : List (α × β)} {key : α} {value : β}
    (h : lookedUp table key = .ok value) : (key, value) ∈ table := by
  obtain ⟨before, after, rfl, -⟩ := List.lookup_eq_some_iff.mp (Outcome.ofOption_eq_ok.mp h)
  exact List.mem_append_right before List.mem_cons_self

theorem mem_of_listed {α : Type} {listed : List α} {p : α → Prop} [DecidablePred p] {value : α}
    {message : String} (h : Outcome.ofOption (listed.find? fun a => p a) message = .ok value) :
    value ∈ listed ∧ p value := by
  rw [Outcome.ofOption_eq_ok] at h
  exact ⟨List.mem_of_find?_eq_some h, by simpa using List.find?_some h⟩

instance (encoded : List Tlv) (decoded : List (List UInt8)) :
    Decidable (DecodedSet encoded decoded) :=
  decidable_of_iff (decoded.Perm (encoded.map Tlv.raw) ∧ decoded.Pairwise (· < ·))
    ⟨fun h => ⟨h.1, h.2⟩, fun h => ⟨h.perm, h.ascending⟩⟩

/-- The fields of a byte string that is one SEQUENCE. -/
def sequenceFields (bytes : List UInt8) : Option (List Tlv) := do
  let (element, rest) ← readTlv 4 bytes
  guard (rest = [] ∧ element.tag = 0x30)
  readTlvs 4 element.value

/-- A listed `SignedData` reads the fields of its bytes. -/
def ReadsFields (fields : List Tlv) (sd : SignedData) : Prop :=
  (sd.certificates.isSome = (certificateTlvs fields).isSome ∧
    DecodedSet ((certificateTlvs fields).getD [])
      ((sd.certificates.getD []).map CertificateChoices.der)) ∧
  ((signerInfoTlvs fields).isSome ∧
    DecodedSet ((signerInfoTlvs fields).getD []) (sd.signerInfos.map SignerInfo.der)) ∧
  fields.getLast?.map Tlv.tag = some 0x31 ∧ 4 ≤ fields.length

instance (fields : List Tlv) (sd : SignedData) : Decidable (ReadsFields fields sd) := by
  unfold ReadsFields
  infer_instance

theorem ReadsFields.reads {fields : List Tlv} {sd : SignedData} (h : ReadsFields fields sd) :
    SignedDataReads fields sd := by
  obtain ⟨⟨hcertificates, hset⟩, ⟨hsignerInfos, hsignerSet⟩, htag, hlength⟩ := h
  refine ⟨?_, ?_, ?_, ?_, hlength⟩
  · intro choices hchoices
    rw [hchoices, Option.isSome_some] at hcertificates
    obtain ⟨tlvs, htlvs⟩ := Option.isSome_iff_exists.mp hcertificates.symm
    rw [hchoices, htlvs] at hset
    exact ⟨tlvs, htlvs, hset⟩
  · intro hnone
    rw [hnone, Option.isSome_none] at hcertificates
    exact Option.isSome_eq_false_iff.mp hcertificates.symm |> Option.isNone_iff_eq_none.mp
  · obtain ⟨tlvs, htlvs⟩ := Option.isSome_iff_exists.mp hsignerInfos
    rw [htlvs] at hsignerSet
    exact ⟨tlvs, htlvs, hsignerSet⟩
  · obtain ⟨last, hlast, hlastTag⟩ := Option.map_eq_some_iff.mp htag
    exact ⟨last, hlast, hlastTag⟩

namespace Tables

variable (t : Tables)

/-- The listed certificate of a byte string, and only of a SEQUENCE. -/
def certificate (bytes : List UInt8) : Outcome Certificate :=
  Outcome.ofOption
    (t.certificates.find? fun cert => cert.der = bytes ∧ bytes.head? = some 0x30) "unknown"

/-- The listed certificate of a byte string as `picky` reads it. -/
def certFromDer (bytes : List UInt8) : Outcome Cert :=
  Outcome.ofOption (t.certs.find? fun cert => cert.der = bytes ∧ bytes.head? = some 0x30) "unknown"

/-- The listed signer of a byte string. -/
def signerInfo (bytes : List UInt8) : Outcome SignerInfo :=
  Outcome.ofOption
    ((t.signedDatas.flatMap fun entry => entry.2.signerInfos).find? (·.der = bytes)) "unknown"

/-- A choice of a certificate set is listed as what it is. -/
def ChoiceListed : CertificateChoices → Prop
  | .certificate cert => t.certificate cert.der = .ok cert
  | .other der => der.head? ≠ some 0x30

instance : (choice : CertificateChoices) → Decidable (t.ChoiceListed choice)
  | .certificate cert => inferInstanceAs (Decidable (t.certificate cert.der = .ok cert))
  | .other der => inferInstanceAs (Decidable (der.head? ≠ some 0x30))

/-- What `picky` reads of a blob is in its fields. -/
def AuthenticodeListed (fields : List Tlv) (sig : AuthenticodeSignature) : Prop :=
  sig.certificates =
      ((certificateTlvs fields).getD []).filterMap (fun tlv => (t.certFromDer tlv.raw).toOption) ∧
    (signerInfoTlvs fields).isSome ∧
    sig.signerInfos.map PickySignerInfo.der = ((signerInfoTlvs fields).getD []).map Tlv.raw

instance (fields : List Tlv) (sig : AuthenticodeSignature) :
    Decidable (t.AuthenticodeListed fields sig) := by
  unfold AuthenticodeListed
  infer_instance

/-- The two readings of a signer agree. -/
def SignerAgrees (si : PickySignerInfo) : Prop :=
  ∀ cmsSi ∈ (t.signerInfo si.der).toOption, cmsSi.sid = si.sid ∧ cmsSi.signature = si.signature

instance (si : PickySignerInfo) : Decidable (t.SignerAgrees si) := by
  unfold SignerAgrees
  infer_instance

/-- The listings satisfy the laws. -/
def Valid : Prop :=
  (∀ entry ∈ t.signedDatas, (sequenceFields entry.1).isSome ∧
    ReadsFields ((sequenceFields entry.1).getD []) entry.2) ∧
  (∀ entry ∈ t.signedDatas, ∀ si ∈ entry.2.signerInfos, t.signerInfo si.der = .ok si) ∧
  (∀ entry ∈ t.signedDatas, ∀ choice ∈ entry.2.certificates.getD [], t.ChoiceListed choice) ∧
  (∀ entry ∈ t.indirects, entry.1.tag = 0x30) ∧
  (∀ cert ∈ t.certs, ∀ x509 ∈ t.certificates, cert.der = x509.der →
    cert.issuerName = x509.issuer ∧ cert.serialNumber = x509.serialNumber) ∧
  (∀ entry ∈ t.authenticodes, ∀ fields ∈ signedDataFields entry.1,
    t.AuthenticodeListed fields entry.2) ∧
  (∀ entry ∈ t.authenticodes, ∀ si ∈ entry.2.signerInfos, t.SignerAgrees si)

instance : Decidable t.Valid := by
  unfold Valid
  infer_instance

end Tables

/-! ## Computed decoders -/

/-- `Header::decode` of a low tag. -/
def tableHeader (bytes : List UInt8) : Outcome (UInt8 × Nat × List UInt8) :=
  match bytes with
  | [] => Outcome.bail "ASN.1 DER message is incomplete"
  | tag :: after =>
    match readLength 4 after with
    | some (len, hdr) => .ok (tag, len, after.drop hdr)
    | none => Outcome.bail "ASN.1 DER message is incomplete"

theorem tableHeader_reads {bytes : List UInt8} {tag : UInt8} {len : Nat} {rest : List UInt8}
    (h : tableHeader bytes = .ok (tag, len, rest)) (hle : len ≤ rest.length) :
    ∃ element, readTlv 4 bytes = some (element, rest.drop len) ∧ element.tag = tag ∧
      element.value = rest.take len := by
  cases bytes with
  | nil => exact absurd h Outcome.bail_ne_ok
  | cons first after =>
    simp only [tableHeader] at h
    cases hlength : readLength 4 after with
    | none =>
      rw [hlength] at h
      exact absurd h Outcome.bail_ne_ok
    | some found =>
      obtain ⟨n, hdr⟩ := found
      rw [hlength] at h
      simp only [Except.ok.injEq, Prod.mk.injEq] at h
      obtain ⟨rfl, rfl, rfl⟩ := h
      have hhdr := hdr_le_of_readLength hlength
      rw [List.length_drop] at hle
      simp only [readTlv, hlength]
      rw [if_pos (by omega)]
      exact ⟨_, by rw [List.drop_drop], rfl, rfl⟩

/-- `ContentInfo::decode` of a SignedData. -/
def tableContentInfo (bytes : List UInt8) : Outcome ContentInfo :=
  match contentElement bytes with
  | some element =>
    if element.raw = encodeTlv element.tag element.value then
      .ok ⟨idSignedDataOid, ⟨element.tag, element.value⟩⟩
    else Outcome.bail "unknown"
  | none => Outcome.bail "unknown"

theorem tableContentInfo_reads {bytes : List UInt8} {ci : ContentInfo}
    (h : tableContentInfo bytes = .ok ci) :
    (contentElement bytes).map Tlv.raw = some ci.content.toDer := by
  unfold tableContentInfo at h
  split at h
  · rename_i element helement
    by_cases hraw : element.raw = encodeTlv element.tag element.value
    · rw [if_pos hraw, Except.ok.injEq] at h
      rw [helement, ← h, Option.map_some, hraw]
      rfl
    · rw [if_neg hraw] at h
      exact absurd h Outcome.bail_ne_ok
  · exact absurd h Outcome.bail_ne_ok

/-- `OctetStringRef::decode`. -/
def tableOctetString (bytes : List UInt8) : Outcome (List UInt8) :=
  match readTlv 4 bytes with
  | some (element, _) =>
    if element.tag = 0x04 then .ok element.value else Outcome.bail "unexpected tag"
  | none => Outcome.bail "ASN.1 DER message is incomplete"

/-! ## Encodings -/

/-- A SEQUENCE. -/
def sequence (parts : List (List UInt8)) : List UInt8 := encodeTlv 0x30 parts.flatten

/-- The DER of `id-sha256`. -/
def oidSha256Der : List UInt8 :=
  [0x06, 0x09, 0x60, 0x86, 0x48, 0x01, 0x65, 0x03, 0x04, 0x02, 0x01]

/-- The DER of `rsaEncryption`. -/
def oidRsaEncryptionDer : List UInt8 :=
  [0x06, 0x09, 0x2A, 0x86, 0x48, 0x86, 0xF7, 0x0D, 0x01, 0x01, 0x01]

/-- The DER of `SPC_INDIRECT_DATA_OBJID`. -/
def oidSpcIndirectDataDer : List UInt8 :=
  [0x06, 0x0A, 0x2B, 0x06, 0x01, 0x04, 0x01, 0x82, 0x37, 0x02, 0x01, 0x04]

/-- The DER of `id-ct-TSTInfo`. -/
def oidTstinfoDer : List UInt8 :=
  [0x06, 0x0B, 0x2A, 0x86, 0x48, 0x86, 0xF7, 0x0D, 0x01, 0x09, 0x10, 0x01, 0x04]

/-- The object identifiers that the decoders know. -/
def knownOids : List (List UInt8 × String) :=
  [(oidSha256Der, digestOidSha256),
    ([0x06, 0x09, 0x2A, 0x86, 0x48, 0x86, 0xF7, 0x0D, 0x01, 0x09, 0x04], pkcs9MessageDigestOid),
    ([0x06, 0x0B, 0x2A, 0x86, 0x48, 0x86, 0xF7, 0x0D, 0x01, 0x09, 0x10, 0x02, 0x0E],
      "1.2.840.113549.1.9.16.2.14"),
    ([0x06, 0x02, 0x2A, 0x03], "1.2.3")]

/-- An algorithm without parameters. -/
def algorithmDer (oid : List UInt8) : List UInt8 := sequence [oid, [0x05, 0x00]]

/-- A distinguished name with one common name. -/
def commonNameDer (text : List UInt8) : List UInt8 :=
  sequence [encodeTlv 0x31 (sequence [[0x06, 0x03, 0x55, 0x04, 0x03], encodeTlv 0x0C text])]

/-- A certificate for an RSA key: names and serial number are short, and the
extensions are the extended key usages. -/
structure CertFields where
  serial : UInt8
  issuer : List UInt8
  subject : List UInt8
  key : List UInt8
  ekus : List (List UInt8)
  signature : List UInt8

namespace CertFields

variable (fields : CertFields)

/-- The `SubjectPublicKeyInfo`. -/
def spkiDer : List UInt8 :=
  sequence [algorithmDer oidRsaEncryptionDer, encodeTlv 0x03 (0 :: fields.key)]

/-- The certificate, valid in 2023. -/
def der : List UInt8 :=
  let algorithm := algorithmDer oidRsaEncryptionDer
  let year (y : UInt8) := encodeTlv 0x17 ([0x32, y] ++ "0101000000Z".toList.map (UInt8.ofNat ·.toNat))
  sequence [
    sequence [[0xa0, 0x03, 0x02, 0x01, 0x02], [0x02, 0x01, fields.serial], algorithm,
      commonNameDer fields.issuer, sequence [year 0x33, year 0x34], commonNameDer fields.subject,
      fields.spkiDer, encodeTlv 0xa3 (sequence [sequence [[0x06, 0x03, 0x55, 0x1D, 0x25],
        encodeTlv 0x04 (sequence fields.ekus)]])],
    algorithm, encodeTlv 0x03 (0 :: fields.signature)]

/-- The certificate as `x509-cert` reads it. -/
def certificate : Certificate :=
  ⟨fields.der, commonNameDer fields.issuer, [fields.serial],
    some [⟨"2.5.29.37", sequence fields.ekus⟩], rsaEncryptionOid, fields.spkiDer⟩

/-- The certificate as `picky` reads it. -/
def cert : Cert :=
  ⟨fields.der, commonNameDer fields.subject, commonNameDer fields.issuer, [fields.serial],
    fields.spkiDer⟩

end CertFields

/-- The DER of one attribute. -/
def attributeDer (attr : Attribute) : Outcome (List UInt8) := do
  let oid ← Outcome.ofOption (knownOids.find? (·.2 = attr.oid)) "unknown"
  return sequence [oid.1, encodeTlv 0x31 (attr.values.flatMap DerAny.toDer)]

/-- The contents octets of a SET OF attributes. -/
def attributesDer (attrs : List Attribute) : Outcome (List UInt8) := do
  let encoded ← attrs.mapM attributeDer
  return encoded.flatten

/-- A signer that an RSA certificate identifies, with its attributes. -/
structure SignerFields where
  signer : CertFields
  signedAttrs : List Attribute
  unsignedAttrs : List Attribute

namespace SignerFields

variable (fields : SignerFields)

/-- The signature over the signed attributes. -/
def signature : List UInt8 :=
  fields.signer.spkiDer ++ Hashes.mixing.hash .sha256
    (encodeTlv 0x31 ((attributesDer fields.signedAttrs).toOption.getD []))

/-- The `SignerInfo`. -/
def der : List UInt8 :=
  sequence [[0x02, 0x01, 0x01],
    sequence [commonNameDer fields.signer.issuer, [0x02, 0x01, fields.signer.serial]],
    algorithmDer oidSha256Der,
    encodeTlv 0xa0 ((attributesDer fields.signedAttrs).toOption.getD []),
    algorithmDer oidRsaEncryptionDer, encodeTlv 0x04 fields.signature,
    if fields.unsignedAttrs.isEmpty then []
    else encodeTlv 0xa1 ((attributesDer fields.unsignedAttrs).toOption.getD [])]

/-- The `SignerInfo` as `cms` reads it. -/
def signerInfo : SignerInfo :=
  ⟨fields.der, .issuerAndSerialNumber (commonNameDer fields.signer.issuer) [fields.signer.serial],
    digestOidSha256, some fields.signedAttrs, fields.signature,
    if fields.unsignedAttrs.isEmpty then none else some fields.unsignedAttrs⟩

/-- The `SignerInfo` as `picky` reads it. -/
def pickySignerInfo : PickySignerInfo :=
  ⟨fields.der, .issuerAndSerialNumber (commonNameDer fields.signer.issuer) [fields.signer.serial],
    .sha256, fields.signedAttrs, fields.signature⟩

end SignerFields

/-- The `messageDigest` attribute for a content. -/
def messageDigestAttribute (content : List UInt8) : Attribute :=
  ⟨pkcs9MessageDigestOid, [⟨0x04, Hashes.mixing.hash .sha256 content⟩]⟩

/-- A `SignedData` with certificates in the order they are given. -/
def signedDataDer (contentType : List UInt8) (content : DerAny) (certificates : List (List UInt8))
    (signerInfos : List (List UInt8)) : List UInt8 :=
  sequence [[0x02, 0x01, 0x01], encodeTlv 0x31 (algorithmDer oidSha256Der),
    sequence [contentType, encodeTlv 0xa0 content.toDer], encodeTlv 0xa0 certificates.flatten,
    encodeTlv 0x31 signerInfos.flatten]

/-- The `ContentInfo` of a `SignedData`. -/
def contentInfoDer (signedData : List UInt8) : List UInt8 :=
  sequence [pkcs7SignedDataOidDer, encodeTlv 0xa0 signedData]

/-- The value of an indirect data content: a SIP information object without fields. -/
def spcValueDer : List UInt8 :=
  sequence [[0x06, 0x0A, 0x2B, 0x06, 0x01, 0x04, 0x01, 0x82, 0x37, 0x02, 0x01, 0x1E], sequence []]

/-- The `SpcIndirectDataContent` of a SHA-256 digest. -/
def spcIndirectAny (digest : List UInt8) : DerAny :=
  ⟨0x30, spcValueDer ++ sequence [algorithmDer oidSha256Der, encodeTlv 0x04 digest]⟩

/-- The reading of `spcIndirectAny`. -/
def spcIndirect (digest : List UInt8) : SpcIndirectDataContent :=
  ⟨"1.3.6.1.4.1.311.2.1.30", sequence [], ⟨digestOidSha256, some [0x05, 0x00]⟩, digest⟩

/-! ## Signatures and chains -/

/-- A stand-in for RSA: the signature is the key and the digest. -/
def tableVerifyPrehash (pk prehash sig : List UInt8) : Outcome Unit :=
  Outcome.guardThat (sig = pk ++ prehash) "signature error"

/-- Every certificate is issued by the next. -/
def linkedByName : List Cert → Bool
  | cert :: issuer :: rest => cert.issuerName = issuer.subjectName && linkedByName (issuer :: rest)
  | _ => true

/-! ## The crates -/

namespace Tables

variable {t : Tables}

/-- The CMS crates that know the listings. -/
def cmsCrates (t : Tables) (h : t.Valid) : CmsCrates where
  hashes := .mixing
  sliceReader bytes := Outcome.guardThat (bytes ≠ []) "empty"
  header := tableHeader
  contentInfo := tableContentInfo
  signedData := lookedUp t.signedDatas
  spcIndirectData := lookedUp t.indirects
  octetString any := tableOctetString any.toDer
  octetStringRef := tableOctetString
  objectIdentifier := lookedUp knownOids
  extendedKeyUsage := lookedUp t.extendedKeyUsages
  subjectKeyIdentifier := tableOctetString
  certificate := t.certificate
  signerInfo := t.signerInfo
  encodeAttributes attrs := do
    return encodeTlv 0x31 (← attributesDer attrs)
  rsaPublicKey := .ok
  pkcs1v15Signature := .ok
  verifyPrehash _ := tableVerifyPrehash
  header_reads := tableHeader_reads
  contentInfo_reads hread _ := tableContentInfo_reads hread
  signedData_reads := by
    intro bytes sd hread
    obtain ⟨hsome, hreads⟩ := h.1 _ (mem_of_lookedUp hread)
    obtain ⟨fields, hfields⟩ := Option.isSome_iff_exists.mp hsome
    rw [hfields] at hreads
    simp only [sequenceFields, Option.bind_eq_bind, Option.bind_eq_some_iff, Prod.exists,
      Option.guard_eq_some', exists_const] at hfields
    obtain ⟨element, rest, helement, ⟨rfl, htag⟩, hfields⟩ := hfields
    exact ⟨element, fields, helement, htag, hfields, hreads.reads⟩
  der_of_certificate := fun hread => (mem_of_listed hread).2
  signerInfo_of_signedData := fun hread hsi => h.2.1 _ (mem_of_lookedUp hread) _ hsi
  certificate_of_signedData := by
    intro bytes sd choices cert hread hchoices hcert
    exact h.2.2.1 _ (mem_of_lookedUp hread) (.certificate cert) (by rw [hchoices]; exact hcert)
  other_of_signedData := by
    intro bytes sd choices der hread hchoices hder
    exact h.2.2.1 _ (mem_of_lookedUp hread) (.other der) (by rw [hchoices]; exact hder)
  tag_of_spcIndirectData := fun hread => h.2.2.2.1 _ (mem_of_lookedUp hread)

/-- What basic Authenticode validation checks, as a test. -/
def basicValidation (cms : CmsCrates) (sig : AuthenticodeSignature) (subjectDigest : List UInt8) :
    Outcome Unit := do
  let si ← Outcome.ofOption sig.signerInfos.head? "no signer"
  Outcome.guardThat (sig.signerInfos = [si]) "more than one signer"
  let signer ← Outcome.ofOption (sig.selectedSigner sig.certificates) "no signing certificate"
  let der ← cms.encodeAttributes si.signedAttrs
  let pk ← cms.rsaPublicKey signer.publicKeyDer
  let signature ← cms.pkcs1v15Signature si.signature
  cms.verifyPrehash si.hashKind pk (cms.hashes.hash si.hashKind der) signature
  let digest ← messageDigestOctets cms si.signedAttrs
  Outcome.guardThat (digest = cms.hashes.hash si.hashKind sig.content.value) "message digest"
  let indirect ← cms.spcIndirectData sig.content
  Outcome.guardThat (indirect.digest = subjectDigest) "subject digest"

theorem basicValidation_checks {cms : CmsCrates} {sig : AuthenticodeSignature}
    {subjectDigest : List UInt8} (h : basicValidation cms sig subjectDigest = .ok ()) :
    ∃ si signer indirect, BasicValidation cms sig subjectDigest si signer indirect := by
  simp only [basicValidation, Outcome.bind_eq_ok, Outcome.ofOption_eq_ok,
    Outcome.guardThat_eq_ok] at h
  obtain ⟨si, -, _, hone, signer, hselects, der, hder, pk, hpk, signature, hsignature, _, hverify,
    digest, hdigest, _, rfl, indirect, hindirect, hsubject⟩ := h
  exact ⟨si, signer, indirect,
    { signerInfos := hone
      selects := hselects
      signature := ⟨der, pk, signature, hder, hpk, hsignature, hverify⟩
      messageDigest := hdigest
      content := hindirect
      subjectDigest := hsubject }⟩

/-- The functions of `picky` that know the listings. -/
def pickyCrate (t : Tables) (h : t.Valid) : PickyCrate (t.cmsCrates h) where
  certFromDer := t.certFromDer
  certFromPem _ := Outcome.bail "no PEM here"
  authenticodeFromDer := lookedUp t.authenticodes
  basicValidation sig subjectDigest _ _ := basicValidation (t.cmsCrates h) sig subjectDigest
  signingCertificate sig certificates :=
    Outcome.ofOption (sig.selectedSigner certificates) "no signing certificate"
  verifyChain leaf chain _ :=
    Outcome.guardThat (linkedByName (leaf :: chain) = true) "certificate chain"
  debugName _ := ""
  displayName _ := ""
  der_of_certFromDer := fun hread => (mem_of_listed hread).2
  identity_of_certFromDer := by
    intro bytes cert x509 hcert hx509
    obtain ⟨hmem, hder, -⟩ := mem_of_listed hcert
    obtain ⟨hmem', hder', -⟩ := mem_of_listed hx509
    exact h.2.2.2.2.1 _ hmem _ hmem' (hder.trans hder'.symm)
  certificates_of_authenticode := fun hread hfields =>
    (h.2.2.2.2.2.1 _ (mem_of_lookedUp hread) _ hfields).1
  signerInfos_of_authenticode := by
    intro bytes sig fields hread hfields
    obtain ⟨-, hsome, hders⟩ := h.2.2.2.2.2.1 _ (mem_of_lookedUp hread) _ hfields
    obtain ⟨tlvs, htlvs⟩ := Option.isSome_iff_exists.mp hsome
    rw [htlvs] at hders
    exact ⟨tlvs, htlvs, hders⟩
  signerInfo_agrees := by
    intro bytes sig si cmsSi hread hsi hcms
    exact h.2.2.2.2.2.2 _ (mem_of_lookedUp hread) si hsi cmsSi (Outcome.toOption_eq_some.mpr hcms)
  signingCertificate_selects := Outcome.ofOption_eq_ok.mp
  basicValidation_checks := basicValidation_checks

/-- The environment without a network, at the start of 2024. -/
def environment (t : Tables) (h : t.Valid) : Environment where
  cms := t.cmsCrates h
  picky := t.pickyCrate h
  network :=
    { aiaCaIssuersUrls := fun _ => .ok []
      httpGetLimited := fun _ _ _ => Outcome.bail "no network"
      checkOneCertOcsp := fun _ _ _ => .ok .notConfigured
      checkOneCertCrl := fun _ _ _ => .ok () }
  now := ⟨2024, 1, 1, 0, 0, 0⟩
  calendar year month day hour minute second := some ⟨year, month, day, hour, minute, second⟩
  fromUnixTimestamp _ := none
  timeFromDer _ := Outcome.bail "unknown"
  publicTrustRoots := t.publicTrustRoots
  readFile path := lookedUp t.files path
  subjectText _ := ""
  debugText text := text

end Tables

end Psign.Trust
