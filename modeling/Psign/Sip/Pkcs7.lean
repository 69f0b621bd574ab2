import Psign.Sip.Digest
import Psign.Sip.Pkcs7Wire

/-!
# CMS SignedData

The part of `pkcs7.rs` that trust verification uses: decoding a `SignedData`,
finding the certificate of a signer, and checking digests and the RSA signature
of a `SignerInfo`.

The decoders of the `cms`, `der` and `x509-cert` crates, the hash functions and
RSA are a parameter, `CmsCrates`.  Its laws are about decoding: a decoded value
is read from the elements of the bytes, a SET OF is decoded into the ascending
order of the encodings and without repetitions, and the same bytes decode to the
same value.
-/

namespace Psign.Sip

open CodeLib CodeLib.Der

/-! ## Decoded values -/

/-- `der::Any`. -/
structure DerAny where
  tag : UInt8
  value : List UInt8
  deriving DecidableEq, Repr

/-- `Any::to_der`. -/
def DerAny.toDer (any : DerAny) : List UInt8 := encodeTlv any.tag any.value

/-- `cms::content_info::ContentInfo`. -/
structure ContentInfo where
  contentType : String
  content : DerAny
  deriving DecidableEq, Repr

/-- `x509_cert::attr::Attribute`. -/
structure Attribute where
  oid : String
  values : List DerAny
  deriving DecidableEq, Repr

/-- `cms::signed_data::SignerIdentifier`. -/
inductive SignerIdentifier where
  | issuerAndSerialNumber (issuer serialNumber : List UInt8)
  | subjectKeyIdentifier (ski : List UInt8)
  deriving DecidableEq, Repr

/-- `cms::signed_data::SignerInfo`, with its DER. -/
structure SignerInfo where
  der : List UInt8
  sid : SignerIdentifier
  digestAlg : String
  signedAttrs : Option (List Attribute)
  signature : List UInt8
  unsignedAttrs : Option (List Attribute)
  deriving DecidableEq, Repr

/-- An X.509 extension. -/
structure Extension where
  extnId : String
  extnValue : List UInt8
  deriving DecidableEq, Repr

/-- `x509_cert::Certificate`, with its DER. -/
structure Certificate where
  der : List UInt8
  issuer : List UInt8
  serialNumber : List UInt8
  extensions : Option (List Extension)
  /-- The algorithm of the public key, and the DER of the `SubjectPublicKeyInfo`. -/
  spkiAlgorithm : String
  spkiDer : List UInt8
  deriving DecidableEq, Repr

/-- `cms::cert::CertificateChoices`. -/
inductive CertificateChoices where
  | certificate (cert : Certificate)
  | other (der : List UInt8)
  deriving DecidableEq, Repr

/-- The DER of a certificate choice. -/
def CertificateChoices.der : CertificateChoices → List UInt8
  | certificate cert => cert.der
  | other der => der

/-- `cms::signed_data::SignedData`. -/
structure SignedData where
  econtentType : String
  econtent : Option DerAny
  certificates : Option (List CertificateChoices)
  signerInfos : List SignerInfo
  deriving DecidableEq, Repr

/-! ## The decoders -/

/-- `ID_SIGNED_DATA_OID`. -/
def idSignedDataOid : String := "1.2.840.113549.1.7.2"

/-- A decoded SET OF has the elements that were encoded, each once and in
ascending order. -/
structure DecodedSet (encoded : List Tlv) (decoded : List (List UInt8)) : Prop where
  perm : decoded.Perm (encoded.map Tlv.raw)
  ascending : decoded.Pairwise (· < ·)

/-- A `SignedData` as the values of its fields. -/
structure SignedDataReads (fields : List Tlv) (sd : SignedData) : Prop where
  certificates : ∀ {choices}, sd.certificates = some choices →
    ∃ tlvs, certificateTlvs fields = some tlvs ∧
      DecodedSet tlvs (choices.map CertificateChoices.der)
  no_certificates : sd.certificates = none → certificateTlvs fields = none
  signerInfos : ∃ tlvs, signerInfoTlvs fields = some tlvs ∧
    DecodedSet tlvs (sd.signerInfos.map SignerInfo.der)
  signerInfos_tag : ∃ last, fields.getLast? = some last ∧ last.tag = 0x31
  length_fields : 4 ≤ fields.length

/-- The crates behind the CMS code: `cms`, `der`, `x509-cert`, `rsa` and the hash
functions. -/
structure CmsCrates where
  hashes : Hashes
  /-- `SliceReader::new`. -/
  sliceReader : List UInt8 → Outcome Unit
  /-- `Header::decode` of a reader over the bytes: a tag, a length and what follows. -/
  header : List UInt8 → Outcome (UInt8 × Nat × List UInt8)
  /-- `ContentInfo::decode`. -/
  contentInfo : List UInt8 → Outcome ContentInfo
  /-- `SignedData::from_der`; decoding an `Any` as one is decoding its DER. -/
  signedData : List UInt8 → Outcome SignedData
  /-- `Any::decode_as::<SpcIndirectDataContent>`. -/
  spcIndirectData : DerAny → Outcome SpcIndirectDataContent
  /-- `Any::decode_as::<OctetString>`. -/
  octetString : DerAny → Outcome (List UInt8)
  /-- `OctetStringRef::decode`. -/
  octetStringRef : List UInt8 → Outcome (List UInt8)
  /-- `ObjectIdentifier::from_der`. -/
  objectIdentifier : List UInt8 → Outcome String
  /-- `ExtendedKeyUsage::from_der`. -/
  extendedKeyUsage : List UInt8 → Outcome (List String)
  /-- `SubjectKeyIdentifier::from_der`. -/
  subjectKeyIdentifier : List UInt8 → Outcome (List UInt8)
  /-- `Certificate::from_der`. -/
  certificate : List UInt8 → Outcome Certificate
  /-- The reading of a `SignerInfo`. -/
  signerInfo : List UInt8 → Outcome SignerInfo
  /-- The DER of a SET OF attributes. -/
  encodeAttributes : List Attribute → Outcome (List UInt8)
  /-- `RsaPublicKey::from_public_key_der`. -/
  rsaPublicKey : List UInt8 → Outcome (List UInt8)
  /-- `pkcs1v15::Signature::try_from`. -/
  pkcs1v15Signature : List UInt8 → Outcome (List UInt8)
  /-- `VerifyingKey::verify_prehash` for a hash kind. -/
  verifyPrehash : PeAuthenticodeHashKind → List UInt8 → List UInt8 → List UInt8 → Outcome Unit
  /-- A header and the bytes it counts are an element. -/
  header_reads : ∀ {bytes tag len rest}, header bytes = .ok (tag, len, rest) → len ≤ rest.length →
    ∃ element, readTlv 4 bytes = some (element, rest.drop len) ∧ element.tag = tag ∧
      element.value = rest.take len
  /-- The content of a `ContentInfo` is its content element. -/
  contentInfo_reads : ∀ {bytes ci}, contentInfo bytes = .ok ci → ci.contentType = idSignedDataOid →
    (contentElement bytes).map Tlv.raw = some ci.content.toDer
  /-- A `SignedData` is one SEQUENCE, and reads its fields. -/
  signedData_reads : ∀ {bytes sd}, signedData bytes = .ok sd →
    ∃ element fields, readTlv 4 bytes = some (element, []) ∧ element.tag = 0x30 ∧
      readTlvs 4 element.value = some fields ∧ SignedDataReads fields sd
  /-- A certificate is a SEQUENCE and is written as it was read. -/
  der_of_certificate : ∀ {bytes cert}, certificate bytes = .ok cert →
    cert.der = bytes ∧ bytes.head? = some 0x30
  /-- The same bytes decode to the same `SignerInfo`. -/
  signerInfo_of_signedData : ∀ {bytes sd si}, signedData bytes = .ok sd → si ∈ sd.signerInfos →
    signerInfo si.der = .ok si
  /-- The certificates of a `SignedData` are the choices that are a SEQUENCE. -/
  certificate_of_signedData : ∀ {bytes sd choices cert}, signedData bytes = .ok sd →
    sd.certificates = some choices → CertificateChoices.certificate cert ∈ choices →
    certificate cert.der = .ok cert
  other_of_signedData : ∀ {bytes sd choices der}, signedData bytes = .ok sd →
    sd.certificates = some choices → CertificateChoices.other der ∈ choices →
    der.head? ≠ some 0x30
  /-- An indirect data content is a SEQUENCE. -/
  tag_of_spcIndirectData : ∀ {any indirect}, spcIndirectData any = .ok indirect → any.tag = 0x30

variable (cms : CmsCrates)

/-- `read_slice`: that many bytes, and the bytes after them. -/
def readSlice (len : Nat) (bytes : List UInt8) : Outcome (List UInt8 × List UInt8) :=
  if len ≤ bytes.length then .ok (bytes.take len, bytes.drop len)
  else Outcome.bail "ASN.1 DER message is incomplete"

/-! ## Reading a SignedData -/

/-- `parse_pkcs7_signed_data_der`. -/
def parsePkcs7SignedDataDer (pkcs7Der : List UInt8) : Outcome SignedData := do
  let bytes := normalizePkcs7DerForAuthenticode pkcs7Der
  (cms.sliceReader bytes).mapErr fun _ => "empty PKCS#7"
  let ci ← (cms.contentInfo bytes).mapErr fun e => "PKCS#7 ContentInfo decode: " ++ e
  Outcome.guardThat (ci.contentType = idSignedDataOid)
    ("PKCS#7 root content type is not SignedData (got " ++ ci.contentType ++ ")")
  (cms.signedData ci.content.toDer).mapErr fun e => "SignedData: " ++ e

/-- `SUBJECT_KEY_IDENTIFIER_EXT_OID`. -/
def subjectKeyIdentifierExtOid : String := "2.5.29.14"

/-- Whether one of the extensions is the subject key identifier `want`. -/
def hasSubjectKeyIdentifier (want : List UInt8) : List Extension → Outcome Bool
  | [] => .ok false
  | ext :: rest =>
    if ext.extnId = subjectKeyIdentifierExtOid then do
      let got ← (cms.subjectKeyIdentifier ext.extnValue).mapErr fun e =>
        "SKI extension parse: " ++ e
      if got = want then .ok true else hasSubjectKeyIdentifier want rest
    else hasSubjectKeyIdentifier want rest

/-- The test of one certificate in `signed_data_certificate_for_signer_identifier`. -/
def matchesSignerIdentifier (cert : Certificate) : SignerIdentifier → Outcome Bool
  | .issuerAndSerialNumber issuer serialNumber =>
      .ok (decide (cert.issuer = issuer ∧ cert.serialNumber = serialNumber))
  | .subjectKeyIdentifier want =>
      match cert.extensions with
      | none => .ok false
      | some exts => hasSubjectKeyIdentifier cms want exts

/-- The loop of `signed_data_certificate_for_signer_identifier`. -/
def certificateForSignerIdentifier (sid : SignerIdentifier) :
    List CertificateChoices → Outcome Certificate
  | [] => Outcome.bail "no embedded certificate matches SignerIdentifier"
  | .other _ :: rest => certificateForSignerIdentifier sid rest
  | .certificate cert :: rest => do
      if ← matchesSignerIdentifier cms cert sid then .ok cert
      else certificateForSignerIdentifier sid rest

/-- `signed_data_certificate_for_signer_identifier`. -/
def signedDataCertificateForSignerIdentifier (sd : SignedData) (sid : SignerIdentifier) :
    Outcome Certificate := do
  let set ← Outcome.ofOption sd.certificates "SignedData has no certificates"
  certificateForSignerIdentifier cms sid set

/-! ## Digests -/

/-- `DIGEST_OID_SHA256`. -/
def digestOidSha256 : String := "2.16.840.1.101.3.4.2.1"

/-- `PKCS9_MESSAGE_DIGEST_OID`. -/
def pkcs9MessageDigestOid : String := "1.2.840.113549.1.9.4"

/-- `RSA_ENCRYPTION_OID`. -/
def rsaEncryptionOid : String := "1.2.840.113549.1.1.1"

/-- `signed_data_spc_indirect_message_digest_octets`. -/
def signedDataSpcIndirectMessageDigestOctets (sd : SignedData) : Outcome (List UInt8) := do
  let encapAny ← Outcome.ofOption sd.econtent "SignedData missing encapsulated content"
  let indirect ← (cms.spcIndirectData encapAny).mapErr fun e => "SpcIndirectDataContent: " ++ e
  return indirect.digest

/-- The hash kind of a digest algorithm in `cms_digest_encapsulated_econtent_bytes`. -/
def digestKind? (oid : String) : Option PeAuthenticodeHashKind :=
  if oid = digestOidSha256 then some .sha256
  else if oid = "1.3.14.3.2.26" then some .sha1
  else if oid = "2.16.840.1.101.3.4.2.2" then some .sha384
  else if oid = "2.16.840.1.101.3.4.2.3" then some .sha512
  else none

/-- `cms_digest_encapsulated_econtent_bytes`: the digest of the contents octets,
without tag and length. -/
def cmsDigestEncapsulatedEcontentBytes (digestAlgOid : String) (econtent : DerAny) :
    Outcome (List UInt8) :=
  match digestKind? digestAlgOid with
  | some kind => .ok (cms.hashes.hash kind econtent.value)
  | none => Outcome.bail ("unsupported digest OID for CMS encap hash: " ++ digestAlgOid)

/-- `cms_digest_encapsulated_econtent_bytes_from_signed_data`. -/
def cmsDigestEncapsulatedEcontentBytesFromSignedData (sd : SignedData) :
    Outcome (List UInt8) := do
  let si ← Outcome.ofOption sd.signerInfos.head? "SignedData has no SignerInfo"
  let encap ← Outcome.ofOption sd.econtent "SignedData missing encapContentInfo eContent"
  cmsDigestEncapsulatedEcontentBytes cms si.digestAlg encap

/-- The PKCS#9 `messageDigest` among attributes. -/
def messageDigestOctets (attrs : List Attribute) : Outcome (List UInt8) :=
  match attrs.find? (·.oid = pkcs9MessageDigestOid) with
  | none => Outcome.bail "PKCS#9 messageDigest attribute not found"
  | some attr => do
      let any ← Outcome.ofOption attr.values.head? "messageDigest attribute has empty SET"
      (cms.octetString any).mapErr fun e => "messageDigest attribute OCTET STRING: " ++ e

/-- `signer_info_pkcs9_message_digest_octets`. -/
def signerInfoPkcs9MessageDigestOctets (si : SignerInfo) : Outcome (List UInt8) := do
  let attrs ← Outcome.ofOption si.signedAttrs "SignerInfo has no authenticated attributes"
  messageDigestOctets cms attrs

/-- `signer_info_signed_attributes_sequence_der`. -/
def signerInfoSignedAttributesSequenceDer (si : SignerInfo) : Outcome (List UInt8) := do
  let attrs ← Outcome.ofOption si.signedAttrs "SignerInfo has no authenticated attributes"
  (cms.encodeAttributes attrs).mapErr fun e =>
    "encode authenticated attributes SET OF Attribute: " ++ e

/-- `signer_info_sha256_digest_over_signed_attrs`. -/
def signerInfoSha256DigestOverSignedAttrs (si : SignerInfo) : Outcome (List UInt8) := do
  let der ← signerInfoSignedAttributesSequenceDer cms si
  return cms.hashes.hash .sha256 der

/-! ## The signature -/

/-- The `SignerInfo` at an index. -/
def signerInfoAt (sd : SignedData) (signerIndex : Nat) : Outcome SignerInfo :=
  Outcome.ofOption sd.signerInfos[signerIndex]?
    ("SignerInfo index " ++ toString signerIndex ++ " out of range (len " ++
      toString sd.signerInfos.length ++ ")")

/-- `verify_signed_data_rsa_sha256_pkcs1v15_signature`. -/
def verifySignedDataRsaSha256Pkcs1v15Signature (sd : SignedData) (signerIndex : Nat) :
    Outcome Unit := do
  let si ← signerInfoAt sd signerIndex
  Outcome.guardThat (si.digestAlg = digestOidSha256)
    ("CMS fallback trust requires SignerInfo digestAlgorithm SHA-256 (got " ++ si.digestAlg ++ ")")
  let cert ← signedDataCertificateForSignerIdentifier cms sd si.sid
  Outcome.guardThat (cert.spkiAlgorithm = rsaEncryptionOid)
    ("CMS fallback trust requires RSA public key (got algorithm OID " ++ cert.spkiAlgorithm ++ ")")
  let pk ← (cms.rsaPublicKey cert.spkiDer).mapErr fun e => "RSA public key from certificate: " ++ e
  let prehash ← signerInfoSha256DigestOverSignedAttrs cms si
  let sig ← (cms.pkcs1v15Signature si.signature).mapErr fun e =>
    "SignerInfo.signature PKCS#1 v1.5 octets: " ++ e
  (cms.verifyPrehash .sha256 pk prehash sig).mapErr fun e =>
    "RSA PKCS#1 v1.5 verify over signedAttrs (SHA-256): " ++ e

/-- `verify_signed_data_authenticode_indirect_digest_and_rsa_sha256_pkcs1v15_signature`. -/
def verifySignedDataAuthenticodeIndirectDigestAndRsaSha256Pkcs1v15Signature (sd : SignedData)
    (signerIndex : Nat) (expectedSubjectDigest : List UInt8) : Outcome Unit := do
  let indirect ← signedDataSpcIndirectMessageDigestOctets cms sd
  Outcome.guardThat (indirect = expectedSubjectDigest)
    "SpcIndirectData messageDigest does not match expected subject digest"
  verifySignedDataRsaSha256Pkcs1v15Signature cms sd signerIndex

/-- `verify_signed_data_pkcs9_message_digest_and_rsa_sha256_pkcs1v15_signature`. -/
def verifySignedDataPkcs9MessageDigestAndRsaSha256Pkcs1v15Signature (sd : SignedData)
    (signerIndex : Nat) (expectedContentDigest : List UInt8) : Outcome Unit := do
  let si ← signerInfoAt sd signerIndex
  let md ← signerInfoPkcs9MessageDigestOctets cms si
  Outcome.guardThat (md = expectedContentDigest)
    "PKCS#9 messageDigest does not match expected content digest"
  verifySignedDataRsaSha256Pkcs1v15Signature cms sd signerIndex

/-! ## What a verified signature says -/

/-- A signature over attributes verifies with a public key. -/
def SignatureVerifies (kind : PeAuthenticodeHashKind) (spkiDer : List UInt8)
    (attrs : List Attribute) (signature : List UInt8) : Prop :=
  ∃ der pk sig, cms.encodeAttributes attrs = .ok der ∧ cms.rsaPublicKey spkiDer = .ok pk ∧
    cms.pkcs1v15Signature signature = .ok sig ∧
    cms.verifyPrehash kind pk (cms.hashes.hash kind der) sig = .ok ()

variable {cms}

theorem verifySignedDataRsa_eq_ok {sd : SignedData} {signerIndex : Nat}
    (h : verifySignedDataRsaSha256Pkcs1v15Signature cms sd signerIndex = .ok ()) :
    ∃ si attrs cert, sd.signerInfos[signerIndex]? = some si ∧ si.signedAttrs = some attrs ∧
      si.digestAlg = digestOidSha256 ∧
      signedDataCertificateForSignerIdentifier cms sd si.sid = .ok cert ∧
      SignatureVerifies cms .sha256 cert.spkiDer attrs si.signature := by
  simp only [verifySignedDataRsaSha256Pkcs1v15Signature, signerInfoAt,
    signerInfoSha256DigestOverSignedAttrs, signerInfoSignedAttributesSequenceDer,
    Outcome.bind_eq_ok, Outcome.guardThat_eq_ok, Outcome.ofOption_eq_ok, Outcome.mapErr_eq_ok,
    Outcome.pure_eq_ok, Except.ok.injEq, exists_const] at h
  obtain ⟨si, hsi, halg, cert, hcert, -, pk, hpk, _, ⟨der, ⟨attrs, hattrs, hder⟩, rfl⟩, sig, hsig,
    hverify⟩ := h
  exact ⟨si, attrs, cert, hsi, hattrs, halg, hcert, der, pk, sig, hder, hpk, hsig, hverify⟩

theorem parsePkcs7SignedDataDer_eq_ok {pkcs7Der : List UInt8} {sd : SignedData}
    (h : parsePkcs7SignedDataDer cms pkcs7Der = .ok sd) :
    ∃ ci, cms.contentInfo (normalizePkcs7DerForAuthenticode pkcs7Der) = .ok ci ∧
      ci.contentType = idSignedDataOid ∧ cms.signedData ci.content.toDer = .ok sd := by
  simp only [parsePkcs7SignedDataDer, Outcome.bind_eq_ok, Outcome.mapErr_eq_ok,
    Outcome.guardThat_eq_ok, exists_const] at h
  obtain ⟨_, -, ci, hci, htype, hsd⟩ := h
  exact ⟨ci, hci, htype, hsd⟩

/-- The certificate that issuer and serial number name is the first with them. -/
theorem certificateForSignerIdentifier_eq_ok {issuer serialNumber : List UInt8}
    {choices : List CertificateChoices} {cert : Certificate}
    (h : certificateForSignerIdentifier cms (.issuerAndSerialNumber issuer serialNumber) choices =
      .ok cert) :
    ∃ before after, choices = before ++ .certificate cert :: after ∧
      (cert.issuer = issuer ∧ cert.serialNumber = serialNumber) ∧
      ∀ other, .certificate other ∈ before →
        ¬ (other.issuer = issuer ∧ other.serialNumber = serialNumber) := by
  induction choices with
  | nil => simp [certificateForSignerIdentifier] at h
  | cons choice rest ih =>
    cases choice with
    | other der =>
      obtain ⟨before, after, rfl, hcert, hbefore⟩ := ih h
      refine ⟨.other der :: before, after, rfl, hcert, ?_⟩
      intro other hother
      rcases List.mem_cons.mp hother with heq | hmem
      · exact absurd heq (by simp)
      · exact hbefore other hmem
    | certificate first =>
      simp only [certificateForSignerIdentifier, matchesSignerIdentifier, Outcome.ok_bind,
        decide_eq_true_eq] at h
      by_cases hfirst : first.issuer = issuer ∧ first.serialNumber = serialNumber
      · rw [if_pos hfirst, Except.ok.injEq] at h
        subst h
        exact ⟨[], rest, rfl, hfirst, by simp⟩
      · rw [if_neg hfirst] at h
        obtain ⟨before, after, rfl, hcert, hbefore⟩ := ih h
        refine ⟨.certificate first :: before, after, rfl, hcert, ?_⟩
        intro other hother
        rcases List.mem_cons.mp hother with heq | hmem
        · obtain rfl := CertificateChoices.certificate.inj heq
          exact hfirst
        · exact hbefore other hmem

/-- The certificate of a signer is one of the embedded certificates. -/
theorem mem_of_signerCertificate {sid : SignerIdentifier} {choices : List CertificateChoices}
    {cert : Certificate} (h : certificateForSignerIdentifier cms sid choices = .ok cert) :
    CertificateChoices.certificate cert ∈ choices := by
  induction choices with
  | nil => simp [certificateForSignerIdentifier] at h
  | cons choice rest ih =>
    cases choice with
    | other der => exact List.mem_cons_of_mem _ (ih h)
    | certificate first =>
      simp only [certificateForSignerIdentifier, Outcome.bind_eq_ok] at h
      obtain ⟨found, -, h⟩ := h
      by_cases hfound : found = true
      · rw [if_pos hfound, Except.ok.injEq] at h
        exact h ▸ List.mem_cons_self
      · rw [if_neg hfound] at h
        exact List.mem_cons_of_mem _ (ih h)

/-- A decoded SET OF has no repetition among the elements that were encoded. -/
theorem DecodedSet.nodup {encoded : List Tlv} {decoded : List (List UInt8)}
    (h : DecodedSet encoded decoded) : (encoded.map Tlv.raw).Nodup := by
  apply h.perm.nodup_iff.mp
  refine h.ascending.imp ?_
  intro a b hlt heq
  exact List.lt_irrefl b (heq ▸ hlt)

/-- The order of a decoded SET OF is determined by its elements. -/
theorem DecodedSet.unique {encoded encoded' : List Tlv} {decoded decoded' : List (List UInt8)}
    (h : DecodedSet encoded decoded) (h' : DecodedSet encoded' decoded')
    (hsame : encoded.map Tlv.raw = encoded'.map Tlv.raw) : decoded = decoded' := by
  refine List.Perm.eq_of_pairwise ?_ h.ascending h'.ascending
    (h.perm.trans (hsame ▸ h'.perm.symm))
  intro a b _ _ hab hba
  exact absurd hba (List.lt_asymm hab)

/-- Decoding reads the fields that the walk finds. -/
theorem signedDataFields_of_decoded {bytes : List UInt8} {ci : ContentInfo} {sd : SignedData}
    (hci : cms.contentInfo bytes = .ok ci) (htype : ci.contentType = idSignedDataOid)
    (hsd : cms.signedData ci.content.toDer = .ok sd) :
    ∃ fields, signedDataFields bytes = some fields ∧ SignedDataReads fields sd := by
  obtain ⟨element, helement, hraw⟩ := Option.map_eq_some_iff.mp (cms.contentInfo_reads hci htype)
  obtain ⟨found, fields, hread, htag, hfields, hreads⟩ := cms.signedData_reads hsd
  have hisTlv : readTlv 4 element.raw = some (element, []) := isTlv_of_contentElement helement
  rw [hraw, hread, Option.some.injEq, Prod.mk.injEq] at hisTlv
  obtain ⟨rfl, -⟩ := hisTlv
  exact ⟨fields, by simp [signedDataFields, helement, htag, hfields], hreads⟩

/-- Normalizing once more changes nothing about a blob that is decoded. -/
theorem normalize_of_decoded {bytes : List UInt8} {ci : ContentInfo} {sd : SignedData}
    (hci : cms.contentInfo bytes = .ok ci) (htype : ci.contentType = idSignedDataOid)
    (hsd : cms.signedData ci.content.toDer = .ok sd) :
    normalizePkcs7DerForAuthenticode bytes = bytes := by
  obtain ⟨fields, hfields, hreads⟩ := signedDataFields_of_decoded hci htype hsd
  refine normalize_of_nodup hfields ?_
  intro tlvs htlvs
  cases hcertificates : sd.certificates with
  | none =>
    rw [hreads.no_certificates hcertificates] at htlvs
    exact absurd htlvs (by simp)
  | some choices =>
    obtain ⟨found, hfound, hset⟩ := hreads.certificates hcertificates
    obtain rfl : found = tlvs := Option.some.inj (hfound.symm.trans htlvs)
    exact hset.nodup

/-- Parsing a normalized blob that is decoded is parsing the blob. -/
theorem parse_normalize {pkcs7Der : List UInt8} {sd : SignedData}
    (h : parsePkcs7SignedDataDer cms pkcs7Der = .ok sd) :
    parsePkcs7SignedDataDer cms (normalizePkcs7DerForAuthenticode pkcs7Der) = .ok sd := by
  obtain ⟨ci, hci, htype, hsd⟩ := parsePkcs7SignedDataDer_eq_ok h
  rw [← h]
  unfold parsePkcs7SignedDataDer
  rw [normalize_of_decoded hci htype hsd]

end Psign.Sip
