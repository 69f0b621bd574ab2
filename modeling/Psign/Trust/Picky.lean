import Psign.Sip.Pkcs7

/-!
# The `picky` crate

What the trust code uses of `picky`: certificates, the Authenticode parser and
validator, and the verifier of a certificate chain.

`PickyCrate` is a parameter with laws.  They say that `picky` reads the same bytes
as the CMS decoder does but keeps the order of the encoding, that the signing
certificate is selected by issuer and serial number, and what basic Authenticode
validation checks.
-/

namespace Psign.Trust

open CodeLib CodeLib.Der Psign.Sip

/-- `picky::x509::date::UtcDate`. -/
structure UtcDate where
  year : Nat
  month : Nat
  day : Nat
  hour : Nat
  minute : Nat
  second : Nat
  deriving DecidableEq, Repr

/-- `picky::x509::certificate::Cert`, with its DER. -/
structure Cert where
  der : List UInt8
  subjectName : List UInt8
  issuerName : List UInt8
  serialNumber : List UInt8
  publicKeyDer : List UInt8
  deriving DecidableEq, Repr

/-- A `SignerInfo` as `picky` reads it. -/
structure PickySignerInfo where
  der : List UInt8
  sid : SignerIdentifier
  hashKind : PeAuthenticodeHashKind
  signedAttrs : List Attribute
  signature : List UInt8
  deriving DecidableEq, Repr

/-- `picky::x509::pkcs7::authenticode::AuthenticodeSignature`. -/
structure AuthenticodeSignature where
  /-- `decode_certificates`, in the order of the encoding. -/
  certificates : List Cert
  signerInfos : List PickySignerInfo
  /-- The encapsulated `SpcIndirectDataContent`. -/
  content : DerAny
  deriving DecidableEq, Repr

/-- Whether a certificate is the one that issuer and serial number name. -/
def Cert.hasIdentity (issuer serialNumber : List UInt8) (cert : Cert) : Bool :=
  decide (cert.issuerName = issuer ∧ cert.serialNumber = serialNumber)

/-- The certificate that issuer and serial number of the first `SignerInfo` select. -/
def AuthenticodeSignature.selectedSigner (sig : AuthenticodeSignature) (certificates : List Cert) :
    Option Cert := do
  match (← sig.signerInfos.head?).sid with
  | .issuerAndSerialNumber issuer serialNumber =>
      certificates.find? (·.hasIdentity issuer serialNumber)
  | .subjectKeyIdentifier _ => none

/-- What basic Authenticode validation checks: the one `SignerInfo` is signed by
the signing certificate, its `messageDigest` is the digest of the encapsulated
content, and that content carries the digest of the subject. -/
structure BasicValidation (cms : CmsCrates) (sig : AuthenticodeSignature)
    (subjectDigest : List UInt8) (si : PickySignerInfo) (signer : Cert)
    (indirect : SpcIndirectDataContent) : Prop where
  signerInfos : sig.signerInfos = [si]
  selects : sig.selectedSigner sig.certificates = some signer
  signature : SignatureVerifies cms si.hashKind signer.publicKeyDer si.signedAttrs si.signature
  messageDigest : messageDigestOctets cms si.signedAttrs =
    .ok (cms.hashes.hash si.hashKind sig.content.value)
  content : cms.spcIndirectData sig.content = .ok indirect
  subjectDigest : indirect.digest = subjectDigest

/-- The functions of `picky` and their laws. -/
structure PickyCrate (cms : CmsCrates) where
  /-- `Cert::from_der`. -/
  certFromDer : List UInt8 → Outcome Cert
  /-- `Cert::from_pem_str`. -/
  certFromPem : List UInt8 → Outcome Cert
  /-- `AuthenticodeSignature::from_der`. -/
  authenticodeFromDer : List UInt8 → Outcome AuthenticodeSignature
  /-- `require_basic_authenticode_validation` without the chain check; the flag
  asks for the signing certificate check. -/
  basicValidation : AuthenticodeSignature → List UInt8 → UtcDate → Bool → Outcome Unit
  /-- `signing_certificate`. -/
  signingCertificate : AuthenticodeSignature → List Cert → Outcome Cert
  /-- `Cert::verifier` with a chain and an exact date. -/
  verifyChain : Cert → List Cert → UtcDate → Outcome Unit
  /-- `{:?}` and `{}` of a name. -/
  debugName : List UInt8 → String
  displayName : List UInt8 → String
  /-- A certificate is a SEQUENCE and is written as it was read. -/
  der_of_certFromDer : ∀ {bytes cert}, certFromDer bytes = .ok cert →
    cert.der = bytes ∧ bytes.head? = some 0x30
  /-- Both decoders read the same issuer and serial number. -/
  identity_of_certFromDer : ∀ {bytes cert x509}, certFromDer bytes = .ok cert →
    cms.certificate bytes = .ok x509 →
    cert.issuerName = x509.issuer ∧ cert.serialNumber = x509.serialNumber
  /-- The certificates are those of the certificate set, in the order of the encoding. -/
  certificates_of_authenticode : ∀ {bytes sig fields}, authenticodeFromDer bytes = .ok sig →
    signedDataFields bytes = some fields →
    sig.certificates =
      ((certificateTlvs fields).getD []).filterMap fun tlv => (certFromDer tlv.raw).toOption
  /-- The signer infos are those of the encoding. -/
  signerInfos_of_authenticode : ∀ {bytes sig fields}, authenticodeFromDer bytes = .ok sig →
    signedDataFields bytes = some fields →
    ∃ tlvs, signerInfoTlvs fields = some tlvs ∧
      sig.signerInfos.map PickySignerInfo.der = tlvs.map Tlv.raw
  /-- Both decoders read the same signer identifier and signature. -/
  signerInfo_agrees : ∀ {bytes sig si cmsSi}, authenticodeFromDer bytes = .ok sig →
    si ∈ sig.signerInfos → cms.signerInfo si.der = .ok cmsSi →
    cmsSi.sid = si.sid ∧ cmsSi.signature = si.signature
  signingCertificate_selects : ∀ {sig certificates signer},
    signingCertificate sig certificates = .ok signer →
    sig.selectedSigner certificates = some signer
  basicValidation_checks : ∀ {sig subjectDigest date strict},
    basicValidation sig subjectDigest date strict = .ok () →
    ∃ si signer indirect, BasicValidation cms sig subjectDigest si signer indirect

end Psign.Trust
