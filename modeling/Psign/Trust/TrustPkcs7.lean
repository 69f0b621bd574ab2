import Psign.CodeLib.Bytes
import Psign.Trust.Tables

/-!
# Trust in a PKCS#7 signature

`trust_pkcs7.rs`: the verification of a signature whose subject digest is known.
`picky` validates what it can parse; anything else goes through the CMS fallback,
which checks the digest binding and the RSA signature itself.  Both end in the
same walk from the signer's certificate to an anchor.

`AcceptedSignature` is what a successful run has accepted, read off the blob for
either path.  The results compare it with the subject digest: `picky` links the
signed attributes, the encapsulated content and the subject digest with each
other, while the fallback does not look at the `messageDigest` attribute.
-/

namespace Psign.Trust

open CodeLib CodeLib.Bytes Psign.Sip

/-! ## The code -/

/-- `AuthenticodeTrustPolicy`. -/
structure AuthenticodeTrustPolicy where
  strictCodeSigningEku : Bool
  preferTimestampSigningTime : Bool
  requireValidTimestamp : Bool
  deriving DecidableEq, Repr

/-- `EKU_EXTENSION_OID`. -/
def ekuExtensionOid : String := "2.5.29.37"

/-- The value octets of `CODE_SIGNING_EKU_OID`. -/
def codeSigningEkuOid : List UInt8 := [0x2B, 0x06, 0x01, 0x05, 0x05, 0x07, 0x03, 0x03]

/-- The loop of `oid_value_is_canonical`. -/
def oidValueFrom : Bool → List UInt8 → Bool
  | startsSubidentifier, [] => startsSubidentifier
  | startsSubidentifier, byte :: rest =>
    if startsSubidentifier && byte = 0x80 then false else oidValueFrom (byte < 0x80) rest

/-- `oid_value_is_canonical`. -/
def oidValueIsCanonical (value : List UInt8) : Bool :=
  if value.isEmpty then false else oidValueFrom true value

variable (env : Environment)

/-- The loop of `extended_key_usage_contains`, for at most `fuel` entries. -/
def ekuEntriesContain (expected : List UInt8) : Nat → List UInt8 → Bool → Outcome Bool
  | _, [], found => .ok found
  | 0, _ :: _, _ => .error .outOfFuel
  | fuel + 1, byte :: rest, found => do
    let (tag, len, after) ← (env.cms.header (byte :: rest)).mapErr fun e =>
      "ExtendedKeyUsage OID header: " ++ e
    Outcome.guardThat (tag = 0x06) "ExtendedKeyUsage entry is not an OBJECT IDENTIFIER"
    let (value, after) ← (readSlice len after).mapErr fun e => "ExtendedKeyUsage OID value: " ++ e
    Outcome.guardThat (oidValueIsCanonical value = true)
      "ExtendedKeyUsage contains a non-canonical or truncated OID"
    ekuEntriesContain expected fuel after (found || value = expected)

/-- `extended_key_usage_contains`. -/
def extendedKeyUsageContains (der expected : List UInt8) : Outcome Bool := do
  (env.cms.sliceReader der).mapErr fun e => "ExtendedKeyUsage extension reader: " ++ e
  let (tag, len, after) ← (env.cms.header der).mapErr fun e =>
    "ExtendedKeyUsage extension header: " ++ e
  Outcome.guardThat (tag = 0x30) "ExtendedKeyUsage extension is not a SEQUENCE"
  let (body, trailing) ← (readSlice len after).mapErr fun e =>
    "ExtendedKeyUsage extension body: " ++ e
  Outcome.guardThat (trailing = []) "ExtendedKeyUsage extension trailing data"
  ekuEntriesContain env expected body.length body false

/-- The loop of `x509_cert_has_code_signing_eku`. -/
def anyCodeSigningEku : List Extension → Outcome Bool
  | [] => .ok false
  | ext :: rest =>
    if ext.extnId = ekuExtensionOid then do
      if ← extendedKeyUsageContains env ext.extnValue codeSigningEkuOid then .ok true
      else anyCodeSigningEku rest
    else anyCodeSigningEku rest

/-- `x509_cert_has_code_signing_eku`. -/
def x509CertHasCodeSigningEku (cert : Certificate) : Outcome Bool :=
  match cert.extensions with
  | none => .ok false
  | some exts => anyCodeSigningEku env exts

/-- The loop of both functions named `signed_data_embedded_picky_certs`. -/
def pickyCertsOf (label : String) : List CertificateChoices → Outcome (List Cert)
  | [] => .ok []
  | .other _ :: rest => pickyCertsOf label rest
  | .certificate cert :: rest => do
    let first ← (env.picky.certFromDer cert.der).mapErr fun e => label ++ ": " ++ e
    let others ← pickyCertsOf label rest
    return first :: others

/-- `signed_data_embedded_picky_certs`. -/
def signedDataEmbeddedPickyCerts (sd : SignedData) : Outcome (List Cert) :=
  match sd.certificates with
  | none => .ok []
  | some set => pickyCertsOf env "picky embedded certificate" set

/-- `verify_trust_chain_verbose`; what it prints is left out. -/
def verifyTrustChainVerbose (pkcs7Index : Nat) (leaf : Cert) (chain : List Cert)
    (rootThumb : List UInt8) (verificationInstant : UtcDate) : Outcome Unit :=
  if leaf.subjectName = leaf.issuerName ∧ certSha1Thumbprint env.cms.hashes leaf = rootThumb then
    .ok ()
  else
    (env.picky.verifyChain leaf chain verificationInstant).mapErr fun e =>
      "certificate chain verification (PKCS#7 " ++ toString pkcs7Index ++ "): " ++ e

/-- The end of both paths: the chain of the leaf, its anchor, revocation, and the
signatures and validity periods at the instant. -/
def verifyLeafToAnchors (fuel pkcs7Index : Nat) (leaf : Cert) (merged : List Cert)
    (anchors : AnchorStore) (online : OnlineTrustOptions) (verificationInstant : UtcDate) :
    Outcome Unit := do
  let chain ← issuerChainExcludingLeafOnline env fuel leaf merged online (some anchors)
  let rootThumb := certSha1Thumbprint env.cms.hashes (terminalRootCert leaf chain)
  Outcome.guardThat (anchors.containsThumbprint rootThumb = true)
    ("terminal root certificate is not in the anchor store (SHA-1 thumbprint " ++
      hexLower (rootThumb.take 2) ++ "…)")
  checkRevocationChain env leaf chain online
  verifyTrustChainVerbose env pkcs7Index leaf chain rootThumb verificationInstant

/-- `CmsDigestCheck`. -/
inductive CmsDigestCheck where
  | authenticodeIndirect (subjectDigest : List UInt8)
  | pkcs9MessageDigest (contentDigest : List UInt8)
  deriving DecidableEq

/-- The digest check of the fallback. -/
def verifyCmsDigest (pkcs7Index : Nat) (sd : SignedData) : CmsDigestCheck → Outcome Unit
  | .authenticodeIndirect subjectDigest =>
      (verifySignedDataAuthenticodeIndirectDigestAndRsaSha256Pkcs1v15Signature env.cms sd 0
        subjectDigest).mapErr fun e =>
          "CMS RSA/SHA-256 Authenticode fallback (PKCS#7 " ++ toString pkcs7Index ++ "): " ++ e
  | .pkcs9MessageDigest contentDigest =>
      (verifySignedDataPkcs9MessageDigestAndRsaSha256Pkcs1v15Signature env.cms sd 0
        contentDigest).mapErr fun e =>
          "CMS RSA/SHA-256 detached fallback (PKCS#7 " ++ toString pkcs7Index ++ "): " ++ e

/-- The certificate that the fallback builds the chain of: the signer's, as it is
embedded or among the anchors. -/
def fallbackLeaf (embedded anchorCerts : List Cert) (signer : Cert) : Cert :=
  ((embedded ++ anchorCerts).find? fun c =>
    certSha1Thumbprint env.cms.hashes c = certSha1Thumbprint env.cms.hashes signer).getD signer

/-- `verify_pkcs7_trust_cms_rsa_sha256_fallback`. -/
def verifyPkcs7TrustCmsRsaSha256Fallback (fuel : Nat) (slice : List UInt8) (pkcs7Index : Nat)
    (digestCheck : CmsDigestCheck) (anchors : AnchorStore) (anchorCerts : List Cert)
    (policy : AuthenticodeTrustPolicy) (online : OnlineTrustOptions)
    (verificationInstant : UtcDate) : Outcome Unit := do
  let sd ← (parsePkcs7SignedDataDer env.cms slice).mapErr fun e =>
    "CMS SignedData decode (non-PE SpcIndirectData PKCS#7): " ++ e
  verifyCmsDigest env pkcs7Index sd digestCheck
  let si ← Outcome.ofOption sd.signerInfos.head? "SignedData has no SignerInfo"
  let x509Leaf ← (signedDataCertificateForSignerIdentifier env.cms sd si.sid).mapErr fun e =>
    "CMS fallback: resolve signer certificate (PKCS#7 " ++ toString pkcs7Index ++ "): " ++ e
  if policy.strictCodeSigningEku then
    let codeSigning ← x509CertHasCodeSigningEku env x509Leaf
    Outcome.guardThat (codeSigning = true)
      ("CMS fallback: leaf certificate lacks code-signing extended key usage (PKCS#7 " ++
        toString pkcs7Index ++ ")")
  let embeddedCerts ← signedDataEmbeddedPickyCerts env sd
  let merged := mergeUniqueCerts env.cms.hashes anchorCerts embeddedCerts
  let leafFromX509 ← (env.picky.certFromDer x509Leaf.der).mapErr fun e =>
    "picky signer certificate: " ++ e
  let leaf := fallbackLeaf env embeddedCerts anchorCerts leafFromX509
  verifyLeafToAnchors env fuel pkcs7Index leaf merged anchors online verificationInstant

/-- The part of `verify_authenticode_pkcs7_trust` for what `picky` parses. -/
def verifyPickySignature (fuel : Nat) (pickySig : AuthenticodeSignature) (pkcs7Index : Nat)
    (subjectDigest : List UInt8) (anchors : AnchorStore) (anchorCerts : List Cert)
    (policy : AuthenticodeTrustPolicy) (online : OnlineTrustOptions)
    (verificationInstant : UtcDate) : Outcome Unit := do
  (env.picky.basicValidation pickySig subjectDigest verificationInstant
    policy.strictCodeSigningEku).mapErr fun e =>
      "picky Authenticode validation (PKCS#7 " ++ toString pkcs7Index ++ "): " ++ e
  let merged := mergeUniqueCerts env.cms.hashes pickySig.certificates anchorCerts
  let leaf ← (env.picky.signingCertificate pickySig merged).mapErr fun e =>
    "resolve signing certificate: " ++ e
  verifyLeafToAnchors env fuel pkcs7Index leaf merged anchors online verificationInstant

/-- `verify_authenticode_pkcs7_trust`. -/
def verifyAuthenticodePkcs7Trust (fuel : Nat) (pkcs7Der : List UInt8) (pkcs7Index : Nat)
    (subjectDigest : List UInt8) (anchors : AnchorStore) (anchorCerts : List Cert)
    (policy : AuthenticodeTrustPolicy) (online : OnlineTrustOptions)
    (verificationInstant : UtcDate) : Outcome Unit :=
  let slice := normalizePkcs7DerForAuthenticode pkcs7Der
  match env.picky.authenticodeFromDer slice with
  | .ok pickySig =>
      verifyPickySignature env fuel pickySig pkcs7Index subjectDigest anchors anchorCerts policy
        online verificationInstant
  | .error _ =>
      verifyPkcs7TrustCmsRsaSha256Fallback env fuel slice pkcs7Index
        (.authenticodeIndirect subjectDigest) anchors anchorCerts policy online verificationInstant

/-- `verify_pkcs9_message_digest_pkcs7_trust`. -/
def verifyPkcs9MessageDigestPkcs7Trust (fuel : Nat) (pkcs7Der : List UInt8) (pkcs7Index : Nat)
    (contentDigest : List UInt8) (anchors : AnchorStore) (anchorCerts : List Cert)
    (policy : AuthenticodeTrustPolicy) (online : OnlineTrustOptions)
    (verificationInstant : UtcDate) : Outcome Unit :=
  verifyPkcs7TrustCmsRsaSha256Fallback env fuel (normalizePkcs7DerForAuthenticode pkcs7Der)
    pkcs7Index (.pkcs9MessageDigest contentDigest) anchors anchorCerts policy online
    verificationInstant

/-- `Pkcs7DigestBinding`. -/
inductive Pkcs7DigestBinding where
  | authenticodeIndirect
  | pkcs9MessageDigest
  deriving DecidableEq, Repr

/-- `verify_pkcs7_trust_with_binding`. -/
def verifyPkcs7TrustWithBinding (fuel : Nat) (binding : Pkcs7DigestBinding) (pkcs7Der : List UInt8)
    (pkcs7Index : Nat) (digest : List UInt8) (anchors : AnchorStore) (anchorCerts : List Cert)
    (policy : AuthenticodeTrustPolicy) (online : OnlineTrustOptions)
    (verificationInstant : UtcDate) : Outcome Unit :=
  match binding with
  | .authenticodeIndirect =>
      verifyAuthenticodePkcs7Trust env fuel pkcs7Der pkcs7Index digest anchors anchorCerts policy
        online verificationInstant
  | .pkcs9MessageDigest =>
      verifyPkcs9MessageDigestPkcs7Trust env fuel pkcs7Der pkcs7Index digest anchors anchorCerts
        policy online verificationInstant

/-! ## What a successful run has done -/

/-- A walk from a leaf that ends at an anchor, with the signatures and validity
periods checked at an instant; a leaf that issued itself and is an anchor needs
no more. -/
def LeadsToAnchor (leaf : Cert) (anchors : AnchorStore) (instant : UtcDate) : Prop :=
  ∃ chain, anchors.containsThumbprint
      (certSha1Thumbprint env.cms.hashes (terminalRootCert leaf chain)) = true ∧
    ((leaf.subjectName = leaf.issuerName ∧ terminalRootCert leaf chain = leaf) ∨
      env.picky.verifyChain leaf chain instant = .ok ())

variable {env}

theorem verifyLeafToAnchors_eq_ok {fuel pkcs7Index : Nat} {leaf : Cert} {merged : List Cert}
    {anchors : AnchorStore} {online : OnlineTrustOptions} {instant : UtcDate}
    (h : verifyLeafToAnchors env fuel pkcs7Index leaf merged anchors online instant = .ok ()) :
    LeadsToAnchor env leaf anchors instant := by
  simp only [verifyLeafToAnchors, verifyTrustChainVerbose, Outcome.bind_eq_ok,
    Outcome.guardThat_eq_ok, exists_const] at h
  obtain ⟨chain, -, hanchor, _, -, hverify⟩ := h
  refine ⟨chain, hanchor, ?_⟩
  by_cases hself : leaf.subjectName = leaf.issuerName
  · exact Or.inl ⟨hself, if_pos hself⟩
  · rw [if_neg fun hc => hself hc.1] at hverify
    exact Or.inr (Outcome.mapErr_eq_ok.mp hverify)

/-- A successful run of the fallback: the first `SignerInfo` is signed by the
certificate that its identifier names, and the chain of that certificate is verified
among the anchors and the embedded certificates. -/
theorem fallback_eq_ok {fuel pkcs7Index : Nat} {slice : List UInt8} {check : CmsDigestCheck}
    {anchors : AnchorStore} {anchorCerts : List Cert} {policy : AuthenticodeTrustPolicy}
    {online : OnlineTrustOptions} {instant : UtcDate}
    (h : verifyPkcs7TrustCmsRsaSha256Fallback env fuel slice pkcs7Index check anchors anchorCerts
      policy online instant = .ok ()) :
    ∃ sd si x509Leaf embedded signer, parsePkcs7SignedDataDer env.cms slice = .ok sd ∧
      verifyCmsDigest env pkcs7Index sd check = .ok () ∧ sd.signerInfos.head? = some si ∧
      signedDataCertificateForSignerIdentifier env.cms sd si.sid = .ok x509Leaf ∧
      signedDataEmbeddedPickyCerts env sd = .ok embedded ∧
      env.picky.certFromDer x509Leaf.der = .ok signer ∧
      verifyLeafToAnchors env fuel pkcs7Index (fallbackLeaf env embedded anchorCerts signer)
        (mergeUniqueCerts env.cms.hashes anchorCerts embedded) anchors online instant = .ok () := by
  simp only [verifyPkcs7TrustCmsRsaSha256Fallback, Outcome.bind_eq_ok, Outcome.mapErr_eq_ok,
    Outcome.ofOption_eq_ok] at h
  obtain ⟨sd, hsd, _, hcheck, si, hsi, x509Leaf, hleaf, h⟩ := h
  have hrest : ∃ embedded, signedDataEmbeddedPickyCerts env sd = .ok embedded ∧
      ∃ signer, env.picky.certFromDer x509Leaf.der = .ok signer ∧
        verifyLeafToAnchors env fuel pkcs7Index (fallbackLeaf env embedded anchorCerts signer)
          (mergeUniqueCerts env.cms.hashes anchorCerts embedded) anchors online instant = .ok () := by
    by_cases hstrict : policy.strictCodeSigningEku = true
    · rw [if_pos hstrict] at h
      simp only [Outcome.bind_eq_ok, Outcome.guardThat_eq_ok, Outcome.mapErr_eq_ok] at h
      obtain ⟨_, -, _, -, embedded, hembedded, signer, hsigner, hverify⟩ := h
      exact ⟨embedded, hembedded, signer, hsigner, hverify⟩
    · rw [if_neg hstrict] at h
      simp only [Outcome.bind_eq_ok, Outcome.mapErr_eq_ok] at h
      obtain ⟨embedded, hembedded, signer, hsigner, hverify⟩ := h
      exact ⟨embedded, hembedded, signer, hsigner, hverify⟩
  obtain ⟨embedded, hembedded, signer, hsigner, hverify⟩ := hrest
  exact ⟨sd, si, x509Leaf, embedded, signer, hsd, hcheck, hsi, hleaf, hembedded, hsigner, hverify⟩

/-- A successful run on what `picky` parses: the signature passed basic
validation, and the chain of the signing certificate is verified among the embedded
certificates and the anchors. -/
theorem picky_eq_ok {fuel pkcs7Index : Nat} {sig : AuthenticodeSignature}
    {subjectDigest : List UInt8} {anchors : AnchorStore} {anchorCerts : List Cert}
    {policy : AuthenticodeTrustPolicy} {online : OnlineTrustOptions} {instant : UtcDate}
    (h : verifyPickySignature env fuel sig pkcs7Index subjectDigest anchors anchorCerts policy
      online instant = .ok ()) :
    (∃ si signer indirect, BasicValidation env.cms sig subjectDigest si signer indirect) ∧
      ∃ leaf, env.picky.signingCertificate sig
          (mergeUniqueCerts env.cms.hashes sig.certificates anchorCerts) = .ok leaf ∧
        verifyLeafToAnchors env fuel pkcs7Index leaf
          (mergeUniqueCerts env.cms.hashes sig.certificates anchorCerts) anchors online instant =
          .ok () := by
  simp only [verifyPickySignature, Outcome.bind_eq_ok, Outcome.mapErr_eq_ok] at h
  obtain ⟨_, hbasic, leaf, hleaf, hverify⟩ := h
  exact ⟨env.picky.basicValidation_checks hbasic, leaf, hleaf, hverify⟩

/-- What a successful run has accepted: a `SignerInfo`, the certificate whose key
verified it, and the leaf of the chain. -/
structure Acceptance where
  signerInfoDer : List UInt8
  signature : List UInt8
  verifierDer : List UInt8
  leaf : Cert

variable (env)

/-- The two ways to accept a blob. -/
inductive Accepts (pkcs7Der : List UInt8) (anchors : AnchorStore) (anchorCerts : List Cert)
    (instant : UtcDate) : Pkcs7DigestBinding → Acceptance → Prop
  /-- `picky` reads one signer, selects its certificate among the embedded ones,
  and the leaf among these and the anchors. -/
  | picky {sig : AuthenticodeSignature} {si : PickySignerInfo} {verifier leaf : Cert}
      (parses : env.picky.authenticodeFromDer (normalizePkcs7DerForAuthenticode pkcs7Der) = .ok sig)
      (signerInfos : sig.signerInfos = [si])
      (selects : sig.selectedSigner sig.certificates = some verifier)
      (verifies : SignatureVerifies env.cms si.hashKind verifier.publicKeyDer si.signedAttrs
        si.signature)
      (selectsLeaf : sig.selectedSigner
        (mergeUniqueCerts env.cms.hashes sig.certificates anchorCerts) = some leaf)
      (chain : LeadsToAnchor env leaf anchors instant) :
      Accepts pkcs7Der anchors anchorCerts instant .authenticodeIndirect
        ⟨si.der, si.signature, verifier.der, leaf⟩
  /-- The CMS decoder reads the signers, finds the certificate of the first, and
  the leaf is the same certificate for `picky`. -/
  | fallback {binding : Pkcs7DigestBinding} {sd : SignedData} {si : SignerInfo}
      {verifier : Certificate} {attrs : List Attribute} {embedded : List Cert} {signer : Cert}
      (unparsed : binding = .authenticodeIndirect → ∀ sig,
        env.picky.authenticodeFromDer (normalizePkcs7DerForAuthenticode pkcs7Der) ≠ .ok sig)
      (decodes : parsePkcs7SignedDataDer env.cms (normalizePkcs7DerForAuthenticode pkcs7Der) =
        .ok sd)
      (first : sd.signerInfos.head? = some si)
      (finds : signedDataCertificateForSignerIdentifier env.cms sd si.sid = .ok verifier)
      (signedAttrs : si.signedAttrs = some attrs)
      (verifies : SignatureVerifies env.cms .sha256 verifier.spkiDer attrs si.signature)
      (embeds : signedDataEmbeddedPickyCerts env sd = .ok embedded)
      (reads : env.picky.certFromDer verifier.der = .ok signer)
      (chain : LeadsToAnchor env (fallbackLeaf env embedded anchorCerts signer) anchors instant) :
      Accepts pkcs7Der anchors anchorCerts instant binding
        ⟨si.der, si.signature, verifier.der, fallbackLeaf env embedded anchorCerts signer⟩

variable {env}

/-- Either digest check of the fallback verifies the RSA signature. -/
theorem verifyCmsDigest_eq_ok {pkcs7Index : Nat} {sd : SignedData} {check : CmsDigestCheck}
    (h : verifyCmsDigest env pkcs7Index sd check = .ok ()) :
    verifySignedDataRsaSha256Pkcs1v15Signature env.cms sd 0 = .ok () := by
  cases check with
  | authenticodeIndirect digest =>
    simp only [verifyCmsDigest,
      verifySignedDataAuthenticodeIndirectDigestAndRsaSha256Pkcs1v15Signature,
      Outcome.mapErr_eq_ok, Outcome.bind_eq_ok, Outcome.guardThat_eq_ok, exists_const] at h
    exact h.choose_spec.2.2
  | pkcs9MessageDigest digest =>
    simp only [verifyCmsDigest, verifySignedDataPkcs9MessageDigestAndRsaSha256Pkcs1v15Signature,
      Outcome.mapErr_eq_ok, Outcome.bind_eq_ok, Outcome.guardThat_eq_ok, exists_const] at h
    obtain ⟨_, -, _, -, -, hrsa⟩ := h
    exact hrsa

private theorem accepts_of_fallback {fuel pkcs7Index : Nat} {pkcs7Der : List UInt8}
    {check : CmsDigestCheck} {anchors : AnchorStore} {anchorCerts : List Cert}
    {policy : AuthenticodeTrustPolicy} {online : OnlineTrustOptions} {instant : UtcDate}
    {binding : Pkcs7DigestBinding}
    (hunparsed : binding = .authenticodeIndirect → ∀ sig,
      env.picky.authenticodeFromDer (normalizePkcs7DerForAuthenticode pkcs7Der) ≠ .ok sig)
    (h : verifyPkcs7TrustCmsRsaSha256Fallback env fuel (normalizePkcs7DerForAuthenticode pkcs7Der)
      pkcs7Index check anchors anchorCerts policy online instant = .ok ()) :
    ∃ acceptance, Accepts env pkcs7Der anchors anchorCerts instant binding acceptance := by
  obtain ⟨sd, si, verifier, embedded, signer, hsd, hcheck, hsi, hverifier, hembedded, hsigner,
    hchain⟩ := fallback_eq_ok h
  obtain ⟨si', attrs, verifier', hsi', hattrs, -, hverifier', hverifies⟩ :=
    verifySignedDataRsa_eq_ok (verifyCmsDigest_eq_ok hcheck)
  rw [← List.head?_eq_getElem?, hsi, Option.some.injEq] at hsi'
  subst hsi'
  obtain rfl : verifier = verifier' := Except.ok.inj (hverifier.symm.trans hverifier')
  exact ⟨_, .fallback hunparsed hsd hsi hverifier hattrs hverifies hembedded hsigner
    (verifyLeafToAnchors_eq_ok hchain)⟩

/-- Trust verification succeeds only by accepting a signer. -/
theorem accepts_of_verified {fuel : Nat} {binding : Pkcs7DigestBinding} {pkcs7Der : List UInt8}
    {pkcs7Index : Nat} {digest : List UInt8} {anchors : AnchorStore} {anchorCerts : List Cert}
    {policy : AuthenticodeTrustPolicy} {online : OnlineTrustOptions} {instant : UtcDate}
    (h : verifyPkcs7TrustWithBinding env fuel binding pkcs7Der pkcs7Index digest anchors anchorCerts
      policy online instant = .ok ()) :
    ∃ acceptance, Accepts env pkcs7Der anchors anchorCerts instant binding acceptance := by
  cases binding with
  | pkcs9MessageDigest => exact accepts_of_fallback (fun hbinding => by simp at hbinding) h
  | authenticodeIndirect =>
    simp only [verifyPkcs7TrustWithBinding, verifyAuthenticodePkcs7Trust] at h
    cases hsig : env.picky.authenticodeFromDer (normalizePkcs7DerForAuthenticode pkcs7Der) with
    | error failure =>
      rw [hsig] at h
      exact accepts_of_fallback (fun _ sig hok => by simp [hsig] at hok) h
    | ok sig =>
      rw [hsig] at h
      obtain ⟨⟨si, signer, indirect, hbasic⟩, leaf, hleaf, hchain⟩ := picky_eq_ok h
      exact ⟨_, .picky hsig hbasic.signerInfos hbasic.selects hbasic.signature
        (env.picky.signingCertificate_selects hleaf) (verifyLeafToAnchors_eq_ok hchain)⟩

/-! ## The signature covers the subject digest -/

/-- A signature over attributes, and the content it is about. -/
structure AcceptedSignature where
  hashKind : PeAuthenticodeHashKind
  spkiDer : List UInt8
  signedAttrs : List Attribute
  signature : List UInt8
  content : DerAny
  deriving DecidableEq

variable (env)

/-- The signature that verification of a blob is about: of the `SignerInfo` that
`picky` reads, or else of the first one that the CMS decoder reads. -/
def acceptedSignature (pkcs7Der : List UInt8) : Option AcceptedSignature :=
  let slice := normalizePkcs7DerForAuthenticode pkcs7Der
  match env.picky.authenticodeFromDer slice with
  | .ok sig => do
    let si ← sig.signerInfos.head?
    let signer ← sig.selectedSigner sig.certificates
    return ⟨si.hashKind, signer.publicKeyDer, si.signedAttrs, si.signature, sig.content⟩
  | .error _ => do
    let sd ← (parsePkcs7SignedDataDer env.cms slice).toOption
    let si ← sd.signerInfos.head?
    let signer ← (signedDataCertificateForSignerIdentifier env.cms sd si.sid).toOption
    return ⟨.sha256, signer.spkiDer, ← si.signedAttrs, si.signature, ← sd.econtent⟩

/-- The accepted signature covers a subject digest: it verifies over attributes
whose `messageDigest` is the digest of the encapsulated indirect data, and that
content carries the subject digest. -/
def CoversSubject (pkcs7Der subjectDigest : List UInt8) : Prop :=
  ∃ accepted indirect, acceptedSignature env pkcs7Der = some accepted ∧
    SignatureVerifies env.cms accepted.hashKind accepted.spkiDer accepted.signedAttrs
      accepted.signature ∧
    messageDigestOctets env.cms accepted.signedAttrs =
      .ok (env.cms.hashes.hash accepted.hashKind accepted.content.value) ∧
    env.cms.spcIndirectData accepted.content = .ok indirect ∧ indirect.digest = subjectDigest

/-- `picky` parses the blob, so that it does not go through the fallback. -/
def PickyParses (pkcs7Der : List UInt8) : Prop :=
  ∃ sig, env.picky.authenticodeFromDer (normalizePkcs7DerForAuthenticode pkcs7Der) = .ok sig

/-- The check that the fallback leaves out: the `messageDigest` of the first
`SignerInfo` is the digest of the encapsulated content. -/
def MessageDigestMatches (pkcs7Der : List UInt8) : Prop :=
  ∃ sd si digest,
    parsePkcs7SignedDataDer env.cms (normalizePkcs7DerForAuthenticode pkcs7Der) = .ok sd ∧
    sd.signerInfos.head? = some si ∧ signerInfoPkcs9MessageDigestOctets env.cms si = .ok digest ∧
    cmsDigestEncapsulatedEcontentBytesFromSignedData env.cms sd = .ok digest

variable {env}

/-- What the fallback has accepted verifies and carries the subject digest. -/
theorem accepted_of_fallback {fuel pkcs7Index : Nat} {pkcs7Der subjectDigest : List UInt8}
    {anchors : AnchorStore} {anchorCerts : List Cert} {policy : AuthenticodeTrustPolicy}
    {online : OnlineTrustOptions} {instant : UtcDate} {failure : Failure}
    (hpicky : env.picky.authenticodeFromDer (normalizePkcs7DerForAuthenticode pkcs7Der) =
      .error failure)
    (h : verifyPkcs7TrustCmsRsaSha256Fallback env fuel (normalizePkcs7DerForAuthenticode pkcs7Der)
      pkcs7Index (.authenticodeIndirect subjectDigest) anchors anchorCerts policy online instant =
      .ok ()) :
    ∃ sd si attrs content signer indirect,
      parsePkcs7SignedDataDer env.cms (normalizePkcs7DerForAuthenticode pkcs7Der) = .ok sd ∧
      sd.signerInfos.head? = some si ∧ si.signedAttrs = some attrs ∧ sd.econtent = some content ∧
      si.digestAlg = digestOidSha256 ∧
      acceptedSignature env pkcs7Der =
        some ⟨.sha256, signer, attrs, si.signature, content⟩ ∧
      SignatureVerifies env.cms .sha256 signer attrs si.signature ∧
      env.cms.spcIndirectData content = .ok indirect ∧ indirect.digest = subjectDigest := by
  obtain ⟨sd, si, cert, _, _, hsd, hcheck, hsi, hcert, -⟩ := fallback_eq_ok h
  simp only [verifyCmsDigest, verifySignedDataAuthenticodeIndirectDigestAndRsaSha256Pkcs1v15Signature,
    signedDataSpcIndirectMessageDigestOctets, Outcome.mapErr_eq_ok, Outcome.bind_eq_ok,
    Outcome.guardThat_eq_ok, Outcome.ofOption_eq_ok, Outcome.pure_eq_ok, Except.ok.injEq,
    exists_const] at hcheck
  obtain ⟨_, ⟨content, hcontent, indirect, hindirect, rfl⟩, hdigest, hrsa⟩ := hcheck
  obtain ⟨si', attrs, cert', hsi', hattrs, halg, hcert', hverifies⟩ := verifySignedDataRsa_eq_ok hrsa
  rw [← List.head?_eq_getElem?, hsi, Option.some.injEq] at hsi'
  subst hsi'
  obtain rfl : cert = cert' := Except.ok.inj (hcert.symm.trans hcert')
  refine ⟨sd, si, attrs, content, cert.spkiDer, indirect, hsd, hsi, hattrs, hcontent, halg, ?_,
    hverifies, hindirect, hdigest⟩
  simp [acceptedSignature, hpicky, hsd, hsi, hcert, hattrs, hcontent, Outcome.toOption]

/-- What `picky` has accepted covers the subject digest. -/
theorem covers_of_picky {pkcs7Der subjectDigest : List UInt8} {sig : AuthenticodeSignature}
    {si : PickySignerInfo} {signer : Cert} {indirect : SpcIndirectDataContent}
    (hpicky : env.picky.authenticodeFromDer (normalizePkcs7DerForAuthenticode pkcs7Der) = .ok sig)
    (h : BasicValidation env.cms sig subjectDigest si signer indirect) :
    CoversSubject env pkcs7Der subjectDigest := by
  refine ⟨⟨si.hashKind, signer.publicKeyDer, si.signedAttrs, si.signature, sig.content⟩, indirect,
    ?_, h.signature, h.messageDigest, h.content, h.subjectDigest⟩
  simp [acceptedSignature, hpicky, h.signerInfos, h.selects]

/-- Signatures with the same signed attributes, each covering its subject digest,
are about the same subject digest. -/
theorem subject_unique {pkcs7Der pkcs7Der' digest digest' : List UInt8}
    {accepted accepted' : AcceptedSignature}
    (h : CoversSubject env pkcs7Der digest) (h' : CoversSubject env pkcs7Der' digest')
    (haccepted : acceptedSignature env pkcs7Der = some accepted)
    (haccepted' : acceptedSignature env pkcs7Der' = some accepted')
    (hattrs : accepted.signedAttrs = accepted'.signedAttrs)
    (hideal : env.cms.hashes.hash accepted.hashKind accepted.content.value =
      env.cms.hashes.hash accepted.hashKind accepted'.content.value →
      accepted.content.value = accepted'.content.value) : digest = digest' := by
  obtain ⟨_, indirect, hsame, -, hmd, hspc, rfl⟩ := h
  obtain ⟨_, indirect', hsame', -, hmd', hspc', rfl⟩ := h'
  obtain rfl := Option.some.inj (haccepted.symm.trans hsame)
  obtain rfl := Option.some.inj (haccepted'.symm.trans hsame')
  rw [hattrs] at hmd
  have hhash := Except.ok.inj (hmd.symm.trans hmd')
  -- digests of different kinds have different lengths
  have hkind : accepted.hashKind = accepted'.hashKind := by
    have hlength := congrArg List.length hhash
    rw [env.cms.hashes.length_hash, env.cms.hashes.length_hash] at hlength
    have hfrom := congrArg PeAuthenticodeHashKind.fromDigestByteLen hlength
    rw [PeAuthenticodeHashKind.fromDigestByteLen_digestOutputLen,
      PeAuthenticodeHashKind.fromDigestByteLen_digestOutputLen] at hfrom
    exact Except.ok.inj hfrom
  rw [← hkind] at hhash
  have hcontent : accepted.content = accepted'.content := by
    have htag := env.cms.tag_of_spcIndirectData hspc
    have htag' := env.cms.tag_of_spcIndirectData hspc'
    have hvalue := hideal hhash
    cases hc : accepted.content with
    | mk tag value =>
      cases hc' : accepted'.content with
      | mk tag' value' =>
        rw [hc] at htag hvalue
        rw [hc'] at htag' hvalue
        subst htag htag'
        exact congrArg _ hvalue
  rw [hcontent, hspc', Except.ok.injEq] at hspc
  rw [hspc]

/-- What the fallback has accepted covers the subject digest exactly when the
check that it leaves out would succeed. -/
theorem covers_fallback_iff {fuel pkcs7Index : Nat} {pkcs7Der subjectDigest : List UInt8}
    {anchors : AnchorStore} {anchorCerts : List Cert} {policy : AuthenticodeTrustPolicy}
    {online : OnlineTrustOptions} {instant : UtcDate} {failure : Failure}
    (hpicky : env.picky.authenticodeFromDer (normalizePkcs7DerForAuthenticode pkcs7Der) =
      .error failure)
    (h : verifyPkcs7TrustCmsRsaSha256Fallback env fuel (normalizePkcs7DerForAuthenticode pkcs7Der)
      pkcs7Index (.authenticodeIndirect subjectDigest) anchors anchorCerts policy online instant =
      .ok ()) :
    CoversSubject env pkcs7Der subjectDigest ↔ MessageDigestMatches env pkcs7Der := by
  obtain ⟨sd, si, attrs, content, signer, indirect, hsd, hsi, hattrs, hcontent, halg, haccepted,
    hverifies, hspc, hdigest⟩ := accepted_of_fallback hpicky h
  have hattribute : signerInfoPkcs9MessageDigestOctets env.cms si =
      messageDigestOctets env.cms attrs := by
    simp [signerInfoPkcs9MessageDigestOctets, hattrs, Outcome.ofOption]
  have hcomputed : cmsDigestEncapsulatedEcontentBytesFromSignedData env.cms sd =
      .ok (env.cms.hashes.hash .sha256 content.value) := by
    simp [cmsDigestEncapsulatedEcontentBytesFromSignedData, cmsDigestEncapsulatedEcontentBytes,
      hsi, hcontent, halg, digestKind?, Outcome.ofOption]
  constructor
  · intro hcovers
    obtain ⟨accepted, _, hsame, -, hmd, -⟩ := hcovers
    obtain rfl := Option.some.inj (haccepted.symm.trans hsame)
    exact ⟨sd, si, _, hsd, hsi, hattribute.trans hmd, hcomputed⟩
  · intro hmatches
    obtain ⟨sd', si', digest, hsd', hsi', hmd, hcontentDigest⟩ := hmatches
    obtain rfl : sd = sd' := Except.ok.inj (hsd.symm.trans hsd')
    obtain rfl : si = si' := Option.some.inj (hsi.symm.trans hsi')
    rw [hcomputed] at hcontentDigest
    refine ⟨_, indirect, haccepted, hverifies, ?_, hspc, hdigest⟩
    rw [← hattribute, hmd, hcontentDigest]

/-- An accepted signature covers the subject digest exactly when `picky` parses the
blob or its `messageDigest` is the digest of its content.  Two accepted blobs for
which this holds, with the same signed attributes, are accepted for the same
subject digest. -/
theorem trusted_signature_covers_subject_iff {fuel pkcs7Index : Nat}
    {pkcs7Der subjectDigest : List UInt8} {anchors : AnchorStore} {anchorCerts : List Cert}
    {policy : AuthenticodeTrustPolicy} {online : OnlineTrustOptions} {instant : UtcDate}
    (h : verifyAuthenticodePkcs7Trust env fuel pkcs7Der pkcs7Index subjectDigest anchors anchorCerts
      policy online instant = .ok ()) :
    (CoversSubject env pkcs7Der subjectDigest ↔
      PickyParses env pkcs7Der ∨ MessageDigestMatches env pkcs7Der) ∧
    ((PickyParses env pkcs7Der ∨ MessageDigestMatches env pkcs7Der) →
      ∀ fuel' pkcs7Der' pkcs7Index' subjectDigest' anchors' anchorCerts' policy' online' instant'
        accepted accepted',
      verifyAuthenticodePkcs7Trust env fuel' pkcs7Der' pkcs7Index' subjectDigest' anchors'
        anchorCerts' policy' online' instant' = .ok () →
      PickyParses env pkcs7Der' ∨ MessageDigestMatches env pkcs7Der' →
      acceptedSignature env pkcs7Der = some accepted →
      acceptedSignature env pkcs7Der' = some accepted' →
      accepted.signedAttrs = accepted'.signedAttrs →
      (env.cms.hashes.hash accepted.hashKind accepted.content.value =
        env.cms.hashes.hash accepted.hashKind accepted'.content.value →
        accepted.content.value = accepted'.content.value) →
      subjectDigest = subjectDigest') := by
  have hcovers : ∀ {fuel pkcs7Der pkcs7Index subjectDigest anchors anchorCerts policy online instant},
      verifyAuthenticodePkcs7Trust env fuel pkcs7Der pkcs7Index subjectDigest anchors anchorCerts
        policy online instant = .ok () →
      (CoversSubject env pkcs7Der subjectDigest ↔
        PickyParses env pkcs7Der ∨ MessageDigestMatches env pkcs7Der) := by
    intro fuel pkcs7Der pkcs7Index subjectDigest anchors anchorCerts policy online instant hrun
    simp only [verifyAuthenticodePkcs7Trust] at hrun
    cases hpicky : env.picky.authenticodeFromDer (normalizePkcs7DerForAuthenticode pkcs7Der) with
    | error failure =>
      rw [hpicky] at hrun
      rw [covers_fallback_iff hpicky hrun, PickyParses]
      simp [hpicky]
    | ok sig =>
      rw [hpicky] at hrun
      obtain ⟨⟨si, signer, indirect, hbasic⟩, -⟩ := picky_eq_ok hrun
      exact iff_of_true (covers_of_picky hpicky hbasic) (Or.inl ⟨sig, hpicky⟩)
  refine ⟨hcovers h, ?_⟩
  intro hcondition _ _ _ _ _ _ _ _ _ accepted accepted' h' hcondition' haccepted haccepted' hattrs
    hideal
  exact subject_unique ((hcovers h).mpr hcondition) ((hcovers h').mpr hcondition') haccepted
    haccepted' hattrs hideal

/-! ### A blob whose content was exchanged -/

/-- A root that is an anchor. -/
def rootFields : CertFields :=
  ⟨1, [0x52], [0x52], [0x01], [0x06 :: 0x08 :: codeSigningEkuOid], [0x01]⟩

/-- A certificate for code signing that the root issued. -/
def leafFields : CertFields :=
  ⟨2, [0x52], [0x4C], [0x02], [0x06 :: 0x08 :: codeSigningEkuOid], [0x02]⟩

/-- The anchors with the root in them. -/
def rootAnchors : AnchorStore :=
  (⟨[]⟩ : AnchorStore).mergeCertThumbprints .mixing [rootFields.cert]

/-- The digest of the subject that was signed, and another one. -/
def signedSubject : List UInt8 := List.replicate 32 0xAA
def otherSubject : List UInt8 := List.replicate 32 0xBB

/-- The signer of `signedSubject`. -/
def subjectSigner : SignerFields :=
  ⟨leafFields, [messageDigestAttribute (spcIndirectAny signedSubject).value], []⟩

/-- The `SignedData` of that signer around the content for a subject. -/
def subjectSignedData (subjectDigest : List UInt8) : List UInt8 :=
  signedDataDer oidSpcIndirectDataDer (spcIndirectAny subjectDigest)
    [leafFields.der, rootFields.der] [subjectSigner.der]

/-- The reading of `subjectSignedData`. -/
def subjectDecoded (subjectDigest : List UInt8) : SignedData :=
  ⟨"1.3.6.1.4.1.311.2.1.4", some (spcIndirectAny subjectDigest),
    some [.certificate rootFields.certificate, .certificate leafFields.certificate],
    [subjectSigner.signerInfo]⟩

/-- Both blobs, which `picky` does not parse. -/
def subjectTables : Tables where
  signedDatas := [signedSubject, otherSubject].map fun d => (subjectSignedData d, subjectDecoded d)
  indirects := [signedSubject, otherSubject].map fun d => (spcIndirectAny d, spcIndirect d)
  extendedKeyUsages := []
  certificates := [rootFields.certificate, leafFields.certificate]
  certs := [rootFields.cert, leafFields.cert]
  authenticodes := []
  publicTrustRoots := []
  files := []

set_option maxRecDepth 6000

theorem subjectTables_valid : subjectTables.Valid := by decide

/-- The environment that knows both blobs. -/
def subjectEnvironment : Environment := subjectTables.environment subjectTables_valid

/-- Trust verification of the blob for a subject, with the default policy. -/
def verifySubject (subjectDigest : List UInt8) : Outcome Unit :=
  verifyAuthenticodePkcs7Trust subjectEnvironment 4
    (contentInfoDer (subjectSignedData subjectDigest)) 0 subjectDigest rootAnchors [rootFields.cert]
    ⟨true, false, false⟩ ⟨false, none, .off⟩ ⟨2023, 7, 1, 0, 0, 0⟩

theorem covers_signedSubject :
    CoversSubject subjectEnvironment (contentInfoDer (subjectSignedData signedSubject))
      signedSubject := by
  have hrun : verifySubject signedSubject = .ok () := by decide
  refine (trusted_signature_covers_subject_iff hrun).1.mpr (Or.inr ?_)
  exact ⟨subjectDecoded signedSubject, subjectSigner.signerInfo,
    Hashes.mixing.hash .sha256 (spcIndirectAny signedSubject).value, by decide,
    by decide, by decide, by decide⟩

/-- The content of an accepted blob is exchanged, and the blob is accepted for
another subject, with the same signed attributes and signature. -/
theorem fallback_accepts_exchanged_content :
    verifySubject signedSubject = .ok () ∧ verifySubject otherSubject = .ok () ∧
      (∃ accepted accepted',
        acceptedSignature subjectEnvironment (contentInfoDer (subjectSignedData signedSubject)) =
          some accepted ∧
        acceptedSignature subjectEnvironment (contentInfoDer (subjectSignedData otherSubject)) =
          some accepted' ∧
        accepted.signedAttrs = accepted'.signedAttrs ∧
        accepted.signature = accepted'.signature) ∧
      ¬ CoversSubject subjectEnvironment (contentInfoDer (subjectSignedData otherSubject))
        otherSubject := by
  have haccepted : ∀ d ∈ [signedSubject, otherSubject],
      acceptedSignature subjectEnvironment (contentInfoDer (subjectSignedData d)) =
        some ⟨.sha256, leafFields.spkiDer, subjectSigner.signedAttrs, subjectSigner.signature,
          spcIndirectAny d⟩ := by
    decide
  refine ⟨by decide, by decide, ?_, ?_⟩
  · exact ⟨_, _, haccepted _ (by decide), haccepted _ (by decide), rfl, rfl⟩
  · intro hcovers
    obtain ⟨_, _, hsame, -, hdigest, -⟩ := hcovers
    obtain rfl := Option.some.inj ((haccepted _ (by decide)).symm.trans hsame)
    revert hdigest
    decide

end Psign.Trust
