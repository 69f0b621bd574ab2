import Psign.Trust.Rfc3161Extract

/-!
# Artifact Signing

`artifact_signing.rs`: signatures whose certificate carries the identity of its
publisher as an extended key usage.  The identity is read from the certificate
that the CMS decoder finds for the first signer and compared with the publishers
that are expected; then the signature is verified against pinned roots.

`picky` selects the signing certificate among the embedded ones in the order of
the encoding, the CMS decoder in the order of a DER set.  The result at the end
says when the two are the same certificate.
-/

namespace Psign.Trust

open CodeLib CodeLib.Bytes CodeLib.Der Psign.Sip

/-! ## Identities -/

/-- `ARTIFACT_SIGNING_EKU_ARCS`. -/
def artifactSigningEkuArcs : List Nat := [1, 3, 6, 1, 4, 1, 311, 97]

/-- `CODE_SIGNING_EKU_ARCS`. -/
def codeSigningEkuArcs : List Nat := [1, 3, 6, 1, 5, 5, 7, 3, 3]

/-- `ARTIFACT_SIGNING_EKU_PREFIX`. -/
def artifactSigningEkuPrefix : String := "1.3.6.1.4.1.311.97."

/-- `PUBLIC_TRUST_MARKER_EKU`. -/
def publicTrustMarkerEku : String := "1.3.6.1.4.1.311.97.1.0"

/-- `ArtifactSigningCertificateKind`. -/
inductive ArtifactSigningCertificateKind where
  | publicTrust
  | publicTrustTest
  | privateTrust
  | privateTrustCiPolicy
  deriving DecidableEq, Repr

/-- `ArtifactSigningCertificateKind::as_str`. -/
def ArtifactSigningCertificateKind.asStr : ArtifactSigningCertificateKind → String
  | publicTrust => "public_trust"
  | publicTrustTest => "public_trust_test"
  | privateTrust => "private_trust"
  | privateTrustCiPolicy => "private_trust_ci_policy"

/-- `ArtifactSigningIdentity`. -/
structure ArtifactSigningIdentity where
  kind : ArtifactSigningCertificateKind
  publisherId : String
  identityEku : String
  hasPublicTrustMarker : Bool
  hasCodeSigningEku : Bool
  deriving DecidableEq, Repr

/-- The loop of `decode_oid_arcs`: the subidentifiers, and whether one is complete. -/
def subidentifiersFrom : Bool → Nat → List Nat → List UInt8 → Outcome (List Nat × Bool)
  | startsSubidentifier, _, subidentifiers, [] => .ok (subidentifiers, startsSubidentifier)
  | startsSubidentifier, current, subidentifiers, byte :: rest => do
    Outcome.guardThat (¬ (startsSubidentifier = true ∧ byte = 0x80))
      "ExtendedKeyUsage contains a non-canonical OID"
    Outcome.guardThat (current ≤ (2 ^ 64 - 1) / 2 ^ 7) "ExtendedKeyUsage OID arc exceeds 64 bits"
    let current := current * 128 + byte.toNat % 128
    if byte < 0x80 then subidentifiersFrom true 0 (subidentifiers ++ [current]) rest
    else subidentifiersFrom false current subidentifiers rest

/-- `decode_oid_arcs`. -/
def decodeOidArcs (value : List UInt8) : Outcome (List Nat) := do
  let (subidentifiers, complete) ← subidentifiersFrom true 0 [] value
  match complete, subidentifiers with
  | true, first :: rest =>
    if first ≤ 39 then .ok (0 :: first :: rest)
    else if first ≤ 79 then .ok (1 :: (first - 40) :: rest)
    else .ok (2 :: (first - 80) :: rest)
  | _, _ => Outcome.bail "ExtendedKeyUsage contains a truncated OID"

variable (env : Environment)

/-- The loop of `decode_eku_arcs`, for at most `fuel` entries. -/
def ekuArcsFrom : Nat → List UInt8 → Outcome (List (List Nat))
  | _, [] => .ok []
  | 0, _ :: _ => .error .outOfFuel
  | fuel + 1, byte :: rest => do
    let (tag, len, after) ← (env.cms.header (byte :: rest)).mapErr fun e =>
      "ExtendedKeyUsage OID header: " ++ e
    Outcome.guardThat (tag = 0x06) "ExtendedKeyUsage entry is not an OBJECT IDENTIFIER"
    let (value, after) ← (readSlice len after).mapErr fun e => "ExtendedKeyUsage OID value: " ++ e
    let arcs ← decodeOidArcs value
    let others ← ekuArcsFrom fuel after
    return arcs :: others

/-- `decode_eku_arcs`. -/
def decodeEkuArcs (der : List UInt8) : Outcome (List (List Nat)) := do
  (env.cms.sliceReader der).mapErr fun e => "ExtendedKeyUsage reader: " ++ e
  let (tag, len, after) ← (env.cms.header der).mapErr fun e => "ExtendedKeyUsage header: " ++ e
  Outcome.guardThat (tag = 0x30) "ExtendedKeyUsage extension is not a SEQUENCE"
  let (body, trailing) ← (readSlice len after).mapErr fun e => "ExtendedKeyUsage body: " ++ e
  Outcome.guardThat (trailing = []) "ExtendedKeyUsage trailing data"
  ekuArcsFrom env body.length body

/-- `dotted`. -/
def dotted (arcs : List Nat) : String :=
  ".".intercalate (arcs.map toString)

/-- `classify_identity_suffix`. -/
def classifyIdentitySuffix (rest : List Nat) : Option (ArtifactSigningCertificateKind × List Nat) :=
  let found : Option (ArtifactSigningCertificateKind × List Nat) :=
    match rest with
    | 1 :: 2 :: id => some (.publicTrustTest, id)
    | 1 :: 3 :: 1 :: id => some (.privateTrust, id)
    | 1 :: 4 :: 1 :: id => some (.privateTrustCiPolicy, id)
    | 1 :: _ => none
    | id => some (.publicTrust, id)
  found.filter fun classified => ¬ classified.2.isEmpty

/-- What the loop of `artifact_signing_identity_from_certificate` has found. -/
structure IdentityScan where
  identity : Option ArtifactSigningIdentity
  hasPublicTrustMarker : Bool
  hasCodeSigningEku : Bool

/-- The loop of `artifact_signing_identity_from_certificate` over the object
identifiers of one extension. -/
def scanArcs : List (List Nat) → IdentityScan → Outcome IdentityScan
  | [], scan => .ok scan
  | arcs :: others, scan =>
    if arcs = codeSigningEkuArcs then scanArcs others { scan with hasCodeSigningEku := true }
    else if artifactSigningEkuArcs.isPrefixOf arcs then
      let rest := arcs.drop artifactSigningEkuArcs.length
      if rest = [1, 0] then scanArcs others { scan with hasPublicTrustMarker := true }
      else
        match classifyIdentitySuffix rest with
        | none => scanArcs others scan
        | some (kind, id) =>
          let found : ArtifactSigningIdentity := ⟨kind, dotted id, dotted arcs, false, false⟩
          match scan.identity with
          | some prev =>
            if prev.identityEku ≠ found.identityEku then
              Outcome.bail ("certificate carries multiple Artifact Signing identity EKUs (" ++
                prev.identityEku ++ " and " ++ found.identityEku ++ ")")
            else scanArcs others scan
          | none => scanArcs others { scan with identity := some found }
    else scanArcs others scan

/-- The loop of `artifact_signing_identity_from_certificate` over the extensions. -/
def scanExtensions : List Extension → IdentityScan → Outcome IdentityScan
  | [], scan => .ok scan
  | ext :: rest, scan =>
    if ext.extnId = ekuExtensionOid then do
      let arcs ← decodeEkuArcs env ext.extnValue
      let scan ← scanArcs arcs scan
      scanExtensions rest scan
    else scanExtensions rest scan

/-- `artifact_signing_identity_from_certificate`. -/
def artifactSigningIdentityFromCertificate (cert : Certificate) :
    Outcome (Option ArtifactSigningIdentity) :=
  match cert.extensions with
  | none => .ok none
  | some exts => do
    let scan ← scanExtensions env exts ⟨none, false, false⟩
    return scan.identity.map fun id =>
      { id with
        hasPublicTrustMarker := scan.hasPublicTrustMarker
        hasCodeSigningEku := scan.hasCodeSigningEku }

/-- `subject_display`. -/
def subjectDisplay (cert : Certificate) : String :=
  match env.picky.certFromDer cert.der with
  | .ok c => env.picky.displayName c.subjectName
  | .error _ => env.subjectText cert

/-- `pkcs7_signer_identity`. -/
def pkcs7SignerIdentity (pkcs7Der : List UInt8) :
    Outcome (Certificate × Option ArtifactSigningIdentity) := do
  let sd ← parsePkcs7SignedDataDer env.cms pkcs7Der
  let si ← Outcome.ofOption sd.signerInfos.head? "SignedData has no SignerInfo"
  let cert ← signedDataCertificateForSignerIdentifier env.cms sd si.sid
  let identity ← artifactSigningIdentityFromCertificate env cert
  return (cert, identity)

/-! ## The policy -/

/-- `ArtifactSigningPolicy`. -/
structure ArtifactSigningPolicy where
  expectedPublisherIds : List String
  privateTrustRootFiles : List String
  requireTimestamp : Bool
  deriving DecidableEq, Repr

/-- What verification of an entry uses of `TrustVerifyPeOptions`. -/
structure TrustVerifyPeOptions where
  verificationInstantOverride : Option UtcDate
  online : OnlineTrustOptions
  policy : AuthenticodeTrustPolicy
  artifactSigning : Option ArtifactSigningPolicy
  deriving DecidableEq, Repr

/-- `ArtifactSigningVerifiedSignature`. -/
structure ArtifactSigningVerifiedSignature where
  signatureIndex : Nat
  signerSubject : String
  identity : ArtifactSigningIdentity
  rootSubject : String
  rootSha1 : String
  timestamped : Bool
  verificationTime : String
  deriving DecidableEq, Repr

/-- `anchors_from_certs`. -/
def anchorsFromCerts (certs : List Cert) : AnchorStore × List Cert :=
  ((⟨[]⟩ : AnchorStore).mergeCertThumbprints env.cms.hashes certs, certs)

/-- `PinnedRoot::certificate`. -/
def pinnedRootCertificate (root : PinnedRoot) : Outcome Cert := do
  let cert ← (parseCertBytes env root.pem).mapErr fun _ => "parse pinned root " ++ root.name
  Outcome.guardThat (certSha1Thumbprint env.cms.hashes cert = root.sha1 ∧
      env.cms.hashes.hash .sha256 cert.der = root.sha256)
    ("embedded pinned root " ++ root.name ++ " does not match its pinned thumbprints")
  return cert

/-- `public_trust_anchors`. -/
def publicTrustAnchors : Outcome (AnchorStore × List Cert) := do
  let certs ← env.publicTrustRoots.mapM (pinnedRootCertificate env)
  return anchorsFromCerts env certs

/-- `checked_identity`. -/
def checkedIdentity (signer : Certificate) (policy : ArtifactSigningPolicy) :
    Outcome (String × ArtifactSigningIdentity) := do
  let signerSubject := subjectDisplay env signer
  let found ← artifactSigningIdentityFromCertificate env signer
  let identity ← Outcome.ofOption found
    ("signer " ++ env.debugText signerSubject ++ " has no Artifact Signing identity EKU (" ++
      artifactSigningEkuPrefix ++ "…)")
  Outcome.guardThat (¬ (identity.kind = .publicTrust ∧ identity.hasPublicTrustMarker = false))
    ("Public Trust signer lacks the " ++ publicTrustMarkerEku ++ " marker EKU")
  Outcome.guardThat (identity.kind ≠ .privateTrustCiPolicy)
    "Private Trust CI Policy certificates sign WDAC policies, not Authenticode code"
  Outcome.guardThat (identity.hasCodeSigningEku = true) "signer lacks the code signing EKU"
  Outcome.guardThat (policy.expectedPublisherIds = [] ∨ ∃ id ∈ policy.expectedPublisherIds,
      String.ofList (RustStr.trim id.toList) = identity.publisherId)
    ("Artifact Signing publisher ID " ++ identity.publisherId ++ " is not one of the expected IDs (" ++
      ", ".intercalate policy.expectedPublisherIds ++ ")")
  return (signerSubject, identity)

/-- `artifact_signing_instant`, with the timestamp of a PKCS#7. -/
def artifactSigningInstant (fuel : Nat) (pkcs7Der : List UInt8) (policy : ArtifactSigningPolicy)
    (opts : TrustVerifyPeOptions) : Outcome (Bool × UtcDate) :=
  match opts.verificationInstantOverride with
  | some instant => .ok (false, instant)
  | none => do
    let (msAnchors, msAnchorCerts) ← publicTrustAnchors env
    let timestamp ← (trustedUtcDateFromAuthenticodeTimestampToken env fuel pkcs7Der msAnchors
      msAnchorCerts opts.online).mapErr fun _ => "Artifact Signing timestamp countersignature"
    match timestamp with
    | some instant => .ok (true, instant)
    | none =>
      if policy.requireTimestamp then
        Outcome.bail "Artifact Signing signature has no RFC 3161 timestamp countersignature"
      else .ok (false, env.now)

/-- The certificates of `AnchorStore::load_files`. -/
def loadFiles (paths : List String) : Outcome (List Cert) := do
  let certs ← paths.mapM fun path => do
    let raw ← (env.readFile path).mapErr fun _ => "read anchor " ++ path
    (parseCertBytes env raw).mapErr fun _ => "parse anchor certificate " ++ path
  Outcome.guardThat (certs ≠ []) "no trusted CA files were supplied"
  return certs

/-- `artifact_signing_anchors`. -/
def artifactSigningAnchors (kind : ArtifactSigningCertificateKind)
    (policy : ArtifactSigningPolicy) : Outcome (AnchorStore × List Cert) :=
  if kind = .publicTrust then publicTrustAnchors env
  else do
    Outcome.guardThat (policy.privateTrustRootFiles ≠ [])
      (kind.asStr ++ " signature requires the subscriber root certificate (private trust root)")
    let certs ← loadFiles env policy.privateTrustRootFiles
    let certs := certs.filter fun c =>
      ¬ env.publicTrustRoots.any fun r => r.sha1 = certSha1Thumbprint env.cms.hashes c
    Outcome.guardThat (certs ≠ [])
      ("no usable private trust roots (Microsoft Public Trust roots are not accepted for " ++
        kind.asStr ++ ")")
    return anchorsFromCerts env certs

/-- A number with leading zeros. -/
def padded (width n : Nat) : String :=
  let digits := toString n
  String.ofList (List.replicate (width - digits.length) '0') ++ digits

/-- `utc_date_rfc3339`. -/
def utcDateRfc3339 (d : UtcDate) : String :=
  padded 4 d.year ++ "-" ++ padded 2 d.month ++ "-" ++ padded 2 d.day ++ "T" ++ padded 2 d.hour ++
    ":" ++ padded 2 d.minute ++ ":" ++ padded 2 d.second ++ "Z"

/-- The embedded certificates that both decoders accept, in `signer_terminal_root`. -/
def embeddedOf (sd : SignedData) : List Cert :=
  (sd.certificates.getD []).filterMap fun choice =>
    match choice with
    | .certificate cert => (env.picky.certFromDer cert.der).toOption
    | .other _ => none

/-- `signer_terminal_root`. -/
def signerTerminalRoot (pkcs7Der : List UInt8) (anchors : AnchorStore) (anchorCerts : List Cert) :
    Outcome Cert := do
  let sd ← parsePkcs7SignedDataDer env.cms (normalizePkcs7DerForAuthenticode pkcs7Der)
  let si ← Outcome.ofOption sd.signerInfos.head? "SignedData has no SignerInfo"
  let leafX509 ← signedDataCertificateForSignerIdentifier env.cms sd si.sid
  let leaf ← (env.picky.certFromDer leafX509.der).mapErr fun e => "picky signer certificate: " ++ e
  let pool := mergeUniqueCerts env.cms.hashes anchorCerts (embeddedOf env sd)
  let chain ← issuerChainExcludingLeaf env leaf pool (some anchors)
  return terminalRootCert leaf chain

/-- `verified_signature`. -/
def verifiedSignature (signatureIndex : Nat) (signerSubject : String)
    (identity : ArtifactSigningIdentity) (root : Cert) (timestamped : Bool)
    (verificationInstant : UtcDate) : ArtifactSigningVerifiedSignature :=
  ⟨signatureIndex, signerSubject, identity, env.picky.displayName root.subjectName,
    hexLower (certSha1Thumbprint env.cms.hashes root), timestamped,
    utcDateRfc3339 verificationInstant⟩

/-- The policy that `verify_artifact_signing_pkcs7` verifies trust with. -/
def artifactTrustPolicy : AuthenticodeTrustPolicy := ⟨true, false, false⟩

/-- `verify_artifact_signing_pkcs7`. -/
def verifyArtifactSigningPkcs7 (fuel : Nat) (pkcs7Der : List UInt8) (pkcs7Index : Nat)
    (subjectDigest : List UInt8) (binding : Pkcs7DigestBinding) (policy : ArtifactSigningPolicy)
    (opts : TrustVerifyPeOptions) : Outcome ArtifactSigningVerifiedSignature := do
  let (signer, _) ← pkcs7SignerIdentity env pkcs7Der
  let (signerSubject, identity) ← checkedIdentity env signer policy
  let (timestamped, verificationInstant) ← artifactSigningInstant env fuel pkcs7Der policy opts
  let (anchors, anchorCerts) ← artifactSigningAnchors env identity.kind policy
  verifyPkcs7TrustWithBinding env fuel binding pkcs7Der pkcs7Index subjectDigest anchors anchorCerts
    artifactTrustPolicy opts.online verificationInstant
  let root ← signerTerminalRoot env pkcs7Der anchors anchorCerts
  return verifiedSignature env pkcs7Index signerSubject identity root timestamped
    verificationInstant

variable {env}

/-- The steps of a successful run. -/
theorem verifyArtifactSigningPkcs7_eq_ok {fuel : Nat} {pkcs7Der : List UInt8} {pkcs7Index : Nat}
    {subjectDigest : List UInt8} {binding : Pkcs7DigestBinding} {policy : ArtifactSigningPolicy}
    {opts : TrustVerifyPeOptions} {report : ArtifactSigningVerifiedSignature}
    (h : verifyArtifactSigningPkcs7 env fuel pkcs7Der pkcs7Index subjectDigest binding policy opts =
      .ok report) :
    ∃ signer found timestamped instant anchors anchorCerts,
      pkcs7SignerIdentity env pkcs7Der = .ok (signer, found) ∧
      checkedIdentity env signer policy = .ok (report.signerSubject, report.identity) ∧
      artifactSigningInstant env fuel pkcs7Der policy opts = .ok (timestamped, instant) ∧
      artifactSigningAnchors env report.identity.kind policy = .ok (anchors, anchorCerts) ∧
      verifyPkcs7TrustWithBinding env fuel binding pkcs7Der pkcs7Index subjectDigest anchors
        anchorCerts artifactTrustPolicy opts.online instant = .ok () := by
  simp only [verifyArtifactSigningPkcs7, Outcome.bind_eq_ok, Prod.exists, Outcome.pure_eq_ok,
    Except.ok.injEq] at h
  obtain ⟨signer, found, hsigner, signerSubject, identity, hidentity, timestamped, instant,
    hinstant, anchors, anchorCerts, hanchors, _, hverify, root, -, rfl⟩ := h
  exact ⟨signer, found, timestamped, instant, anchors, anchorCerts, hsigner, hidentity, hinstant,
    hanchors, hverify⟩

/-! ## One signer in both decodings -/

/-- What the CMS decoder reads of a blob that `picky` parses, and that has one
signer: the same signer, and the embedded certificates in ascending order. -/
theorem decoded_of_picky {pkcs7Der : List UInt8} {ci : ContentInfo} {sd : SignedData}
    {sig : AuthenticodeSignature} {pickySi : PickySignerInfo}
    (hci : env.cms.contentInfo pkcs7Der = .ok ci) (htype : ci.contentType = idSignedDataOid)
    (hsd : env.cms.signedData ci.content.toDer = .ok sd)
    (hsig : env.picky.authenticodeFromDer pkcs7Der = .ok sig) (hone : sig.signerInfos = [pickySi])
    {si : SignerInfo} (hsi : sd.signerInfos.head? = some si) :
    si.der = pickySi.der ∧ si.sid = pickySi.sid ∧ si.signature = pickySi.signature := by
  obtain ⟨fields, hfields, hreads⟩ := signedDataFields_of_decoded hci htype hsd
  obtain ⟨tlvs, htlvs, hset⟩ := hreads.signerInfos
  obtain ⟨tlvs', htlvs', hders⟩ := env.picky.signerInfos_of_authenticode hsig hfields
  obtain rfl : tlvs = tlvs' := Option.some.inj (htlvs.symm.trans htlvs')
  have hmem : si ∈ sd.signerInfos := List.mem_of_mem_head? hsi
  have hder : si.der = pickySi.der := by
    have hperm := hset.perm
    rw [← hders, hone, List.map_cons, List.map_nil] at hperm
    have := hperm.mem_iff.mp (List.mem_map_of_mem hmem)
    exact List.mem_singleton.mp this
  have hread := env.cms.signerInfo_of_signedData hsd hmem
  rw [hder] at hread
  have hagrees := env.picky.signerInfo_agrees hsig (hone ▸ List.mem_singleton_self pickySi) hread
  exact ⟨hder, hagrees⟩

/-- The embedded certificates of a blob, in the order of the encoding. -/
def embeddedDers (bytes : List UInt8) : List (List UInt8) :=
  (((signedDataFields bytes).bind certificateTlvs).getD []).map Tlv.raw

/-- SHA-1 tells these byte strings apart. -/
def ThumbprintsDistinct (hashes : Hashes) (ders : List (List UInt8)) : Prop :=
  ∀ d ∈ ders, ∀ d' ∈ ders, hashes.hash .sha1 d = hashes.hash .sha1 d' → d = d'

theorem mem_embeddedDers {bytes der : List UInt8} {fields : List Tlv}
    (hfields : signedDataFields bytes = some fields) :
    der ∈ embeddedDers bytes ↔ ∃ tlv ∈ (certificateTlvs fields).getD [], tlv.raw = der := by
  rw [embeddedDers, hfields, Option.bind_some, List.mem_map]

/-- The certificates that `picky` decodes are read from embedded elements. -/
theorem certFromDer_of_mem_certificates {bytes : List UInt8} {sig : AuthenticodeSignature}
    {fields : List Tlv} {cert : Cert} (hsig : env.picky.authenticodeFromDer bytes = .ok sig)
    (hfields : signedDataFields bytes = some fields) (hmem : cert ∈ sig.certificates) :
    env.picky.certFromDer cert.der = .ok cert ∧ cert.der ∈ embeddedDers bytes := by
  rw [env.picky.certificates_of_authenticode hsig hfields, List.mem_filterMap] at hmem
  obtain ⟨tlv, htlv, hcert⟩ := hmem
  rw [Outcome.toOption_eq_some] at hcert
  have hder := (env.picky.der_of_certFromDer hcert).1
  exact ⟨hder ▸ hcert, (mem_embeddedDers hfields).mpr ⟨tlv, htlv, hder.symm⟩⟩

/-- An embedded element that is a certificate is one for the CMS decoder, too. -/
theorem mem_choices_of_embedded {bytes der : List UInt8} {ci : ContentInfo} {sd : SignedData}
    {choices : List CertificateChoices}
    (hci : env.cms.contentInfo bytes = .ok ci) (htype : ci.contentType = idSignedDataOid)
    (hsd : env.cms.signedData ci.content.toDer = .ok sd) (hchoices : sd.certificates = some choices)
    (hmem : der ∈ embeddedDers bytes) (hhead : der.head? = some 0x30) :
    ∃ cert, CertificateChoices.certificate cert ∈ choices ∧ cert.der = der ∧
      env.cms.certificate der = .ok cert := by
  obtain ⟨fields, hfields, hreads⟩ := signedDataFields_of_decoded hci htype hsd
  obtain ⟨tlvs, htlvs, hset⟩ := hreads.certificates hchoices
  rw [mem_embeddedDers hfields, htlvs, Option.getD_some] at hmem
  have hder : der ∈ choices.map CertificateChoices.der :=
    hset.perm.mem_iff.mpr (List.mem_map.mpr hmem)
  obtain ⟨choice, hchoice, rfl⟩ := List.mem_map.mp hder
  cases choice with
  | certificate cert =>
    exact ⟨cert, hchoice, rfl, env.cms.certificate_of_signedData hsd hchoices hchoice⟩
  | other der => exact absurd hhead (env.cms.other_of_signedData hsd hchoices hchoice)

private theorem find?_mergeUniqueFrom {hashes : Hashes} {p : Cert → Bool} {seen : List (List UInt8)}
    {certs : List Cert} {found : Cert} (hfind : certs.find? p = some found)
    (hseen : certSha1Thumbprint hashes found ∉ seen)
    (hdistinct : ∀ c ∈ certs.takeWhile fun c => ¬ p c,
      certSha1Thumbprint hashes c ≠ certSha1Thumbprint hashes found) :
    (mergeUniqueFrom hashes seen certs).find? p = some found := by
  induction certs generalizing seen with
  | nil => simp at hfind
  | cons cert rest ih =>
    unfold mergeUniqueFrom
    by_cases hp : p cert = true
    · obtain rfl : cert = found := by simpa [hp] using hfind
      rw [if_neg hseen, List.find?_cons_of_pos hp]
    · have hrest : rest.find? p = some found := by simpa [hp] using hfind
      have hhere : certSha1Thumbprint hashes cert ≠ certSha1Thumbprint hashes found :=
        hdistinct cert (by simp [hp])
      have hlater : ∀ c ∈ rest.takeWhile fun c => ¬ p c,
          certSha1Thumbprint hashes c ≠ certSha1Thumbprint hashes found := by
        intro c hc
        exact hdistinct c (by rw [List.takeWhile_cons_of_pos (by simpa using hp)]
                              exact List.mem_cons_of_mem _ hc)
      by_cases hdup : certSha1Thumbprint hashes cert ∈ seen
      · rw [if_pos hdup]
        exact ih hrest hseen hlater
      · rw [if_neg hdup, List.find?_cons_of_neg hp]
        refine ih hrest ?_ hlater
        intro hmem
        rcases List.mem_cons.mp hmem with heq | hmem
        · exact hhere heq.symm
        · exact hseen hmem

/-- Merging in the anchors does not change which certificate is selected. -/
theorem selectedSigner_merge {bytes : List UInt8} {sig : AuthenticodeSignature} {fields : List Tlv}
    {verifier : Cert} (hsig : env.picky.authenticodeFromDer bytes = .ok sig)
    (hfields : signedDataFields bytes = some fields)
    (hselects : sig.selectedSigner sig.certificates = some verifier) (anchorCerts : List Cert)
    (hideal : ThumbprintsDistinct env.cms.hashes (embeddedDers bytes)) :
    sig.selectedSigner (mergeUniqueCerts env.cms.hashes sig.certificates anchorCerts) =
      some verifier := by
  simp only [AuthenticodeSignature.selectedSigner, Option.bind_eq_bind,
    Option.bind_eq_some_iff] at hselects ⊢
  obtain ⟨si, hsi, hfind⟩ := hselects
  refine ⟨si, hsi, ?_⟩
  cases hsid : si.sid with
  | subjectKeyIdentifier ski => simp [hsid] at hfind
  | issuerAndSerialNumber issuer serialNumber =>
    simp only [hsid] at hfind ⊢
    refine find?_mergeUniqueFrom (by rw [List.find?_append, hfind]; rfl) (by simp) ?_
    -- a certificate in front of it has other bytes, or it would be selected itself
    intro c hc heq
    have hp := List.find?_some hfind
    have hmem := List.mem_of_find?_eq_some hfind
    have hverifier := certFromDer_of_mem_certificates hsig hfields hmem
    have hnot := List.mem_takeWhile_imp hc
    have hcMem : c ∈ sig.certificates := by
      obtain ⟨before, after, hsplit, hbefore⟩ := (List.find?_eq_some_iff_append.mp hfind).2
      rw [hsplit, List.append_assoc, List.takeWhile_append_of_pos (by simpa using hbefore)] at hc
      rcases List.mem_append.mp hc with hc | hc
      · rw [hsplit]
        exact List.mem_append_left _ hc
      · rw [List.cons_append, List.takeWhile_cons_of_neg (by simpa using hp)] at hc
        exact absurd hc (by simp)
    have hcert := certFromDer_of_mem_certificates hsig hfields hcMem
    have hder := hideal _ hcert.2 _ hverifier.2 heq
    have hsame : c = verifier :=
      Except.ok.inj (hcert.1.symm.trans (hder ▸ hverifier.1))
    rw [hsame, hp] at hnot
    simp at hnot

theorem der_of_mem_pickyCertsOf {label : String} {choices : List CertificateChoices}
    {certs : List Cert} {cert : Cert} (h : pickyCertsOf env label choices = .ok certs)
    (hmem : cert ∈ certs) :
    ∃ x509, CertificateChoices.certificate x509 ∈ choices ∧ cert.der = x509.der := by
  induction choices generalizing certs with
  | nil =>
    obtain rfl : [] = certs := Except.ok.inj h
    simp at hmem
  | cons choice rest ih =>
    cases choice with
    | other der =>
      obtain ⟨x509, hx509, hder⟩ := ih h hmem
      exact ⟨x509, List.mem_cons_of_mem _ hx509, hder⟩
    | certificate first =>
      simp only [pickyCertsOf, Outcome.bind_eq_ok, Outcome.mapErr_eq_ok, Outcome.pure_eq_ok,
        Except.ok.injEq] at h
      obtain ⟨c, hc, others, hothers, rfl⟩ := h
      rcases List.mem_cons.mp hmem with rfl | hmem
      · exact ⟨first, List.mem_cons_self, (env.picky.der_of_certFromDer hc).1⟩
      · obtain ⟨x509, hx509, hder⟩ := ih hothers hmem
        exact ⟨x509, List.mem_cons_of_mem _ hx509, hder⟩

/-- The leaf of the fallback has the bytes of the signer's certificate. -/
theorem der_fallbackLeaf {bytes : List UInt8} {ci : ContentInfo} {sd : SignedData}
    {sid : SignerIdentifier} {verifier : Certificate} {embedded anchorCerts : List Cert}
    {signer : Cert} (hci : env.cms.contentInfo bytes = .ok ci)
    (htype : ci.contentType = idSignedDataOid) (hsd : env.cms.signedData ci.content.toDer = .ok sd)
    (hverifier : signedDataCertificateForSignerIdentifier env.cms sd sid = .ok verifier)
    (hembedded : signedDataEmbeddedPickyCerts env sd = .ok embedded)
    (hsigner : env.picky.certFromDer verifier.der = .ok signer)
    (hideal : ThumbprintsDistinct env.cms.hashes (embeddedDers bytes ++ anchorCerts.map Cert.der)) :
    (fallbackLeaf env embedded anchorCerts signer).der = verifier.der := by
  simp only [signedDataCertificateForSignerIdentifier, Outcome.bind_eq_ok,
    Outcome.ofOption_eq_ok] at hverifier
  obtain ⟨choices, hchoices, hverifier⟩ := hverifier
  have hmem := mem_of_signerCertificate hverifier
  obtain ⟨fields, hfields, hreads⟩ := signedDataFields_of_decoded hci htype hsd
  obtain ⟨tlvs, htlvs, hset⟩ := hreads.certificates hchoices
  have hembeddedDer : ∀ {x509 : Certificate}, CertificateChoices.certificate x509 ∈ choices →
      x509.der ∈ embeddedDers bytes := by
    intro x509 hx509
    rw [mem_embeddedDers hfields, htlvs, Option.getD_some, ← List.mem_map, ← hset.perm.mem_iff]
    exact List.mem_map_of_mem hx509
  have hder := (env.picky.der_of_certFromDer hsigner).1
  unfold fallbackLeaf
  cases hfind : (embedded ++ anchorCerts).find? fun c =>
      certSha1Thumbprint env.cms.hashes c = certSha1Thumbprint env.cms.hashes signer with
  | none => exact hder
  | some leaf =>
    rw [Option.getD_some, ← hder]
    have hthumb : certSha1Thumbprint env.cms.hashes leaf =
        certSha1Thumbprint env.cms.hashes signer := by
      simpa using List.find?_some hfind
    refine hideal _ ?_ _ ?_ hthumb
    · rcases List.mem_append.mp (List.mem_of_find?_eq_some hfind) with hleaf | hleaf
      · have hcerts : pickyCertsOf env "picky embedded certificate" choices = .ok embedded := by
          rw [← hembedded, signedDataEmbeddedPickyCerts, hchoices]
        obtain ⟨x509, hx509, hsame⟩ := der_of_mem_pickyCertsOf hcerts hleaf
        exact List.mem_append_left _ (hsame ▸ hembeddedDer hx509)
      · exact List.mem_append_right _ (List.mem_map_of_mem hleaf)
    · exact List.mem_append_left _ (hder ▸ hembeddedDer hmem)

variable (env)

/-- The certificate that `picky` selects, the first in the order of the encoding
with the signer's issuer and serial number, is the least one with them. -/
def SelectsLeast (binding : Pkcs7DigestBinding) (pkcs7Der : List UInt8) : Prop :=
  ∀ sig verifier, binding = .authenticodeIndirect →
    env.picky.authenticodeFromDer (normalizePkcs7DerForAuthenticode pkcs7Der) = .ok sig →
    sig.selectedSigner sig.certificates = some verifier →
    ∀ other ∈ embeddedDers (normalizePkcs7DerForAuthenticode pkcs7Der), ∀ cert,
      env.cms.certificate other = .ok cert → cert.issuer = verifier.issuerName →
      cert.serialNumber = verifier.serialNumber → ¬ other < verifier.der

/-- The certificate whose identity was checked is the one whose key verified the
signature and whose chain leads to the anchors. -/
def IdentityIsSigner (binding : Pkcs7DigestBinding) (pkcs7Der : List UInt8)
    (policy : ArtifactSigningPolicy) (report : ArtifactSigningVerifiedSignature) : Prop :=
  ∃ signer found anchors anchorCerts instant acceptance,
    pkcs7SignerIdentity env pkcs7Der = .ok (signer, found) ∧
    checkedIdentity env signer policy = .ok (report.signerSubject, report.identity) ∧
    artifactSigningAnchors env report.identity.kind policy = .ok (anchors, anchorCerts) ∧
    Accepts env pkcs7Der anchors anchorCerts instant binding acceptance ∧
    acceptance.verifierDer = signer.der ∧ acceptance.leaf.der = signer.der

variable {env}

/-- The certificate that the CMS decoder finds and the one that `picky` selects
are the same exactly when the latter is the least with its identity. -/
theorem same_signer_iff {bytes : List UInt8} {ci : ContentInfo} {sd : SignedData}
    {sig : AuthenticodeSignature} {si : SignerInfo} {pickySi : PickySignerInfo}
    {signer : Certificate} {verifier : Cert} (hci : env.cms.contentInfo bytes = .ok ci)
    (htype : ci.contentType = idSignedDataOid) (hsd : env.cms.signedData ci.content.toDer = .ok sd)
    (hsi : sd.signerInfos.head? = some si)
    (hsigner : signedDataCertificateForSignerIdentifier env.cms sd si.sid = .ok signer)
    (hsig : env.picky.authenticodeFromDer bytes = .ok sig) (hone : sig.signerInfos = [pickySi])
    (hselects : sig.selectedSigner sig.certificates = some verifier) :
    verifier.der = signer.der ↔ ∀ other ∈ embeddedDers bytes, ∀ cert,
      env.cms.certificate other = .ok cert → cert.issuer = verifier.issuerName →
      cert.serialNumber = verifier.serialNumber → ¬ other < verifier.der := by
  obtain ⟨-, hsid, -⟩ := decoded_of_picky hci htype hsd hsig hone hsi
  simp only [AuthenticodeSignature.selectedSigner, hone, List.head?_cons, Option.bind_eq_bind,
    Option.bind_some] at hselects
  cases hpickySid : pickySi.sid with
  | subjectKeyIdentifier ski => simp [hpickySid] at hselects
  | issuerAndSerialNumber issuer serialNumber =>
    simp only [hpickySid] at hselects
    obtain ⟨hissuer, hserial⟩ :
        verifier.issuerName = issuer ∧ verifier.serialNumber = serialNumber := by
      simpa [Cert.hasIdentity] using List.find?_some hselects
    rw [hsid, hpickySid] at hsigner
    simp only [signedDataCertificateForSignerIdentifier, Outcome.bind_eq_ok,
      Outcome.ofOption_eq_ok] at hsigner
    obtain ⟨choices, hchoices, hfound⟩ := hsigner
    obtain ⟨before, after, rfl, hidentity, hbefore⟩ := certificateForSignerIdentifier_eq_ok hfound
    obtain ⟨fields, hfields, hreads⟩ := signedDataFields_of_decoded hci htype hsd
    obtain ⟨tlvs, htlvs, hset⟩ := hreads.certificates hchoices
    obtain ⟨hverifierRead, hverifierMem⟩ := certFromDer_of_mem_certificates hsig hfields
      (List.mem_of_find?_eq_some hselects)
    have hhead := (env.picky.der_of_certFromDer hverifierRead).2
    -- every embedded certificate with the identity comes at or behind the signer
    have hleast : ∀ cert, CertificateChoices.certificate cert ∈
        before ++ CertificateChoices.certificate signer :: after →
        cert.issuer = issuer → cert.serialNumber = serialNumber →
        cert = signer ∨ signer.der < cert.der := by
      intro cert hcert hi hs
      rcases List.mem_append.mp hcert with hmem | hmem
      · exact absurd ⟨hi, hs⟩ (hbefore cert hmem)
      · rcases List.mem_cons.mp hmem with heq | hmem
        · exact Or.inl (CertificateChoices.certificate.inj heq)
        · have hascending := hset.ascending
          rw [List.map_append, List.map_cons] at hascending
          have hbehind := (List.pairwise_append.mp hascending).2.1
          exact Or.inr ((List.pairwise_cons.mp hbehind).1 _ (List.mem_map_of_mem hmem))
    constructor
    · intro hsame other hother cert hcert hi hs hlt
      obtain ⟨hder, hotherHead⟩ := env.cms.der_of_certificate hcert
      obtain ⟨cert', hmem, hder', hcert'⟩ :=
        mem_choices_of_embedded hci htype hsd hchoices hother hotherHead
      obtain rfl : cert = cert' := Except.ok.inj (hcert.symm.trans hcert')
      rw [hsame] at hlt
      rcases hleast cert hmem (hi.trans hissuer) (hs.trans hserial) with rfl | hgt
      · exact List.lt_irrefl _ (hder ▸ hlt)
      · exact List.lt_asymm hlt (hder ▸ hgt)
    · intro hall
      obtain ⟨cert, hmem, hder, hcert⟩ :=
        mem_choices_of_embedded hci htype hsd hchoices hverifierMem hhead
      obtain ⟨hi, hs⟩ := env.picky.identity_of_certFromDer hverifierRead hcert
      rcases hleast cert hmem (hi.symm.trans hissuer) (hs.symm.trans hserial) with rfl | hlt
      · exact hder.symm
      · have hsignerMem : signer.der ∈ embeddedDers bytes := by
          rw [mem_embeddedDers hfields, htlvs, Option.getD_some, ← List.mem_map,
            ← hset.perm.mem_iff]
          exact List.mem_map_of_mem
            (List.mem_append_right before List.mem_cons_self)
        have hread := env.cms.certificate_of_signedData hsd hchoices
          (List.mem_append_right before List.mem_cons_self)
        exact absurd (hder ▸ hlt) (hall _ hsignerMem signer hread
          (hidentity.1.trans hissuer.symm) (hidentity.2.trans hserial.symm))

/-- Under an Artifact Signing policy, the identity that was checked is that of the
signer exactly when `picky` selects the least of the certificates that share its
issuer and serial number. -/
theorem artifact_identity_is_signer {fuel : Nat} {pkcs7Der : List UInt8} {pkcs7Index : Nat}
    {subjectDigest : List UInt8} {binding : Pkcs7DigestBinding} {policy : ArtifactSigningPolicy}
    {opts : TrustVerifyPeOptions} {report : ArtifactSigningVerifiedSignature}
    (h : verifyArtifactSigningPkcs7 env fuel pkcs7Der pkcs7Index subjectDigest binding policy opts =
      .ok report)
    (hideal : ∀ anchors anchorCerts,
      artifactSigningAnchors env report.identity.kind policy = .ok (anchors, anchorCerts) →
      ThumbprintsDistinct env.cms.hashes
        (embeddedDers (normalizePkcs7DerForAuthenticode pkcs7Der) ++ anchorCerts.map Cert.der)) :
    IdentityIsSigner env binding pkcs7Der policy report ↔ SelectsLeast env binding pkcs7Der := by
  obtain ⟨signer, found, timestamped, instant, anchors, anchorCerts, hsigner, hidentity, -,
    hanchors, hverify⟩ := verifyArtifactSigningPkcs7_eq_ok h
  replace hideal := hideal anchors anchorCerts hanchors
  have hparts := hsigner
  simp only [pkcs7SignerIdentity, Outcome.bind_eq_ok, Outcome.ofOption_eq_ok, Outcome.pure_eq_ok,
    Except.ok.injEq, Prod.mk.injEq] at hparts
  obtain ⟨sd, hparse, si, hsi, cert, hcert, _, -, rfl, -⟩ := hparts
  obtain ⟨ci, hci, htype, hsd⟩ := parsePkcs7SignedDataDer_eq_ok hparse
  constructor
  · intro hbound sig verifier hbinding hsig hselects
    obtain ⟨cert', found', anchors', anchorCerts', instant', acceptance, hsigner', -, hanchors',
      haccepts, hverifierDer, -⟩ := hbound
    obtain rfl : cert = cert' := (Prod.mk.inj (Except.ok.inj (hsigner.symm.trans hsigner'))).1
    cases haccepts with
    | picky parses signerInfos selects =>
      obtain rfl := Except.ok.inj (hsig.symm.trans parses)
      obtain rfl := Option.some.inj (hselects.symm.trans selects)
      exact (same_signer_iff hci htype hsd hsi hcert hsig signerInfos hselects).mp hverifierDer
    | fallback unparsed => exact absurd hsig (unparsed hbinding sig)
  · intro hleast
    obtain ⟨acceptance, haccepts⟩ := accepts_of_verified hverify
    refine ⟨cert, found, anchors, anchorCerts, instant, acceptance, hsigner, hidentity, hanchors,
      haccepts, ?_⟩
    cases haccepts with
    | picky parses signerInfos selects _ selectsLeaf =>
      obtain ⟨fields, hfields, -⟩ := signedDataFields_of_decoded hci htype hsd
      have hmerged := selectedSigner_merge parses hfields selects anchorCerts
        fun d hd d' hd' => hideal d (List.mem_append_left _ hd) d' (List.mem_append_left _ hd')
      obtain rfl := Option.some.inj (hmerged.symm.trans selectsLeaf)
      have hsame := (same_signer_iff hci htype hsd hsi hcert parses signerInfos selects).mpr
        (hleast _ _ rfl parses selects)
      exact ⟨hsame, hsame⟩
    | fallback unparsed decodes first finds signedAttrs verifies embeds reads chain =>
      obtain rfl := Except.ok.inj ((parse_normalize hparse).symm.trans decodes)
      obtain rfl := Option.some.inj (hsi.symm.trans first)
      obtain rfl := Except.ok.inj (hcert.symm.trans finds)
      exact ⟨rfl, der_fallbackLeaf hci htype hsd hcert embeds reads hideal⟩

/-! ### Two certificates with one identity -/

/-- The DER of an Artifact Signing identity for Private Trust. -/
def identityEkuDer (publisher : UInt8) : List UInt8 :=
  [0x06, 0x0C, 0x2B, 0x06, 0x01, 0x04, 0x01, 0x82, 0x37, 0x61, 0x01, 0x03, 0x01, publisher]

/-- The certificate of a publisher; all have the same issuer and serial number. -/
def publisherFields (publisher : UInt8) : CertFields :=
  ⟨2, [0x52], [publisher], [publisher], [0x06 :: 0x08 :: codeSigningEkuOid,
    identityEkuDer publisher], [publisher]⟩

/-- A publisher as a signer. -/
def publisherSigner (publisher : UInt8) : SignerFields :=
  ⟨publisherFields publisher, [messageDigestAttribute (spcIndirectAny signedSubject).value], []⟩

/-- What a publisher signs, with the certificate of another behind its own. -/
def publisherSignedData (signer other : UInt8) : List UInt8 :=
  signedDataDer oidSpcIndirectDataDer (spcIndirectAny signedSubject)
    [(publisherFields signer).der, (publisherFields other).der, rootFields.der]
    [(publisherSigner signer).der]

/-- The blobs of the publishers 7 and 8, which `picky` parses.  The root is the
least of their certificates and that of publisher 8 the greatest. -/
def publisherTables : Tables where
  signedDatas := [((7 : UInt8), (8 : UInt8)), (8, 7)].map fun (signer, other) =>
    (publisherSignedData signer other,
      ⟨"1.3.6.1.4.1.311.2.1.4", some (spcIndirectAny signedSubject),
        some [.certificate rootFields.certificate, .certificate (publisherFields 7).certificate,
          .certificate (publisherFields 8).certificate],
        [(publisherSigner signer).signerInfo]⟩)
  indirects := [(spcIndirectAny signedSubject, spcIndirect signedSubject)]
  extendedKeyUsages := []
  certificates := [rootFields.certificate, (publisherFields 7).certificate,
    (publisherFields 8).certificate]
  certs := [rootFields.cert, (publisherFields 7).cert, (publisherFields 8).cert]
  authenticodes := [((7 : UInt8), (8 : UInt8)), (8, 7)].map fun (signer, other) =>
    (contentInfoDer (publisherSignedData signer other),
      ⟨[(publisherFields signer).cert, (publisherFields other).cert, rootFields.cert],
        [(publisherSigner signer).pickySignerInfo], spcIndirectAny signedSubject⟩)
  publicTrustRoots := []
  files := [("root.cer", rootFields.der)]

set_option maxRecDepth 6000

theorem publisherTables_valid : publisherTables.Valid := by decide

/-- The environment that knows the blobs of the publishers. -/
def publisherEnvironment : Environment := publisherTables.environment publisherTables_valid

/-- Publisher 7 is expected, under a private root. -/
def publisherPolicy : ArtifactSigningPolicy := ⟨["7"], ["root.cer"], false⟩

/-- Verification of the blob of a publisher. -/
def verifyPublisher (signer other : UInt8) : Outcome ArtifactSigningVerifiedSignature :=
  verifyArtifactSigningPkcs7 publisherEnvironment 4
    (contentInfoDer (publisherSignedData signer other)) 0 signedSubject .authenticodeIndirect
    publisherPolicy ⟨none, ⟨false, none, .off⟩, ⟨true, false, false⟩, some publisherPolicy⟩

theorem artifact_identity_is_signer_publisher :
    ∃ report, verifyPublisher 7 8 = .ok report ∧
      (IdentityIsSigner publisherEnvironment .authenticodeIndirect
          (contentInfoDer (publisherSignedData 7 8)) publisherPolicy report ↔
        SelectsLeast publisherEnvironment .authenticodeIndirect
          (contentInfoDer (publisherSignedData 7 8))) := by
  cases hrun : verifyPublisher 7 8 with
  | error failure =>
    have hsome : (verifyPublisher 7 8).toOption.isSome = true := by decide
    rw [hrun] at hsome
    exact absurd hsome (by simp [Outcome.toOption])
  | ok report =>
    refine ⟨report, rfl, artifact_identity_is_signer hrun ?_⟩
    have hkind : (verifyPublisher 7 8).toOption.map (·.identity.kind) = some .privateTrust := by
      decide
    have hanchored : artifactSigningAnchors publisherEnvironment .privateTrust publisherPolicy =
        .ok (rootAnchors, [rootFields.cert]) := by
      decide
    rw [hrun, Outcome.toOption, Option.map_some, Option.some.injEq] at hkind
    intro anchors anchorCerts hanchors
    rw [hkind, hanchored, Except.ok.injEq, Prod.mk.injEq] at hanchors
    obtain ⟨rfl, rfl⟩ := hanchors
    unfold ThumbprintsDistinct
    decide

/-- Publisher 8 puts the certificate of publisher 7 behind its own, and its
signature is reported as one of publisher 7. -/
theorem identity_of_other_publisher :
    ∃ report, verifyPublisher 8 7 = .ok report ∧ report.identity.publisherId = "7" ∧
      ¬ IdentityIsSigner publisherEnvironment .authenticodeIndirect
        (contentInfoDer (publisherSignedData 8 7)) publisherPolicy report := by
  have hparses : publisherEnvironment.picky.authenticodeFromDer (normalizePkcs7DerForAuthenticode
      (contentInfoDer (publisherSignedData 8 7))) =
      .ok ⟨[(publisherFields 8).cert, (publisherFields 7).cert, rootFields.cert],
        [(publisherSigner 8).pickySignerInfo], spcIndirectAny signedSubject⟩ := by
    decide
  have hidentity : (pkcs7SignerIdentity publisherEnvironment
      (contentInfoDer (publisherSignedData 8 7))).toOption.map (·.1.der) =
      some (publisherFields 7).der := by
    decide
  have hpublisher : (verifyPublisher 8 7).toOption.map (·.identity.publisherId) = some "7" := by
    decide
  obtain ⟨report, hreport, hid⟩ := Option.map_eq_some_iff.mp hpublisher
  refine ⟨report, Outcome.toOption_eq_some.mp hreport, hid, ?_⟩
  intro hbound
  obtain ⟨signer, found, anchors, anchorCerts, instant, acceptance, hsigner, -, -, haccepts,
    hverifier, -⟩ := hbound
  rw [hsigner, Outcome.toOption, Option.map_some, Option.some.injEq] at hidentity
  cases haccepts with
  | picky parses signerInfos selects =>
    obtain rfl := Except.ok.inj (hparses.symm.trans parses)
    have hfirst : (publisherFields 8).cert.der = signer.der := by
      rw [← hverifier]
      revert selects
      exact fun selects => congrArg Cert.der (Option.some.inj selects)
    rw [hidentity] at hfirst
    revert hfirst
    decide
  | fallback unparsed => exact unparsed rfl _ hparses

end Psign.Trust
