import Psign.Trust.ArtifactSigning

/-!
# Trust verification of an entry

`verification_instant.rs` and the entry point of `trust_verify_pe.rs`, which every
subject format shares: choose the instant at which the chain of a signer is
validated, and verify trust in the signature at that instant.

The timestamp and the signature are read by different decoders, one of the blob
and one of what normalizing makes of it.  `signer_of_accepts` says that both are
about the same signer.
-/

namespace Psign.Trust

open CodeLib CodeLib.Der Psign.Sip

variable (env : Environment)

/-! ## The verification instant -/

/-- `resolve_verification_utc_date`. -/
def resolveVerificationUtcDate (pkcs7Der : List UInt8) (policy : AuthenticodeTrustPolicy) :
    Outcome UtcDate :=
  if policy.preferTimestampSigningTime = false then .ok env.now
  else
    match utcDateFromAuthenticodeTimestampToken env pkcs7Der with
    | some d => .ok d
    | none =>
      if policy.requireValidTimestamp then
        Outcome.bail ("timestamp required by policy but no usable RFC3161 / Authenticode " ++
          "timestamp token or PKCS#9 signing-time was found")
      else .ok env.now

/-- `resolve_verification_instant_for_pkcs7_with_trust`. -/
def resolveVerificationInstantForPkcs7WithTrust (fuel : Nat) (pkcs7Der : List UInt8)
    (policy : AuthenticodeTrustPolicy) (instantOverride : Option UtcDate) (anchors : AnchorStore)
    (anchorCerts : List Cert) (online : OnlineTrustOptions) : Outcome UtcDate :=
  match instantOverride with
  | some d => .ok d
  | none =>
    if policy.preferTimestampSigningTime = false then .ok env.now
    else if policy.requireValidTimestamp then do
      let found ← trustedUtcDateFromAuthenticodeTimestampToken env fuel pkcs7Der anchors anchorCerts
        online
      Outcome.ofOption found ("timestamp required by policy but no cryptographically valid " ++
        "trusted RFC3161 timestamp token was found")
    else resolveVerificationUtcDate env pkcs7Der policy

/-! ## The entry point -/

/-- `TrustVerifyPeReport`. -/
structure TrustVerifyPeReport where
  pkcs7EntriesVerified : Nat
  anchorThumbprints : Nat
  artifactSigning : List ArtifactSigningVerifiedSignature
  deriving DecidableEq, Repr

/-- `verify_pkcs7_entry`. -/
def verifyPkcs7Entry (fuel : Nat) (pkcs7Der : List UInt8) (pkcs7Index : Nat) (digest : List UInt8)
    (binding : Pkcs7DigestBinding) (anchors : AnchorStore) (anchorCerts : List Cert)
    (opts : TrustVerifyPeOptions) (report : TrustVerifyPeReport) :
    Outcome TrustVerifyPeReport := do
  let report ←
    match opts.artifactSigning with
    | some policy => do
      let verified ← verifyArtifactSigningPkcs7 env fuel pkcs7Der pkcs7Index digest binding policy
        opts
      pure { report with artifactSigning := report.artifactSigning ++ [verified] }
    | none => do
      let verificationInstant ← resolveVerificationInstantForPkcs7WithTrust env fuel pkcs7Der
        opts.policy opts.verificationInstantOverride anchors anchorCerts opts.online
      verifyPkcs7TrustWithBinding env fuel binding pkcs7Der pkcs7Index digest anchors anchorCerts
        opts.policy opts.online verificationInstant
      pure report
  return { report with pkcs7EntriesVerified := report.pkcs7EntriesVerified + 1 }

/-! ## The signer of both decodings -/

/-- The anchors of an entry, for its signer and for its timestamp: those that are
given, or the pinned roots of Artifact Signing. -/
def EntryAnchors (opts : TrustVerifyPeOptions) (anchors : AnchorStore) (anchorCerts : List Cert)
    (signerAnchors : AnchorStore) (signerCerts : List Cert) (tsAnchors : AnchorStore) : Prop :=
  match opts.artifactSigning with
  | none => signerAnchors = anchors ∧ signerCerts = anchorCerts ∧ tsAnchors = anchors
  | some policy =>
    (∃ kind, artifactSigningAnchors env kind policy = .ok (signerAnchors, signerCerts)) ∧
      ∃ certs, publicTrustAnchors env = .ok (tsAnchors, certs)

/-- The instant is the time of a token in the unsigned attributes of the accepted signer. -/
def TimestampedAt (acceptance : Acceptance) (tsAnchors : AnchorStore) (instant : UtcDate) : Prop :=
  ∃ si found tsSd tsSi tsa, env.cms.signerInfo acceptance.signerInfoDer = .ok si ∧
    si.signature = acceptance.signature ∧
    TimestampEvidence env si tsAnchors instant found tsSd tsSi tsa

/-- Artifact Signing accepts signatures without a timestamp, none that is trusted was found, and the
instant is the present one. -/
def Untimestamped (fuel : Nat) (pkcs7Der : List UInt8) (opts : TrustVerifyPeOptions)
    (instant : UtcDate) : Prop :=
  ∃ policy tsAnchors tsCerts, opts.artifactSigning = some policy ∧ policy.requireTimestamp = false ∧
    publicTrustAnchors env = .ok (tsAnchors, tsCerts) ∧
    trustedUtcDateFromAuthenticodeTimestampToken env fuel pkcs7Der tsAnchors tsCerts opts.online =
      .ok none ∧ instant = env.now

variable {env}

/-- The signer whose unsigned attributes are searched is the one whose signature
is accepted. -/
theorem signer_of_accepts {pkcs7Der : List UInt8} {outerSd : SignedData} {si : SignerInfo}
    {anchors : AnchorStore} {anchorCerts : List Cert} {instant : UtcDate}
    {binding : Pkcs7DigestBinding} {acceptance : Acceptance}
    (hsd : signedDataFromPkcs7 env pkcs7Der = some outerSd)
    (hsi : outerSd.signerInfos.head? = some si)
    (haccepts : Accepts env pkcs7Der anchors anchorCerts instant binding acceptance) :
    env.cms.signerInfo acceptance.signerInfoDer = .ok si ∧ si.signature = acceptance.signature := by
  obtain ⟨fields, last, tlvs, hfields, hlast, hlastTag, htlvs, hset, hread⟩ :=
    decoded_signerInfos hsd
  have hmem : si ∈ outerSd.signerInfos := List.mem_of_mem_head? hsi
  have htag : last.tag ≠ 0xa0 := by
    rw [hlastTag]
    decide
  -- normalizing keeps the last field, which holds the signer infos
  obtain ⟨fields', hfields', hlast'⟩ := fields_normalize hfields hlast htag
  cases haccepts with
  | picky parses signerInfos selects verifies selectsLeaf chain =>
    rename_i sig pickySi verifier leaf
    obtain ⟨found, hfound, hders⟩ := env.picky.signerInfos_of_authenticode parses hfields'
    simp only [signerInfoTlvs, hlast', Option.bind_eq_bind, Option.bind_some] at hfound
    obtain rfl : tlvs = found := Option.some.inj (htlvs.symm.trans hfound)
    have hder : si.der = pickySi.der := by
      have hperm := hset.perm
      rw [← hders, signerInfos, List.map_cons, List.map_nil] at hperm
      exact List.mem_singleton.mp (hperm.mem_iff.mp (List.mem_map_of_mem hmem))
    have hagrees := env.picky.signerInfo_agrees parses
      (signerInfos ▸ List.mem_singleton_self pickySi) (hder ▸ hread si hmem)
    exact ⟨hder ▸ hread si hmem, hagrees.2⟩
  | fallback unparsed decodes first finds signedAttrs verifies embeds reads chain =>
    rename_i sd si' verifier attrs embedded signer
    obtain ⟨ci, hci, htype, hsd'⟩ := parsePkcs7SignedDataDer_eq_ok decodes
    obtain ⟨fields'', hfields'', hlast''⟩ := fields_normalize hfields' hlast' htag
    obtain ⟨found, hfound, hreads⟩ := signedDataFields_of_decoded hci htype hsd'
    obtain rfl : fields'' = found := Option.some.inj (hfields''.symm.trans hfound)
    obtain ⟨tlvs', htlvs', hset'⟩ := hreads.signerInfos
    simp only [signerInfoTlvs, hlast'', Option.bind_eq_bind, Option.bind_some] at htlvs'
    obtain rfl : tlvs = tlvs' := Option.some.inj (htlvs.symm.trans htlvs')
    have hders := hset.unique hset' rfl
    have hheads := congrArg List.head? hders
    rw [List.head?_map, List.head?_map, hsi, first, Option.map_some, Option.map_some,
      Option.some.injEq] at hheads
    have hread' := env.cms.signerInfo_of_signedData hsd' (List.mem_of_mem_head? first)
    have hsame : si = si' := Except.ok.inj ((hread si hmem).symm.trans (hheads ▸ hread'))
    exact ⟨hsame ▸ hread', congrArg SignerInfo.signature hsame⟩

/-! ## Timestamp soundness -/

/-- A successful entry under a policy that requires a timestamp, or under that of Artifact Signing,
has resolved its instant from a trusted token, or from the clock where Artifact Signing allows it, and
has accepted a signer at that instant. -/
theorem instant_of_verified {fuel : Nat} {pkcs7Der : List UInt8} {pkcs7Index : Nat}
    {digest : List UInt8} {binding : Pkcs7DigestBinding} {anchors : AnchorStore}
    {anchorCerts : List Cert} {opts : TrustVerifyPeOptions} {report report' : TrustVerifyPeReport}
    (h : verifyPkcs7Entry env fuel pkcs7Der pkcs7Index digest binding anchors anchorCerts opts
      report = .ok report')
    (hoverride : opts.verificationInstantOverride = none)
    (hpolicy : opts.artifactSigning = none →
      opts.policy.preferTimestampSigningTime = true ∧ opts.policy.requireValidTimestamp = true) :
    ∃ instant signerAnchors signerCerts tsAnchors acceptance,
      EntryAnchors env opts anchors anchorCerts signerAnchors signerCerts tsAnchors ∧
      Accepts env pkcs7Der signerAnchors signerCerts instant binding acceptance ∧
      ((∃ tsCerts, trustedUtcDateFromAuthenticodeTimestampToken env fuel pkcs7Der tsAnchors tsCerts
          opts.online = .ok (some instant)) ∨
        Untimestamped env fuel pkcs7Der opts instant) := by
  unfold EntryAnchors
  cases hartifact : opts.artifactSigning with
  | none =>
    obtain ⟨hprefer, hrequire⟩ := hpolicy hartifact
    simp only [verifyPkcs7Entry, hartifact, resolveVerificationInstantForPkcs7WithTrust, hoverride,
      hprefer, hrequire, Bool.true_eq_false, if_true, if_false, Outcome.bind_eq_ok,
      Outcome.ofOption_eq_ok] at h
    obtain ⟨genTime, ⟨_, hdate, rfl⟩, _, hverify, -⟩ := h
    obtain ⟨acceptance, haccepts⟩ := accepts_of_verified hverify
    exact ⟨genTime, anchors, anchorCerts, anchors, acceptance, ⟨rfl, rfl, rfl⟩, haccepts,
      Or.inl ⟨anchorCerts, hdate⟩⟩
  | some policy =>
    simp only [verifyPkcs7Entry, hartifact, Outcome.bind_eq_ok] at h
    obtain ⟨verified, hverified, -⟩ := h
    obtain ⟨_, _, timestamped, instant, signerAnchors, signerCerts, -, -, hinstant, hsigner,
      hverify⟩ := verifyArtifactSigningPkcs7_eq_ok hverified
    simp only [artifactSigningInstant, hoverride, Outcome.bind_eq_ok, Outcome.mapErr_eq_ok,
      Prod.exists] at hinstant
    obtain ⟨tsAnchors, tsCerts, hts, date, hdate, hinstant⟩ := hinstant
    obtain ⟨acceptance, haccepts⟩ := accepts_of_verified hverify
    refine ⟨instant, signerAnchors, signerCerts, tsAnchors, acceptance, ⟨⟨_, hsigner⟩, _, hts⟩,
      haccepts, ?_⟩
    cases date with
    | none =>
      cases hrequire : policy.requireTimestamp with
      | true =>
        rw [hrequire, if_pos rfl] at hinstant
        exact absurd hinstant Outcome.bail_ne_ok
      | false =>
        rw [hrequire] at hinstant
        have hnow := congrArg Prod.snd (Except.ok.inj hinstant)
        exact Or.inr ⟨policy, tsAnchors, tsCerts, hartifact, hrequire, hts, hdate, hnow.symm⟩
    | some genTime =>
      simp only [Except.ok.injEq, Prod.mk.injEq] at hinstant
      obtain ⟨-, rfl⟩ := hinstant
      exact Or.inl ⟨tsCerts, hdate⟩

/-- Under a policy that requires a timestamp, the chain of an accepted signer was validated at the
time of a token in the unsigned attributes of that same signer.  Artifact Signing has a policy of its
own: if that does not require a timestamp and none is found, the instant is the present one. -/
theorem timestamp_sound {fuel : Nat} {pkcs7Der : List UInt8} {pkcs7Index : Nat}
    {digest : List UInt8} {binding : Pkcs7DigestBinding} {anchors : AnchorStore}
    {anchorCerts : List Cert} {opts : TrustVerifyPeOptions} {report report' : TrustVerifyPeReport}
    (h : verifyPkcs7Entry env fuel pkcs7Der pkcs7Index digest binding anchors anchorCerts opts
      report = .ok report')
    (hoverride : opts.verificationInstantOverride = none)
    (hpolicy : opts.artifactSigning = none →
      opts.policy.preferTimestampSigningTime = true ∧ opts.policy.requireValidTimestamp = true) :
    ∃ instant signerAnchors signerCerts tsAnchors acceptance,
      EntryAnchors env opts anchors anchorCerts signerAnchors signerCerts tsAnchors ∧
      Accepts env pkcs7Der signerAnchors signerCerts instant binding acceptance ∧
      (TimestampedAt env acceptance tsAnchors instant ∨
        Untimestamped env fuel pkcs7Der opts instant) := by
  obtain ⟨instant, signerAnchors, signerCerts, tsAnchors, acceptance, hanchors, haccepts, hfound⟩ :=
    instant_of_verified h hoverride hpolicy
  refine ⟨instant, signerAnchors, signerCerts, tsAnchors, acceptance, hanchors, haccepts, ?_⟩
  rcases hfound with ⟨tsCerts, hdate⟩ | hnone
  · obtain ⟨outerSd, si, found, tsSd, tsSi, tsa, hsd, hsi, hevidence⟩ :=
      evidence_of_trustedDate hdate
    obtain ⟨hread, hsignature⟩ := signer_of_accepts hsd hsi haccepts
    exact Or.inl ⟨si, found, tsSd, tsSi, tsa, hread, hsignature, hevidence⟩
  · exact Or.inr hnone

/-! ### A timestamped blob -/

/-- A certificate for time stamping that the root issued. -/
def tsaFields : CertFields :=
  ⟨3, [0x52], [0x54], [0x03], [[0x06, 0x08, 0x2B, 0x06, 0x01, 0x05, 0x05, 0x07, 0x03, 0x08]],
    [0x03]⟩

/-- The `TSTInfo` of the signature of `subjectSigner`, at noon of 1 July 2023. -/
def subjectTstinfo : List UInt8 :=
  sequence [[0x02, 0x01, 0x01], [0x06, 0x02, 0x2A, 0x03],
    sequence [algorithmDer oidSha256Der,
      encodeTlv 0x04 (Hashes.mixing.hash .sha256 subjectSigner.signature)],
    [0x02, 0x01, 0x05], encodeTlv 0x18 ("20230701120000Z".toList.map (UInt8.ofNat ·.toNat))]

/-- The signer of the token. -/
def tokenSigner : SignerFields :=
  ⟨tsaFields, [messageDigestAttribute subjectTstinfo], []⟩

/-- The token. -/
def tokenSignedData : List UInt8 :=
  signedDataDer oidTstinfoDer ⟨0x04, subjectTstinfo⟩ [tsaFields.der] [tokenSigner.der]

/-- `subjectSigner` with the token as an unsigned attribute. -/
def timestampedSigner : SignerFields :=
  { subjectSigner with
    unsignedAttrs := [⟨idAaTimeStampToken,
      [⟨0x30, pkcs7SignedDataOidDer ++ encodeTlv 0xa0 tokenSignedData⟩]⟩] }

/-- The `SignedData` of the timestamped signer. -/
def timestampedSignedData : List UInt8 :=
  signedDataDer oidSpcIndirectDataDer (spcIndirectAny signedSubject)
    [leafFields.der, rootFields.der] [timestampedSigner.der]

/-- The blob and its token. -/
def timestampedTables : Tables where
  signedDatas := [
    (timestampedSignedData,
      { subjectDecoded signedSubject with signerInfos := [timestampedSigner.signerInfo] }),
    (tokenSignedData, ⟨idCtTstinfo, some ⟨0x04, subjectTstinfo⟩,
      some [.certificate tsaFields.certificate], [tokenSigner.signerInfo]⟩)]
  indirects := [(spcIndirectAny signedSubject, spcIndirect signedSubject)]
  extendedKeyUsages := [(sequence tsaFields.ekus, [timeStampingEkuOid])]
  certificates := [rootFields.certificate, leafFields.certificate, tsaFields.certificate]
  certs := [rootFields.cert, leafFields.cert, tsaFields.cert]
  authenticodes := []
  publicTrustRoots := []
  files := []

set_option maxRecDepth 6000

theorem timestampedTables_valid : timestampedTables.Valid := by decide

/-- The environment that knows the blob and its token. -/
def timestampedEnvironment : Environment :=
  timestampedTables.environment timestampedTables_valid

/-- The options that require a timestamp. -/
def requiringTimestamp : TrustVerifyPeOptions :=
  ⟨none, ⟨false, none, .off⟩, ⟨true, true, true⟩, none⟩

theorem timestamp_sound_subject :
    ∃ instant signerAnchors signerCerts tsAnchors acceptance,
      EntryAnchors timestampedEnvironment requiringTimestamp rootAnchors [rootFields.cert]
        signerAnchors signerCerts tsAnchors ∧
      Accepts timestampedEnvironment (contentInfoDer timestampedSignedData) signerAnchors
        signerCerts instant .authenticodeIndirect acceptance ∧
      TimestampedAt timestampedEnvironment acceptance tsAnchors instant := by
  have hrun : verifyPkcs7Entry timestampedEnvironment 4 (contentInfoDer timestampedSignedData) 0
      signedSubject .authenticodeIndirect rootAnchors [rootFields.cert] requiringTimestamp
      ⟨0, 1, []⟩ = .ok ⟨1, 1, []⟩ := by
    decide
  have hpolicy : requiringTimestamp.policy.preferTimestampSigningTime = true ∧
      requiringTimestamp.policy.requireValidTimestamp = true := ⟨rfl, rfl⟩
  obtain ⟨instant, signerAnchors, signerCerts, tsAnchors, acceptance, hanchors, haccepts, hinstant⟩ :=
    timestamp_sound hrun rfl fun _ => hpolicy
  refine ⟨instant, signerAnchors, signerCerts, tsAnchors, acceptance, hanchors, haccepts, ?_⟩
  rcases hinstant with htimestamped | ⟨policy, _, _, hartifact, -⟩
  · exact htimestamped
  · cases hartifact

/-- Options that require a timestamp, with Artifact Signing that does not. -/
def requiringWithArtifact : TrustVerifyPeOptions :=
  ⟨none, ⟨false, none, .off⟩, ⟨true, true, true⟩, some publisherPolicy⟩

/-- A blob without unsigned attributes is accepted, although the options require a timestamp. -/
theorem untimestamped_accepted :
    requiringWithArtifact.verificationInstantOverride = none ∧
      requiringWithArtifact.policy.preferTimestampSigningTime = true ∧
      requiringWithArtifact.policy.requireValidTimestamp = true ∧
      (∃ report, verifyPkcs7Entry publisherEnvironment 4 (contentInfoDer (publisherSignedData 7 8)) 0
        signedSubject .authenticodeIndirect rootAnchors [rootFields.cert] requiringWithArtifact
        ⟨0, 1, []⟩ = .ok report) ∧
      ∀ instant signerAnchors signerCerts tsAnchors acceptance,
        Accepts publisherEnvironment (contentInfoDer (publisherSignedData 7 8)) signerAnchors
          signerCerts instant .authenticodeIndirect acceptance →
        ¬ TimestampedAt publisherEnvironment acceptance tsAnchors instant := by
  have hparses : publisherEnvironment.picky.authenticodeFromDer (normalizePkcs7DerForAuthenticode
      (contentInfoDer (publisherSignedData 7 8))) =
      .ok ⟨[(publisherFields 7).cert, (publisherFields 8).cert, rootFields.cert],
        [(publisherSigner 7).pickySignerInfo], spcIndirectAny signedSubject⟩ := by
    decide
  have hsigner : publisherEnvironment.cms.signerInfo (publisherSigner 7).der =
      .ok (publisherSigner 7).signerInfo := by
    decide
  refine ⟨rfl, rfl, rfl, ?_, ?_⟩
  · have hrun : (verifyPkcs7Entry publisherEnvironment 4 (contentInfoDer (publisherSignedData 7 8)) 0
        signedSubject .authenticodeIndirect rootAnchors [rootFields.cert] requiringWithArtifact
        ⟨0, 1, []⟩).toOption.isSome = true := by
      decide
    obtain ⟨report, hreport⟩ := Option.isSome_iff_exists.mp hrun
    exact ⟨report, Outcome.toOption_eq_some.mp hreport⟩
  · intro instant signerAnchors signerCerts tsAnchors acceptance haccepts htimestamped
    obtain ⟨si, found, tsSd, tsSi, tsa, hread, -, hevidence⟩ := htimestamped
    obtain ⟨attrs, _, _, hattrs, -⟩ := hevidence.inUnsignedAttrs
    cases haccepts with
    | picky parses signerInfos =>
      obtain rfl := Except.ok.inj (hparses.symm.trans parses)
      obtain rfl := (List.cons.inj signerInfos).1
      obtain rfl := Except.ok.inj (hsigner.symm.trans hread)
      cases hattrs
    | fallback unparsed => exact unparsed rfl _ hparses

end Psign.Trust
