import Psign.Trust.ArtifactSigning
import Psign.Trust.ChainWalk

/-!
# The anchor that is reported

`verify_artifact_signing_pkcs7` verifies the chain of the signer, and then builds a
chain a second time to report the anchor that it ends in.  The two walks differ in
what they look issuers up in.  The verification puts the embedded certificates in
front of the anchors for a blob that `picky` parses, and adds the issuers that it
fetches.  The report puts the anchors in front, has the embedded certificates in the
order of a DER set, and fetches nothing.

`reported_anchor_iff` says when the second walk comes to the anchor that the first
one ended in.  An embedded cross-certificate for the name of an anchor leads it
elsewhere, and a fetched issuer lets it fail behind a verification that succeeded.
-/

namespace Psign.Trust

open CodeLib CodeLib.Bytes CodeLib.Der Psign.Sip

/-! ## The chain that is verified -/

section

variable (env : Environment)

/-- What the fallback of the verification builds a chain of. -/
def fallbackStart (slice : List UInt8) (anchorCerts : List Cert) : Outcome (Cert × List Cert) := do
  let sd ← parsePkcs7SignedDataDer env.cms slice
  let si ← Outcome.ofOption sd.signerInfos.head? "SignedData has no SignerInfo"
  let x509Leaf ← signedDataCertificateForSignerIdentifier env.cms sd si.sid
  let embeddedCerts ← signedDataEmbeddedPickyCerts env sd
  let leafFromX509 ← env.picky.certFromDer x509Leaf.der
  return (fallbackLeaf env embeddedCerts anchorCerts leafFromX509,
    mergeUniqueCerts env.cms.hashes anchorCerts embeddedCerts)

/-- The leaf and the pool of the verification. -/
def verifiedStart (binding : Pkcs7DigestBinding) (pkcs7Der : List UInt8)
    (anchorCerts : List Cert) : Outcome (Cert × List Cert) :=
  let slice := normalizePkcs7DerForAuthenticode pkcs7Der
  match binding, env.picky.authenticodeFromDer slice with
  | .authenticodeIndirect, .ok pickySig => do
    let merged := mergeUniqueCerts env.cms.hashes pickySig.certificates anchorCerts
    let leaf ← env.picky.signingCertificate pickySig merged
    return (leaf, merged)
  | _, _ => fallbackStart env slice anchorCerts

/-- The leaf of the verification, and the issuers that lead from it to an anchor. -/
def verifiedChain (fuel : Nat) (binding : Pkcs7DigestBinding) (pkcs7Der : List UInt8)
    (anchors : AnchorStore) (anchorCerts : List Cert) (online : OnlineTrustOptions) :
    Outcome (Cert × List Cert) := do
  let (leaf, merged) ← verifiedStart env binding pkcs7Der anchorCerts
  let chain ← issuerChainExcludingLeafOnline env fuel leaf merged online (some anchors)
  return (leaf, chain)

end

variable {env : Environment}

private theorem chain_of_verifyLeafToAnchors {fuel pkcs7Index : Nat} {leaf : Cert}
    {merged : List Cert} {anchors : AnchorStore} {online : OnlineTrustOptions} {instant : UtcDate}
    (h : verifyLeafToAnchors env fuel pkcs7Index leaf merged anchors online instant = .ok ()) :
    ∃ chain, issuerChainExcludingLeafOnline env fuel leaf merged online (some anchors) = .ok chain ∧
      isTrusted env.cms.hashes (some anchors) (terminalRootCert leaf chain) = true := by
  simp only [verifyLeafToAnchors, Outcome.bind_eq_ok, Outcome.guardThat_eq_ok, exists_const] at h
  obtain ⟨chain, hchain, htrusted, -⟩ := h
  exact ⟨chain, hchain, htrusted⟩

private theorem fallbackStart_of_verified {fuel pkcs7Index : Nat} {slice : List UInt8}
    {check : CmsDigestCheck} {anchors : AnchorStore} {anchorCerts : List Cert}
    {policy : AuthenticodeTrustPolicy} {online : OnlineTrustOptions} {instant : UtcDate}
    (h : verifyPkcs7TrustCmsRsaSha256Fallback env fuel slice pkcs7Index check anchors anchorCerts
      policy online instant = .ok ()) :
    ∃ leaf merged, fallbackStart env slice anchorCerts = .ok (leaf, merged) ∧
      verifyLeafToAnchors env fuel pkcs7Index leaf merged anchors online instant = .ok () := by
  obtain ⟨sd, si, x509Leaf, embedded, signer, hsd, -, hsi, hleaf, hembedded, hsigner, hverify⟩ :=
    fallback_eq_ok h
  refine ⟨_, _, ?_, hverify⟩
  simp only [fallbackStart, Outcome.bind_eq_ok, Outcome.ofOption_eq_ok]
  exact ⟨sd, hsd, si, hsi, x509Leaf, hleaf, embedded, hembedded, signer, hsigner, rfl⟩

/-- Trust verification succeeds only with a chain that ends in an anchor. -/
theorem verifiedChain_of_verified {fuel : Nat} {binding : Pkcs7DigestBinding}
    {pkcs7Der : List UInt8} {pkcs7Index : Nat} {digest : List UInt8} {anchors : AnchorStore}
    {anchorCerts : List Cert} {policy : AuthenticodeTrustPolicy} {online : OnlineTrustOptions}
    {instant : UtcDate}
    (h : verifyPkcs7TrustWithBinding env fuel binding pkcs7Der pkcs7Index digest anchors anchorCerts
      policy online instant = .ok ()) :
    ∃ leaf chain, verifiedChain env fuel binding pkcs7Der anchors anchorCerts online =
        .ok (leaf, chain) ∧
      isTrusted env.cms.hashes (some anchors) (terminalRootCert leaf chain) = true := by
  have hstart : ∃ leaf merged, verifiedStart env binding pkcs7Der anchorCerts = .ok (leaf, merged) ∧
      verifyLeafToAnchors env fuel pkcs7Index leaf merged anchors online instant = .ok () := by
    cases binding with
    | pkcs9MessageDigest => exact fallbackStart_of_verified h
    | authenticodeIndirect =>
      simp only [verifyPkcs7TrustWithBinding, verifyAuthenticodePkcs7Trust] at h
      simp only [verifiedStart]
      cases hsig : env.picky.authenticodeFromDer (normalizePkcs7DerForAuthenticode pkcs7Der) with
      | error failure =>
        rw [hsig] at h
        exact fallbackStart_of_verified h
      | ok sig =>
        rw [hsig] at h
        obtain ⟨-, leaf, hleaf, hverify⟩ := picky_eq_ok h
        exact ⟨leaf, _, by simp only [hleaf]; rfl, hverify⟩
  obtain ⟨leaf, merged, hstart, hverify⟩ := hstart
  obtain ⟨chain, hchain, htrusted⟩ := chain_of_verifyLeafToAnchors hverify
  refine ⟨leaf, chain, ?_, htrusted⟩
  rw [verifiedChain, hstart]
  exact Outcome.bind_eq_ok.mpr ⟨(leaf, merged), rfl, Outcome.bind_eq_ok.mpr ⟨chain, hchain, rfl⟩⟩

/-! ## Where a walk without fetching ends -/

variable (env)

/-- A path of issuers to a root in which every certificate is the first of its name
in the pool, and no one in front of the root ends a walk. -/
structure FirstByName (pool : List Cert) (anchors : AnchorStore) (room : Nat) (current root : Cert)
    (path : List Cert) : Prop where
  linked : Linked current path
  length_le : path.length ≤ room
  ends : path.getLast? = some root
  first : ∀ cert ∈ path, pool.find? (·.subjectName = cert.subjectName) = some cert
  passes : ∀ cert ∈ path.dropLast,
    isTrusted env.cms.hashes (some anchors) cert = false ∧ cert.subjectName ≠ cert.issuerName

variable {env}

section

variable {pool : List Cert} {anchors : AnchorStore} {room : Nat} {current root : Cert}

private theorem FirstByName.ne_nil {path : List Cert}
    (h : FirstByName env pool anchors room current root path) : path ≠ [] := by
  intro hnil
  have hends := h.ends
  rw [hnil] at hends
  simp at hends

/-- A walk that ends well has followed such a path to its last certificate. -/
theorem firstByName_of_issuerChainFrom {out chain : List Cert}
    (hout : ∀ last ∈ out.getLast?, isTrusted env.cms.hashes (some anchors) last = false)
    (h : issuerChainFrom env pool (some anchors) room current.issuerName out = .ok chain) :
    ∃ root path, chain.getLast? = some root ∧
      FirstByName env pool anchors room current root path := by
  induction room generalizing current out with
  | zero =>
    rw [issuerChainFrom] at h
    cases hfind : pool.find? (·.subjectName = current.issuerName) with
    | some parent => simp [hfind] at h
    | none =>
      simp only [hfind, endWithoutIssuer, unresolvedIssuer] at h
      cases hlast : out.getLast? with
      | none => simp [hlast] at h
      | some last => simp [hlast, hout last hlast] at h
  | succ room ih =>
    rw [issuerChainFrom] at h
    cases hfind : pool.find? (·.subjectName = current.issuerName) with
    | none =>
      simp only [hfind, endWithoutIssuer, unresolvedIssuer] at h
      cases hlast : out.getLast? with
      | none => simp [hlast] at h
      | some last => simp [hlast, hout last hlast] at h
    | some parent =>
      have hname : parent.subjectName = current.issuerName := by
        simpa using List.find?_some hfind
      have hfirst : pool.find? (·.subjectName = parent.subjectName) = some parent := by
        rw [hname, hfind]
      rw [hfind] at h
      simp only at h
      by_cases hstop : parent.subjectName = parent.issuerName ∨
          isTrusted env.cms.hashes (some anchors) parent = true
      · have hchain : out ++ [parent] = chain := by
          rcases hstop with hself | htrusted
          · rw [if_pos hself] at h
            exact Except.ok.inj h
          · rw [if_pos htrusted, ite_self] at h
            exact Except.ok.inj h
        refine ⟨parent, [parent], ?_, ⟨hname, trivial⟩, by simp, rfl, by simpa using hfirst, by simp⟩
        rw [← hchain, List.getLast?_concat]
      · obtain ⟨hself, htrusted⟩ := not_or.mp hstop
        rw [if_neg hself, if_neg htrusted] at h
        have hpasses : isTrusted env.cms.hashes (some anchors) parent = false := by
          simpa using htrusted
        obtain ⟨root, path, hroot, hpath⟩ := ih (by simpa using hpasses) h
        refine ⟨root, parent :: path, hroot, ⟨hname, hpath.linked⟩, ?_, ?_, ?_, ?_⟩
        · exact Nat.succ_le_succ hpath.length_le
        · rw [List.getLast?_cons, hpath.ends]
          rfl
        · intro cert hcert
          rcases List.mem_cons.mp hcert with rfl | hcert
          · exact hfirst
          · exact hpath.first cert hcert
        · rw [List.dropLast_cons_of_ne_nil hpath.ne_nil]
          intro cert hcert
          rcases List.mem_cons.mp hcert with rfl | hcert
          · exact ⟨hpasses, hself⟩
          · exact hpath.passes cert hcert

/-- A walk follows such a path to its root, if the root is an anchor. -/
theorem issuerChainFrom_of_firstByName {out path : List Cert}
    (htrusted : isTrusted env.cms.hashes (some anchors) root = true)
    (h : FirstByName env pool anchors room current root path) :
    issuerChainFrom env pool (some anchors) room current.issuerName out = .ok (out ++ path) := by
  induction path generalizing current room out with
  | nil => exact absurd rfl h.ne_nil
  | cons parent path ih =>
    obtain ⟨hname, hlinked⟩ := h.linked
    have hfind : pool.find? (·.subjectName = current.issuerName) = some parent := by
      rw [← hname]
      exact h.first parent List.mem_cons_self
    cases room with
    | zero => exact absurd h.length_le (by simp)
    | succ room =>
      rw [issuerChainFrom, hfind]
      show (if parent.subjectName = parent.issuerName then _ else _) = _
      by_cases hpath : path = []
      · have hroot : parent = root := by
          have hends := h.ends
          rw [hpath] at hends
          exact Option.some.inj hends
        rw [hpath, hroot, if_pos htrusted, ite_self]
      · have hpasses := h.passes
        rw [List.dropLast_cons_of_ne_nil hpath] at hpasses
        obtain ⟨huntrusted, hself⟩ := hpasses parent List.mem_cons_self
        have hrest : FirstByName env pool anchors room parent root path := by
          refine ⟨hlinked, Nat.le_of_succ_le_succ h.length_le, ?_, ?_, ?_⟩
          · have hends := h.ends
            rwa [List.getLast?_cons_of_ne_nil hpath] at hends
          · exact fun cert hcert => h.first cert (List.mem_cons_of_mem _ hcert)
          · exact fun cert hcert => hpasses cert (List.mem_cons_of_mem _ hcert)
        rw [if_neg hself, if_neg (by simp [huntrusted]), ih hrest, List.append_assoc]
        rfl

end

/-! ## The anchor of the report -/

variable (env)

/-- From the certificate that the CMS decoder finds for the signer, the first
certificates with the issuers' names lead to a root.  They are looked for among the
anchors, and behind these among the embedded certificates in the order of a DER set. -/
def AnchorsFirstLeadTo (pkcs7Der : List UInt8) (anchors : AnchorStore) (anchorCerts : List Cert)
    (signer : Certificate) (root : Cert) : Prop :=
  ∃ sd leaf, parsePkcs7SignedDataDer env.cms pkcs7Der = .ok sd ∧
    env.picky.certFromDer signer.der = .ok leaf ∧
    if leaf.subjectName = leaf.issuerName then leaf = root
    else ∃ path, FirstByName env (mergeUniqueCerts env.cms.hashes anchorCerts (embeddedOf env sd))
      anchors 32 leaf root path

variable {env}

private theorem signerTerminalRoot_eq_ok {pkcs7Der : List UInt8} {anchors : AnchorStore}
    {anchorCerts : List Cert} {sd : SignedData} {signer : Certificate} {si : SignerInfo}
    {root : Cert} (hsd : parsePkcs7SignedDataDer env.cms pkcs7Der = .ok sd)
    (hsi : sd.signerInfos.head? = some si)
    (hsigner : signedDataCertificateForSignerIdentifier env.cms sd si.sid = .ok signer) :
    signerTerminalRoot env pkcs7Der anchors anchorCerts = .ok root ↔
      ∃ leaf chain, env.picky.certFromDer signer.der = .ok leaf ∧
        issuerChainExcludingLeaf env leaf
          (mergeUniqueCerts env.cms.hashes anchorCerts (embeddedOf env sd)) (some anchors) =
          .ok chain ∧
        terminalRootCert leaf chain = root := by
  simp only [signerTerminalRoot, Outcome.bind_eq_ok, Outcome.mapErr_eq_ok, Outcome.ofOption_eq_ok,
    parse_normalize hsd, Except.ok.injEq, exists_eq_left', hsi, Option.some.injEq, hsigner,
    Outcome.pure_eq_ok, exists_and_left]

/-- The walk of the report ends at an anchor exactly if the names lead to it. -/
theorem signerTerminalRoot_iff {pkcs7Der : List UInt8} {anchors : AnchorStore}
    {anchorCerts : List Cert} {signer : Certificate} {found : Option ArtifactSigningIdentity}
    {root : Cert} (hsigner : pkcs7SignerIdentity env pkcs7Der = .ok (signer, found))
    (htrusted : isTrusted env.cms.hashes (some anchors) root = true) :
    signerTerminalRoot env pkcs7Der anchors anchorCerts = .ok root ↔
      AnchorsFirstLeadTo env pkcs7Der anchors anchorCerts signer root := by
  simp only [pkcs7SignerIdentity, Outcome.bind_eq_ok, Outcome.ofOption_eq_ok, Outcome.pure_eq_ok,
    Except.ok.injEq, Prod.mk.injEq] at hsigner
  obtain ⟨sd, hsd, si, hsi, cert, hcert, _, -, rfl, -⟩ := hsigner
  rw [signerTerminalRoot_eq_ok hsd hsi hcert]
  constructor
  · intro h
    obtain ⟨leaf, chain, hleaf, hchain, hroot⟩ := h
    refine ⟨sd, leaf, hsd, hleaf, ?_⟩
    rw [issuerChainExcludingLeaf] at hchain
    rw [terminalRootCert] at hroot
    by_cases hself : leaf.subjectName = leaf.issuerName
    · rw [if_pos hself] at hroot ⊢
      exact hroot
    · rw [if_neg hself] at hroot hchain ⊢
      obtain ⟨last, path, hlast, hpath⟩ := firstByName_of_issuerChainFrom (by simp) hchain
      rw [hlast, Option.getD_some] at hroot
      exact ⟨path, hroot ▸ hpath⟩
  · intro h
    obtain ⟨sd', leaf, hsd', hleaf, hends⟩ := h
    obtain rfl : sd = sd' := Except.ok.inj (hsd.symm.trans hsd')
    by_cases hself : leaf.subjectName = leaf.issuerName
    · rw [if_pos hself] at hends
      refine ⟨leaf, [], hleaf, ?_, ?_⟩
      · rw [issuerChainExcludingLeaf, if_pos hself]
      · rw [terminalRootCert, if_pos hself, hends]
    · rw [if_neg hself] at hends
      obtain ⟨path, hpath⟩ := hends
      refine ⟨leaf, path, hleaf, ?_, ?_⟩
      · rw [issuerChainExcludingLeaf, if_neg hself, issuerChainFrom_of_firstByName htrusted hpath,
          List.nil_append]
      · rw [terminalRootCert, if_neg hself, hpath.ends, Option.getD_some]

variable (env)

/-- The root determination succeeds, with the root in which the verified chain ended,
and that root is what is reported. -/
def ReportsVerifiedRoot (fuel : Nat) (pkcs7Der : List UInt8) (pkcs7Index : Nat)
    (subjectDigest : List UInt8) (binding : Pkcs7DigestBinding) (policy : ArtifactSigningPolicy)
    (opts : TrustVerifyPeOptions) (signerSubject : String) (identity : ArtifactSigningIdentity)
    (timestamped : Bool) (instant : UtcDate) (anchors : AnchorStore) (anchorCerts : List Cert)
    (root : Cert) : Prop :=
  signerTerminalRoot env pkcs7Der anchors anchorCerts = .ok root ∧
    verifyArtifactSigningPkcs7 env fuel pkcs7Der pkcs7Index subjectDigest binding policy opts =
      .ok (verifiedSignature env pkcs7Index signerSubject identity root timestamped instant)

variable {env}

/-- Behind a trust verification that succeeded, the anchor in which the verified chain
ended is what is reported exactly if the first certificates with the issuers' names,
among the anchors and behind them the embedded certificates, lead to it. -/
theorem reported_anchor_iff {fuel : Nat} {pkcs7Der : List UInt8} {pkcs7Index : Nat}
    {subjectDigest : List UInt8} {binding : Pkcs7DigestBinding} {policy : ArtifactSigningPolicy}
    {opts : TrustVerifyPeOptions} {signer : Certificate} {found : Option ArtifactSigningIdentity}
    {signerSubject : String} {identity : ArtifactSigningIdentity} {timestamped : Bool}
    {instant : UtcDate} {anchors : AnchorStore} {anchorCerts : List Cert}
    (hsigner : pkcs7SignerIdentity env pkcs7Der = .ok (signer, found))
    (hidentity : checkedIdentity env signer policy = .ok (signerSubject, identity))
    (hinstant : artifactSigningInstant env fuel pkcs7Der policy opts = .ok (timestamped, instant))
    (hanchors : artifactSigningAnchors env identity.kind policy = .ok (anchors, anchorCerts))
    (hverify : verifyPkcs7TrustWithBinding env fuel binding pkcs7Der pkcs7Index subjectDigest anchors
      anchorCerts artifactTrustPolicy opts.online instant = .ok ()) :
    ∃ leaf chain, verifiedChain env fuel binding pkcs7Der anchors anchorCerts opts.online =
        .ok (leaf, chain) ∧
      (ReportsVerifiedRoot env fuel pkcs7Der pkcs7Index subjectDigest binding policy opts
          signerSubject identity timestamped instant anchors anchorCerts
          (terminalRootCert leaf chain) ↔
        AnchorsFirstLeadTo env pkcs7Der anchors anchorCerts signer (terminalRootCert leaf chain)) := by
  obtain ⟨leaf, chain, hchain, htrusted⟩ := verifiedChain_of_verified hverify
  refine ⟨leaf, chain, hchain, ?_⟩
  rw [← signerTerminalRoot_iff hsigner htrusted]
  constructor
  · intro h
    exact h.1
  · intro hroot
    refine ⟨hroot, ?_⟩
    simp only [verifyArtifactSigningPkcs7, hsigner, hidentity, hinstant, hanchors, hverify, hroot,
      Outcome.bind_eq_ok, Except.ok.injEq, exists_eq_left', exists_const]
    exact ⟨trivial, rfl⟩

/-! ### A cross-certified anchor -/

/-- A root with the name 0x49. -/
def olderRootFields : CertFields :=
  ⟨5, [0x49], [0x49], [0x05], [0x06 :: 0x08 :: codeSigningEkuOid], [0x05]⟩

/-- The certificate that the other root issued for it. -/
def crossFields : CertFields :=
  ⟨6, [0x52], [0x49], [0x05], [0x06 :: 0x08 :: codeSigningEkuOid], [0x01]⟩

/-- A publisher under the name 0x49. -/
def customerFields : CertFields :=
  ⟨2, [0x49], [0x07], [0x07], [0x06 :: 0x08 :: codeSigningEkuOid, identityEkuDer 7], [0x05]⟩

/-- The publisher as a signer. -/
def customerSigner : SignerFields :=
  ⟨customerFields, [messageDigestAttribute (spcIndirectAny signedSubject).value], []⟩

/-- What the publisher signs, with certificates behind its own. -/
def customerSignedData (extra : List CertFields) : List UInt8 :=
  signedDataDer oidSpcIndirectDataDer (spcIndirectAny signedSubject)
    ((customerFields :: extra).map CertFields.der) [customerSigner.der]

/-- The two blobs: with the cross-certificate in it, and without. -/
def customerTables : Tables where
  signedDatas := [
    (customerSignedData [crossFields],
      ⟨"1.3.6.1.4.1.311.2.1.4", some (spcIndirectAny signedSubject),
        some [.certificate crossFields.certificate, .certificate customerFields.certificate],
        [customerSigner.signerInfo]⟩),
    (customerSignedData [],
      ⟨"1.3.6.1.4.1.311.2.1.4", some (spcIndirectAny signedSubject),
        some [.certificate customerFields.certificate], [customerSigner.signerInfo]⟩)]
  indirects := [(spcIndirectAny signedSubject, spcIndirect signedSubject)]
  extendedKeyUsages := []
  certificates := [crossFields.certificate, customerFields.certificate]
  certs := [rootFields.cert, olderRootFields.cert, crossFields.cert, customerFields.cert]
  authenticodes := [[crossFields], []].map fun extra =>
    (contentInfoDer (customerSignedData extra),
      ⟨(customerFields :: extra).map CertFields.cert, [customerSigner.pickySignerInfo],
        spcIndirectAny signedSubject⟩)
  publicTrustRoots := []
  files := [("root.cer", rootFields.der), ("older.cer", olderRootFields.der)]

set_option maxRecDepth 6000

theorem customerTables_valid : customerTables.Valid := by decide

/-- The environment that knows both blobs; every certificate names a URL with the
cross-certificate. -/
def customerEnvironment : Environment :=
  { customerTables.environment customerTables_valid with
    network :=
      { aiaCaIssuersUrls := fun _ => .ok ["http://cross.cer"]
        httpGetLimited := fun _ _ _ => .ok crossFields.der
        checkOneCertOcsp := fun _ _ _ => .ok .notConfigured
        checkOneCertCrl := fun _ _ _ => .ok () } }

/-- Private roots. -/
def customerPolicy (roots : List String) : ArtifactSigningPolicy := ⟨["7"], roots, false⟩

/-- Verification under these roots, with or without AIA. -/
def customerOptions (enableAia : Bool) (roots : List String) : TrustVerifyPeOptions :=
  ⟨none, ⟨enableAia, none, .off⟩, ⟨true, false, false⟩, some (customerPolicy roots)⟩

/-- Verification of a blob of the publisher. -/
def verifyCustomer (enableAia : Bool) (extra : List CertFields) (roots : List String) :
    Outcome ArtifactSigningVerifiedSignature :=
  verifyArtifactSigningPkcs7 customerEnvironment 4 (contentInfoDer (customerSignedData extra)) 0
    signedSubject .authenticodeIndirect (customerPolicy roots) (customerOptions enableAia roots)

/-- The store of these anchors. -/
def storeOf (certs : List Cert) : AnchorStore :=
  (⟨[]⟩ : AnchorStore).mergeCertThumbprints .mixing certs

/-- The identity of the publisher. -/
def customerIdentity : ArtifactSigningIdentity :=
  ⟨.privateTrust, "7", "1.3.6.1.4.1.311.97.1.3.1.7", false, true⟩

/-- With the other root alone as an anchor, the chain over the cross-certificate is
verified and reported. -/
theorem reported_anchor_iff_customer :
    ∃ leaf chain, verifiedChain customerEnvironment 4 .authenticodeIndirect
        (contentInfoDer (customerSignedData [crossFields])) (storeOf [rootFields.cert])
        [rootFields.cert] (customerOptions false ["root.cer"]).online = .ok (leaf, chain) ∧
      (ReportsVerifiedRoot customerEnvironment 4 (contentInfoDer (customerSignedData [crossFields])) 0
          signedSubject .authenticodeIndirect (customerPolicy ["root.cer"])
          (customerOptions false ["root.cer"]) "" customerIdentity false ⟨2024, 1, 1, 0, 0, 0⟩
          (storeOf [rootFields.cert]) [rootFields.cert] (terminalRootCert leaf chain) ↔
        AnchorsFirstLeadTo customerEnvironment (contentInfoDer (customerSignedData [crossFields]))
          (storeOf [rootFields.cert]) [rootFields.cert] customerFields.certificate
          (terminalRootCert leaf chain)) := by
  have hsigner : pkcs7SignerIdentity customerEnvironment
      (contentInfoDer (customerSignedData [crossFields])) =
      .ok (customerFields.certificate, some customerIdentity) := by
    decide
  have hidentity : checkedIdentity customerEnvironment customerFields.certificate
      (customerPolicy ["root.cer"]) = .ok ("", customerIdentity) := by
    decide
  have hinstant : artifactSigningInstant customerEnvironment 4
      (contentInfoDer (customerSignedData [crossFields])) (customerPolicy ["root.cer"])
      (customerOptions false ["root.cer"]) = .ok (false, ⟨2024, 1, 1, 0, 0, 0⟩) := by
    decide
  have hanchors : artifactSigningAnchors customerEnvironment customerIdentity.kind
      (customerPolicy ["root.cer"]) = .ok (storeOf [rootFields.cert], [rootFields.cert]) := by
    decide
  have hverify : verifyPkcs7TrustWithBinding customerEnvironment 4 .authenticodeIndirect
      (contentInfoDer (customerSignedData [crossFields])) 0 signedSubject
      (storeOf [rootFields.cert]) [rootFields.cert] artifactTrustPolicy
      (customerOptions false ["root.cer"]).online ⟨2024, 1, 1, 0, 0, 0⟩ = .ok () := by
    decide
  exact reported_anchor_iff hsigner hidentity hinstant hanchors hverify

/-- Two ways to miss the verified root.  With the older root as an anchor, too, the
verified chain goes over the embedded cross-certificate to the other root, and the
older one is reported.  Where the cross-certificate is fetched, the verification
succeeds and the root determination fails. -/
theorem other_anchor_reported :
    (verifiedChain customerEnvironment 4 .authenticodeIndirect
        (contentInfoDer (customerSignedData [crossFields]))
        (storeOf [rootFields.cert, olderRootFields.cert]) [rootFields.cert, olderRootFields.cert]
        ⟨false, none, .off⟩ = .ok (customerFields.cert, [crossFields.cert, rootFields.cert]) ∧
      signerTerminalRoot customerEnvironment (contentInfoDer (customerSignedData [crossFields]))
        (storeOf [rootFields.cert, olderRootFields.cert]) [rootFields.cert, olderRootFields.cert] =
        .ok olderRootFields.cert ∧
      (verifyCustomer false [crossFields] ["root.cer", "older.cer"]).toOption.map
        (·.rootSha1) = some (hexLower (certSha1Thumbprint .mixing olderRootFields.cert)) ∧
      certSha1Thumbprint .mixing olderRootFields.cert ≠ certSha1Thumbprint .mixing rootFields.cert) ∧
    (verifyPkcs7TrustWithBinding customerEnvironment 4 .authenticodeIndirect
        (contentInfoDer (customerSignedData [])) 0 signedSubject (storeOf [rootFields.cert])
        [rootFields.cert] artifactTrustPolicy ⟨true, none, .off⟩ ⟨2024, 1, 1, 0, 0, 0⟩ = .ok () ∧
      (signerTerminalRoot customerEnvironment (contentInfoDer (customerSignedData []))
        (storeOf [rootFields.cert]) [rootFields.cert]).toOption = none ∧
      (verifyCustomer true [] ["root.cer"]).toOption = none) := by
  refine ⟨⟨?_, ?_, ?_, ?_⟩, ?_, ?_, ?_⟩ <;> decide

end Psign.Trust
