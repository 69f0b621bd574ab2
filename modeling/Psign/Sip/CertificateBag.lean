import Mathlib.Data.List.Dedup
import Psign.Sip.Pkcs7

/-!
# Certificate bags

A PKCS#7 without a signer, and a PEM file, is a bag of certificates.
`select_certificate_bag_signer` finds the certificate of the signer in it: the only one
that issues no other and may sign code, or the only one that issues no other, or the only
one that may sign code and is no CA.

The order of the bag does not matter.  "The only one" is decided by counting entries of the
list, so a copy of the certificate that a rule singles out makes the rule fail.  Copies are
without effect exactly if no such certificate is in the bag twice
(`certificate_bag_order_irrelevant_iff`).  The certificates of a PKCS#7 are without copies
since the normalization drops them; those of a PEM file need not be.
-/

namespace Psign.Sip

open CodeLib

/-! ## The selection -/

/-- What the selection reads of a certificate and of its extensions. -/
structure CertificateReader where
  /-- `tbs_certificate.subject`. -/
  subject : Certificate → List UInt8
  /-- `BasicConstraints::from_der`, of which only `ca` is used. -/
  basicConstraints : List UInt8 → Outcome Bool
  /-- `ExtendedKeyUsage::from_der`. -/
  extendedKeyUsage : List UInt8 → Outcome (List String)

/-- `BASIC_CONSTRAINTS_EXT_OID`. -/
def basicConstraintsExtOid : String := "2.5.29.19"

/-- `EXTENDED_KEY_USAGE_EXT_OID`. -/
def extendedKeyUsageExtOid : String := "2.5.29.37"

/-- `CODE_SIGNING_EKU_OID`. -/
def codeSigningEkuOid : String := "1.3.6.1.5.5.7.3.3"

/-- `same_certificate_identity`. -/
def sameCertificateIdentity (a b : Certificate) : Bool :=
  decide (a.issuer = b.issuer ∧ a.serialNumber = b.serialNumber)

/-- Whether one of the extensions with the OID says so; an extension that cannot be read
says nothing. -/
def anyExtension (cert : Certificate) (oid : String) (asserts : List UInt8 → Bool) : Bool :=
  match cert.extensions with
  | none => false
  | some exts => (exts.filter fun ext => ext.extnId = oid).any fun ext => asserts ext.extnValue

variable (reader : CertificateReader)

/-- `x509_cert_is_ca`. -/
def x509CertIsCa (cert : Certificate) : Bool :=
  anyExtension cert basicConstraintsExtOid fun value =>
    match reader.basicConstraints value with
    | .ok ca => ca
    | .error _ => false

/-- `x509_cert_has_code_signing_eku`. -/
def x509CertHasCodeSigningEku (cert : Certificate) : Bool :=
  anyExtension cert extendedKeyUsageExtOid fun value =>
    match reader.extendedKeyUsage value with
    | .ok eku => eku.contains codeSigningEkuOid
    | .error _ => false

/-- `cert_issues_another_cert`. -/
def certIssuesAnotherCert (candidate : Certificate) (certs : List Certificate) : Bool :=
  certs.any fun other =>
    !sameCertificateIdentity candidate other && other.issuer = reader.subject candidate

/-- `only_candidate`. -/
def onlyCandidate {α : Type} (candidates : List α) : Option α :=
  if candidates.length = 1 then candidates.head? else none

/-- `select_certificate_bag_signer`. -/
def selectCertificateBagSigner : List Certificate → Outcome Certificate
  | [] => Outcome.bail "SignedData has no X.509 certificates"
  | [cert] => .ok cert
  | certs =>
    let leafCandidates := certs.filter fun cert => !certIssuesAnotherCert reader cert certs
    let codeSigningLeafCandidates := leafCandidates.filter (x509CertHasCodeSigningEku reader)
    let nonCaCodeSigningCandidates := certs.filter fun cert =>
      !x509CertIsCa reader cert && x509CertHasCodeSigningEku reader cert
    match onlyCandidate codeSigningLeafCandidates with
    | some cert => .ok cert
    | none =>
      match onlyCandidate leafCandidates with
      | some cert => .ok cert
      | none =>
        match onlyCandidate nonCaCodeSigningCandidates with
        | some cert => .ok cert
        | none =>
          Outcome.bail "PKCS#7 certificate bag has no SignerInfo and signer certificate is ambiguous"

/-- `signer_and_chain_from_certificate_bag`. -/
def signerAndChainFromCertificateBag (certs : List Certificate) :
    Outcome (Certificate × List Certificate) := do
  let signer ← selectCertificateBagSigner reader certs
  let chain := certs.filter fun cert => !sameCertificateIdentity cert signer
  return (signer, chain)

/-! ## The only one of its kind -/

section only

variable {α : Type} {p : α → Bool} {xs xs' : List α} {x y : α}

theorem onlyCandidate_eq_some : onlyCandidate xs = some x ↔ xs = [x] := by
  rw [onlyCandidate]
  constructor
  · intro h
    split at h
    · rename_i hlen
      obtain ⟨y, rfl⟩ := List.length_eq_one_iff.mp hlen
      rw [List.head?_cons] at h
      rw [Option.some.inj h]
    · cases h
  · intro h
    rw [h]
    rfl

/-- `x` is in the list and the only one that the test holds for; it may be there more
than once. -/
def Sole (p : α → Bool) (xs : List α) (x : α) : Prop :=
  x ∈ xs ∧ p x = true ∧ ∀ y ∈ xs, p y = true → y = x

theorem Sole.congr (h : Sole p xs x) (hmem : ∀ y, y ∈ xs' ↔ y ∈ xs) : Sole p xs' x :=
  ⟨(hmem x).mpr h.1, h.2.1, fun y hy => h.2.2 y ((hmem y).mp hy)⟩

variable [DecidableEq α]

/-- The rule of the code: the only one, and there once. -/
theorem filter_eq_singleton : xs.filter p = [x] ↔ Sole p xs x ∧ xs.count x = 1 := by
  constructor
  · intro h
    have hmem : ∀ y, y ∈ xs ∧ p y = true ↔ y = x := by
      intro y
      rw [← List.mem_filter, h, List.mem_singleton]
    have hx := (hmem x).mpr rfl
    refine ⟨⟨hx.1, hx.2, fun y hy hp => (hmem y).mp ⟨hy, hp⟩⟩, ?_⟩
    rw [← List.count_filter hx.2, h, List.count_singleton_self]
  · intro ⟨⟨hx, hp, hsole⟩, hcount⟩
    have hreplicate : xs.filter p = List.replicate (xs.filter p).length x := by
      apply List.eq_replicate_of_mem
      intro y hy
      have hmem := List.mem_filter.mp hy
      exact hsole y hmem.1 hmem.2
    have hlen : (xs.filter p).length = 1 := by
      rw [← hcount, ← List.count_filter hp, hreplicate, List.count_replicate_self,
        List.length_replicate]
    rw [hreplicate, hlen]
    rfl

theorem onlyCandidate_filter : onlyCandidate (xs.filter p) = some x ↔
    Sole p xs x ∧ xs.count x = 1 := by
  rw [onlyCandidate_eq_some, filter_eq_singleton]

end only

/-! ## The rules -/

/-- It issues no other certificate of the bag. -/
def isLeaf (certs : List Certificate) (cert : Certificate) : Bool :=
  !certIssuesAnotherCert reader cert certs

/-- It issues no other certificate of the bag and may sign code. -/
def isCodeSigningLeaf (certs : List Certificate) (cert : Certificate) : Bool :=
  x509CertHasCodeSigningEku reader cert && isLeaf reader certs cert

/-- It is no CA and may sign code. -/
def isNonCaCodeSigner (cert : Certificate) : Bool :=
  !x509CertIsCa reader cert && x509CertHasCodeSigningEku reader cert

/-- The first rule that applies singles the certificate out, copies apart: it is the only
leaf that may sign code, or the only leaf, or, where these rules single out none, the only
certificate that is no CA and may sign code. -/
def SingledOut (certs : List Certificate) (cert : Certificate) : Prop :=
  Sole (isCodeSigningLeaf reader certs) certs cert ∨ Sole (isLeaf reader certs) certs cert ∨
    ((¬ ∃ other, Sole (isCodeSigningLeaf reader certs) certs other ∨
        Sole (isLeaf reader certs) certs other) ∧
      Sole (isNonCaCodeSigner reader) certs cert)

/-- The three rules of the code, of which the first that applies decides. -/
def rulesApplied (certs : List Certificate) : Option Certificate :=
  (onlyCandidate (certs.filter (isCodeSigningLeaf reader certs))).or
    ((onlyCandidate (certs.filter (isLeaf reader certs))).or
      (onlyCandidate (certs.filter (isNonCaCodeSigner reader))))

section rules

variable {reader : CertificateReader} {certs certs' base : List Certificate}
  {cert other : Certificate}

theorem isLeaf_congr (hmem : ∀ c, c ∈ certs' ↔ c ∈ certs) :
    isLeaf reader certs' = isLeaf reader certs := by
  funext cert
  rw [isLeaf, isLeaf, Bool.eq_iff_iff]
  simp only [certIssuesAnotherCert, Bool.not_eq_true', List.any_eq_false, hmem]

theorem isCodeSigningLeaf_congr (hmem : ∀ c, c ∈ certs' ↔ c ∈ certs) :
    isCodeSigningLeaf reader certs' = isCodeSigningLeaf reader certs := by
  funext cert
  rw [isCodeSigningLeaf, isCodeSigningLeaf, isLeaf_congr hmem]

/-- The only certificate is a leaf. -/
theorem isLeaf_singleton : isLeaf reader [cert] cert = true := by
  simp [isLeaf, certIssuesAnotherCert, sameCertificateIdentity]

/-- The rules also decide about a bag with one certificate. -/
theorem rulesApplied_singleton : rulesApplied reader [cert] = some cert := by
  have hleaf : onlyCandidate ([cert].filter (isLeaf reader [cert])) = some cert := by
    rw [onlyCandidate_eq_some, List.filter_singleton, isLeaf_singleton]
    rfl
  rw [rulesApplied, hleaf, Option.some_or]
  cases hfirst : onlyCandidate ([cert].filter (isCodeSigningLeaf reader [cert])) with
  | none => rfl
  | some other =>
    have hsole := (onlyCandidate_filter.mp hfirst).1
    rw [List.mem_singleton.mp hsole.1]
    rfl

theorem selectCertificateBagSigner_eq (hne : certs ≠ []) :
    selectCertificateBagSigner reader certs = Outcome.ofOption (rulesApplied reader certs)
      "PKCS#7 certificate bag has no SignerInfo and signer certificate is ambiguous" := by
  rcases certs with _ | ⟨cert, _ | ⟨next, rest⟩⟩
  · exact absurd rfl hne
  · rw [rulesApplied_singleton]
    rfl
  · have hfilter : onlyCandidate (((cert :: next :: rest).filter fun candidate =>
        !certIssuesAnotherCert reader candidate (cert :: next :: rest)).filter
          (x509CertHasCodeSigningEku reader)) =
        onlyCandidate ((cert :: next :: rest).filter
          (isCodeSigningLeaf reader (cert :: next :: rest))) := by
      rw [List.filter_filter]
      rfl
    rw [selectCertificateBagSigner, rulesApplied]
    · simp only [hfilter]
      cases onlyCandidate ((cert :: next :: rest).filter
        (isCodeSigningLeaf reader (cert :: next :: rest))) with
      | some found => rfl
      | none =>
        show (match onlyCandidate ((cert :: next :: rest).filter
            (isLeaf reader (cert :: next :: rest))) with
          | some found => _
          | none => _) = _
        cases onlyCandidate ((cert :: next :: rest).filter
          (isLeaf reader (cert :: next :: rest))) with
        | some found => rfl
        | none =>
          show (match onlyCandidate ((cert :: next :: rest).filter
              (isNonCaCodeSigner reader)) with
            | some found => _
            | none => _) = _
          cases onlyCandidate ((cert :: next :: rest).filter (isNonCaCodeSigner reader)) with
          | some found => rfl
          | none => rfl
    · intro h
      cases h
    · intro only h
      cases h

/-- Lists with the same certificates the same number of times are decided alike. -/
theorem rulesApplied_congr (hmem : ∀ c, c ∈ certs' ↔ c ∈ certs)
    (hcount : ∀ c, certs'.count c = certs.count c) :
    rulesApplied reader certs' = rulesApplied reader certs := by
  have honly : ∀ p : Certificate → Bool,
      onlyCandidate (certs'.filter p) = onlyCandidate (certs.filter p) := by
    intro p
    apply Option.ext
    intro cert
    rw [onlyCandidate_filter, onlyCandidate_filter, hcount]
    constructor
    · intro h
      exact ⟨h.1.congr fun c => (hmem c).symm, h.2⟩
    · intro h
      exact ⟨h.1.congr hmem, h.2⟩
  rw [rulesApplied, rulesApplied, isLeaf_congr hmem, isCodeSigningLeaf_congr hmem]
  rw [honly, honly, honly]

theorem SingledOut.congr (h : SingledOut reader certs cert) (hmem : ∀ c, c ∈ certs' ↔ c ∈ certs) :
    SingledOut reader certs' cert := by
  rw [SingledOut, isLeaf_congr hmem, isCodeSigningLeaf_congr hmem]
  rcases h with hcode | hleaf | ⟨hnone, hsigner⟩
  · exact Or.inl (hcode.congr hmem)
  · exact Or.inr (Or.inl (hleaf.congr hmem))
  · refine Or.inr (Or.inr ⟨?_, hsigner.congr hmem⟩)
    intro ⟨other, hother⟩
    apply hnone
    refine ⟨other, ?_⟩
    rcases hother with hcode | hleaf
    · exact Or.inl (hcode.congr fun c => (hmem c).symm)
    · exact Or.inr (hleaf.congr fun c => (hmem c).symm)

theorem SingledOut.mem (h : SingledOut reader certs cert) : cert ∈ certs := by
  rcases h with hcode | hleaf | ⟨-, hsigner⟩
  · exact hcode.1
  · exact hleaf.1
  · exact hsigner.1

/-- What a rule of the code selects is in the bag once. -/
theorem count_of_rulesApplied (h : rulesApplied reader certs = some cert) :
    certs.count cert = 1 := by
  rw [rulesApplied, Option.or_eq_some_iff, Option.or_eq_some_iff] at h
  rcases h with hcode | ⟨-, hleaf | ⟨-, hsigner⟩⟩
  · exact (onlyCandidate_filter.mp hcode).2
  · exact (onlyCandidate_filter.mp hleaf).2
  · exact (onlyCandidate_filter.mp hsigner).2

/-- Where a rule of the code selects a certificate, one is singled out. -/
theorem exists_singledOut (h : rulesApplied reader certs = some cert) :
    ∃ other, SingledOut reader certs other := by
  rw [rulesApplied, Option.or_eq_some_iff, Option.or_eq_some_iff] at h
  by_cases hfirst : ∃ other, Sole (isCodeSigningLeaf reader certs) certs other ∨
      Sole (isLeaf reader certs) certs other
  · obtain ⟨other, hcode | hleaf⟩ := hfirst
    · exact ⟨other, Or.inl hcode⟩
    · exact ⟨other, Or.inr (Or.inl hleaf)⟩
  · rcases h with hcode | ⟨-, hleaf | ⟨-, hsigner⟩⟩
    · exact ⟨cert, Or.inl (onlyCandidate_filter.mp hcode).1⟩
    · exact ⟨cert, Or.inr (Or.inl (onlyCandidate_filter.mp hleaf).1)⟩
    · exact ⟨cert, Or.inr (Or.inr ⟨hfirst, (onlyCandidate_filter.mp hsigner).1⟩)⟩

/-- What is singled out is selected if it is in the bag once. -/
theorem rulesApplied_of_singledOut (h : SingledOut reader certs cert)
    (hcount : certs.count cert = 1) : rulesApplied reader certs = some cert := by
  have hcodeLeaf : ∀ {other}, Sole (isCodeSigningLeaf reader certs) certs other →
      isLeaf reader certs other = true := by
    intro other hsole
    have hp := hsole.2.1
    rw [isCodeSigningLeaf, Bool.and_eq_true] at hp
    exact hp.2
  rw [rulesApplied, Option.or_eq_some_iff, Option.or_eq_some_iff]
  rcases h with hcode | hleaf | ⟨hnone, hsigner⟩
  · exact Or.inl (onlyCandidate_filter.mpr ⟨hcode, hcount⟩)
  · cases hfirst : onlyCandidate (certs.filter (isCodeSigningLeaf reader certs)) with
    | none => exact Or.inr ⟨rfl, Or.inl (onlyCandidate_filter.mpr ⟨hleaf, hcount⟩)⟩
    | some other =>
      -- a leaf that may sign code is the only leaf
      have hother := (onlyCandidate_filter.mp hfirst).1
      rw [hleaf.2.2 other hother.1 (hcodeLeaf hother)]
      exact Or.inl rfl
  · have hnoFirst : onlyCandidate (certs.filter (isCodeSigningLeaf reader certs)) = none := by
      rw [Option.eq_none_iff_forall_ne_some]
      intro other hother
      exact hnone ⟨other, Or.inl (onlyCandidate_filter.mp hother).1⟩
    have hnoSecond : onlyCandidate (certs.filter (isLeaf reader certs)) = none := by
      rw [Option.eq_none_iff_forall_ne_some]
      intro other hother
      exact hnone ⟨other, Or.inr (onlyCandidate_filter.mp hother).1⟩
    exact Or.inr ⟨hnoFirst, Or.inr ⟨hnoSecond, onlyCandidate_filter.mpr ⟨hsigner, hcount⟩⟩⟩

theorem map_fst_signerAndChain :
    (signerAndChainFromCertificateBag reader certs).map Prod.fst =
      selectCertificateBagSigner reader certs := by
  rw [signerAndChainFromCertificateBag]
  cases selectCertificateBagSigner reader certs with
  | error failure => rfl
  | ok signer => rfl

theorem select_congr (hmem : ∀ c, c ∈ certs' ↔ c ∈ certs)
    (hrules : rulesApplied reader certs' = rulesApplied reader certs) :
    selectCertificateBagSigner reader certs' = selectCertificateBagSigner reader certs := by
  by_cases hnil : certs = []
  · subst hnil
    have hnil' : certs' = [] := List.eq_nil_iff_forall_not_mem.mpr fun c hc =>
      List.not_mem_nil ((hmem c).mp hc)
    rw [hnil']
  · have hnil' : certs' ≠ [] := by
      obtain ⟨c, hc⟩ := List.exists_mem_of_ne_nil certs hnil
      exact List.ne_nil_of_mem ((hmem c).mpr hc)
    rw [selectCertificateBagSigner_eq hnil, selectCertificateBagSigner_eq hnil', hrules]

end rules

/-! ## Order and copies -/

/-- The selection does not depend on the order of the bag and on copies: the verdict and
the signer are those of every permutation and of the bag without copies, the chain is the
rest, and a certificate that alone may sign code and issues no other is the signer. -/
structure OrderIrrelevant (certs : List Certificate) : Prop where
  perm : ∀ certs', certs.Perm certs' →
    (signerAndChainFromCertificateBag reader certs').map Prod.fst =
      (signerAndChainFromCertificateBag reader certs).map Prod.fst
  copies : ∀ base : List Certificate, base.Nodup → (∀ c, c ∈ base ↔ c ∈ certs) →
    (signerAndChainFromCertificateBag reader certs).map Prod.fst =
      (signerAndChainFromCertificateBag reader base).map Prod.fst
  chain : ∀ signer chain, signerAndChainFromCertificateBag reader certs = .ok (signer, chain) →
    chain = certs.filter fun cert => !sameCertificateIdentity cert signer
  sole : ∀ cert, Sole (isCodeSigningLeaf reader certs) certs cert →
    (signerAndChainFromCertificateBag reader certs).map Prod.fst = .ok cert

/-- Order and copies do not matter exactly if no certificate that the rules single out is
in the bag more than once. -/
theorem certificate_bag_order_irrelevant_iff (certs : List Certificate) :
    OrderIrrelevant reader certs ↔
      ∀ cert, SingledOut reader certs cert → certs.count cert = 1 := by
  constructor
  · intro h cert hsingled
    have hmem : ∀ c, c ∈ certs.dedup ↔ c ∈ certs := fun c => List.mem_dedup
    have hbase : rulesApplied reader certs.dedup = some cert := by
      apply rulesApplied_of_singledOut (hsingled.congr hmem)
      exact List.count_eq_one_of_mem certs.nodup_dedup ((hmem cert).mpr hsingled.mem)
    have hne : certs.dedup ≠ [] := by
      intro hnil
      rw [hnil] at hbase
      cases hbase
    have hsame := h.copies certs.dedup certs.nodup_dedup hmem
    rw [map_fst_signerAndChain, map_fst_signerAndChain, selectCertificateBagSigner_eq hne, hbase,
      selectCertificateBagSigner_eq (by rwa [ne_eq, ← List.dedup_eq_nil])] at hsame
    exact count_of_rulesApplied (Outcome.ofOption_eq_ok.mp hsame)
  · intro honce
    exact
      { perm := by
          intro certs' hperm
          rw [map_fst_signerAndChain, map_fst_signerAndChain]
          have hmem : ∀ c, c ∈ certs' ↔ c ∈ certs := fun c => hperm.mem_iff.symm
          exact select_congr hmem (rulesApplied_congr hmem fun c => (hperm.count_eq c).symm)
        copies := by
          intro base hnodup hmem
          rw [map_fst_signerAndChain, map_fst_signerAndChain]
          apply select_congr fun c => (hmem c).symm
          have hcount : ∀ cert, SingledOut reader base cert → base.count cert = 1 :=
            fun cert hsingled => List.count_eq_one_of_mem hnodup hsingled.mem
          by_cases hsome : ∃ cert, SingledOut reader certs cert
          · obtain ⟨cert, hsingled⟩ := hsome
            have hsingled' := hsingled.congr hmem
            rw [rulesApplied_of_singledOut hsingled (honce cert hsingled),
              rulesApplied_of_singledOut hsingled' (hcount cert hsingled')]
          · have hnone : rulesApplied reader certs = none := by
              rw [Option.eq_none_iff_forall_ne_some]
              intro cert hcert
              exact hsome (exists_singledOut hcert)
            have hnone' : rulesApplied reader base = none := by
              rw [Option.eq_none_iff_forall_ne_some]
              intro cert hcert
              obtain ⟨other, hother⟩ := exists_singledOut hcert
              exact hsome ⟨other, hother.congr fun c => (hmem c).symm⟩
            rw [hnone, hnone']
        chain := by
          intro signer chain hchain
          simp only [signerAndChainFromCertificateBag, Outcome.bind_eq_ok, Outcome.pure_eq_ok,
            Except.ok.injEq, Prod.mk.injEq] at hchain
          obtain ⟨found, -, rfl, rfl⟩ := hchain
          rfl
        sole := by
          intro cert hsole
          have hsingled : SingledOut reader certs cert := Or.inl hsole
          rw [map_fst_signerAndChain, selectCertificateBagSigner_eq (List.ne_nil_of_mem hsole.1),
            rulesApplied_of_singledOut hsingled (honce cert hsingled)]
          rfl }

/-- A certificate with nothing in it. -/
def plainCertificate : Certificate :=
  { der := [], issuer := [1], serialNumber := [1], extensions := none, spkiAlgorithm := ""
    spkiDer := [] }

/-- A bag with one certificate has a signer, with a copy of it it has none. -/
theorem certificate_bag_with_copy :
    ¬ OrderIrrelevant ⟨fun _ => [1], fun _ => .ok false, fun _ => .ok []⟩
      [plainCertificate, plainCertificate] := by
  intro h
  have hcopies := h.copies [plainCertificate] (List.nodup_singleton _) (by intro c; simp)
  cases hcopies

end Psign.Sip
