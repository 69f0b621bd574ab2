import Psign.CodeLib.Sort
import Psign.Sip.TimestampInsert
import Psign.Trust.TrustVerify

/-!
# The search for an attached token

What `timestamp_token_from_signer_unsigned_attrs` finds in a signer that
`signed_data_add_rfc3161_timestamp_token_with_oid` has attached a token to.

The search goes through the attributes of the two known types first and through the others
then, each in the order of the SET, and takes the first token.  Attaching replaces only the
attribute of its own type, so that the token of another attribute stays.  The attached token
is found exactly if no other token comes before it (`NoOtherTokenFirst`), which the priority
of the types does not see to: the known types are searched as one group, in which the
attribute of Microsoft can come first (`older_token_found`).
-/

namespace Psign.Trust

open CodeLib CodeLib.Der Psign.Sip

variable {env : Environment}

/-- The attributes in the order of the search. -/
def searchOrder (attrs : List Attribute) : List Attribute :=
  (attrs.filter fun attr => (timestampAttrPriority attr).isSome) ++
    attrs.filter fun attr => (timestampAttrPriority attr).isNone

theorem probeUnsignedAttrs_eq {α : Type} (probe : Attribute → Option α) {si : SignerInfo}
    {attrs : List Attribute} (hattrs : si.unsignedAttrs = some attrs) :
    probeUnsignedAttrs probe si = (searchOrder attrs).findSome? probe := by
  rw [probeUnsignedAttrs, hattrs, searchOrder, List.findSome?_append, Option.bind_eq_bind,
    Option.bind_some]
  cases (attrs.filter fun attr => (timestampAttrPriority attr).isSome).findSome? probe with
  | none => rfl
  | some found => rfl

theorem searchOrder_perm (attrs : List Attribute) : (searchOrder attrs).Perm attrs := by
  have hnone : (fun attr => (timestampAttrPriority attr).isNone) =
      fun attr => !(timestampAttrPriority attr).isSome := by
    funext attr
    rw [Option.not_isSome]
  rw [searchOrder, hnone]
  exact List.filter_append_perm _ attrs

/-- The search comes to the first attribute before it comes to the second: the known types come
before the others, and otherwise the encodings decide. -/
def SearchedBefore (encode : SetEncoders) (first second : Attribute) : Prop :=
  ((timestampAttrPriority first).isSome = true ∧ (timestampAttrPriority second).isSome = false) ∨
    ((timestampAttrPriority first).isSome = (timestampAttrPriority second).isSome ∧
      encode.attributeDer first < encode.attributeDer second)

theorem not_searchedBefore_self (encode : SetEncoders) (attr : Attribute) :
    ¬ SearchedBefore encode attr attr := by
  rintro (⟨hknown, hother⟩ | ⟨-, hlt⟩)
  · rw [hknown] at hother
    simp at hother
  · exact List.lt_irrefl _ hlt

theorem SearchedBefore.trans {encode : SetEncoders} {first second third : Attribute}
    (h : SearchedBefore encode first second) (h' : SearchedBefore encode second third) :
    SearchedBefore encode first third := by
  rcases h with ⟨hknown, hother⟩ | ⟨hsame, hlt⟩
  · rcases h' with ⟨hknown', -⟩ | ⟨hsame', -⟩
    · rw [hknown'] at hother
      simp at hother
    · exact Or.inl ⟨hknown, hsame' ▸ hother⟩
  · rcases h' with ⟨hknown', hother'⟩ | ⟨hsame', hlt'⟩
    · exact Or.inl ⟨hsame.trans hknown', hother'⟩
    · exact Or.inr ⟨hsame.trans hsame', List.lt_trans hlt hlt'⟩

/-- The order of the search, for a SET. -/
theorem pairwise_searchOrder {encode : SetEncoders} {attrs : List Attribute}
    (hsorted : attrs.Pairwise fun first second =>
      encode.attributeDer first < encode.attributeDer second) :
    (searchOrder attrs).Pairwise (SearchedBefore encode) := by
  have hgroup : ∀ known : Bool, (attrs.filter fun attr =>
      (timestampAttrPriority attr).isSome == known).Pairwise (SearchedBefore encode) := by
    intro known
    refine (hsorted.filter _).imp_of_mem ?_
    intro first second hfirst hsecond hlt
    have hfirst := eq_of_beq (List.mem_filter.mp hfirst).2
    have hsecond := eq_of_beq (List.mem_filter.mp hsecond).2
    exact Or.inr ⟨hfirst.trans hsecond.symm, hlt⟩
  have hknown := hgroup true
  have hothers := hgroup false
  simp only [beq_true, beq_false, Option.not_isSome] at hknown hothers
  refine List.pairwise_append.mpr ⟨hknown, hothers, ?_⟩
  intro first hfirst second hsecond
  have hsecond := (List.mem_filter.mp hsecond).2
  rw [← Option.not_isSome, Bool.not_eq_true'] at hsecond
  exact Or.inl ⟨(List.mem_filter.mp hfirst).2, hsecond⟩

/-- The search comes to no attribute of another type that holds another token before it comes to
the attached one; it may come to this same token before. -/
def NoOtherTokenFirst (env : Environment) (encode : SetEncoders) (si : CmsSigner)
    (attached : Attribute) (found : FoundToken) : Prop :=
  ∀ attr ∈ si.attrs, attr.oid ≠ attached.oid → SearchedBefore encode attr attached →
    ∀ other, timestampTokenFromAttribute env attr = some other → other ≠ found →
      ∃ first ∈ si.attrs, first.oid ≠ attached.oid ∧ SearchedBefore encode first attr ∧
        timestampTokenFromAttribute env first = some found

theorem mem_attrs_iff {sd sd' : CmsSignedData} {index : Nat} {oid : String} {token : DerAny}
    {si stamped : CmsSigner} (h : Attached sd sd' index oid token si stamped) (attr : Attribute) :
    attr ∈ stamped.attrs ↔ attr = ⟨oid, [token]⟩ ∨ (attr ∈ si.attrs ∧ attr.oid ≠ oid) := by
  have htoken : attr ∈ stamped.attrs ∧ attr.oid = oid ↔ attr = ⟨oid, [token]⟩ := by
    have hfilter := congrArg (attr ∈ ·) h.tokenAttribute
    simpa only [List.mem_filter, decide_eq_true_iff, List.mem_singleton, eq_iff_iff] using hfilter
  have hothers : attr ∈ stamped.attrs ∧ attr.oid ≠ oid ↔ attr ∈ si.attrs ∧ attr.oid ≠ oid := by
    have hmem : attr ∈ stamped.attrs.filter _ ↔ attr ∈ si.attrs.filter _ := h.others.mem_iff
    rwa [List.mem_filter, List.mem_filter, decide_eq_true_iff] at hmem
  rw [← htoken, ← hothers, ← and_or_left, and_iff_left (em _)]

/-- The attached token is found exactly if no other token comes first. -/
theorem search_eq_some_iff {encode : SetEncoders} {sd sd' : CmsSignedData} {index : Nat}
    {oid : String} {token : DerAny} {si stamped : CmsSigner} {found : FoundToken}
    (h : Attached sd sd' index oid token si stamped)
    (hsorted : stamped.attrs.Pairwise fun first second =>
      encode.attributeDer first < encode.attributeDer second)
    (hfound : timestampTokenFromValue env token = some found) {decoded : SignerInfo}
    (hdecoded : decoded.unsignedAttrs = stamped.unsignedAttrs) :
    timestampTokenFromSignerUnsignedAttrs env decoded = some found ↔
      NoOtherTokenFirst env encode si ⟨oid, [token]⟩ found := by
  have hmem := mem_attrs_iff h
  have hsearch : ∀ {attr}, attr ∈ searchOrder stamped.attrs ↔ _ :=
    fun {attr} => (searchOrder_perm stamped.attrs).mem_iff.trans (hmem attr)
  have hattrs : stamped.unsignedAttrs = some stamped.attrs := by
    cases hunsigned : stamped.unsignedAttrs with
    | some attrs => rw [CmsSigner.attrs, hunsigned]; rfl
    | none =>
      have htoken := (hmem ⟨oid, [token]⟩).mpr (Or.inl rfl)
      rw [CmsSigner.attrs, hunsigned] at htoken
      exact absurd htoken List.not_mem_nil
  have htoken : timestampTokenFromAttribute env ⟨oid, [token]⟩ = some found := by
    rw [timestampTokenFromAttribute, List.findSome?_cons, hfound]
  rw [timestampTokenFromSignerUnsignedAttrs, probeUnsignedAttrs_eq _ (hdecoded.trans hattrs),
    Sort.findSome?_eq_some_iff_before (pairwise_searchOrder hsorted)
      (not_searchedBefore_self encode) (fun _ _ _ => SearchedBefore.trans)
      (hsearch.mpr (Or.inl rfl)) htoken]
  -- an attribute before the attached one is an attribute of the signer of another type
  have hother : ∀ {attr last}, SearchedBefore encode attr last →
      (last = ⟨oid, [token]⟩ ∨ SearchedBefore encode last ⟨oid, [token]⟩) →
      (attr ∈ searchOrder stamped.attrs ↔ attr ∈ si.attrs ∧ attr.oid ≠ oid) := by
    intro attr last hbefore hlast
    have hne : attr ≠ ⟨oid, [token]⟩ := by
      rintro rfl
      rcases hlast with rfl | hlast
      · exact not_searchedBefore_self encode _ hbefore
      · exact not_searchedBefore_self encode _ (hbefore.trans hlast)
    exact hsearch.trans (or_iff_right hne)
  constructor
  · intro hall attr hattr hoid hbefore other hholds hne
    obtain ⟨first, hfirst, hfirstBefore, hfirstHolds⟩ :=
      hall attr ((hother hbefore (Or.inl rfl)).mpr ⟨hattr, hoid⟩) hbefore other hholds hne
    obtain ⟨hfirstAttr, hfirstOid⟩ := (hother hfirstBefore (Or.inr hbefore)).mp hfirst
    exact ⟨first, hfirstAttr, hfirstOid, hfirstBefore, hfirstHolds⟩
  · intro hall attr hattr hbefore other hholds hne
    obtain ⟨hattr, hoid⟩ := (hother hbefore (Or.inl rfl)).mp hattr
    obtain ⟨first, hfirst, hfirstOid, hfirstBefore, hfirstHolds⟩ :=
      hall attr hattr hoid hbefore other hholds hne
    exact ⟨first, (hother hfirstBefore (Or.inr hbefore)).mpr ⟨hfirst, hfirstOid⟩, hfirstBefore,
      hfirstHolds⟩

/-- Attaching a token puts it into one signer and changes nothing else, attaching to that
signer again leaves the second token alone, and the search finds the token exactly if no other
token comes first. -/
theorem timestamp_attached {encode : SetEncoders} {sd sd' : CmsSignedData} {index : Nat}
    {oid : String} {token : DerAny} {rest : List UInt8} (htoken : IsTokenDer token)
    (h : signedDataAddRfc3161TimestampTokenWithOid env.cms encode sd index (token.toDer ++ rest)
      oid = .ok sd') :
    ∃ si stamped, Attached sd sd' index oid token si stamped ∧ stamped ∈ sd'.signerInfos ∧
      (∀ index' token' rest' sd'', IsTokenDer token' → sd'.signerInfos[index']? = some stamped →
        signedDataAddRfc3161TimestampTokenWithOid env.cms encode sd' index'
          (token'.toDer ++ rest') oid = .ok sd'' →
        ∃ stamped', Attached sd sd'' index oid token' si stamped') ∧
      ∀ found decoded, timestampTokenFromValue env token = some found →
        decoded.unsignedAttrs = stamped.unsignedAttrs →
        (timestampTokenFromSignerUnsignedAttrs env decoded = some found ↔
          NoOtherTokenFirst env encode si ⟨oid, [token]⟩ found) := by
  obtain ⟨si, stamped, hattached, hsorted⟩ := attached_of_add htoken h
  refine ⟨si, stamped, hattached, ?_, ?_, ?_⟩
  · obtain ⟨hlt, -⟩ := List.getElem?_eq_some_iff.mp hattached.signer
    exact hattached.signerInfos.mem_iff.mpr (List.mem_set hlt stamped)
  · intro index' token' rest' sd'' htoken' hindex' hagain
    obtain ⟨si', stamped', hattached', -⟩ := attached_of_add htoken' hagain
    have hsame : si' = stamped := Option.some.inj (hattached'.signer.symm.trans hindex')
    exact ⟨stamped', hattached.again (hsame ▸ hattached')⟩
  · intro found decoded hfound hdecoded
    exact search_eq_some_iff hattached hsorted hfound hdecoded

/-! ## A signer with two tokens -/

/-- A token of a given minute, without a signer. -/
def minuteTstinfo (minute : UInt8) : List UInt8 :=
  sequence [[0x02, 0x01, 0x01], [0x06, 0x02, 0x2A, 0x03],
    sequence [algorithmDer oidSha256Der, encodeTlv 0x04 [0x00]], [0x02, 0x01, 0x05],
    encodeTlv 0x18 ("2023070112".toList.map (UInt8.ofNat ·.toNat) ++ [0x30, minute, 0x5A])]

/-- Its `SignedData`. -/
def minuteSignedData (minute : UInt8) : List UInt8 :=
  signedDataDer oidTstinfoDer ⟨0x04, minuteTstinfo minute⟩ [] []

/-- The token as an attribute value. -/
def minuteToken (minute : UInt8) : DerAny :=
  ⟨0x30, pkcs7SignedDataOidDer ++ encodeTlv 0xa0 (minuteSignedData minute)⟩

/-- Two such tokens. -/
def twoTokenTables : Tables where
  signedDatas := [0x31, 0x32].map fun minute =>
    (minuteSignedData minute, ⟨idCtTstinfo, some ⟨0x04, minuteTstinfo minute⟩, some [], []⟩)
  indirects := []
  extendedKeyUsages := []
  certificates := []
  certs := []
  authenticodes := []
  publicTrustRoots := []
  files := []

set_option maxRecDepth 2000

theorem twoTokenTables_valid : twoTokenTables.Valid := by decide

/-- The environment that knows the two tokens. -/
def twoTokenEnvironment : Environment := twoTokenTables.environment twoTokenTables_valid

/-- The DER of the two attribute types. -/
def timestampOidDer (oid : String) : List UInt8 :=
  if oid = msRfc3161TimestampTokenOid then
    [0x06, 0x0A, 0x2B, 0x06, 0x01, 0x04, 0x01, 0x82, 0x37, 0x03, 0x03, 0x01]
  else [0x06, 0x0B, 0x2A, 0x86, 0x48, 0x86, 0xF7, 0x0D, 0x01, 0x09, 0x10, 0x02, 0x0E]

/-- The encodings of these attributes, and of signers that are identified by their key. -/
def timestampEncoders : SetEncoders where
  attributeDer attr :=
    sequence [timestampOidDer attr.oid, encodeTlv 0x31 (attr.values.flatMap DerAny.toDer)]
  signerDer si :=
    sequence [[0x02, 0x01, UInt8.ofNat si.version],
      match si.sid with
      | .issuerAndSerialNumber issuer serialNumber =>
        sequence [issuer, encodeTlv 0x02 serialNumber]
      | .subjectKeyIdentifier ski => encodeTlv 0x80 ski,
      si.digestAlg, si.signatureAlgorithm, encodeTlv 0x04 si.signature,
      encodeTlv 0xa1 (si.attrs.flatMap fun attr => sequence
        [timestampOidDer attr.oid, encodeTlv 0x31 (attr.values.flatMap DerAny.toDer)])]

/-- A signer with the older token in the attribute of Microsoft. -/
def stampedSigner : CmsSigner where
  version := 3
  sid := .subjectKeyIdentifier [0x01]
  digestAlg := algorithmDer oidSha256Der
  signedAttrs := none
  signatureAlgorithm := algorithmDer oidRsaEncryptionDer
  signature := [0x01]
  unsignedAttrs := some [⟨msRfc3161TimestampTokenOid, [minuteToken 0x31]⟩]

/-- Its `SignedData`. -/
def stampedSignedData : CmsSignedData where
  version := 3
  digestAlgorithms := [algorithmDer oidSha256Der]
  econtentType := "1.2.840.113549.1.7.1"
  econtent := none
  certificates := none
  crls := none
  signerInfos := [stampedSigner]

/-- The signer with the newer token in the attribute of PKCS#9. -/
def restampedSigner : CmsSigner :=
  { stampedSigner with
    unsignedAttrs := some [⟨msRfc3161TimestampTokenOid, [minuteToken 0x31]⟩,
      ⟨pkcs9Rfc3161TimestampTokenOid, [minuteToken 0x32]⟩] }

theorem timestamp_attached_sample :
    ∃ si stamped, Attached stampedSignedData
        { stampedSignedData with signerInfos := [restampedSigner] } 0 pkcs9Rfc3161TimestampTokenOid
        (minuteToken 0x32) si stamped ∧ stamped ∈ [restampedSigner] ∧
      (∀ index' token' rest' sd'', IsTokenDer token' →
        [restampedSigner][index']? = some stamped →
        signedDataAddRfc3161TimestampTokenWithOid twoTokenEnvironment.cms timestampEncoders
          { stampedSignedData with signerInfos := [restampedSigner] } index'
          (token'.toDer ++ rest') pkcs9Rfc3161TimestampTokenOid = .ok sd'' →
        ∃ stamped', Attached stampedSignedData sd'' 0 pkcs9Rfc3161TimestampTokenOid token' si
          stamped') ∧
      ∀ found decoded, timestampTokenFromValue twoTokenEnvironment (minuteToken 0x32) = some found →
        decoded.unsignedAttrs = stamped.unsignedAttrs →
        (timestampTokenFromSignerUnsignedAttrs twoTokenEnvironment decoded = some found ↔
          NoOtherTokenFirst twoTokenEnvironment timestampEncoders si
            ⟨pkcs9Rfc3161TimestampTokenOid, [minuteToken 0x32]⟩ found) := by
  have hadd : signedDataAddRfc3161TimestampTokenWithOid twoTokenEnvironment.cms timestampEncoders
      stampedSignedData 0 ((minuteToken 0x32).toDer ++ []) pkcs9Rfc3161TimestampTokenOid =
        .ok { stampedSignedData with signerInfos := [restampedSigner] } := by
    decide
  exact timestamp_attached (by decide) hadd

/-- The search finds the token that was there before, not the one that was attached. -/
theorem older_token_found :
    signedDataAddRfc3161TimestampTokenWithOid twoTokenEnvironment.cms timestampEncoders
        stampedSignedData 0 (minuteToken 0x32).toDer pkcs9Rfc3161TimestampTokenOid =
      .ok { stampedSignedData with signerInfos := [restampedSigner] } ∧
    (timestampTokenFromValue twoTokenEnvironment (minuteToken 0x32)).map FoundToken.genDate =
      some ⟨2023, 7, 1, 12, 2, 0⟩ ∧
    (timestampTokenFromSignerUnsignedAttrs twoTokenEnvironment
        ⟨timestampEncoders.signerDer restampedSigner, restampedSigner.sid, digestOidSha256, none,
          restampedSigner.signature, restampedSigner.unsignedAttrs⟩).map FoundToken.genDate =
      some ⟨2023, 7, 1, 12, 1, 0⟩ := by
  decide

end Psign.Trust
