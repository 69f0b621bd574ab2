import Psign.Sip.Pkcs7Normalize
import Psign.Sip.Pkcs7

/-!
# Attaching a timestamp token

`signed_data_add_rfc3161_timestamp_token_with_oid` of `pkcs7.rs`: the token becomes the only
value of an unsigned attribute of one signer, in the place of an attribute of the same type.
The attributes and the signers are SETs, so that both are sorted again and the signer may
change its place.

`Attached` says what has happened to the `SignedData`, whatever the order.  It is what one
call does (`attached_of_add`), and a second call on the same signer, wherever it stands by
then, does the same to the `SignedData` of before the first (`Attached.again`).
-/

namespace Psign.Sip

open CodeLib CodeLib.Der

/-! ## The code -/

/-- `MS_RFC3161_TIMESTAMP_TOKEN_OID`. -/
def msRfc3161TimestampTokenOid : String := "1.3.6.1.4.1.311.3.3.1"

/-- `PKCS9_RFC3161_TIMESTAMP_TOKEN_OID`. -/
def pkcs9Rfc3161TimestampTokenOid : String := "1.2.840.113549.1.9.16.2.14"

/-- All fields of a `cms::signed_data::SignerInfo`; algorithms as DER. -/
structure CmsSigner where
  version : Nat
  sid : SignerIdentifier
  digestAlg : List UInt8
  signedAttrs : Option (List Attribute)
  signatureAlgorithm : List UInt8
  signature : List UInt8
  unsignedAttrs : Option (List Attribute)
  deriving DecidableEq, Repr

/-- All fields of a `cms::signed_data::SignedData`; algorithms and CRLs as DER. -/
structure CmsSignedData where
  version : Nat
  digestAlgorithms : List (List UInt8)
  econtentType : String
  econtent : Option DerAny
  certificates : Option (List CertificateChoices)
  crls : Option (List (List UInt8))
  signerInfos : List CmsSigner
  deriving DecidableEq, Repr

/-- The `Encode` implementations behind the order of a SET OF. -/
structure SetEncoders where
  attributeDer : Attribute → List UInt8
  signerDer : CmsSigner → List UInt8

/-- `SetOfVec::try_from`: the elements in the order of their encodings, none twice. -/
def setOfVec {α : Type} (der : α → List UInt8) (items : List α) : Outcome (List α) := do
  Outcome.guardThat (items.map der).Nodup "SET OF contains duplicate"
  return items.insertionSort fun first second => der first ≤ der second

variable (cms : CmsCrates) (encode : SetEncoders)

/-- `signed_data_replace_signer_info_at`. -/
def signedDataReplaceSignerInfoAt (sd : CmsSignedData) (index : Nat) (signerInfo : CmsSigner) :
    Outcome CmsSignedData := do
  let signers := sd.signerInfos
  Outcome.guardThat (index < signers.length)
    s!"SignerInfo index {index} out of range (len {signers.length})"
  let signerInfos ← (setOfVec encode.signerDer (signers.set index signerInfo)).mapErr fun e =>
    "SignerInfos SET canonicalization: " ++ e
  return { sd with signerInfos := signerInfos }

/-- The `Any` that is all of the bytes of a token. -/
def tokenAny (tokenDer : List UInt8) : Outcome DerAny := do
  (cms.sliceReader tokenDer).mapErr fun e => "timestamp token DER reader: " ++ e
  let (tag, len, after) ← (cms.header tokenDer).mapErr fun e =>
    "timestamp token ContentInfo: " ++ e
  let (value, rest) ← (readSlice len after).mapErr fun e => "timestamp token ContentInfo: " ++ e
  Outcome.guardThat (rest = []) "trailing octets after timestamp token ContentInfo"
  return ⟨tag, value⟩

/-- The unsigned attributes of a signer. -/
def CmsSigner.attrs (si : CmsSigner) : List Attribute := si.unsignedAttrs.getD []

/-- `signed_data_add_rfc3161_timestamp_token_with_oid`. -/
def signedDataAddRfc3161TimestampTokenWithOid (sd : CmsSignedData) (signerIndex : Nat)
    (timestampTokenDer : List UInt8) (timestampAttrOid : String) : Outcome CmsSignedData := do
  let signers := sd.signerInfos
  let si ← Outcome.ofOption signers[signerIndex]?
    s!"SignerInfo index {signerIndex} out of range (len {signers.length})"
  let tokenDer := (pkcs7OuterSequencePrefix timestampTokenDer).getD timestampTokenDer
  let token ← tokenAny cms tokenDer
  let timestampAttr : Attribute := ⟨timestampAttrOid, [token]⟩
  let attrs := (si.attrs.filter fun attr => attr.oid ≠ timestampAttrOid) ++ [timestampAttr]
  let unsignedAttrs ← (setOfVec encode.attributeDer attrs).mapErr fun e =>
    "UnsignedAttributes SET canonicalization: " ++ e
  let stamped := { si with unsignedAttrs := some unsignedAttrs }
  signedDataReplaceSignerInfoAt encode sd signerIndex stamped

/-- `signed_data_add_rfc3161_timestamp_token`. -/
def signedDataAddRfc3161TimestampToken (sd : CmsSignedData) (signerIndex : Nat)
    (timestampTokenDer : List UInt8) : Outcome CmsSignedData :=
  signedDataAddRfc3161TimestampTokenWithOid cms encode sd signerIndex timestampTokenDer
    msRfc3161TimestampTokenOid

/-- `signed_data_add_pkcs9_rfc3161_timestamp_token`. -/
def signedDataAddPkcs9Rfc3161TimestampToken (sd : CmsSignedData) (signerIndex : Nat)
    (timestampTokenDer : List UInt8) : Outcome CmsSignedData :=
  signedDataAddRfc3161TimestampTokenWithOid cms encode sd signerIndex timestampTokenDer
    pkcs9Rfc3161TimestampTokenOid

/-! ## What has happened -/

/-- A token as a DER SEQUENCE with at most four length octets. -/
def IsTokenDer (token : DerAny) : Prop := token.tag = 0x30 ∧ token.value.length < 2 ^ 32

instance (token : DerAny) : Decidable (IsTokenDer token) := by
  unfold IsTokenDer
  infer_instance

/-- `sd'` is `sd` with `stamped` in the place of the signer `si`, which differ in the attribute
of type `oid` alone: in `stamped` there is one, and it holds the token. -/
structure Attached (sd sd' : CmsSignedData) (index : Nat) (oid : String) (token : DerAny)
    (si stamped : CmsSigner) : Prop where
  signer : sd.signerInfos[index]? = some si
  signerInfos : sd'.signerInfos.Perm (sd.signerInfos.set index stamped)
  frame : sd' = { sd with signerInfos := sd'.signerInfos }
  signerFrame : stamped = { si with unsignedAttrs := stamped.unsignedAttrs }
  tokenAttribute : (stamped.attrs.filter fun attr => attr.oid = oid) = [⟨oid, [token]⟩]
  others : (stamped.attrs.filter fun attr => attr.oid ≠ oid).Perm
    (si.attrs.filter fun attr => attr.oid ≠ oid)

section

variable {cms encode} {sd sd' : CmsSignedData} {index : Nat} {oid : String} {token : DerAny}
  {si stamped : CmsSigner}

theorem perm_of_setOfVec {α : Type} {der : α → List UInt8} {items sorted : List α}
    (h : setOfVec der items = .ok sorted) : sorted.Perm items := by
  simp only [setOfVec, Outcome.bind_eq_ok, Outcome.guardThat_eq_ok, Outcome.pure_eq_ok,
    exists_const, Except.ok.injEq] at h
  rw [← h.2]
  exact List.perm_insertionSort _ items

/-- The elements of a SET stand in the strict order of their encodings. -/
theorem pairwise_of_setOfVec {α : Type} {der : α → List UInt8} {items sorted : List α}
    (h : setOfVec der items = .ok sorted) :
    sorted.Pairwise fun first second => der first < der second := by
  have hperm := perm_of_setOfVec h
  simp only [setOfVec, Outcome.bind_eq_ok, Outcome.guardThat_eq_ok, Outcome.pure_eq_ok,
    exists_const, Except.ok.injEq] at h
  obtain ⟨hnodup, rfl⟩ := h
  have htotal : Std.Total fun first second : α => der first ≤ der second :=
    ⟨fun first second => List.le_total (der first) (der second)⟩
  have htrans : IsTrans α fun first second => der first ≤ der second :=
    ⟨fun _ _ _ => List.le_trans⟩
  have hsorted := List.pairwise_insertionSort (fun first second => der first ≤ der second) items
  have hdistinct := ((hperm.map der).nodup_iff.mpr hnodup)
  rw [List.Nodup, List.pairwise_map] at hdistinct
  refine (hsorted.and hdistinct).imp ?_
  intro first second hboth
  exact (List.le_iff_lt_or_eq.mp hboth.1).resolve_right hboth.2

/-- The token that is read is the token that was written. -/
theorem eq_of_tokenAny {any : DerAny} (htoken : IsTokenDer token)
    (h : tokenAny cms token.toDer = .ok any) : any = token := by
  simp only [tokenAny, Outcome.bind_eq_ok, Outcome.mapErr_eq_ok, Prod.exists,
    Outcome.guardThat_eq_ok, Outcome.pure_eq_ok, exists_const, Except.ok.injEq] at h
  obtain ⟨_, -, tag, len, after, hheader, value, rest, hslice, -, rfl⟩ := h
  have hle : len ≤ after.length := by
    by_cases hle : len ≤ after.length
    · exact hle
    · rw [readSlice, if_neg hle] at hslice
      exact absurd hslice Outcome.bail_ne_ok
  rw [readSlice, if_pos hle, Except.ok.injEq, Prod.mk.injEq] at hslice
  obtain ⟨element, hread, rfl, hvalue⟩ := cms.header_reads hheader hle
  have hwritten : readTlv 4 token.toDer = some (encodedTlv token.tag token.value, []) :=
    isTlv_encodedTlv htoken.2
  have hsame := Option.some.inj (hread.symm.trans hwritten)
  rw [Prod.mk.injEq] at hsame
  rw [← hslice.1, ← hvalue, hsame.1]
  rfl

/-- A signer that is replaced in a permuted list. -/
theorem perm_set {α : Type} {xs ys : List α} {a b : α} {i j : Nat} (h : xs.Perm ys)
    (hi : xs[i]? = some a) (hj : ys[j]? = some a) : (xs.set i b).Perm (ys.set j b) := by
  have hsplit : ∀ {zs : List α} {k : Nat}, zs[k]? = some a →
      zs.Perm (a :: (zs.take k ++ zs.drop (k + 1))) ∧
        (zs.set k b).Perm (b :: (zs.take k ++ zs.drop (k + 1))) := by
    intro zs k hk
    obtain ⟨hlt, hget⟩ := List.getElem?_eq_some_iff.mp hk
    constructor
    · have hself : zs = zs.take k ++ a :: zs.drop (k + 1) := by
        rw [← hget, List.getElem_cons_drop, List.take_append_drop]
      exact (List.Perm.of_eq hself).trans List.perm_middle
    · rw [List.set_eq_take_append_cons_drop, if_pos hlt]
      exact List.perm_middle
  obtain ⟨hxs, hxs'⟩ := hsplit hi
  obtain ⟨hys, hys'⟩ := hsplit hj
  have hrest := ((hxs.symm.trans h).trans hys).cons_inv
  exact (hxs'.trans (hrest.cons b)).trans hys'.symm

/-- What one call does. -/
theorem attached_of_add {rest : List UInt8} (htoken : IsTokenDer token)
    (h : signedDataAddRfc3161TimestampTokenWithOid cms encode sd index (token.toDer ++ rest) oid =
      .ok sd') :
    ∃ si stamped, Attached sd sd' index oid token si stamped ∧
      stamped.attrs.Pairwise fun first second =>
        encode.attributeDer first < encode.attributeDer second := by
  have hder : pkcs7OuterSequencePrefix (token.toDer ++ rest) = some token.toDer := by
    have hread := pkcs7OuterSequencePrefix_encodeTlv token.value rest
    rw [if_pos htoken.2, ← htoken.1] at hread
    exact hread
  simp only [signedDataAddRfc3161TimestampTokenWithOid, signedDataReplaceSignerInfoAt, hder,
    Option.getD_some, Outcome.bind_eq_ok, Outcome.ofOption_eq_ok, Outcome.mapErr_eq_ok,
    Outcome.guardThat_eq_ok, Outcome.pure_eq_ok, exists_const, Except.ok.injEq] at h
  obtain ⟨si, hsi, any, hany, attrs, hattrs, -, signerInfos, hsignerInfos, rfl⟩ := h
  obtain rfl := eq_of_tokenAny htoken hany
  have hperm := perm_of_setOfVec hattrs
  refine ⟨si, { si with unsignedAttrs := some attrs }, ⟨hsi, perm_of_setOfVec hsignerInfos, rfl,
    rfl, ?_, ?_⟩, pairwise_of_setOfVec hattrs⟩
  · have hfilter := hperm.filter fun attr => decide (attr.oid = oid)
    have hnone : (si.attrs.filter fun attr => decide (attr.oid ≠ oid)).filter
        (fun attr => decide (attr.oid = oid)) = [] := by
      rw [List.filter_filter, List.filter_eq_nil_iff]
      intro attr _ hboth
      simp at hboth
    rw [List.filter_append, hnone, List.nil_append, List.filter_cons_of_pos (by simp),
      List.filter_nil] at hfilter
    exact List.perm_singleton.mp hfilter
  · have hfilter := hperm.filter fun attr => decide (attr.oid ≠ oid)
    rw [List.filter_append, List.filter_filter, List.filter_cons_of_neg (by simp),
      List.filter_nil, List.append_nil] at hfilter
    simp only [Bool.and_self] at hfilter
    exact hfilter

/-- Attaching to the signer again is attaching to the signer of before the first time. -/
theorem Attached.again {sd'' : CmsSignedData} {index' : Nat} {token' : DerAny}
    {stamped' : CmsSigner} (h : Attached sd sd' index oid token si stamped)
    (h' : Attached sd' sd'' index' oid token' stamped stamped') :
    Attached sd sd'' index oid token' si stamped' where
  signer := h.signer
  signerInfos := by
    have hat : (sd.signerInfos.set index stamped)[index]? = some stamped := by
      obtain ⟨hlt, -⟩ := List.getElem?_eq_some_iff.mp h.signer
      rw [List.getElem?_set_self hlt]
    have hset := @perm_set _ _ _ stamped stamped' _ _ h.signerInfos h'.signer hat
    rw [List.set_set] at hset
    exact h'.signerInfos.trans hset
  frame := by rw [h'.frame, h.frame]
  signerFrame := by rw [h'.signerFrame, h.signerFrame]
  tokenAttribute := h'.tokenAttribute
  others := h'.others.trans h.others

end

end Psign.Sip
