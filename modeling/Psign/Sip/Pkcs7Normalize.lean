import Psign.Sip.PeRows

/-!
# What normalization makes of a signature

`normalize_pkcs7_der_for_authenticode` on every blob that holds a DER `SignedData`: in a
`ContentInfo` or bare, behind `PKCX` or not, with zero padding behind it or not.

`SignedDataDer` is the structure of the elements, `SignatureBlob` one way to frame it, and
`Normalized` what normalization is for: the `ContentInfo` of the same `SignedData` with the
first of equal certificates kept, a fixed point, the padding outside.

The padding of a bare `SignedData` is wrapped with it into the explicitly tagged content, so
that it is no padding any more (`normalize_bare`).  Elements with more than four length
octets are not read, so from 2^32 bytes on nothing is wrapped and nothing is removed.
`normalized_iff_normalizable` says that nothing else goes wrong.
-/

namespace Psign.Sip

open CodeLib CodeLib.Der

/-! ## First occurrences -/

section occurrences

variable {α β : Type} [BEq α] [LawfulBEq α] [BEq β] [LawfulBEq β]

theorem eraseDups_concat (xs : List α) (x : α) :
    (xs ++ [x]).eraseDups = xs.eraseDups ++ if x ∈ xs then [] else [x] := by
  rw [List.eraseDups_append]
  by_cases hmem : x ∈ xs
  · have hnil : [x].removeAll xs = [] := by simp [List.removeAll, hmem]
    rw [if_pos hmem, hnil, List.eraseDups_nil]
  · have hself : [x].removeAll xs = [x] := by simp [List.removeAll, hmem]
    rw [if_neg hmem, hself, List.eraseDups_cons]
    rfl

theorem nodup_eraseDups (xs : List α) : xs.eraseDups.Nodup := by
  induction xs using List.reverseRecOn with
  | nil => exact List.nodup_nil
  | append_singleton xs x ih =>
    rw [eraseDups_concat]
    by_cases hmem : x ∈ xs
    · rw [if_pos hmem, List.append_nil]
      exact ih
    · rw [if_neg hmem]
      refine List.nodup_append.mpr ⟨ih, List.nodup_singleton x, ?_⟩
      intro y hy z hz hyz
      rw [List.mem_singleton.mp hz] at hyz
      exact hmem (hyz ▸ List.mem_eraseDups.mp hy)

theorem eraseDups_of_nodup {xs : List α} (h : xs.Nodup) : xs.eraseDups = xs := by
  induction xs using List.reverseRecOn with
  | nil => rfl
  | append_singleton xs x ih =>
    have hparts := List.nodup_append.mp h
    have hmem : x ∉ xs := fun hx => hparts.2.2 x hx x (List.mem_singleton_self x) rfl
    rw [eraseDups_concat, if_neg hmem, ih hparts.1]

theorem eraseDups_map {f : α → β} (hf : Function.Injective f) (xs : List α) :
    (xs.map f).eraseDups = xs.eraseDups.map f := by
  induction xs using List.reverseRecOn with
  | nil => rfl
  | append_singleton xs x ih =>
    rw [List.map_append, List.map_singleton, eraseDups_concat, eraseDups_concat, ih]
    by_cases hmem : x ∈ xs
    · rw [if_pos hmem, if_pos (List.mem_map_of_mem hmem), List.append_nil, List.append_nil]
    · have hmem' : f x ∉ xs.map f := by
        intro h
        obtain ⟨y, hy, hyx⟩ := List.mem_map.mp h
        exact hmem (hf hyx ▸ hy)
      rw [if_neg hmem, if_neg hmem', List.map_append, List.map_singleton]

/-- Leaving out copies leaves out bytes. -/
theorem length_flatten_eraseDups_le {xs : List (List UInt8)} (hne : ∀ x ∈ xs, x ≠ []) :
    xs.eraseDups.flatten.length ≤ xs.flatten.length ∧
      (¬ xs.Nodup → xs.eraseDups.flatten.length < xs.flatten.length) := by
  induction xs using List.reverseRecOn with
  | nil => simp
  | append_singleton xs x ih =>
    obtain ⟨hle, hlt⟩ := ih fun y hy => hne y (List.mem_append_left _ hy)
    have hpos : 0 < x.length := List.length_pos_iff.mpr (hne x (by simp))
    rw [eraseDups_concat]
    by_cases hmem : x ∈ xs
    · simp only [if_pos hmem, List.append_nil, List.flatten_append, List.length_append,
        List.flatten_cons, List.flatten_nil]
      omega
    · simp only [if_neg hmem, List.flatten_append, List.length_append, List.flatten_cons,
        List.flatten_nil, List.append_nil]
      refine ⟨by omega, fun hcopy => ?_⟩
      have hxs : ¬ xs.Nodup := by
        intro hnodup
        apply hcopy
        refine List.nodup_append.mpr ⟨hnodup, List.nodup_singleton x, ?_⟩
        intro y hy z hz hyz
        rw [List.mem_singleton.mp hz] at hyz
        exact hmem (hyz ▸ hy)
      have := hlt hxs
      omega

end occurrences

/-! ## The elements of a signature -/

/-- The bytes of one DER element. -/
abbrev DerElement := { bytes : List UInt8 // ∃ tag contents, bytes = encodeTlv tag contents }

theorem DerElement.ne_nil (element : DerElement) : element.val ≠ [] := by
  obtain ⟨bytes, tag, contents, rfl⟩ := element
  exact List.cons_ne_nil _ _

/-- A `SignedData`: the contents of its fields, and the certificates one by one. -/
structure SignedDataDer where
  version : List UInt8
  digestAlgorithms : List UInt8
  encapContentInfo : List UInt8
  certificates : Option (List DerElement)
  crls : Option (List UInt8)
  signerInfos : List UInt8

namespace SignedDataDer

variable (sd : SignedDataDer)

/-- The certificates one after the other. -/
def certificateBytes (certs : List DerElement) : List UInt8 := (certs.map Subtype.val).flatten

/-- The fields behind the first three. -/
def optionalFields : List UInt8 :=
  (match sd.certificates with
    | none => []
    | some certs => encodeTlv 0xa0 (certificateBytes certs)) ++
  (match sd.crls with
    | none => []
    | some crls => encodeTlv 0xa1 crls)

/-- The contents of the SEQUENCE. -/
def contents : List UInt8 :=
  encodeTlv 0x02 sd.version ++ (encodeTlv 0x31 sd.digestAlgorithms ++
    (encodeTlv 0x30 sd.encapContentInfo ++
      (sd.optionalFields ++ encodeTlv 0x31 sd.signerInfos)))

/-- The bare `SignedData`. -/
def der : List UInt8 := encodeTlv 0x30 sd.contents

/-- The first of equal certificates, everything else as it is. -/
def dedup : SignedDataDer := { sd with certificates := sd.certificates.map List.eraseDups }

/-- No certificate occurs again. -/
def NoCopies : Prop := ∀ certs, sd.certificates = some certs → certs.Nodup

end SignedDataDer

/-- The contents of a `ContentInfo` around the given bytes. -/
def contentInfoContents (inner : List UInt8) : List UInt8 :=
  pkcs7SignedDataOidDer ++ encodeTlv 0xa0 inner

/-- A `ContentInfo` of type `id-signedData` around the given bytes. -/
def contentInfo (inner : List UInt8) : List UInt8 :=
  encodeTlv 0x30 (contentInfoContents inner)

/-- A signature blob: a `SignedData` in a `ContentInfo` or bare, behind `PKCX` or not, and the
number of zero bytes behind it.  A buffer has fewer than 2^63 bytes. -/
structure SignatureBlob where
  pkcx : Bool
  wrapped : Bool
  signedData : SignedDataDer
  padding : Nat
  padding_le : padding ≤ 7
  fits : (contentInfo signedData.der).length < 2 ^ 63

namespace SignatureBlob

variable (blob : SignatureBlob)

/-- The bytes of a blob. -/
def bytes : List UInt8 :=
  (if blob.pkcx then [0x50, 0x4B, 0x43, 0x58] else []) ++
    ((if blob.wrapped then contentInfo blob.signedData.der else blob.signedData.der) ++
      List.replicate blob.padding 0)

/-- The blob without its padding. -/
def unpadded : SignatureBlob := { blob with padding := 0, padding_le := by decide }

/-- The blob is normalized to the `ContentInfo` of its `SignedData`, where of equal
certificates only the first is kept, with at most the padding behind it. -/
structure Normalized : Prop where
  contentInfo : ∃ padding ≤ blob.padding, normalizePkcs7DerForAuthenticode blob.bytes =
    contentInfo blob.signedData.dedup.der ++ List.replicate padding 0
  idempotent : normalizePkcs7DerForAuthenticode (normalizePkcs7DerForAuthenticode blob.bytes) =
    normalizePkcs7DerForAuthenticode blob.bytes
  outerSequence : pkcs7OuterSequencePrefix (normalizePkcs7DerForAuthenticode blob.bytes) =
    pkcs7OuterSequencePrefix (normalizePkcs7DerForAuthenticode blob.unpadded.bytes)

/-- A bare `SignedData` has no padding and its lengths are read, and so are those of the
`ContentInfo` where there is a copy to remove. -/
def Normalizable : Prop :=
  (blob.wrapped = false → blob.padding = 0 ∧ blob.signedData.contents.length < 2 ^ 32) ∧
    (blob.signedData.NoCopies ∨ (contentInfoContents blob.signedData.der).length < 2 ^ 32)

end SignatureBlob

/-! ## The elements of a blob -/

/-- A DER element with its contents. -/
def encodedTlv (tag : UInt8) (contents : List UInt8) : Tlv := ⟨tag, encodeTlv tag contents, contents⟩

theorem length_lt_encodeTlv (tag : UInt8) (contents : List UInt8) :
    contents.length < (encodeTlv tag contents).length := by
  rw [encodeTlv, List.length_cons, List.length_append]
  omega

theorem readTlvs_encodedTlv (tag : UInt8) (contents rest : List UInt8) :
    readTlvs 4 (encodeTlv tag contents ++ rest) =
      if contents.length < 2 ^ 32 then (readTlvs 4 rest).map (encodedTlv tag contents :: ·)
      else none :=
  readTlvs_encodeTlv (by decide) (by decide) tag contents rest

theorem isTlv_encodedTlv {tag : UInt8} {contents : List UInt8} (h : contents.length < 2 ^ 32) :
    IsTlv 4 (encodedTlv tag contents) :=
  isTlv_encodeTlv h (by decide)

namespace SignedDataDer

variable (sd : SignedDataDer)

/-- The elements of the fields behind the first three. -/
def optionalTlvs : List Tlv :=
  (sd.certificates.map fun certs => encodedTlv 0xa0 (certificateBytes certs)).toList ++
    (sd.crls.map (encodedTlv 0xa1)).toList

/-- The elements of the SEQUENCE. -/
def fields : List Tlv :=
  encodedTlv 0x02 sd.version :: encodedTlv 0x31 sd.digestAlgorithms ::
    encodedTlv 0x30 sd.encapContentInfo :: (sd.optionalTlvs ++ [encodedTlv 0x31 sd.signerInfos])

theorem rawOf_fields : rawOf sd.fields = sd.contents := by
  have hoptional : rawOf sd.optionalTlvs = sd.optionalFields := by
    rw [optionalTlvs, optionalFields]
    cases sd.certificates with
    | none =>
      cases sd.crls with
      | none => rfl
      | some crls => simp [encodedTlv]
    | some certs =>
      cases sd.crls with
      | none => simp [encodedTlv]
      | some crls => simp [encodedTlv]
  simp [fields, contents, hoptional, encodedTlv]

theorem exists_eq_encodedTlv {tlv : Tlv} (h : tlv ∈ sd.fields) :
    ∃ tag contents, tlv = encodedTlv tag contents := by
  simp only [fields, optionalTlvs, List.mem_cons, List.mem_append, Option.mem_toList,
    Option.map_eq_some_iff, List.not_mem_nil, or_false] at h
  rcases h with rfl | rfl | rfl | (⟨certs, -, rfl⟩ | ⟨crls, -, rfl⟩) | rfl
  all_goals exact ⟨_, _, rfl⟩

theorem length_raw_le_rawOf {tlv : Tlv} {tlvs : List Tlv} (h : tlv ∈ tlvs) :
    tlv.raw.length ≤ (rawOf tlvs).length := by
  obtain ⟨before, after, rfl⟩ := List.append_of_mem h
  simp only [rawOf_append, rawOf_cons, List.length_append]
  omega

theorem readTlvs_contents (h : sd.contents.length < 2 ^ 32) :
    readTlvs 4 sd.contents = some sd.fields := by
  refine readTlvs_eq_some.mpr ⟨sd.rawOf_fields.symm, ?_⟩
  intro tlv htlv
  have hle := length_raw_le_rawOf htlv
  obtain ⟨tag, contents, rfl⟩ := sd.exists_eq_encodedTlv htlv
  have hlt := length_lt_encodeTlv tag contents
  rw [sd.rawOf_fields] at hle
  exact isTlv_encodedTlv (Nat.lt_of_lt_of_le hlt (Nat.le_trans hle (Nat.le_of_lt h)))

/-- The certificates of a set that is read, element by element. -/
theorem exists_tlvs (certs : List DerElement) (h : (certificateBytes certs).length < 2 ^ 32) :
    ∃ tlvs, readTlvs 4 (certificateBytes certs) = some tlvs ∧
      tlvs.map Tlv.raw = certs.map Subtype.val := by
  induction certs with
  | nil => exact ⟨[], rfl, rfl⟩
  | cons cert certs ih =>
    obtain ⟨bytes, tag, contents, rfl⟩ := cert
    have hsplit : certificateBytes (⟨encodeTlv tag contents, tag, contents, rfl⟩ :: certs) =
        encodeTlv tag contents ++ certificateBytes certs := rfl
    have hlt := length_lt_encodeTlv tag contents
    rw [hsplit, List.length_append] at h
    obtain ⟨tlvs, htlvs, hraws⟩ := ih (by omega)
    refine ⟨encodedTlv tag contents :: tlvs, ?_, ?_⟩
    · rw [hsplit, readTlvs_encodedTlv, if_pos (by omega), htlvs]
      rfl
    · rw [List.map_cons, List.map_cons, hraws]
      rfl

end SignedDataDer

theorem pkcs7ContentInfoSignedData_eq (inner : List UInt8) :
    pkcs7ContentInfoSignedData inner = contentInfo inner := by
  simp [pkcs7ContentInfoSignedData, contentInfo, contentInfoContents, encodeTlv,
    derEncodeDefiniteLength, Nat.add_comm]

theorem length_lt_contentInfoContents (inner : List UInt8) :
    inner.length < (contentInfoContents inner).length := by
  have := length_lt_encodeTlv 0xa0 inner
  rw [contentInfoContents, List.length_append]
  omega

theorem SignedDataDer.length_contents_lt (sd : SignedDataDer) : sd.contents.length < sd.der.length :=
  length_lt_encodeTlv 0x30 sd.contents

theorem readTlv_contentInfo (inner rest : List UInt8) :
    readTlv 4 (contentInfo inner ++ rest) =
      if (contentInfoContents inner).length < 2 ^ 32 then
        some (encodedTlv 0x30 (contentInfoContents inner), rest)
      else none :=
  readTlv_encodeTlv (by decide) (by decide) 0x30 _ rest

theorem readTlvs_contentInfoContents (inner : List UInt8) :
    readTlvs 4 (contentInfoContents inner) =
      if inner.length < 2 ^ 32 then
        some [⟨0x06, pkcs7SignedDataOidDer, pkcs7SignedDataOidDer.drop 2⟩, encodedTlv 0xa0 inner]
      else none := by
  have hoid : readTlv 4 (contentInfoContents inner) =
      some (⟨0x06, pkcs7SignedDataOidDer, pkcs7SignedDataOidDer.drop 2⟩, encodeTlv 0xa0 inner) := by
    apply readTlv_eq_some.mpr
    exact ⟨rfl, by decide⟩
  have hexplicit := readTlvs_encodedTlv 0xa0 inner []
  rw [List.append_nil] at hexplicit
  rw [readTlvs_of_readTlv hoid, hexplicit]
  by_cases h : inner.length < 2 ^ 32
  · rw [if_pos h, if_pos h]
    rfl
  · rw [if_neg h, if_neg h]
    rfl

/-- The elements found in a `ContentInfo` are those it was made of. -/
theorem elements_of_contentInfo {data inner after rest : List UInt8} {fields : List Tlv}
    (elements : ContentInfoElements data fields)
    (hdata : data = contentInfo (encodeTlv 0x30 inner ++ after) ++ rest) :
    (contentInfoContents (encodeTlv 0x30 inner ++ after)).length < 2 ^ 32 ∧
      elements.outerAfter = [] ∧ rawOf elements.explicitAfter = after ∧
      readTlvs 4 inner = some fields := by
  have houter := (congrArg (readTlv 4) (hdata.symm.trans elements.data_eq)).trans
    (elements.outer_isTlv.readTlv_append elements.rest)
  rw [readTlv_contentInfo] at houter
  split at houter
  · rename_i hlt
    rw [Option.some.injEq, Prod.mk.injEq] at houter
    have hchildren := elements.outer_children
    rw [← houter.1] at hchildren
    have houterChildren := readTlvs_contentInfoContents (encodeTlv 0x30 inner ++ after)
    rw [show readTlvs 4 (contentInfoContents (encodeTlv 0x30 inner ++ after)) = _ from hchildren]
      at houterChildren
    split at houterChildren
    · simp only [Option.some.injEq, List.cons.injEq] at houterChildren
      obtain ⟨-, hexplicit, hafter⟩ := houterChildren
      have hinner := elements.explicit_children
      rw [hexplicit] at hinner
      have hsplit := readTlvs_encodedTlv 0x30 inner after
      rw [show readTlvs 4 (encodeTlv 0x30 inner ++ after) = _ from hinner] at hsplit
      split at hsplit
      · obtain ⟨tlvs, htlvs, heq⟩ := Option.map_eq_some_iff.mp hsplit.symm
        rw [List.cons.injEq] at heq
        have hfields := elements.signedData_children
        rw [← heq.1] at hfields
        refine ⟨hlt, hafter, ?_, hfields⟩
        rw [← heq.2]
        exact (readTlvs_eq_some.mp htlvs).1.symm
      · cases hsplit
    · cases houterChildren
  · cases houter

/-- A `ContentInfo` whose lengths are read has the elements of its `SignedData`. -/
theorem exists_elements (sd : SignedDataDer)
    (hlt : (contentInfoContents sd.der).length < 2 ^ 32) (rest : List UInt8) :
    Nonempty (ContentInfoElements (contentInfo sd.der ++ rest) sd.fields) := by
  have hder : sd.der.length < 2 ^ 32 := Nat.lt_trans (length_lt_contentInfoContents sd.der) hlt
  have hcontents : sd.contents.length < 2 ^ 32 := Nat.lt_trans sd.length_contents_lt hder
  have hsplit := readTlvs_encodedTlv 0x30 sd.contents []
  rw [if_pos hcontents, List.append_nil] at hsplit
  have houter := readTlvs_contentInfoContents sd.der
  rw [if_pos hder] at houter
  exact
    ⟨{ outer := encodedTlv 0x30 (contentInfoContents sd.der)
       rest := rest
       contentType := ⟨0x06, pkcs7SignedDataOidDer, pkcs7SignedDataOidDer.drop 2⟩
       explicit := encodedTlv 0xa0 sd.der
       outerAfter := []
       signedData := encodedTlv 0x30 sd.contents
       explicitAfter := []
       data_eq := rfl
       outer_isTlv := isTlv_encodedTlv hlt
       outer_tag := rfl
       outer_children := houter
       contentType_raw := rfl
       explicit_tag := rfl
       explicit_children := hsplit
       signedData_tag := rfl
       signedData_children := sd.readTlvs_contents hcontents }⟩

/-! ## Removing copies -/

/-- The loop over the certificates keeps the first of equal ones. -/
private theorem dedupeCertificates_fst (data : List UInt8) (children : List DerTlv)
    (unique : List (List UInt8)) (removedDuplicate : Bool) (hunique : unique.Nodup) :
    (dedupeCertificates data children unique unique.flatten removedDuplicate).1 =
      (unique ++ children.map fun child =>
        range data child.tagStart child.valueEnd).eraseDups.flatten := by
  induction children generalizing unique removedDuplicate with
  | nil =>
    rw [List.map_nil, List.append_nil, eraseDups_of_nodup hunique]
    rfl
  | cons child children ih =>
    simp only [dedupeCertificates, List.map_cons]
    by_cases hmem : range data child.tagStart child.valueEnd ∈ unique
    · rw [if_pos hmem, ih unique true hunique, List.eraseDups_append, List.eraseDups_append]
      simp [List.removeAll, hmem]
    · have hnodup : (unique ++ [range data child.tagStart child.valueEnd]).Nodup := by
        refine List.nodup_append.mpr ⟨hunique, List.nodup_singleton _, ?_⟩
        intro y hy z hz hyz
        rw [List.mem_singleton.mp hz] at hyz
        exact hmem (hyz ▸ hy)
      have hrest := ih _ removedDuplicate hnodup
      rw [List.flatten_append, List.flatten_cons, List.flatten_nil, List.append_nil,
        List.append_assoc] at hrest
      rw [if_neg hmem]
      exact hrest

theorem length_certificateBytes_lt {sd : SignedDataDer} {certs : List DerElement}
    (hcerts : sd.certificates = some certs) :
    (SignedDataDer.certificateBytes certs).length < sd.contents.length := by
  have hset := length_lt_encodeTlv 0xa0 (SignedDataDer.certificateBytes certs)
  simp only [SignedDataDer.contents, SignedDataDer.optionalFields, hcerts, List.length_append]
  omega

/-- Where certificates occur again, only the first of equal ones are written. -/
theorem ContentInfoElements.dedupe_of_copies {data : List UInt8} {first second third : Tlv}
    {certificates : Tlv} {after tlvs : List Tlv}
    (elements : ContentInfoElements data ([first, second, third] ++ certificates :: after))
    (htag : certificates.tag = 0xa0) (htlvs : readTlvs 4 certificates.value = some tlvs)
    (hcopies : ¬ (tlvs.map Tlv.raw).Nodup) :
    dedupeSignedDataCertificateSet data = some (encodeTlv elements.outer.tag
      (elements.contentType.raw ++ encodeTlv elements.explicit.tag
        (encodeTlv elements.signedData.tag (rawOf [first, second, third] ++
          encodeTlv certificates.tag (tlvs.map Tlv.raw).eraseDups.flatten ++ rawOf after) ++
            rawOf elements.explicitAfter) ++ rawOf elements.outerAfter)) := by
  have hstands := elements.signedData_standsAt.childStandsAt [first, second, third]
    elements.signedData_children
  have hraws := map_range_placedAll hstands [] htlvs
  rw [rawOf_nil, List.length_nil, Nat.add_zero] at hraws
  have hchildren := hstands.derTlvChildren
  rw [htlvs, Option.map_some] at hchildren
  have hfind : ((placedAll (placed elements.signedDataOffset elements.signedData).valueStart
      ([first, second, third] ++ certificates :: after)).drop 3).find? (·.tag = 0xa0) =
        some (placed ((placed elements.signedDataOffset elements.signedData).valueStart +
          (rawOf [first, second, third]).length) certificates) := by
    simp only [List.cons_append, List.nil_append, placedAll, List.drop_succ_cons, List.drop_zero,
      List.find?_cons, placed_tag, htag, decide_true, rawOf_cons, rawOf_nil, List.append_nil,
      List.length_append, Nat.add_assoc]
  rw [elements.dedupe_eq, hfind, Option.bind_eq_bind, Option.bind_some, hchildren,
    Option.bind_eq_bind, Option.bind_some]
  generalize placedAll _ tlvs = children at hraws
  have hremoved : (dedupeCertificates data children [] [] false).2 = true := by
    rw [← Bool.not_eq_false, dedupeCertificates_snd [] List.nodup_nil, hraws]
    exact hcopies
  have hkept := dedupeCertificates_fst data children [] false List.nodup_nil
  rw [List.flatten_nil, List.nil_append, hraws] at hkept
  rcases hloop : dedupeCertificates data children [] [] false with ⟨content, removed⟩
  rw [hloop] at hremoved hkept
  dsimp only at hremoved hkept ⊢
  rw [hremoved, hkept]
  exact congrArg some (elements.replaced [first, second, third] _)

/-- What `dedupe_signed_data_certificate_set` makes of the elements of a `SignedData`. -/
theorem dedupe_eq_of_elements {data : List UInt8} {sd : SignedDataDer} {fields : List Tlv}
    (elements : ContentInfoElements data fields) (hfields : fields = sd.fields)
    {certs : List DerElement} (hcerts : sd.certificates = some certs)
    (hlt : sd.contents.length < 2 ^ 32) (hcopies : ¬ certs.Nodup) :
    dedupeSignedDataCertificateSet data = some (encodeTlv 0x30 (pkcs7SignedDataOidDer ++
      encodeTlv 0xa0 (sd.dedup.der ++ rawOf elements.explicitAfter) ++
        rawOf elements.outerAfter)) := by
  have hsplit : sd.fields = [encodedTlv 0x02 sd.version, encodedTlv 0x31 sd.digestAlgorithms,
      encodedTlv 0x30 sd.encapContentInfo] ++
        encodedTlv 0xa0 (SignedDataDer.certificateBytes certs) ::
          ((sd.crls.map (encodedTlv 0xa1)).toList ++ [encodedTlv 0x31 sd.signerInfos]) := by
    rw [SignedDataDer.fields, SignedDataDer.optionalTlvs, hcerts]
    rfl
  rw [hsplit] at hfields
  subst hfields
  obtain ⟨tlvs, htlvs, hraws⟩ := SignedDataDer.exists_tlvs certs
    (Nat.lt_trans (length_certificateBytes_lt hcerts) hlt)
  have hcopies' : ¬ (tlvs.map Tlv.raw).Nodup := by
    rw [hraws]
    exact fun h => hcopies (List.Nodup.of_map _ h)
  have hder : sd.dedup.der = encodeTlv 0x30 (rawOf [encodedTlv 0x02 sd.version,
      encodedTlv 0x31 sd.digestAlgorithms, encodedTlv 0x30 sd.encapContentInfo] ++
        encodeTlv 0xa0 (tlvs.map Tlv.raw).eraseDups.flatten ++
          rawOf ((sd.crls.map (encodedTlv 0xa1)).toList ++ [encodedTlv 0x31 sd.signerInfos])) := by
    have hcontents := sd.dedup.rawOf_fields
    rw [SignedDataDer.der, ← hcontents, hraws, eraseDups_map Subtype.val_injective]
    simp only [SignedDataDer.fields, SignedDataDer.optionalTlvs, SignedDataDer.dedup, hcerts,
      Option.map_some, Option.toList_some, rawOf_cons, rawOf_append, rawOf_nil, List.append_assoc,
      List.append_nil]
    rfl
  rw [elements.dedupe_of_copies rfl htlvs hcopies', elements.outer_tag, elements.contentType_raw,
    elements.explicit_tag, elements.signedData_tag, hder]
  rfl

namespace SignedDataDer

variable {sd : SignedDataDer}

theorem dedup_of_noCopies (h : sd.NoCopies) : sd.dedup = sd := by
  obtain ⟨version, digestAlgorithms, encapContentInfo, certificates, crls, signerInfos⟩ := sd
  cases certificates with
  | none => rfl
  | some certs =>
    show SignedDataDer.mk version digestAlgorithms encapContentInfo (some certs.eraseDups) crls
      signerInfos = _
    rw [eraseDups_of_nodup (h certs rfl)]

theorem noCopies_dedup : sd.dedup.NoCopies := by
  intro certs hcerts
  obtain ⟨all, -, rfl⟩ := Option.map_eq_some_iff.mp hcerts
  exact nodup_eraseDups all

theorem certificateTlvs_fields : certificateTlvs sd.fields =
    sd.certificates.bind fun certs => readTlvs 4 (certificateBytes certs) := by
  have hfind : (sd.fields.drop 3).find? (·.tag = 0xa0) =
      sd.certificates.map fun certs => encodedTlv 0xa0 (certificateBytes certs) := by
    rw [fields, optionalTlvs]
    cases sd.certificates with
    | none =>
      cases sd.crls with
      | none => rfl
      | some crls => rfl
    | some certs => rfl
  rw [certificateTlvs, hfind]
  cases sd.certificates with
  | none => rfl
  | some certs => rfl

/-- Removing copies changes the contents. -/
theorem dedup_contents_ne (hcopies : ¬ sd.NoCopies) (hlt : sd.contents.length < 2 ^ 64) :
    sd.dedup.contents ≠ sd.contents := by
  intro heq
  simp only [NoCopies, Classical.not_forall] at hcopies
  obtain ⟨certs, hcerts, hcertsCopies⟩ := hcopies
  have hdedup : sd.dedup.certificates = some certs.eraseDups := by rw [dedup, hcerts]; rfl
  have hshorter := length_certificateBytes_lt hcerts
  have hshorter' := length_certificateBytes_lt hdedup
  rw [heq] at hshorter'
  have hbytes : certificateBytes certs.eraseDups = certificateBytes certs := by
    have hfields : sd.dedup.optionalFields ++ encodeTlv 0x31 sd.signerInfos =
        sd.optionalFields ++ encodeTlv 0x31 sd.signerInfos := by
      have hrest := List.append_cancel_left (List.append_cancel_left heq)
      exact List.append_cancel_left hrest
    have hoptional := List.append_cancel_right hfields
    simp only [optionalFields, hcerts, hdedup] at hoptional
    exact (encodeTlv_append_inj (Nat.lt_trans hshorter' hlt) (Nat.lt_trans hshorter hlt)
      hoptional).2.1
  have hne : ∀ bytes ∈ certs.map Subtype.val, bytes ≠ [] := by
    intro bytes hbytes
    obtain ⟨cert, -, rfl⟩ := List.mem_map.mp hbytes
    exact DerElement.ne_nil cert
  have hless := (length_flatten_eraseDups_le hne).2 fun h => hcertsCopies (List.Nodup.of_map _ h)
  rw [eraseDups_map Subtype.val_injective] at hless
  have hlength := congrArg List.length hbytes
  rw [certificateBytes, certificateBytes] at hlength
  omega

end SignedDataDer

/-- If certificates are removed, they are copies and the lengths are those that are read. -/
theorem of_dedupe_contentInfo {sd : SignedDataDer} {after rest deduped : List UInt8}
    (h : dedupeSignedDataCertificateSet (contentInfo (sd.der ++ after) ++ rest) = some deduped) :
    (contentInfoContents (sd.der ++ after)).length < 2 ^ 32 ∧ ¬ sd.NoCopies ∧
      deduped = contentInfo (sd.dedup.der ++ after) ∧
        (contentInfoContents (sd.dedup.der ++ after)).length < 2 ^ 32 := by
  obtain ⟨fields, ⟨elements⟩⟩ := ContentInfoElements.exists_of_dedupe h
  obtain ⟨hlt, houterAfter, hafter, hread⟩ := elements_of_contentInfo elements rfl
  have hcontents : sd.contents.length < 2 ^ 32 := by
    have hder := sd.length_contents_lt
    have hinner := length_lt_contentInfoContents (sd.der ++ after)
    have houter : (contentInfoContents (sd.der ++ after)).length < 2 ^ 32 := hlt
    rw [List.length_append] at hinner
    omega
  have hfields : fields = sd.fields := by
    rw [sd.readTlvs_contents hcontents] at hread
    exact (Option.some.inj hread).symm
  obtain ⟨_, _, _, _, -, -, -, ⟨elements'⟩, tlvs, htlvs, hrepeated⟩ := elements.of_dedupe h
  have hcopies : ∃ certs, sd.certificates = some certs ∧ ¬ certs.Nodup := by
    rw [hfields, SignedDataDer.certificateTlvs_fields, Option.bind_eq_some_iff] at htlvs
    obtain ⟨certs, hcerts, hread⟩ := htlvs
    obtain ⟨tlvs', htlvs', hraws⟩ := SignedDataDer.exists_tlvs certs
      (Nat.lt_trans (length_certificateBytes_lt hcerts) hcontents)
    rw [hread, Option.some.injEq] at htlvs'
    rw [htlvs', hraws] at hrepeated
    exact ⟨certs, hcerts, fun hnodup => hrepeated (hnodup.map Subtype.val_injective)⟩
  obtain ⟨certs, hcerts, hcertsCopies⟩ := hcopies
  have heq := dedupe_eq_of_elements elements hfields hcerts hcontents hcertsCopies
  rw [h, Option.some.injEq, hafter, houterAfter, rawOf_nil, List.append_nil] at heq
  have hdeduped : deduped = contentInfo (sd.dedup.der ++ after) := heq
  have hdata : deduped = contentInfo (encodeTlv 0x30 sd.dedup.contents ++ after) ++ [] := by
    rw [hdeduped, List.append_nil]
    rfl
  refine ⟨hlt, fun hnone => hcertsCopies (hnone certs hcerts), hdeduped, ?_⟩
  exact (elements_of_contentInfo elements' hdata).1

/-- Copies are removed from a `ContentInfo` whose lengths are read. -/
theorem dedupe_contentInfo {sd : SignedDataDer} (hcopies : ¬ sd.NoCopies)
    (hlt : (contentInfoContents sd.der).length < 2 ^ 32) (rest : List UInt8) :
    dedupeSignedDataCertificateSet (contentInfo sd.der ++ rest) =
      some (contentInfo sd.dedup.der) := by
  simp only [SignedDataDer.NoCopies, Classical.not_forall] at hcopies
  obtain ⟨certs, hcerts, hcertsCopies⟩ := hcopies
  obtain ⟨elements⟩ := exists_elements sd hlt rest
  have hdata : contentInfo sd.der ++ rest =
      contentInfo (encodeTlv 0x30 sd.contents ++ []) ++ rest := by rw [List.append_nil]; rfl
  obtain ⟨-, houterAfter, hafter, hread⟩ := elements_of_contentInfo elements hdata
  have hcontents : sd.contents.length < 2 ^ 32 :=
    Nat.lt_trans sd.length_contents_lt (Nat.lt_trans (length_lt_contentInfoContents sd.der) hlt)
  rw [dedupe_eq_of_elements elements rfl hcerts hcontents hcertsCopies, hafter, houterAfter,
    rawOf_nil, List.append_nil, List.append_nil]
  rfl

/-- Without a copy, or with lengths that are not read, nothing is removed. -/
theorem dedupe_eq_none {sd : SignedDataDer}
    (h : sd.NoCopies ∨ ¬ (contentInfoContents sd.der).length < 2 ^ 32) (rest : List UInt8) :
    dedupeSignedDataCertificateSet (contentInfo sd.der ++ rest) = none := by
  apply Option.eq_none_iff_forall_ne_some.mpr
  intro deduped hdeduped
  have hremoved := @of_dedupe_contentInfo sd [] rest deduped
    (by rw [List.append_nil]; exact hdeduped)
  rw [List.append_nil] at hremoved
  rcases h with hnone | hlong
  · exact hremoved.2.1 hnone
  · exact hlong hremoved.1

/-! ## Normalization -/

theorem tlvOuterSequencePayload_encodeTlv (content rest : List UInt8) :
    tlvOuterSequencePayload (encodeTlv 0x30 content ++ rest) =
      if content.length < 2 ^ 32 then some content else none := by
  by_cases h : content.length < 2 ^ 32
  · rw [if_pos h]
    exact (sequence_payload (@isTlv_encodedTlv 0x30 _ h) rfl rest).2
  · rw [if_neg h]
    have hread : parseDerDefiniteLength (encodeLength content.length ++ (content ++ rest)) = none :=
      readLength_encodeLength_eq_none (by decide) (by decide) (Nat.le_of_not_lt h) _
    simp only [tlvOuterSequencePayload, encodeTlv, List.cons_append, List.append_assoc,
      List.head?_cons, List.tail_cons, hread, Option.bind_eq_bind, Option.bind_some]
    rfl

/-- `PKCX` in front of a SEQUENCE makes no difference. -/
theorem normalize_pkcx (content rest : List UInt8) :
    normalizePkcs7DerForAuthenticode
        ([0x50, 0x4B, 0x43, 0x58] ++ (encodeTlv 0x30 content ++ rest)) =
      normalizePkcs7DerForAuthenticode (encodeTlv 0x30 content ++ rest) := rfl

/-- Normalizing a `ContentInfo` removes the copies, where the lengths are read. -/
theorem normalize_contentInfo (sd : SignedDataDer) (rest : List UInt8) :
    normalizePkcs7DerForAuthenticode (contentInfo sd.der ++ rest) =
      (dedupeSignedDataCertificateSet (contentInfo sd.der ++ rest)).getD
        (contentInfo sd.der ++ rest) := by
  have hpayload := tlvOuterSequencePayload_encodeTlv (contentInfoContents sd.der) rest
  have hstrip : stripPkcxP7xWrapper (contentInfo sd.der ++ rest) = none := rfl
  unfold normalizePkcs7DerForAuthenticode
  rw [hstrip, Option.getD_none, contentInfo]
  dsimp only
  rw [hpayload]
  by_cases h : (contentInfoContents sd.der).length < 2 ^ 32
  · rw [if_pos h]
    rfl
  · rw [if_neg h]
    have hdedupe := dedupe_eq_none (Or.inr h) rest
    rw [contentInfo] at hdedupe
    rw [hdedupe]
    rfl

/-- A bare `SignedData` is wrapped with everything behind it. -/
theorem normalize_bare (sd : SignedDataDer) (rest : List UInt8) :
    normalizePkcs7DerForAuthenticode (sd.der ++ rest) =
      if sd.contents.length < 2 ^ 32 then
        (dedupeSignedDataCertificateSet (contentInfo (sd.der ++ rest))).getD
          (contentInfo (sd.der ++ rest))
      else sd.der ++ rest := by
  have hpayload := tlvOuterSequencePayload_encodeTlv sd.contents rest
  have hstrip : stripPkcxP7xWrapper (sd.der ++ rest) = none := rfl
  unfold normalizePkcs7DerForAuthenticode
  rw [hstrip, Option.getD_none, SignedDataDer.der]
  dsimp only
  rw [hpayload]
  by_cases h : sd.contents.length < 2 ^ 32
  · rw [if_pos h, if_pos h, pkcs7ContentInfoSignedData_eq]
    rfl
  · rw [if_neg h, if_neg h]

theorem pkcs7OuterSequencePrefix_encodeTlv (content rest : List UInt8) :
    pkcs7OuterSequencePrefix (encodeTlv 0x30 content ++ rest) =
      if content.length < 2 ^ 32 then some (encodeTlv 0x30 content) else none := by
  by_cases h : content.length < 2 ^ 32
  · rw [if_pos h]
    apply pkcs7OuterSequencePrefix_append
    have hread := @readLength_encodeLength 4 _ h (by decide) []
    rw [List.append_nil] at hread
    exact ⟨_, content, rfl, hread⟩
  · rw [if_neg h]
    have hread : parseDerDefiniteLength (encodeLength content.length ++ (content ++ rest)) = none :=
      readLength_encodeLength_eq_none (by decide) (by decide) (Nat.le_of_not_lt h) _
    simp [pkcs7OuterSequencePrefix, derTlvTotalLenFromStart, encodeTlv, hread]

theorem length_encodeTlv_le (tag : UInt8) (content : List UInt8) :
    (encodeTlv tag content).length ≤ content.length + 10 := by
  have hwidth := length_beBytes_le_width 8 content.length
  rw [encodeTlv, List.length_cons, List.length_append, encodeLength]
  split
  · rw [List.length_singleton]
    omega
  · rw [List.length_cons]
    omega

/-- What is in two blobs that are the same, and what is behind it. -/
theorem contentInfo_append_inj {inner inner' rest rest' : List UInt8}
    (h : contentInfo inner ++ rest = contentInfo inner' ++ rest')
    (hlt : (contentInfo inner ++ rest).length < 2 ^ 64) : inner = inner' ∧ rest = rest' := by
  have hlt' := hlt
  rw [h] at hlt'
  rw [List.length_append] at hlt hlt'
  have houter : (contentInfoContents inner).length < (contentInfo inner).length :=
    length_lt_encodeTlv 0x30 _
  have houter' : (contentInfoContents inner').length < (contentInfo inner').length :=
    length_lt_encodeTlv 0x30 _
  have hinner := length_lt_contentInfoContents inner
  have hinner' := length_lt_contentInfoContents inner'
  obtain ⟨-, hcontents, hrest⟩ := encodeTlv_append_inj (by omega) (by omega) h
  have hexplicit : encodeTlv 0xa0 inner ++ [] = encodeTlv 0xa0 inner' ++ [] := by
    rw [List.append_nil, List.append_nil]
    exact List.append_cancel_left hcontents
  exact ⟨(encodeTlv_append_inj (by omega) (by omega) hexplicit).2.1, hrest⟩

/-- A `SignedData` is not a `ContentInfo`. -/
theorem der_append_ne_contentInfo (sd : SignedDataDer) (inner rest rest' : List UInt8) :
    sd.der ++ rest ≠ contentInfo inner ++ rest' := by
  intro h
  simp only [SignedDataDer.der, contentInfo, encodeTlv, List.cons_append, List.cons.injEq, true_and,
    List.append_assoc] at h
  have hcontents := (encodeLength_append_inj h).2
  simp only [SignedDataDer.contents, contentInfoContents, pkcs7SignedDataOidDer, encodeTlv,
    List.cons_append, List.cons.injEq] at hcontents
  exact absurd hcontents.1 (by decide)

/-- A `ContentInfo` of different contents is not the one without the copies. -/
theorem contentInfo_ne_dedup {sd : SignedDataDer} (hcopies : ¬ sd.NoCopies)
    {rest rest' : List UInt8} (hlt : (contentInfo sd.der ++ rest).length < 2 ^ 64) :
    contentInfo sd.der ++ rest ≠ contentInfo sd.dedup.der ++ rest' := by
  intro h
  have hder := (contentInfo_append_inj h hlt).1
  have hcontents : sd.contents.length < 2 ^ 64 := by
    have houter : (contentInfoContents sd.der).length < (contentInfo sd.der).length :=
      length_lt_encodeTlv 0x30 _
    have hinner := length_lt_contentInfoContents sd.der
    have hlast := sd.length_contents_lt
    rw [List.length_append] at hlt
    omega
  have hcontents' : sd.dedup.contents.length < 2 ^ 64 := by
    have hlast := sd.dedup.length_contents_lt
    have houter : (contentInfoContents sd.der).length < (contentInfo sd.der).length :=
      length_lt_encodeTlv 0x30 _
    have hinner := length_lt_contentInfoContents sd.der
    rw [← hder] at hlast
    rw [List.length_append] at hlt
    omega
  have hsame : encodeTlv 0x30 sd.contents ++ [] = encodeTlv 0x30 sd.dedup.contents ++ [] := by
    rw [List.append_nil, List.append_nil]
    exact hder
  exact sd.dedup_contents_ne hcopies hcontents
    (encodeTlv_append_inj hcontents hcontents' hsame).2.1.symm

namespace SignatureBlob

variable (blob : SignatureBlob)

theorem normalize_bytes : normalizePkcs7DerForAuthenticode blob.bytes =
    normalizePkcs7DerForAuthenticode ((if blob.wrapped then contentInfo blob.signedData.der
      else blob.signedData.der) ++ List.replicate blob.padding 0) := by
  rw [bytes]
  cases blob.pkcx with
  | false => rfl
  | true =>
    cases blob.wrapped with
    | false => exact normalize_pkcx blob.signedData.contents _
    | true => exact normalize_pkcx (contentInfoContents blob.signedData.der) _

variable {blob}

theorem Normalizable.unpadded (h : blob.Normalizable) : blob.unpadded.Normalizable :=
  ⟨fun hbare => ⟨rfl, (h.1 hbare).2⟩, h.2⟩

/-- The `ContentInfo` with its copies removed, where they can be. -/
private theorem getD_dedupe {sd : SignedDataDer} {padding : Nat}
    (h : sd.NoCopies ∨ (contentInfoContents sd.der).length < 2 ^ 32) :
    ∃ kept ≤ padding, (dedupeSignedDataCertificateSet (contentInfo sd.der ++
      List.replicate padding 0)).getD (contentInfo sd.der ++ List.replicate padding 0) =
        contentInfo sd.dedup.der ++ List.replicate kept 0 := by
  by_cases hnone : sd.NoCopies
  · refine ⟨padding, Nat.le_refl _, ?_⟩
    rw [dedupe_eq_none (Or.inl hnone), Option.getD_none, SignedDataDer.dedup_of_noCopies hnone]
  · refine ⟨0, Nat.zero_le _, ?_⟩
    rw [dedupe_contentInfo hnone (h.resolve_left hnone), Option.getD_some, List.replicate_zero,
      List.append_nil]

theorem Normalizable.exists_eq (h : blob.Normalizable) :
    ∃ kept ≤ blob.padding, normalizePkcs7DerForAuthenticode blob.bytes =
      contentInfo blob.signedData.dedup.der ++ List.replicate kept 0 := by
  rw [normalize_bytes]
  cases hwrapped : blob.wrapped with
  | true =>
    rw [if_pos rfl, normalize_contentInfo]
    exact getD_dedupe h.2
  | false =>
    obtain ⟨hpadding, hlt⟩ := h.1 hwrapped
    rw [if_neg Bool.false_ne_true, normalize_bare, if_pos hlt, hpadding, List.replicate_zero,
      List.append_nil]
    have hkept := @getD_dedupe blob.signedData 0 h.2
    rwa [List.replicate_zero, List.append_nil] at hkept

/-- What is normalized is a fixed point. -/
theorem normalize_dedup (sd : SignedDataDer) (rest : List UInt8) :
    normalizePkcs7DerForAuthenticode (contentInfo sd.dedup.der ++ rest) =
      contentInfo sd.dedup.der ++ rest := by
  rw [normalize_contentInfo, dedupe_eq_none (Or.inl SignedDataDer.noCopies_dedup), Option.getD_none]

theorem Normalizable.normalized (h : blob.Normalizable) : blob.Normalized := by
  obtain ⟨kept, hkept, heq⟩ := h.exists_eq
  obtain ⟨kept', -, heq'⟩ := h.unpadded.exists_eq
  refine ⟨⟨kept, hkept, heq⟩, ?_, ?_⟩
  · rw [heq]
    exact normalize_dedup _ _
  · have hread := pkcs7OuterSequencePrefix_encodeTlv (contentInfoContents blob.signedData.dedup.der)
    rw [heq, heq']
    exact (hread _).trans (hread _).symm

/-- The length of a bare `SignedData` in a `ContentInfo`. -/
private theorem length_contentInfo_le (inner : List UInt8) :
    (contentInfo inner).length ≤ inner.length + 31 := by
  have houter : (contentInfo inner).length ≤ (contentInfoContents inner).length + 10 :=
    length_encodeTlv_le 0x30 _
  have hinner := length_encodeTlv_le 0xa0 inner
  have hoid : pkcs7SignedDataOidDer.length = 11 := rfl
  rw [contentInfoContents, List.length_append] at houter
  omega

/-- The padding of a bare `SignedData` ends up in the `ContentInfo`. -/
theorem padding_eq_zero_of_bare {sd : SignedDataDer} {padding kept : Nat} (hpadding : padding ≤ 7)
    (hlt : sd.contents.length < 2 ^ 32)
    (h : normalizePkcs7DerForAuthenticode (sd.der ++ List.replicate padding 0) =
      contentInfo sd.dedup.der ++ List.replicate kept 0) : padding = 0 := by
  have hinside : ∃ inner, contentInfo (inner ++ List.replicate padding 0) =
      contentInfo sd.dedup.der ++ List.replicate kept 0 ∧
        (contentInfo (inner ++ List.replicate padding 0)).length < 2 ^ 64 ∧
          (inner = sd.der ∨ inner = sd.dedup.der) := by
    rw [normalize_bare, if_pos hlt] at h
    cases hdedupe : dedupeSignedDataCertificateSet
        (contentInfo (sd.der ++ List.replicate padding 0)) with
    | none =>
      rw [hdedupe, Option.getD_none] at h
      refine ⟨sd.der, h, ?_, Or.inl rfl⟩
      have hwrapped := length_contentInfo_le (sd.der ++ List.replicate padding 0)
      have hder : sd.der.length ≤ sd.contents.length + 10 := length_encodeTlv_le 0x30 _
      rw [List.length_append, List.length_replicate] at hwrapped
      omega
    | some deduped =>
      rw [hdedupe, Option.getD_some] at h
      obtain ⟨-, -, rfl, hcontents⟩ := @of_dedupe_contentInfo sd _ [] deduped
        (by rw [List.append_nil]; exact hdedupe)
      refine ⟨sd.dedup.der, h, ?_, Or.inr rfl⟩
      have hwrapped : (contentInfo (sd.dedup.der ++ List.replicate padding 0)).length ≤
          (contentInfoContents (sd.dedup.der ++ List.replicate padding 0)).length + 10 :=
        length_encodeTlv_le 0x30 _
      omega
  obtain ⟨inner, heq, hshort, hinner⟩ := hinside
  have hbytes := (contentInfo_append_inj ((List.append_nil _).trans heq)
    (by rw [List.append_nil]; exact hshort)).1
  have hshorter : sd.dedup.der.length < 2 ^ 64 := by
    have hlength := congrArg List.length hbytes
    have houter := length_lt_contentInfoContents (inner ++ List.replicate padding 0)
    have hcontents : (contentInfoContents (inner ++ List.replicate padding 0)).length <
        (contentInfo (inner ++ List.replicate padding 0)).length := length_lt_encodeTlv 0x30 _
    omega
  have hcontents := sd.dedup.length_contents_lt
  have hnil : List.replicate padding (0 : UInt8) = [] := by
    rcases hinner with rfl | rfl
    · exact (encodeTlv_append_inj (by omega) (by omega)
        (hbytes.trans (List.append_nil _).symm)).2.2
    · exact (encodeTlv_append_inj (by omega) (by omega)
        (hbytes.trans (List.append_nil _).symm)).2.2
  simpa using congrArg List.length hnil

/-- A blob is normalized exactly if it is a `ContentInfo` or a bare `SignedData` without
padding, and the lengths of the `ContentInfo` are read where there is a copy to remove. -/
theorem normalized_iff_normalizable (blob : SignatureBlob) : blob.Normalized ↔ blob.Normalizable := by
  constructor
  · intro h
    obtain ⟨kept, -, heq⟩ := h.contentInfo
    have hfits := blob.fits
    have hpadding := blob.padding_le
    rw [normalize_bytes] at heq
    cases hwrapped : blob.wrapped with
    | true =>
      rw [hwrapped, if_pos rfl, normalize_contentInfo] at heq
      refine ⟨fun hbare => absurd (hwrapped.symm.trans hbare) (by decide), ?_⟩
      by_cases hnone : blob.signedData.NoCopies
      · exact Or.inl hnone
      · refine Or.inr (Decidable.byContradiction fun hlong => ?_)
        rw [dedupe_eq_none (Or.inr hlong), Option.getD_none] at heq
        refine contentInfo_ne_dedup hnone ?_ heq
        rw [List.length_append, List.length_replicate]
        omega
    | false =>
      rw [hwrapped, if_neg Bool.false_ne_true] at heq
      have hlt : blob.signedData.contents.length < 2 ^ 32 := by
        by_cases hlong : blob.signedData.contents.length < 2 ^ 32
        · exact hlong
        · rw [normalize_bare, if_neg hlong] at heq
          exact absurd heq (der_append_ne_contentInfo _ _ _ _)
      have hzero := padding_eq_zero_of_bare hpadding hlt heq
      refine ⟨fun _ => ⟨hzero, hlt⟩, ?_⟩
      by_cases hnone : blob.signedData.NoCopies
      · exact Or.inl hnone
      · refine Or.inr (Decidable.byContradiction fun hlong => ?_)
        have hdedupe := dedupe_eq_none (Or.inr hlong) []
        rw [List.append_nil] at hdedupe
        rw [normalize_bare, if_pos hlt, hzero, List.replicate_zero, List.append_nil, hdedupe,
          Option.getD_none] at heq
        refine contentInfo_ne_dedup hnone ?_ ((List.append_nil _).trans heq)
        rw [List.append_nil]
        omega
  · exact Normalizable.normalized

end SignatureBlob

/-- A bare `SignedData` without certificates and with one zero byte behind it. -/
def paddedBareBlob : SignatureBlob where
  pkcx := false
  wrapped := false
  signedData :=
    { version := [1], digestAlgorithms := [], encapContentInfo := [], certificates := none
      crls := none, signerInfos := [] }
  padding := 1
  padding_le := by decide
  fits := by decide

/-- The zero byte is wrapped into the `ContentInfo`. -/
theorem paddedBareBlob_not_normalized : ¬ paddedBareBlob.Normalized := by
  intro h
  obtain ⟨kept, -, heq⟩ := h.contentInfo
  have hlength := congrArg (fun bytes => bytes[1]?) heq
  have hread : (normalizePkcs7DerForAuthenticode paddedBareBlob.bytes)[1]? ≠
      (contentInfo paddedBareBlob.signedData.dedup.der)[1]? := by decide
  exact hread hlength

end Psign.Sip
