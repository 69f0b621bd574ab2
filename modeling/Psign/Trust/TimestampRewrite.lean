import Psign.Trust.Rfc3161Extract
import Psign.Trust.ChainWalk

/-!
# Rewriting a token for decoding

`rewrite_cms_signed_data_for_timestamp_decode` writes a `SignedData` without the
certificate choices that the `cms` crate does not know and without CRLs, and keeps the rest.
`SignedDataFields` are the fields of the element, and `restricted` is what shall be left of
them.

The length of what is written has at most three octets, and a certificate set that cannot be
split is left out like one without X.509 certificates.  `rewrite_restricts_iff` says that
these are the only elements for which the rewriting is not what it should be.
-/

namespace Psign.Trust

open CodeLib CodeLib.Der Psign.Sip

variable (env : Environment)

/-! ## The DER reader -/

/-- The reader of the `der` crate takes the element from the front of the bytes. -/
def Reads (tlv : Tlv) (rest : List UInt8) : Prop :=
  IsTlv 4 tlv ∧ env.cms.header (tlv.raw ++ rest) = .ok (tlv.tag, tlv.value.length, tlv.value ++ rest)

/-- How the `der` crate reads headers of up to 2^28 - 1 octets. -/
structure DerHeader : Prop where
  /-- What is behind an element does not matter. -/
  reads_of_reads : ∀ {tlv rest} rest', Reads env tlv rest →
    (tlv.raw ++ rest').length < 2 ^ 28 → Reads env tlv rest'
  /-- An element with the shortest length is read, where the tag is a SEQUENCE or `[0]`. -/
  reads_encodeTlv : ∀ {tag content} rest, tag = 0x30 ∨ tag = 0xa0 →
    (encodeTlv tag content ++ rest).length < 2 ^ 28 →
    Reads env ⟨tag, encodeTlv tag content, content⟩ rest

/-! ## The fields -/

/-- The fields of a `SignedData`. -/
structure SignedDataFields where
  version : Tlv
  digestAlgorithms : Tlv
  encapContentInfo : Tlv
  certificates : Option Tlv
  crls : Option Tlv
  signerInfos : Tlv
  deriving DecidableEq

namespace SignedDataFields

variable (fields : SignedDataFields)

/-- The optional fields and those behind them. -/
def optional : List Tlv :=
  fields.certificates.toList ++ fields.crls.toList ++ [fields.signerInfos]

/-- The fields as they are written. -/
def toList : List Tlv :=
  [fields.version, fields.digestAlgorithms, fields.encapContentInfo] ++ fields.optional

/-- The X.509 certificates of a certificate set. -/
def x509Choices (set : Tlv) : List Tlv :=
  ((readTlvs 4 set.value).getD []).filter fun choice => choice.tag = 0x30

/-- The set of these certificates; nothing where there are none. -/
def x509Set (set : Tlv) : Option Tlv :=
  if x509Choices set = [] then none
  else some ⟨0xa0, encodeTlv 0xa0 (rawOf (x509Choices set)), rawOf (x509Choices set)⟩

/-- The fields with X.509 certificates only and without CRLs. -/
def restricted : SignedDataFields :=
  { fields with certificates := fields.certificates.bind x509Set, crls := none }

end SignedDataFields

/-- The bytes are a SEQUENCE of these fields, all of which the `der` crate reads. -/
structure IsSignedDataElement (sdTlv : List UInt8) (fields : SignedDataFields) : Prop where
  size : sdTlv.length < 2 ^ 28
  element : Reads env ⟨0x30, sdTlv, rawOf fields.toList⟩ []
  fields_read : ∀ tlv ∈ fields.toList, ∃ rest, Reads env tlv rest
  certificates_tag : ∀ set, fields.certificates = some set → set.tag = 0xa0
  crls_tag : ∀ set, fields.crls = some set → set.tag = 0xa1
  signerInfos_tag : fields.signerInfos.tag = 0x31

/-- The contents of the certificate set are elements. -/
def CertificatesReadable (fields : SignedDataFields) : Prop :=
  ∀ set, fields.certificates = some set →
    ∃ pieces, splitDerTlvs env set.value.length set.value = some pieces

/-- The rewriting restricts the certificates and drops the CRLs, and changes nothing the
second time; a certificate set whose contents are no elements makes it fail or return its
input. -/
def RewriteRestricts (sdTlv : List UInt8) (fields : SignedDataFields) : Prop :=
  (¬ CertificatesReadable env fields →
    rewriteCmsSignedDataForTimestampDecode env sdTlv = none ∨
      rewriteCmsSignedDataForTimestampDecode env sdTlv = some sdTlv) ∧
  (CertificatesReadable env fields →
    ∃ out, rewriteCmsSignedDataForTimestampDecode env sdTlv = some out ∧
      IsSignedDataElement env out fields.restricted ∧
      rewriteCmsSignedDataForTimestampDecode env out = some out)

/-! ## Splitting -/

section split

variable {env}

theorem Reads.split_eq {tlv : Tlv} {rest : List UInt8} (h : Reads env tlv rest) :
    splitDerTlv env (tlv.raw ++ rest) = some (tlv.raw, rest) := by
  have hslice : readSlice tlv.value.length (tlv.value ++ rest) = .ok (tlv.value, rest) := by
    rw [readSlice, if_pos (by rw [List.length_append]; omega), List.take_left, List.drop_left]
  have hlen : (tlv.raw ++ rest).length - rest.length = tlv.raw.length := by
    rw [List.length_append, Nat.add_sub_cancel]
  simp only [splitDerTlv, h.2, hslice, Outcome.toOption, Option.bind_eq_bind, Option.bind_some,
    Option.pure_def, hlen, List.take_left, List.drop_left]

/-- What is split off is an element that the reader takes. -/
theorem reads_of_splitDerTlv {bytes piece rest : List UInt8}
    (h : splitDerTlv env bytes = some (piece, rest)) :
    ∃ tlv, bytes = tlv.raw ++ rest ∧ tlv.raw = piece ∧ Reads env tlv rest := by
  simp only [splitDerTlv, readSlice, Option.bind_eq_bind, Option.bind_eq_some_iff, Prod.exists,
    Option.pure_def, Option.some.injEq, Outcome.toOption_eq_some, Prod.mk.injEq] at h
  obtain ⟨tag, len, after, hheader, _, rest', hslice, hpiece, hrest⟩ := h
  have hle : len ≤ after.length := by
    by_contra hnot
    rw [if_neg hnot] at hslice
    exact Outcome.bail_ne_ok hslice
  rw [if_pos hle, Except.ok.injEq, Prod.mk.injEq] at hslice
  obtain ⟨-, rfl⟩ := hslice
  obtain ⟨tlv, hread, htag, hvalue⟩ := env.cms.header_reads hheader hle
  obtain ⟨hbytes, hisTlv⟩ := readTlv_eq_some.mp hread
  have hlen : bytes.length - (after.drop len).length = tlv.raw.length := by
    rw [hbytes, List.length_append, Nat.add_sub_cancel]
  rw [hlen, hbytes, List.take_left] at hpiece
  rw [hlen, hbytes, List.drop_left] at hrest
  have hafter : after = tlv.value ++ rest := by
    rw [hvalue, ← hrest, List.take_append_drop]
  have hvalueLen : tlv.value.length = len := by
    rw [hvalue, List.length_take_of_le hle]
  refine ⟨tlv, by rw [← hrest]; exact hbytes, hpiece, hisTlv, ?_⟩
  rw [← hrest, ← hbytes, hheader, htag, hvalueLen, hrest, hafter]

/-- The elements of bytes that can be split, all of which the reader takes. -/
theorem exists_reads_of_splitDerTlvs {fuel : Nat} {bytes : List UInt8} {pieces : List (List UInt8)}
    (h : splitDerTlvs env fuel bytes = some pieces) :
    ∃ tlvs, readTlvs 4 bytes = some tlvs ∧ ∀ tlv ∈ tlvs, ∃ rest, Reads env tlv rest := by
  induction fuel generalizing bytes pieces with
  | zero =>
    cases bytes with
    | nil => exact ⟨[], rfl, by simp⟩
    | cons byte bytes => cases h
  | succ fuel ih =>
    cases bytes with
    | nil => exact ⟨[], rfl, by simp⟩
    | cons byte pos =>
      simp only [splitDerTlvs, Option.bind_eq_bind, Option.bind_eq_some_iff, Prod.exists,
        Option.pure_def, Option.some.injEq] at h
      obtain ⟨piece, rest, hfirst, others, hothers, -⟩ := h
      obtain ⟨tlv, hbytes, -, hreads⟩ := reads_of_splitDerTlv hfirst
      obtain ⟨tlvs, htlvs, hall⟩ := ih hothers
      refine ⟨tlv :: tlvs, ?_, ?_⟩
      · rw [hbytes, readTlvs_of_readTlv (hreads.1.readTlv_append rest), htlvs]
        rfl
      · intro other hother
        rcases List.mem_cons.mp hother with rfl | hother
        · exact ⟨rest, hreads⟩
        · exact hall other hother

/-- Elements that the reader takes are split off. -/
theorem splitDerTlvs_rawOf (hder : DerHeader env) {tlvs : List Tlv} {fuel : Nat}
    (hreads : ∀ tlv ∈ tlvs, ∃ rest, Reads env tlv rest) (hsize : (rawOf tlvs).length < 2 ^ 28)
    (hfuel : (rawOf tlvs).length ≤ fuel) :
    splitDerTlvs env fuel (rawOf tlvs) = some (tlvs.map Tlv.raw) := by
  induction tlvs generalizing fuel with
  | nil =>
    cases fuel with
    | zero => rfl
    | succ fuel => rfl
  | cons tlv tlvs ih =>
    obtain ⟨rest, hfirst⟩ := hreads tlv List.mem_cons_self
    rw [rawOf_cons] at hsize hfuel ⊢
    have hread := (hder.reads_of_reads (rawOf tlvs) hfirst hsize).split_eq
    have hne := hfirst.1.raw_ne_nil
    have hpos := List.length_pos_of_ne_nil hne
    rw [List.length_append] at hsize hfuel
    cases hraw : tlv.raw with
    | nil => exact absurd hraw hne
    | cons byte more =>
      rw [hraw] at hread hfuel hpos
      cases fuel with
      | zero => omega
      | succ fuel =>
        have hrest := @ih fuel (fun t ht => hreads t (List.mem_cons_of_mem _ ht)) (by omega)
          (by rw [List.length_cons] at hfuel; omega)
        rw [List.cons_append] at hread ⊢
        rw [splitDerTlvs, hread]
        simp only [Option.bind_eq_bind, Option.bind_some, hrest, Option.pure_def, List.map_cons,
          hraw]

end split

/-! ## What is written -/

section written

variable {env} {sdTlv : List UInt8} {fields : SignedDataFields} {set : Tlv}

theorem head_raw {tlv : Tlv} (h : IsTlv 4 tlv) : tlv.raw.head? = some tlv.tag := by
  obtain ⟨lengthOctets, hraw, -⟩ := h.exists_header
  rw [hraw, List.head?_cons]

theorem isContextSpecificConstructed_iff {tlv : Tlv} (h : IsTlv 4 tlv) (number : UInt8) :
    isContextSpecificConstructed tlv.raw number = true ↔ tlv.tag = 0xa0 ||| number := by
  rw [isContextSpecificConstructed, head_raw h]
  exact decide_eq_true_iff

/-- The set that is kept: the X.509 certificates of a set that can be split, otherwise
nothing. -/
theorem keptCertificates_of_reads (h : Reads env set []) (htag : set.tag = 0xa0) :
    (splitDerTlvs env set.value.length set.value = none → keptCertificates env set.raw = []) ∧
      ((∃ pieces, splitDerTlvs env set.value.length set.value = some pieces) →
        keptCertificates env set.raw =
          if SignedDataFields.x509Choices set = [] then []
          else encodeDerContextSpecificConstructed 0 (rawOf (SignedDataFields.x509Choices set))) := by
  have hheader := h.2
  rw [List.append_nil, List.append_nil] at hheader
  have hslice : readSlice set.value.length set.value = .ok (set.value, []) := by
    rw [readSlice, if_pos (Nat.le_refl _), List.take_length, List.drop_length]
  have hcontext : isContextSpecificConstructed set.raw 0 = true := by
    rw [isContextSpecificConstructed_iff h.1, htag]
    rfl
  have hfilter : filterA0CertificateSetKeepX509Only env set.raw =
      (splitDerTlvs env set.value.length set.value).bind fun tlvs =>
        let kept := (tlvs.filter fun tlv => tlv.head? = some 0x30).flatten
        some (if kept.isEmpty then [] else encodeDerContextSpecificConstructed 0 kept) := by
    simp only [filterA0CertificateSetKeepX509Only, hcontext, hheader, hslice, Outcome.toOption,
      Option.bind_eq_bind, Option.bind_some, guard, if_true, Option.pure_def]
  constructor
  · intro hnone
    rw [keptCertificates, hfilter, hnone]
    rfl
  · rintro ⟨pieces, hpieces⟩
    obtain ⟨tlvs, htlvs, rfl⟩ := splitDerTlvs_eq_some hpieces
    have hall := (readTlvs_eq_some.mp htlvs).2
    have hkept : ((tlvs.map Tlv.raw).filter fun tlv => tlv.head? = some 0x30).flatten =
        rawOf (SignedDataFields.x509Choices set) := by
      rw [SignedDataFields.x509Choices, htlvs, Option.getD_some, rawOf, List.filter_map]
      congr 2
      apply List.filter_congr
      intro tlv htlv
      show decide (tlv.raw.head? = some 0x30) = _
      rw [head_raw (hall tlv htlv)]
      simp
    rw [keptCertificates, hfilter, hpieces, Option.bind_some, Option.getD_some, hkept]
    have hempty : (rawOf (SignedDataFields.x509Choices set)).isEmpty = true ↔
        SignedDataFields.x509Choices set = [] := by
      rw [List.isEmpty_iff]
      constructor
      · intro hraw
        cases hchoices : SignedDataFields.x509Choices set with
        | nil => rfl
        | cons first rest =>
          have hmem : first ∈ SignedDataFields.x509Choices set := by
            rw [hchoices]
            exact List.mem_cons_self
          rw [SignedDataFields.x509Choices, htlvs] at hmem
          rw [hchoices, rawOf_cons] at hraw
          exact absurd (List.append_eq_nil_iff.mp hraw).1
            (hall first (List.mem_of_mem_filter hmem)).raw_ne_nil
      · intro hnil
        rw [hnil]
        rfl
    by_cases hnil : SignedDataFields.x509Choices set = []
    · rw [if_pos hnil, if_pos (hempty.mpr hnil)]
    · rw [if_neg hnil, if_neg fun hc => hnil (hempty.mp hc)]

variable (env) in
/-- What is left of the certificates. -/
def keptField (fields : SignedDataFields) : List UInt8 :=
  match fields.certificates with
  | none => []
  | some set => keptCertificates env set.raw

theorem IsSignedDataElement.isTlv (h : IsSignedDataElement env sdTlv fields) {tlv : Tlv}
    (hmem : tlv ∈ fields.toList) : IsTlv 4 tlv :=
  (h.fields_read tlv hmem).choose_spec.1

theorem IsSignedDataElement.length_rawOf_lt (h : IsSignedDataElement env sdTlv fields) :
    (rawOf fields.toList).length < 2 ^ 28 := by
  obtain ⟨lengthOctets, hraw, -⟩ := h.element.1.exists_header
  have hlen := congrArg List.length hraw
  have hsize := h.size
  rw [List.length_cons, List.length_append] at hlen
  simp only at hlen
  omega

theorem length_raw_le_of_mem {tlv : Tlv} {tlvs : List Tlv} (h : tlv ∈ tlvs) :
    tlv.raw.length ≤ (rawOf tlvs).length := by
  induction tlvs with
  | nil => exact absurd h List.not_mem_nil
  | cons first tlvs ih =>
    rw [rawOf_cons, List.length_append]
    rcases List.mem_cons.mp h with rfl | hrest
    · omega
    · have := ih hrest
      omega

/-- The reader takes a field alone, too. -/
theorem IsSignedDataElement.reads_nil (h : IsSignedDataElement env sdTlv fields)
    (hder : DerHeader env) {tlv : Tlv} (hmem : tlv ∈ fields.toList) : Reads env tlv [] := by
  obtain ⟨rest, hread⟩ := h.fields_read tlv hmem
  have hle := length_raw_le_of_mem hmem
  have hlt := h.length_rawOf_lt
  apply hder.reads_of_reads [] hread
  rw [List.append_nil]
  omega

/-- Behind the first three fields the kept certificates and the signer infos are written. -/
theorem rewriteOptionalFields_optional (h : IsSignedDataElement env sdTlv fields) :
    (rewriteOptionalFields env (fields.optional.map Tlv.raw)).flatten =
      keptField env fields ++ fields.signerInfos.raw := by
  have hsigners : fields.signerInfos ∈ fields.toList := by
    simp [SignedDataFields.toList, SignedDataFields.optional]
  have hnot : ∀ number, number = 0 ∨ number = 1 →
      isContextSpecificConstructed fields.signerInfos.raw number = false := by
    intro number hnumber
    rw [Bool.eq_false_iff, ne_eq, isContextSpecificConstructed_iff (h.isTlv hsigners),
      h.signerInfos_tag]
    rcases hnumber with rfl | rfl
    · decide
    · decide
  have hcrls : ∀ crls, fields.crls = some crls →
      isContextSpecificConstructed crls.raw 0 = false ∧
        isContextSpecificConstructed crls.raw 1 = true := by
    intro crls hsome
    have hisTlv : IsTlv 4 crls := h.isTlv (by
      simp [SignedDataFields.toList, SignedDataFields.optional, hsome])
    rw [Bool.eq_false_iff, ne_eq, isContextSpecificConstructed_iff hisTlv,
      isContextSpecificConstructed_iff hisTlv, h.crls_tag crls hsome]
    exact ⟨by decide, by decide⟩
  have hset : ∀ set, fields.certificates = some set →
      isContextSpecificConstructed set.raw 0 = true := by
    intro set hsome
    have hisTlv : IsTlv 4 set := h.isTlv (by
      simp [SignedDataFields.toList, SignedDataFields.optional, hsome])
    rw [isContextSpecificConstructed_iff hisTlv, h.certificates_tag set hsome]
    decide
  have hzero := hnot 0 (Or.inl rfl)
  have hone := hnot 1 (Or.inr rfl)
  rw [SignedDataFields.optional, keptField]
  cases hcertificates : fields.certificates with
  | none =>
    cases hcrl : fields.crls with
    | none => simp [rewriteOptionalFields, hzero, hone]
    | some crls =>
      obtain ⟨hno, hyes⟩ := hcrls crls hcrl
      simp [rewriteOptionalFields, hno, hyes]
  | some set =>
    have hyes := hset set hcertificates
    cases hcrl : fields.crls with
    | none => simp [rewriteOptionalFields, hyes, hone]
    | some crls =>
      have hcrlYes := (hcrls crls hcrl).2
      simp [rewriteOptionalFields, hyes, hcrlYes]

/-- The rewriting keeps the first three fields and the signer infos. -/
theorem rewrite_eq (hder : DerHeader env) (h : IsSignedDataElement env sdTlv fields) :
    rewriteCmsSignedDataForTimestampDecode env sdTlv =
      some (encodeDerSequence
        (rawOf [fields.version, fields.digestAlgorithms, fields.encapContentInfo] ++
          (keptField env fields ++ fields.signerInfos.raw))) := by
  have hheader := h.element.2
  rw [List.append_nil, List.append_nil] at hheader
  have hslice : readSlice (rawOf fields.toList).length (rawOf fields.toList) =
      .ok (rawOf fields.toList, []) := by
    rw [readSlice, if_pos (Nat.le_refl _), List.take_length, List.drop_length]
  have hsplit := splitDerTlvs_rawOf hder h.fields_read h.length_rawOf_lt (Nat.le_refl _)
  have hfour : 4 ≤ (fields.toList.map Tlv.raw).length := by
    rw [List.length_map, SignedDataFields.toList, SignedDataFields.optional]
    simp only [List.length_append, List.length_cons, List.length_nil]
    omega
  have htake : ((fields.toList.map Tlv.raw).take 3).flatten =
      rawOf [fields.version, fields.digestAlgorithms, fields.encapContentInfo] := rfl
  have hdrop : (fields.toList.map Tlv.raw).drop 3 = fields.optional.map Tlv.raw := rfl
  simp only [rewriteCmsSignedDataForTimestampDecode, hheader, hslice, hsplit, Outcome.toOption,
    Option.bind_eq_bind, Option.bind_some, guard, if_true, if_pos hfour, Option.pure_def, htake,
    hdrop, rewriteOptionalFields_optional h]

theorem length_rawOf_filter_le {p : Tlv → Bool} (tlvs : List Tlv) :
    (rawOf (tlvs.filter p)).length ≤ (rawOf tlvs).length := by
  induction tlvs with
  | nil => exact Nat.le_refl 0
  | cons tlv tlvs ih =>
    rw [rawOf_cons, List.length_append, List.filter_cons]
    split
    · rw [rawOf_cons, List.length_append]
      omega
    · omega

/-- The X.509 certificates of a set that can be split: elements that the reader takes, in
no more octets than the set. -/
theorem x509Choices_spec
    (hread : ∃ pieces, splitDerTlvs env set.value.length set.value = some pieces) :
    (∀ choice ∈ SignedDataFields.x509Choices set,
        choice.tag = 0x30 ∧ ∃ rest, Reads env choice rest) ∧
      (rawOf (SignedDataFields.x509Choices set)).length ≤ set.value.length ∧
      readTlvs 4 (rawOf (SignedDataFields.x509Choices set)) =
        some (SignedDataFields.x509Choices set) := by
  obtain ⟨pieces, hpieces⟩ := hread
  obtain ⟨tlvs, htlvs, hall⟩ := exists_reads_of_splitDerTlvs hpieces
  have hchoices : SignedDataFields.x509Choices set =
      tlvs.filter fun choice => choice.tag = 0x30 := by
    rw [SignedDataFields.x509Choices, htlvs, Option.getD_some]
  obtain ⟨hvalue, -⟩ := readTlvs_eq_some.mp htlvs
  refine ⟨?_, ?_, ?_⟩
  · intro choice hmem
    rw [hchoices, List.mem_filter] at hmem
    exact ⟨of_decide_eq_true hmem.2, hall choice hmem.1⟩
  · rw [hchoices, hvalue]
    exact length_rawOf_filter_le tlvs
  · refine readTlvs_eq_some.mpr ⟨rfl, ?_⟩
    intro choice hmem
    rw [hchoices, List.mem_filter] at hmem
    exact (hall choice hmem.1).choose_spec.1

theorem x509Set_x509Set {set' : Tlv} (h : SignedDataFields.x509Set set = some set')
    (hread : readTlvs 4 (rawOf (SignedDataFields.x509Choices set)) =
        some (SignedDataFields.x509Choices set)) :
    set'.raw = encodeTlv 0xa0 (rawOf (SignedDataFields.x509Choices set)) ∧
      set'.value = rawOf (SignedDataFields.x509Choices set) ∧ set'.tag = 0xa0 ∧
      SignedDataFields.x509Choices set ≠ [] ∧
      SignedDataFields.x509Choices set' = SignedDataFields.x509Choices set := by
  rw [SignedDataFields.x509Set] at h
  by_cases hnil : SignedDataFields.x509Choices set = []
  · rw [if_pos hnil] at h
    cases h
  · rw [if_neg hnil] at h
    obtain rfl := Option.some.inj h
    refine ⟨rfl, rfl, rfl, hnil, ?_⟩
    rw [SignedDataFields.x509Choices, hread, Option.getD_some, SignedDataFields.x509Choices,
      List.filter_filter]
    simp only [Bool.and_self]

/-- What is written for the certificates is the restricted set, where its length can be
written. -/
theorem keptField_eq (h : IsSignedDataElement env sdTlv fields)
    (hder : DerHeader env) (hreadable : CertificatesReadable env fields)
    (hlt : (rawOf (fields.certificates.bind SignedDataFields.x509Set).toList).length < 256 ^ 3 ∨
      (keptField env fields).length < 256 ^ 3) :
    keptField env fields = rawOf (fields.certificates.bind SignedDataFields.x509Set).toList := by
  rw [keptField] at hlt ⊢
  cases hcertificates : fields.certificates with
  | none => rfl
  | some set =>
    rw [hcertificates, Option.bind_some] at hlt
    rw [Option.bind_some]
    have hmem : set ∈ fields.toList := by
      simp [SignedDataFields.toList, SignedDataFields.optional, hcertificates]
    have hkept := (keptCertificates_of_reads (h.reads_nil hder hmem)
      (h.certificates_tag set hcertificates)).2 (hreadable set hcertificates)
    show keptCertificates env set.raw = _
    change _ ∨ (keptCertificates env set.raw).length < 256 ^ 3 at hlt
    rw [hkept] at hlt ⊢
    rw [SignedDataFields.x509Set] at hlt ⊢
    by_cases hnil : SignedDataFields.x509Choices set = []
    · rw [if_pos hnil, if_pos hnil]
      rfl
    · rw [if_neg hnil, if_neg hnil, encodeDerContextSpecificConstructed] at hlt
      rw [if_neg hnil, if_neg hnil, encodeDerContextSpecificConstructed]
      show _ = encodeTlv 0xa0 _ ++ []
      rw [encodeDerLength_eq (by
        simp only [Option.toList_some, rawOf_cons, rawOf_nil, List.append_nil, encodeTlv,
          List.length_cons, List.length_append] at hlt
        omega), List.append_nil]
      rfl

/-- The restricted set can be read, and is no longer than the set. -/
theorem x509Set_reads (h : IsSignedDataElement env sdTlv fields) (hder : DerHeader env)
    (hreadable : CertificatesReadable env fields) {set' : Tlv}
    (hset' : fields.certificates.bind SignedDataFields.x509Set = some set') :
    set'.tag = 0xa0 ∧ (∃ rest, Reads env set' rest) ∧
      ∃ set, fields.certificates = some set ∧ set'.raw.length ≤ set.raw.length := by
  rw [Option.bind_eq_some_iff] at hset'
  obtain ⟨set, hcertificates, hx509⟩ := hset'
  have hmem : set ∈ fields.toList := by
    simp [SignedDataFields.toList, SignedDataFields.optional, hcertificates]
  obtain ⟨-, hle, hread⟩ := x509Choices_spec (hreadable set hcertificates)
  obtain ⟨hraw, hvalue, htag, -, -⟩ := x509Set_x509Set hx509 hread
  have hlen : set'.raw.length ≤ set.raw.length := by
    rw [hraw]
    exact (h.isTlv hmem).length_encodeTlv_le hle 0xa0
  have hlt := h.length_rawOf_lt
  have hbound := length_raw_le_of_mem hmem
  have heq : set' = ⟨0xa0, encodeTlv 0xa0 (rawOf (SignedDataFields.x509Choices set)),
      rawOf (SignedDataFields.x509Choices set)⟩ := by
    obtain ⟨tag, raw, value⟩ := set'
    simp only at hraw hvalue htag
    rw [hraw, hvalue, htag]
  refine ⟨htag, ⟨[], ?_⟩, set, hcertificates, hlen⟩
  rw [heq]
  apply hder.reads_encodeTlv [] (Or.inr rfl)
  rw [hraw] at hlen
  rw [List.append_nil]
  omega

/-- The restricted fields are no longer than the fields. -/
theorem length_rawOf_restricted_le (h : IsSignedDataElement env sdTlv fields) (hder : DerHeader env)
    (hreadable : CertificatesReadable env fields) :
    (rawOf fields.restricted.toList).length ≤ (rawOf fields.toList).length := by
  have hcertificates : (rawOf (fields.certificates.bind SignedDataFields.x509Set).toList).length ≤
      (rawOf fields.certificates.toList).length := by
    cases hbind : fields.certificates.bind SignedDataFields.x509Set with
    | none => exact Nat.zero_le _
    | some set' =>
      obtain ⟨-, -, set, hcertificates, hlen⟩ := x509Set_reads h hder hreadable hbind
      rw [hcertificates, Option.toList_some, Option.toList_some, rawOf_cons, rawOf_cons, rawOf_nil,
        List.append_nil, List.append_nil]
      exact hlen
  simp only [SignedDataFields.restricted, SignedDataFields.toList, SignedDataFields.optional,
    rawOf_append, List.length_append, Option.toList_none, rawOf_nil, List.length_nil]
  omega

/-- What is written is an element of the restricted fields. -/
theorem restricted_isSignedDataElement (h : IsSignedDataElement env sdTlv fields)
    (hder : DerHeader env) (hreadable : CertificatesReadable env fields) :
    IsSignedDataElement env (encodeTlv 0x30 (rawOf fields.restricted.toList)) fields.restricted := by
  have hle := length_rawOf_restricted_le h hder hreadable
  have hsize : (encodeTlv 0x30 (rawOf fields.restricted.toList)).length < 2 ^ 28 :=
    Nat.lt_of_le_of_lt (h.element.1.length_encodeTlv_le hle 0x30) h.size
  exact
    { size := hsize
      element := hder.reads_encodeTlv [] (Or.inl rfl) (by rw [List.append_nil]; exact hsize)
      fields_read := by
        intro tlv hmem
        by_cases hfield : fields.certificates.bind SignedDataFields.x509Set = some tlv
        · exact (x509Set_reads h hder hreadable hfield).2.1
        · apply h.fields_read
          simp only [SignedDataFields.restricted, SignedDataFields.toList,
            SignedDataFields.optional, List.mem_append, List.mem_cons, Option.mem_toList,
            Option.toList_none, List.not_mem_nil, or_false] at hmem ⊢
          rcases hmem with hfirst | hbind | hlast
          · exact Or.inl hfirst
          · exact absurd hbind hfield
          · exact Or.inr (Or.inr hlast)
      certificates_tag := fun set' hsome => (x509Set_reads h hder hreadable hsome).1
      crls_tag := by
        intro crls hsome
        cases hsome
      signerInfos_tag := h.signerInfos_tag }

end written

/-! ## What the rewriting does -/

section rewrite

variable {env} {sdTlv : List UInt8} {fields : SignedDataFields}

/-- Where the certificates can be read and the rest is not too long, the restricted fields
are written. -/
theorem rewrite_restricted (hder : DerHeader env) (h : IsSignedDataElement env sdTlv fields)
    (hreadable : CertificatesReadable env fields)
    (hlt : (rawOf fields.restricted.toList).length < 256 ^ 3) :
    rewriteCmsSignedDataForTimestampDecode env sdTlv =
      some (encodeTlv 0x30 (rawOf fields.restricted.toList)) := by
  have hbody : rawOf fields.restricted.toList =
      rawOf [fields.version, fields.digestAlgorithms, fields.encapContentInfo] ++
        (rawOf (fields.certificates.bind SignedDataFields.x509Set).toList ++
          fields.signerInfos.raw) := by
    simp [SignedDataFields.restricted, SignedDataFields.toList, SignedDataFields.optional]
  have hkept := keptField_eq h hder hreadable (Or.inl (by
    rw [hbody, List.length_append, List.length_append] at hlt
    omega))
  rw [rewrite_eq hder h, hkept, ← hbody, encodeDerSequence, encodeDerLength_eq hlt]
  rfl

/-- The restricted set can be split again, and is restricted already. -/
theorem restricted_restricted (h : IsSignedDataElement env sdTlv fields) (hder : DerHeader env)
    (hreadable : CertificatesReadable env fields) :
    CertificatesReadable env fields.restricted ∧ fields.restricted.restricted = fields.restricted := by
  have hset : ∀ set', fields.certificates.bind SignedDataFields.x509Set = some set' →
      (∃ pieces, splitDerTlvs env set'.value.length set'.value = some pieces) ∧
        SignedDataFields.x509Set set' = some set' := by
    intro set' hsome
    rw [Option.bind_eq_some_iff] at hsome
    obtain ⟨set, hcertificates, hx509⟩ := hsome
    have hmem : set ∈ fields.toList := by
      simp [SignedDataFields.toList, SignedDataFields.optional, hcertificates]
    obtain ⟨hchoices, hle, hread⟩ := x509Choices_spec
      (hreadable set hcertificates)
    obtain ⟨hraw, hvalue, htag, hne, hagain⟩ := x509Set_x509Set hx509 hread
    have hlt := h.length_rawOf_lt
    have hbound := length_raw_le_of_mem hmem
    have hinner := (h.isTlv hmem).length_encodeTlv_le (Nat.le_refl _) 0xa0
    rw [encodeTlv, List.length_cons, List.length_append] at hinner
    refine ⟨⟨(SignedDataFields.x509Choices set).map Tlv.raw, ?_⟩, ?_⟩
    · rw [hvalue]
      exact splitDerTlvs_rawOf hder (fun choice hmem => (hchoices choice hmem).2) (by omega)
        (Nat.le_refl _)
    · rw [SignedDataFields.x509Set, hagain, if_neg hne, ← hraw, ← hvalue, ← htag]
  constructor
  · intro set' hsome
    exact (hset set' hsome).1
  · simp only [SignedDataFields.restricted]
    congr 1
    cases hbind : fields.certificates.bind SignedDataFields.x509Set with
    | none => rfl
    | some set' => exact (hset set' hbind).2

/-- What is written is one element only if its contents are less than 2^24 octets. -/
theorem eq_encodeTlv_of_isTlv {body value : List UInt8}
    (h : IsTlv 4 ⟨0x30, encodeDerSequence body, value⟩) :
    body.length < 256 ^ 3 ∧ value = body := by
  have hlt := length_lt_of_encodeDerSequence h
  have hencode : encodeDerSequence body = encodeTlv 0x30 body := by
    rw [encodeDerSequence, encodeDerLength_eq hlt]
    rfl
  have hisTlv : IsTlv 4 ⟨0x30, encodeTlv 0x30 body, body⟩ :=
    isTlv_encodeTlv (by omega) (by decide)
  rw [IsTlv, hencode] at h
  have hsame := h.symm.trans hisTlv
  exact ⟨hlt, congrArg Tlv.value (Prod.mk.inj (Option.some.inj hsame)).1⟩

/-- The rewriting is what it should be exactly if the certificate set can be split and what
is left is less than 2^24 octets. -/
theorem rewrite_restricts_iff (hder : DerHeader env) (h : IsSignedDataElement env sdTlv fields) :
    RewriteRestricts env sdTlv fields ↔
      CertificatesReadable env fields ∧ (rawOf fields.restricted.toList).length < 256 ^ 3 := by
  constructor
  · intro ⟨hmalformed, hrestricts⟩
    by_cases hreadable : CertificatesReadable env fields
    · refine ⟨hreadable, ?_⟩
      obtain ⟨out, hout, helement, -⟩ := hrestricts hreadable
      rw [rewrite_eq hder h] at hout
      obtain rfl := Option.some.inj hout
      obtain ⟨hlt, hvalue⟩ := eq_encodeTlv_of_isTlv helement.element.1
      rw [hvalue]
      exact hlt
    · exfalso
      obtain ⟨set, hcertificates, hnone⟩ : ∃ set, fields.certificates = some set ∧
          splitDerTlvs env set.value.length set.value = none := by
        rw [CertificatesReadable, not_forall] at hreadable
        obtain ⟨set, hset⟩ := hreadable
        rw [Classical.not_imp, not_exists] at hset
        exact ⟨set, hset.1, Option.eq_none_iff_forall_ne_some.mpr hset.2⟩
      have hmem : set ∈ fields.toList := by
        simp [SignedDataFields.toList, SignedDataFields.optional, hcertificates]
      have hkept : keptField env fields = [] := by
        rw [keptField, hcertificates]
        exact (keptCertificates_of_reads (h.reads_nil hder hmem)
          (h.certificates_tag set hcertificates)).1 hnone
      have hrewrite := rewrite_eq hder h
      rw [hkept, List.nil_append] at hrewrite
      rcases hmalformed hreadable with hfails | hsame
      · rw [hfails] at hrewrite
        cases hrewrite
      · -- the set is missing in what is written
        have hout := Option.some.inj (hsame.symm.trans hrewrite)
        have hisTlv := h.element.1
        rw [hout] at hisTlv
        have hvalue := congrArg List.length (eq_encodeTlv_of_isTlv hisTlv).2
        have hpos := List.length_pos_of_ne_nil (h.isTlv hmem).raw_ne_nil
        simp only [SignedDataFields.toList, SignedDataFields.optional, hcertificates,
          Option.toList_some, rawOf_append, rawOf_cons, rawOf_nil, List.length_append,
          List.append_nil] at hvalue
        omega
  · intro ⟨hreadable, hlt⟩
    refine ⟨fun hnot => absurd hreadable hnot, fun _ => ?_⟩
    have helement := restricted_isSignedDataElement h hder hreadable
    obtain ⟨hreadable', hagain⟩ := restricted_restricted h hder hreadable
    refine ⟨_, rewrite_restricted hder h hreadable hlt, helement, ?_⟩
    have hsecond := rewrite_restricted hder helement hreadable' (by rw [hagain]; exact hlt)
    rw [hagain] at hsecond
    exact hsecond

end rewrite

/-! ## Samples -/

open CrossSigned

theorem reads_of_isTlv {tlv : Tlv} (h : IsTlv 4 tlv) (rest : List UInt8) :
    Reads sampleEnv tlv rest := by
  refine ⟨h, ?_⟩
  obtain ⟨lengthOctets, hraw, hlen⟩ := h.exists_header
  show tableHeader (tlv.raw ++ rest) = _
  rw [hraw, List.cons_append, tableHeader, readLength_append hlen]
  simp only [List.append_assoc, List.drop_left]

theorem derHeader_sampleEnv : DerHeader sampleEnv where
  reads_of_reads := fun rest' hread _ => reads_of_isTlv hread.1 rest'
  reads_encodeTlv := by
    intro tag content rest _ hsize
    apply reads_of_isTlv
    apply isTlv_encodeTlv _ (by decide)
    rw [List.length_append, encodeTlv, List.length_cons, List.length_append] at hsize
    omega

/-- A `SignedData` with these contents of its certificate set. -/
def sampleFields (set : Tlv) : SignedDataFields where
  version := ⟨0x02, [0x02, 0x01, 0x01], [0x01]⟩
  digestAlgorithms := ⟨0x31, [0x31, 0x00], []⟩
  encapContentInfo := ⟨0x30, [0x30, 0x00], []⟩
  certificates := some set
  crls := some ⟨0xa1, [0xa1, 0x00], []⟩
  signerInfos := ⟨0x31, [0x31, 0x00], []⟩

/-- An X.509 certificate and an attribute certificate. -/
def sampleSet : Tlv :=
  ⟨0xa0, [0xa0, 0x04, 0x30, 0x00, 0xa1, 0x00], [0x30, 0x00, 0xa1, 0x00]⟩

/-- An X.509 certificate and an octet that begins no element. -/
def brokenSet : Tlv :=
  ⟨0xa0, [0xa0, 0x03, 0x30, 0x00, 0x05], [0x30, 0x00, 0x05]⟩

theorem isSignedDataElement_sample {set : Tlv} (hset : IsTlv 4 set) (htag : set.tag = 0xa0)
    (hlen : set.raw.length ≤ 64) :
    IsSignedDataElement sampleEnv (encodeTlv 0x30 (rawOf (sampleFields set).toList))
      (sampleFields set) := by
  have hbody : (rawOf (sampleFields set).toList).length = 11 + set.raw.length := by
    simp only [SignedDataFields.toList, SignedDataFields.optional, sampleFields, Option.toList_some,
      rawOf_append, rawOf_cons, rawOf_nil, List.length_append, List.length_cons, List.length_nil]
    omega
  exact
    { size := by
        rw [encodeTlv, encodeLength, if_pos (by omega)]
        simp only [List.length_cons, List.length_append, List.length_nil]
        omega
      element := reads_of_isTlv (isTlv_encodeTlv (by omega) (by decide)) []
      fields_read := by
        intro tlv hmem
        refine ⟨[], reads_of_isTlv ?_ []⟩
        simp only [SignedDataFields.toList, SignedDataFields.optional, sampleFields,
          Option.toList_some, List.mem_append, List.mem_cons, List.not_mem_nil, or_false] at hmem
        rcases hmem with (rfl | rfl | rfl) | (rfl | rfl) | rfl
        · decide
        · decide
        · decide
        · exact hset
        · decide
        · decide
      certificates_tag := fun found hfound => Option.some.inj hfound ▸ htag
      crls_tag := fun crls hcrls => Option.some.inj hcrls ▸ rfl
      signerInfos_tag := rfl }

theorem rewrite_restricts_iff_sample :
    RewriteRestricts sampleEnv (encodeTlv 0x30 (rawOf (sampleFields sampleSet).toList))
        (sampleFields sampleSet) ↔
      CertificatesReadable sampleEnv (sampleFields sampleSet) ∧
        (rawOf (sampleFields sampleSet).restricted.toList).length < 256 ^ 3 :=
  rewrite_restricts_iff derHeader_sampleEnv
    (isSignedDataElement_sample (by decide) rfl (by decide))

/-- A certificate set with one octet too many: its certificate is left out without an
error. -/
theorem broken_set_left_out :
    IsSignedDataElement sampleEnv (encodeTlv 0x30 (rawOf (sampleFields brokenSet).toList))
        (sampleFields brokenSet) ∧
      ¬ RewriteRestricts sampleEnv (encodeTlv 0x30 (rawOf (sampleFields brokenSet).toList))
        (sampleFields brokenSet) := by
  refine ⟨isSignedDataElement_sample (by decide) rfl (by decide), ?_⟩
  intro h
  have hbroken : ¬ CertificatesReadable sampleEnv (sampleFields brokenSet) := by
    intro hreadable
    obtain ⟨pieces, hpieces⟩ := hreadable brokenSet rfl
    have hnone : splitDerTlvs sampleEnv brokenSet.value.length brokenSet.value = none := by
      decide
    rw [hnone] at hpieces
    cases hpieces
  have hout : rewriteCmsSignedDataForTimestampDecode sampleEnv
      (encodeTlv 0x30 (rawOf (sampleFields brokenSet).toList)) =
        some [0x30, 0x09, 0x02, 0x01, 0x01, 0x31, 0x00, 0x30, 0x00, 0x31, 0x00] := by
    decide
  rcases h.1 hbroken with hnone | hsame
  · rw [hout] at hnone
    cases hnone
  · rw [hout] at hsame
    revert hsame
    decide

end Psign.Trust
