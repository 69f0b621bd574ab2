import Mathlib.Data.Option.Basic
import Psign.CodeLib.Der

/-!
# PKCS#7 wire normalization

`pkcs7_wire.rs`: before a signature blob is decoded, a `PKCX` prefix is dropped,
a bare `SignedData` is wrapped into a `ContentInfo`, and repeated certificates
are removed from the certificate set.

The source walks the blob with offsets (`derTlvAt`, `derTlvChildren`).  Here the
walk is connected to the elements of `CodeLib.Der`: `signedDataFields` are the
elements of the `SignedData` in a blob, and the results say what normalization
does to them.  It replaces at most the certificate set (`fields_normalize`), and
it leaves a blob alone whose certificate set has no repetition
(`normalize_of_nodup`).
-/

namespace Psign.Sip

open CodeLib.Der

/-! ## The source's walk -/

/-- `PKCS7_SIGNED_DATA_OID_DER`. -/
def pkcs7SignedDataOidDer : List UInt8 :=
  [0x06, 0x09, 0x2A, 0x86, 0x48, 0x86, 0xF7, 0x0D, 0x01, 0x07, 0x02]

/-- `der_encode_definite_length`. -/
def derEncodeDefiniteLength (len : Nat) : List UInt8 := encodeLength len

/-- `der_encode_tlv`. -/
def derEncodeTlv (tag : UInt8) (content : List UInt8) : List UInt8 := encodeTlv tag content

/-- `DerTlv`: an element as offsets into the data. -/
structure DerTlv where
  tag : UInt8
  tagStart : Nat
  valueStart : Nat
  valueEnd : Nat

/-- `parse_der_definite_length`: at most four length octets. -/
def parseDerDefiniteLength (bytes : List UInt8) : Option (Nat × Nat) := readLength 4 bytes

/-- `&data[start..stop]`. -/
def range (data : List UInt8) (start stop : Nat) : List UInt8 := (data.take stop).drop start

/-- `tlv_outer_sequence_payload`. -/
def tlvOuterSequencePayload (data : List UInt8) : Option (List UInt8) := do
  guard ((← data.head?) = 0x30)
  let (len, hdr) ← parseDerDefiniteLength data.tail
  guard (1 + hdr + len ≤ data.length)
  some (range data (1 + hdr) (1 + hdr + len))

/-- `pkcs7_content_info_signed_data`. -/
def pkcs7ContentInfoSignedData (signedDataDer : List UInt8) : List UInt8 :=
  let explicit := 0xA0 :: (derEncodeDefiniteLength signedDataDer.length ++ signedDataDer)
  let innerLen := pkcs7SignedDataOidDer.length + explicit.length
  0x30 :: (derEncodeDefiniteLength innerLen ++ pkcs7SignedDataOidDer ++ explicit)

/-- `der_tlv_at`. -/
def derTlvAt (data : List UInt8) (offset limit : Nat) : Option DerTlv := do
  guard (offset < limit ∧ limit ≤ data.length)
  let tag ← data[offset]?
  let (len, hdr) ← parseDerDefiniteLength (range data (offset + 1) limit)
  guard (offset + 1 + hdr + len ≤ limit)
  some ⟨tag, offset, offset + 1 + hdr, offset + 1 + hdr + len⟩

/-- The loop of `der_tlv_children`, for at most `fuel` elements. -/
def derTlvChildrenFrom (data : List UInt8) (stop : Nat) : Nat → Nat → Option (List DerTlv)
  | 0, offset => if offset = stop then some [] else none
  | fuel + 1, offset =>
    if offset < stop then do
      let tlv ← derTlvAt data offset stop
      let rest ← derTlvChildrenFrom data stop fuel tlv.valueEnd
      some (tlv :: rest)
    else if offset = stop then some []
    else none

/-- `der_tlv_children`.  Every element has a byte, so there are at most
`stop - start` of them. -/
def derTlvChildren (data : List UInt8) (start stop : Nat) : Option (List DerTlv) :=
  derTlvChildrenFrom data stop (stop - start) start

/-- `replace_child_tlv`. -/
def replaceChildTlv (parent child : DerTlv) (replacement data : List UInt8) : List UInt8 :=
  derEncodeTlv parent.tag
    (range data parent.valueStart child.tagStart ++ replacement ++
      range data child.valueEnd parent.valueEnd)

/-- The loop of `dedupe_signed_data_certificate_set` over the certificates: the
contents it keeps, and whether it removed a repetition. -/
def dedupeCertificates (data : List UInt8) :
    List DerTlv → List (List UInt8) → List UInt8 → Bool → List UInt8 × Bool
  | [], _, certContent, removedDuplicate => (certContent, removedDuplicate)
  | child :: children, unique, certContent, removedDuplicate =>
    let encoded := range data child.tagStart child.valueEnd
    if encoded ∈ unique then dedupeCertificates data children unique certContent true
    else
      dedupeCertificates data children (unique ++ [encoded]) (certContent ++ encoded)
        removedDuplicate

/-- `dedupe_signed_data_certificate_set`. -/
def dedupeSignedDataCertificateSet (data : List UInt8) : Option (List UInt8) := do
  let outer ← derTlvAt data 0 data.length
  guard (outer.tag = 0x30)
  let outerChildren ← derTlvChildren data outer.valueStart outer.valueEnd
  let contentType ← outerChildren.head?
  guard (range data contentType.tagStart contentType.valueEnd = pkcs7SignedDataOidDer)
  let explicit ← outerChildren[1]?
  guard (explicit.tag = 0xa0)
  let explicitChildren ← derTlvChildren data explicit.valueStart explicit.valueEnd
  let signedData ← explicitChildren.head?
  guard (signedData.tag = 0x30)
  let signedChildren ← derTlvChildren data signedData.valueStart signedData.valueEnd
  let certificates ← (signedChildren.drop 3).find? (·.tag = 0xa0)
  let certificateChildren ← derTlvChildren data certificates.valueStart certificates.valueEnd
  let (certContent, removedDuplicate) := dedupeCertificates data certificateChildren [] [] false
  guard (removedDuplicate = true)
  let certificatesDeduped := derEncodeTlv certificates.tag certContent
  let signedDataDeduped := replaceChildTlv signedData certificates certificatesDeduped data
  let explicitDeduped := replaceChildTlv explicit signedData signedDataDeduped data
  some (replaceChildTlv outer explicit explicitDeduped data)

/-- `strip_pkcx_p7x_wrapper`. -/
def stripPkcxP7xWrapper (data : List UInt8) : Option (List UInt8) :=
  if [0x50, 0x4B, 0x43, 0x58].isPrefixOf data then some (data.drop 4) else none

/-- `normalize_pkcs7_der_for_authenticode`. -/
def normalizePkcs7DerForAuthenticode (sigBlob : List UInt8) : List UInt8 :=
  let sigBlob := (stripPkcxP7xWrapper sigBlob).getD sigBlob
  match tlvOuterSequencePayload sigBlob with
  | none => sigBlob
  | some inner =>
    let normalized :=
      if inner.head? = some 0x06 then sigBlob
      else if inner.head? = some 0x02 then pkcs7ContentInfoSignedData sigBlob
      else sigBlob
    (dedupeSignedDataCertificateSet normalized).getD normalized

/-! ## The elements of a SignedData -/

/-- The content element of a `ContentInfo` with content type `id-signedData`. -/
def contentElement (data : List UInt8) : Option Tlv := do
  let (outer, _) ← readTlv 4 data
  guard (outer.tag = 0x30)
  let outerChildren ← readTlvs 4 outer.value
  guard ((← outerChildren.head?).raw = pkcs7SignedDataOidDer)
  let explicit ← outerChildren[1]?
  guard (explicit.tag = 0xa0)
  (← readTlvs 4 explicit.value).head?

/-- The elements of the `SignedData` inside a `ContentInfo`. -/
def signedDataFields (data : List UInt8) : Option (List Tlv) := do
  let signedData ← contentElement data
  guard (signedData.tag = 0x30)
  readTlvs 4 signedData.value

/-- The elements of the certificate set among the fields of a `SignedData`. -/
def certificateTlvs (fields : List Tlv) : Option (List Tlv) := do
  readTlvs 4 (← (fields.drop 3).find? (·.tag = 0xa0)).value

/-- The elements of the last field of a `SignedData`, its signer infos. -/
def signerInfoTlvs (fields : List Tlv) : Option (List Tlv) := do
  readTlvs 4 (← fields.getLast?).value

/-! ## Offsets and elements -/

/-- An element as it stands at an offset of the data. -/
def placed (offset : Nat) (tlv : Tlv) : DerTlv :=
  ⟨tlv.tag, offset, offset + (tlv.raw.length - tlv.value.length), offset + tlv.raw.length⟩

/-- Elements standing one after the other from an offset on. -/
def placedAll : Nat → List Tlv → List DerTlv
  | _, [] => []
  | offset, tlv :: tlvs => placed offset tlv :: placedAll (offset + tlv.raw.length) tlvs

@[simp] theorem placed_tag (offset : Nat) (tlv : Tlv) : (placed offset tlv).tag = tlv.tag := rfl

@[simp] theorem placed_tagStart (offset : Nat) (tlv : Tlv) :
    (placed offset tlv).tagStart = offset := rfl

@[simp] theorem placed_valueEnd (offset : Nat) (tlv : Tlv) :
    (placed offset tlv).valueEnd = offset + tlv.raw.length := rfl

theorem range_self (data : List UInt8) : range data 0 data.length = data := by
  simp [range]

theorem length_range {data : List UInt8} {start stop : Nat} (hstop : stop ≤ data.length) :
    (range data start stop).length = stop - start := by
  simp [range, Nat.min_eq_left hstop]

theorem range_eq_cons {data : List UInt8} {start stop : Nat} (h : start < stop)
    (hstop : stop ≤ data.length) :
    range data start stop = data[start] :: range data (start + 1) stop := by
  have hlen : start < (data.take stop).length := by rw [List.length_take]; omega
  rw [range, List.drop_eq_getElem_cons hlen, List.getElem_take]
  rfl

/-- A range that is a concatenation splits there. -/
theorem range_append {data front back : List UInt8} {start stop : Nat} (hstop : stop ≤ data.length)
    (hle : start ≤ stop) (h : range data start stop = front ++ back) :
    range data start (start + front.length) = front ∧
      range data (start + front.length) stop = back := by
  have hlen : front.length + back.length = stop - start := by
    rw [← List.length_append, ← h, length_range hstop]
  have htake : data.take (start + front.length) =
      (data.take stop).take (start + front.length) := by
    rw [List.take_take, Nat.min_eq_left (by omega)]
  constructor
  · rw [range, htake, List.drop_take, Nat.add_sub_cancel_left]
    show (range data start stop).take front.length = front
    rw [h, List.take_left]
  · rw [range, ← List.drop_drop]
    show (range data start stop).drop front.length = back
    rw [h, List.drop_left]

/-- `der_tlv_at` reads the element that the range begins with. -/
theorem derTlvAt_eq {data : List UInt8} {offset limit : Nat} (hlimit : limit ≤ data.length) :
    derTlvAt data offset limit =
      (readTlv 4 (range data offset limit)).map fun found => placed offset found.1 := by
  by_cases hlt : offset < limit
  · have hget : data[offset]? = some data[offset] := List.getElem?_eq_getElem (by omega)
    have hlen : (range data (offset + 1) limit).length = limit - (offset + 1) :=
      length_range hlimit
    rw [range_eq_cons hlt hlimit]
    simp only [derTlvAt, guard, hlt, hlimit, and_self, if_true, hget, parseDerDefiniteLength,
      readTlv, Option.bind_eq_bind, Option.bind_some, Option.pure_def]
    cases hread : readLength 4 (range data (offset + 1) limit) with
    | none => simp
    | some found =>
      obtain ⟨len, hdr⟩ := found
      have hhdr := (hdr_le_of_readLength hread).2.1
      simp only [Option.bind_some, hlen]
      by_cases hfits : offset + 1 + hdr + len ≤ limit
      · rw [if_pos hfits, if_pos (by omega)]
        simp only [Option.bind_some, Option.map_some, placed, List.length_cons, List.length_take,
          List.length_drop, hlen]
        congr 2 <;> omega
      · rw [if_neg hfits, if_neg (by omega)]
        simp
  · have hnil : range data offset limit = [] :=
      List.drop_eq_nil_of_le (by rw [List.length_take]; omega)
    simp only [derTlvAt, guard, hlt, false_and, if_false, hnil, readTlv, Option.map_none]
    rfl

private theorem derTlvChildrenFrom_eq {data : List UInt8} {stop : Nat}
    (hstop : stop ≤ data.length) (fuel offset : Nat) (hoffset : offset ≤ stop)
    (hfuel : stop - offset ≤ fuel) :
    derTlvChildrenFrom data stop fuel offset =
      (readTlvs 4 (range data offset stop)).map (placedAll offset) := by
  induction fuel generalizing offset with
  | zero =>
    obtain rfl : offset = stop := by omega
    have hnil : range data offset offset = [] :=
      List.drop_eq_nil_of_le (by rw [List.length_take]; omega)
    rw [hnil, derTlvChildrenFrom, if_pos rfl]
    rfl
  | succ fuel ih =>
    unfold derTlvChildrenFrom
    by_cases hlt : offset < stop
    · rw [if_pos hlt, derTlvAt_eq hstop]
      cases hread : readTlv 4 (range data offset stop) with
      | none =>
        have hne : range data offset stop ≠ [] := by
          rw [range_eq_cons hlt hstop]
          exact List.cons_ne_nil _ _
        rw [readTlvs_eq_none hne hread]
        rfl
      | some found =>
        obtain ⟨tlv, rest⟩ := found
        obtain ⟨hbytes, hisTlv⟩ := readTlv_eq_some.mp hread
        obtain ⟨-, hrest⟩ := range_append hstop hoffset hbytes
        have hpos := List.length_pos_of_ne_nil hisTlv.raw_ne_nil
        have hlength := congrArg List.length hbytes
        rw [length_range hstop, List.length_append] at hlength
        simp only [Option.map_some, Option.bind_eq_bind, Option.bind_some, placed_valueEnd]
        rw [ih (offset + tlv.raw.length) (by omega) (by omega), hrest, readTlvs_of_readTlv hread]
        cases readTlvs 4 rest with
        | none => rfl
        | some tlvs => rfl
    · obtain rfl : offset = stop := by omega
      have hnil : range data offset offset = [] :=
        List.drop_eq_nil_of_le (by rw [List.length_take]; omega)
      rw [if_neg hlt, if_pos rfl, hnil]
      rfl

/-- `der_tlv_children` cuts the range into its elements. -/
theorem derTlvChildren_eq {data : List UInt8} {start stop : Nat} (hstop : stop ≤ data.length)
    (hle : start ≤ stop) :
    derTlvChildren data start stop =
      (readTlvs 4 (range data start stop)).map (placedAll start) :=
  derTlvChildrenFrom_eq hstop _ _ hle (Nat.le_refl _)

theorem placedAll_append (offset : Nat) (front back : List Tlv) :
    placedAll offset (front ++ back) =
      placedAll offset front ++ placedAll (offset + (rawOf front).length) back := by
  induction front generalizing offset with
  | nil => rfl
  | cons tlv front ih =>
    rw [List.cons_append, placedAll, ih, placedAll, List.cons_append, rawOf_cons,
      List.length_append, Nat.add_assoc]

@[simp] theorem length_placedAll (offset : Nat) (tlvs : List Tlv) :
    (placedAll offset tlvs).length = tlvs.length := by
  induction tlvs generalizing offset with
  | nil => rfl
  | cons tlv tlvs ih => rw [placedAll, List.length_cons, List.length_cons, ih]

private theorem find?_placedAll {tag : UInt8} {offset : Nat} {tlvs : List Tlv} {found : DerTlv}
    (h : (placedAll offset tlvs).find? (·.tag = tag) = some found) :
    ∃ before tlv after, tlvs = before ++ tlv :: after ∧ tlv.tag = tag ∧
      (∀ other ∈ before, other.tag ≠ tag) ∧ found = placed (offset + (rawOf before).length) tlv := by
  induction tlvs generalizing offset with
  | nil => simp [placedAll] at h
  | cons tlv tlvs ih =>
    rw [placedAll, List.find?_cons] at h
    by_cases htag : tlv.tag = tag
    · have hfound : placed offset tlv = found := by simpa [htag] using h
      exact ⟨[], tlv, tlvs, rfl, htag, by simp, hfound.symm⟩
    · have hrest : (placedAll (offset + tlv.raw.length) tlvs).find? (·.tag = tag) = some found := by
        simpa [htag] using h
      obtain ⟨before, other, after, rfl, hother, hbefore, rfl⟩ := ih hrest
      refine ⟨tlv :: before, other, after, rfl, hother, ?_, ?_⟩
      · intro t ht
        rcases List.mem_cons.mp ht with rfl | ht
        · exact htag
        · exact hbefore t ht
      · rw [rawOf_cons, List.length_append, Nat.add_assoc]

private theorem find?_drop_placedAll {tag : UInt8} {offset n : Nat} {tlvs : List Tlv}
    {found : DerTlv} (h : ((placedAll offset tlvs).drop n).find? (·.tag = tag) = some found) :
    ∃ before tlv after, tlvs = before ++ tlv :: after ∧ (tlvs.drop n).find? (·.tag = tag) = some tlv ∧
      found = placed (offset + (rawOf before).length) tlv := by
  by_cases hn : n ≤ tlvs.length
  · have hlen : (placedAll offset (tlvs.take n)).length = n := by
      rw [length_placedAll, List.length_take_of_le hn]
    have hsplit : placedAll offset tlvs = placedAll offset (tlvs.take n) ++
        placedAll (offset + (rawOf (tlvs.take n)).length) (tlvs.drop n) := by
      rw [← placedAll_append, List.take_append_drop]
    rw [hsplit, List.drop_append_of_le_length (Nat.le_of_eq hlen.symm),
      List.drop_eq_nil_of_le (Nat.le_of_eq hlen), List.nil_append] at h
    obtain ⟨before, tlv, after, hdrop, htag, hbefore, rfl⟩ := find?_placedAll h
    refine ⟨tlvs.take n ++ before, tlv, after, ?_, ?_, ?_⟩
    · rw [List.append_assoc, ← hdrop, List.take_append_drop]
    · rw [hdrop, List.find?_append, List.find?_eq_none.mpr (by simpa using hbefore)]
      simp [htag]
    · rw [rawOf_append, List.length_append, Nat.add_assoc]
  · rw [List.drop_eq_nil_of_le (by rw [length_placedAll]; omega)] at h
    simp at h

/-- An element stands at an offset of the data. -/
structure StandsAt (data : List UInt8) (offset : Nat) (tlv : Tlv) : Prop where
  inside : offset + tlv.raw.length ≤ data.length
  bytes : range data offset (offset + tlv.raw.length) = tlv.raw
  isTlv : IsTlv 4 tlv

namespace StandsAt

variable {data : List UInt8} {offset : Nat} {tlv child : Tlv}

theorem value_bounds (_ : StandsAt data offset tlv) :
    (placed offset tlv).valueStart ≤ (placed offset tlv).valueEnd := by
  show offset + (tlv.raw.length - tlv.value.length) ≤ offset + tlv.raw.length
  omega

theorem valueEnd_le (h : StandsAt data offset tlv) :
    (placed offset tlv).valueEnd ≤ data.length :=
  h.inside

/-- The contents of an element are the range between its offsets. -/
theorem value (h : StandsAt data offset tlv) :
    range data (placed offset tlv).valueStart (placed offset tlv).valueEnd = tlv.value := by
  obtain ⟨lengthOctets, hraw, -⟩ := h.isTlv.exists_header
  have hsplit : tlv.raw = (tlv.tag :: lengthOctets) ++ tlv.value := hraw
  have hstart : (placed offset tlv).valueStart = offset + (tlv.tag :: lengthOctets).length := by
    show offset + (tlv.raw.length - tlv.value.length) = _
    rw [hsplit, List.length_append, Nat.add_sub_cancel]
  rw [hstart]
  exact (range_append h.inside (Nat.le_add_right _ _) (h.bytes.trans hsplit)).2

/-- The children the source walks are the elements of the contents. -/
theorem derTlvChildren (h : StandsAt data offset tlv) :
    derTlvChildren data (placed offset tlv).valueStart (placed offset tlv).valueEnd =
      (readTlvs 4 tlv.value).map (placedAll (placed offset tlv).valueStart) := by
  rw [derTlvChildren_eq h.valueEnd_le h.value_bounds, h.value]

private theorem value_split (h : StandsAt data offset tlv) (before : List Tlv) {after : List Tlv}
    (hchildren : readTlvs 4 tlv.value = some (before ++ child :: after)) :
    range data (placed offset tlv).valueStart (placed offset tlv).valueEnd =
      rawOf before ++ (child.raw ++ rawOf after) := by
  rw [h.value, (readTlvs_eq_some.mp hchildren).1, rawOf_append, rawOf_cons]

/-- A child stands behind the children before it. -/
theorem childStandsAt (h : StandsAt data offset tlv) (before : List Tlv) {after : List Tlv}
    (hchildren : readTlvs 4 tlv.value = some (before ++ child :: after)) :
    StandsAt data ((placed offset tlv).valueStart + (rawOf before).length) child := by
  have hsplit := h.value_split before hchildren
  have hlength := congrArg List.length hsplit
  rw [length_range h.valueEnd_le, List.length_append, List.length_append] at hlength
  have hbounds := h.value_bounds
  have hinside := h.valueEnd_le
  have hback := (range_append hinside hbounds hsplit).2
  refine ⟨by omega, ?_, ?_⟩
  · exact (range_append hinside (by omega) hback).1
  · exact (readTlvs_eq_some.mp hchildren).2 child (by simp)

/-- `replace_child_tlv` writes the parent again with one child replaced. -/
theorem replaceChildTlv (h : StandsAt data offset tlv) (before : List Tlv) {after : List Tlv}
    (hchildren : readTlvs 4 tlv.value = some (before ++ child :: after))
    (replacement : List UInt8) :
    replaceChildTlv (placed offset tlv)
        (placed ((placed offset tlv).valueStart + (rawOf before).length) child) replacement data =
      encodeTlv tlv.tag (rawOf before ++ replacement ++ rawOf after) := by
  have hsplit := h.value_split before hchildren
  have hlength := congrArg List.length hsplit
  rw [length_range h.valueEnd_le, List.length_append, List.length_append] at hlength
  have hbounds := h.value_bounds
  obtain ⟨hfront, hback⟩ := range_append h.valueEnd_le hbounds hsplit
  obtain ⟨-, hrest⟩ := range_append h.valueEnd_le (by omega) hback
  unfold Psign.Sip.replaceChildTlv
  rw [placed_tagStart, hfront, placed_valueEnd _ child, hrest]
  rfl

end StandsAt

/-! ## What normalization changes -/

/-- The elements on the way from a blob to the fields of its `SignedData`. -/
structure ContentInfoElements (data : List UInt8) (fields : List Tlv) where
  outer : Tlv
  rest : List UInt8
  contentType : Tlv
  explicit : Tlv
  outerAfter : List Tlv
  signedData : Tlv
  explicitAfter : List Tlv
  data_eq : data = outer.raw ++ rest
  outer_isTlv : IsTlv 4 outer
  outer_tag : outer.tag = 0x30
  outer_children : readTlvs 4 outer.value = some (contentType :: explicit :: outerAfter)
  contentType_raw : contentType.raw = pkcs7SignedDataOidDer
  explicit_tag : explicit.tag = 0xa0
  explicit_children : readTlvs 4 explicit.value = some (signedData :: explicitAfter)
  signedData_tag : signedData.tag = 0x30
  signedData_children : readTlvs 4 signedData.value = some fields

theorem signedDataFields_eq_some {data : List UInt8} {fields : List Tlv} :
    signedDataFields data = some fields ↔ Nonempty (ContentInfoElements data fields) := by
  constructor
  · intro h
    simp only [signedDataFields, contentElement, Option.bind_eq_bind, Option.bind_eq_some_iff,
      Prod.exists, Option.guard_eq_some', exists_const] at h
    obtain ⟨signedData, ⟨outer, rest, hread, houter, children, hchildren, contentType, hcontentType,
      hraw, explicit, hexplicit, htag, inner, hinner, hsignedData⟩, hsdTag, hfields⟩ := h
    obtain ⟨hdata, hisTlv⟩ := readTlv_eq_some.mp hread
    obtain ⟨outerAfter, rfl⟩ : ∃ outerAfter, children = contentType :: explicit :: outerAfter := by
      match children, hcontentType, hexplicit with
      | first :: second :: more, hfirst, hsecond =>
        simp only [List.head?_cons, Option.some.injEq, List.getElem?_cons_succ,
          List.getElem?_cons_zero] at hfirst hsecond
        exact ⟨more, by rw [hfirst, hsecond]⟩
    obtain ⟨explicitAfter, rfl⟩ : ∃ explicitAfter, inner = signedData :: explicitAfter := by
      match inner, hsignedData with
      | first :: more, hfirst => exact ⟨more, by rw [Option.some.inj hfirst]⟩
    exact ⟨⟨outer, rest, contentType, explicit, outerAfter, signedData, explicitAfter, hdata, hisTlv,
      houter, hchildren, hraw, htag, hinner, hsdTag, hfields⟩⟩
  · intro h
    obtain ⟨elements⟩ := h
    have hread := elements.outer_isTlv.readTlv_append elements.rest
    rw [← elements.data_eq] at hread
    simp [signedDataFields, contentElement, guard, hread, elements.outer_tag,
      elements.outer_children, elements.contentType_raw, elements.explicit_tag,
      elements.explicit_children, elements.signedData_tag, elements.signedData_children]

theorem isTlv_of_contentElement {data : List UInt8} {element : Tlv}
    (h : contentElement data = some element) : IsTlv 4 element := by
  simp only [contentElement, Option.bind_eq_bind, Option.bind_eq_some_iff, Prod.exists,
    Option.guard_eq_some', exists_const] at h
  obtain ⟨_, _, -, -, _, -, _, -, -, _, -, -, inner, hinner, hhead⟩ := h
  exact (readTlvs_eq_some.mp hinner).2 element (List.mem_of_mem_head? hhead)

/-- The bytes of the certificates that `dedupe_signed_data_certificate_set` keeps
are not more than it had. -/
private theorem length_dedupeCertificates_le (data : List UInt8) (children : List DerTlv)
    (unique : List (List UInt8)) (certContent : List UInt8) (removedDuplicate : Bool) :
    (dedupeCertificates data children unique certContent removedDuplicate).1.length ≤
      certContent.length +
        ((children.map fun child => range data child.tagStart child.valueEnd).flatten).length := by
  induction children generalizing unique certContent removedDuplicate with
  | nil => simp [dedupeCertificates]
  | cons child children ih =>
    simp only [dedupeCertificates, List.map_cons, List.flatten_cons, List.length_append]
    split
    · have := ih unique certContent true
      omega
    · have := ih (unique ++ [range data child.tagStart child.valueEnd])
        (certContent ++ range data child.tagStart child.valueEnd) removedDuplicate
      rw [List.length_append] at this
      omega

/-- A repetition is reported exactly when there is one. -/
theorem dedupeCertificates_snd {data : List UInt8} {children : List DerTlv}
    {unique : List (List UInt8)} (certContent : List UInt8) (hunique : unique.Nodup) :
    (dedupeCertificates data children unique certContent false).2 = false ↔
      (unique ++ children.map fun child => range data child.tagStart child.valueEnd).Nodup := by
  have hkept : ∀ (children : List DerTlv) (unique : List (List UInt8)) (certContent : List UInt8),
      (dedupeCertificates data children unique certContent true).2 = true := by
    intro children
    induction children with
    | nil => exact fun _ _ => rfl
    | cons child children ih =>
      intro unique certContent
      simp only [dedupeCertificates]
      split
      · exact ih _ _
      · exact ih _ _
  induction children generalizing unique certContent with
  | nil => simpa [dedupeCertificates] using hunique
  | cons child children ih =>
    simp only [dedupeCertificates, List.map_cons]
    split
    · rename_i hmem
      rw [hkept]
      simp only [Bool.true_eq_false, false_iff]
      intro hnodup
      exact (List.nodup_append.mp hnodup).2.2 _ hmem _ List.mem_cons_self rfl
    · rename_i hmem
      have happend : (unique ++ [range data child.tagStart child.valueEnd]).Nodup := by
        refine List.nodup_append.mpr ⟨hunique, by simp, ?_⟩
        intro x hx y hy hxy
        rw [List.mem_singleton] at hy
        exact hmem (hy ▸ hxy ▸ hx)
      refine (ih _ happend).trans ?_
      rw [List.append_assoc]
      rfl

theorem map_range_placedAll {data : List UInt8} {offset : Nat} {tlv : Tlv}
    (h : StandsAt data offset tlv) (before : List Tlv) {tlvs : List Tlv}
    (hchildren : readTlvs 4 tlv.value = some (before ++ tlvs)) :
    ((placedAll ((placed offset tlv).valueStart + (rawOf before).length) tlvs).map
      fun child => range data child.tagStart child.valueEnd) = tlvs.map Tlv.raw := by
  induction tlvs generalizing before with
  | nil => rfl
  | cons child tlvs ih =>
    have hrest := ih (before ++ [child]) (by simpa using hchildren)
    rw [rawOf_append, rawOf_cons, rawOf_nil, List.append_nil, List.length_append,
      ← Nat.add_assoc] at hrest
    rw [placedAll, List.map_cons, List.map_cons, hrest, placed_tagStart, placed_valueEnd,
      (h.childStandsAt before hchildren).bytes]

theorem sequence_payload {outer : Tlv} (h : IsTlv 4 outer) (htag : outer.tag = 0x30)
    (rest : List UInt8) :
    stripPkcxP7xWrapper (outer.raw ++ rest) = none ∧
      tlvOuterSequencePayload (outer.raw ++ rest) = some outer.value := by
  obtain ⟨lengthOctets, hraw, hlength⟩ := h.exists_header
  have hread := readLength_append hlength rest
  rw [hraw, htag]
  constructor
  · rfl
  · have hvalue : range (0x30 :: (lengthOctets ++ outer.value) ++ rest) (1 + lengthOctets.length)
        (1 + lengthOctets.length + outer.value.length) = outer.value := by
      rw [range, Nat.add_comm 1, Nat.add_right_comm, List.cons_append, List.take_succ_cons,
        List.drop_succ_cons, ← List.length_append, List.take_left, List.drop_left]
    have hle : 1 + lengthOctets.length + outer.value.length ≤
        (0x30 :: (lengthOctets ++ outer.value) ++ rest).length := by
      simp only [List.length_cons, List.length_append]
      omega
    simp only [tlvOuterSequencePayload, List.cons_append, List.head?_cons, List.tail_cons,
      Option.bind_eq_bind, Option.bind_some, guard, if_true, Option.pure_def,
      parseDerDefiniteLength, hread] at hvalue hle ⊢
    rw [if_pos hle, Option.bind_some, hvalue]

namespace ContentInfoElements

variable {data : List UInt8} {fields : List Tlv}

/-- Where the explicitly tagged content stands. -/
def explicitOffset (elements : ContentInfoElements data fields) : Nat :=
  (placed 0 elements.outer).valueStart + elements.contentType.raw.length

/-- Where the `SignedData` stands. -/
def signedDataOffset (elements : ContentInfoElements data fields) : Nat :=
  (placed elements.explicitOffset elements.explicit).valueStart

theorem outer_standsAt (elements : ContentInfoElements data fields) :
    StandsAt data 0 elements.outer := by
  have hlength := congrArg List.length elements.data_eq
  rw [List.length_append] at hlength
  refine ⟨by omega, ?_, elements.outer_isTlv⟩
  exact (range_append (Nat.le_refl _) (Nat.zero_le _)
    ((range_self data).trans elements.data_eq)).1

theorem explicit_standsAt (elements : ContentInfoElements data fields) :
    StandsAt data elements.explicitOffset elements.explicit := by
  have h := elements.outer_standsAt.childStandsAt [elements.contentType]
    elements.outer_children
  rwa [rawOf_cons, rawOf_nil, List.append_nil] at h

theorem signedData_standsAt (elements : ContentInfoElements data fields) :
    StandsAt data elements.signedDataOffset elements.signedData :=
  elements.explicit_standsAt.childStandsAt [] elements.explicit_children

/-- The part of `dedupe_signed_data_certificate_set` after the fields of the
`SignedData` are found. -/
theorem dedupe_eq (elements : ContentInfoElements data fields) :
    dedupeSignedDataCertificateSet data = (do
      let certificates ←
        ((placedAll (placed elements.signedDataOffset elements.signedData).valueStart fields).drop
          3).find? (·.tag = 0xa0)
      let certificateChildren ← derTlvChildren data certificates.valueStart certificates.valueEnd
      let (certContent, removedDuplicate) :=
        dedupeCertificates data certificateChildren [] [] false
      guard (removedDuplicate = true)
      let signedDataDeduped := replaceChildTlv
        (placed elements.signedDataOffset elements.signedData) certificates
        (derEncodeTlv certificates.tag certContent) data
      let explicitDeduped := replaceChildTlv (placed elements.explicitOffset elements.explicit)
        (placed elements.signedDataOffset elements.signedData) signedDataDeduped data
      some (replaceChildTlv (placed 0 elements.outer)
        (placed elements.explicitOffset elements.explicit) explicitDeduped data)) := by
  have hat : derTlvAt data 0 data.length = some (placed 0 elements.outer) := by
    have hread := elements.outer_isTlv.readTlv_append elements.rest
    rw [← elements.data_eq] at hread
    rw [derTlvAt_eq (Nat.le_refl _), range_self, hread]
    rfl
  have hcontentType : range data
      (placed (placed 0 elements.outer).valueStart elements.contentType).tagStart
      (placed (placed 0 elements.outer).valueStart elements.contentType).valueEnd =
        pkcs7SignedDataOidDer :=
    (elements.outer_standsAt.childStandsAt [] elements.outer_children).bytes.trans
      elements.contentType_raw
  have houter := elements.outer_standsAt.derTlvChildren
  have hexplicit := elements.explicit_standsAt.derTlvChildren
  have hsignedData := elements.signedData_standsAt.derTlvChildren
  rw [elements.outer_children, Option.map_some, placedAll, placedAll] at houter
  rw [elements.explicit_children, Option.map_some, placedAll] at hexplicit
  rw [elements.signedData_children, Option.map_some] at hsignedData
  unfold dedupeSignedDataCertificateSet
  rw [hat, Option.bind_eq_bind, Option.bind_some, houter]
  simp only [Option.bind_eq_bind, Option.bind_some, guard, placed_tag, elements.outer_tag, if_true,
    List.head?_cons, hcontentType, List.getElem?_cons_succ, List.getElem?_cons_zero,
    elements.explicit_tag, Option.pure_def]
  show ((derTlvChildren data (placed elements.explicitOffset elements.explicit).valueStart
    (placed elements.explicitOffset elements.explicit).valueEnd).bind _) = _
  rw [hexplicit]
  simp only [Option.bind_some, List.head?_cons, placed_tag, elements.signedData_tag, if_true]
  show ((derTlvChildren data (placed elements.signedDataOffset elements.signedData).valueStart
    (placed elements.signedDataOffset elements.signedData).valueEnd).bind _) = _
  rw [hsignedData]
  rfl

/-- The four elements around the certificates are written again, from the inside out. -/
theorem replaced (before : List Tlv) {certificates : Tlv} {after : List Tlv}
    (elements : ContentInfoElements data (before ++ certificates :: after))
    (certificatesDeduped : List UInt8) :
    replaceChildTlv (placed 0 elements.outer) (placed elements.explicitOffset elements.explicit)
        (replaceChildTlv (placed elements.explicitOffset elements.explicit)
          (placed elements.signedDataOffset elements.signedData)
          (replaceChildTlv (placed elements.signedDataOffset elements.signedData)
            (placed ((placed elements.signedDataOffset elements.signedData).valueStart +
              (rawOf before).length) certificates) certificatesDeduped data) data) data =
      encodeTlv elements.outer.tag (elements.contentType.raw ++
        encodeTlv elements.explicit.tag
          (encodeTlv elements.signedData.tag (rawOf before ++ certificatesDeduped ++ rawOf after) ++
            rawOf elements.explicitAfter) ++ rawOf elements.outerAfter) := by
  have houter := elements.outer_standsAt.replaceChildTlv [elements.contentType]
    elements.outer_children
  have hexplicit := elements.explicit_standsAt.replaceChildTlv [] elements.explicit_children
  rw [rawOf_cons, rawOf_nil, List.append_nil] at houter
  rw [elements.signedData_standsAt.replaceChildTlv before elements.signedData_children]
  refine (houter _).trans ?_
  refine congrArg (fun bytes => encodeTlv elements.outer.tag
    (elements.contentType.raw ++ bytes ++ rawOf elements.outerAfter)) ((hexplicit _).trans ?_)
  rw [rawOf_nil, List.nil_append]

/-- When certificates are removed, the fields of the `SignedData` are the same but
for the certificate set, and there was a repetition in it. -/
theorem of_dedupe (elements : ContentInfoElements data fields) {deduped : List UInt8}
    (h : dedupeSignedDataCertificateSet data = some deduped) :
    ∃ before certificates after kept, fields = before ++ certificates :: after ∧
      certificates.tag = 0xa0 ∧ kept.tag = 0xa0 ∧
      Nonempty (ContentInfoElements deduped (before ++ kept :: after)) ∧
      ∃ tlvs, certificateTlvs fields = some tlvs ∧ ¬ (tlvs.map Tlv.raw).Nodup := by
  rw [elements.dedupe_eq] at h
  simp only [Option.bind_eq_bind, Option.bind_eq_some_iff, Option.some.injEq,
    Option.guard_eq_some', exists_const] at h
  obtain ⟨found, hfound, children, hchildren, hremoved, hdeduped⟩ := h
  obtain ⟨before, certificates, after, rfl, hfind, rfl⟩ := find?_drop_placedAll hfound
  have htag : certificates.tag = 0xa0 := by simpa using List.find?_some hfind
  have hstands := elements.signedData_standsAt.childStandsAt before elements.signedData_children
  rw [hstands.derTlvChildren] at hchildren
  obtain ⟨tlvs, htlvs, rfl⟩ := Option.map_eq_some_iff.mp hchildren
  have hraws := map_range_placedAll hstands [] htlvs
  rw [rawOf_nil, List.length_nil, Nat.add_zero] at hraws
  generalize placedAll _ tlvs = children at hraws hremoved hdeduped
  have hcontent := length_dedupeCertificates_le data children [] [] false
  rw [hraws, ← rawOf, ← (readTlvs_eq_some.mp htlvs).1, List.length_nil, Nat.zero_add] at hcontent
  have hnodup : ¬ (tlvs.map Tlv.raw).Nodup := by
    intro hnodup
    rw [← hraws, ← List.nil_append (children.map _)] at hnodup
    rw [(dedupeCertificates_snd [] List.nodup_nil).mpr hnodup] at hremoved
    exact Bool.false_ne_true hremoved
  generalize (dedupeCertificates data children [] [] false).1 = content at hcontent hdeduped
  have hlt := hstands.isTlv.length_value_lt
  -- the certificate set and the elements around it are written again, from the inside out
  have hkept : IsTlv 4 ⟨certificates.tag, encodeTlv certificates.tag content, content⟩ :=
    isTlv_encodeTlv (by omega) (by decide)
  obtain ⟨hsd, hsdChildren, hsdLe⟩ := elements.signedData_standsAt.isTlv.withChild before
    (by decide) (by decide) elements.signedData_children hkept
    (hstands.isTlv.length_encodeTlv_le hcontent certificates.tag)
  obtain ⟨hexplicit, hexplicitChildren, hexplicitLe⟩ :=
    elements.explicit_standsAt.isTlv.withChild [] (by decide) (by decide)
      elements.explicit_children hsd hsdLe
  obtain ⟨houter, houterChildren, -⟩ :=
    elements.outer_isTlv.withChild [elements.contentType] (by decide) (by decide)
      elements.outer_children hexplicit hexplicitLe
  have hwritten : deduped = (withChild elements.outer [elements.contentType]
      (withChild elements.explicit [] (withChild elements.signedData before
        (encodeTlv certificates.tag content) after).raw elements.explicitAfter).raw
      elements.outerAfter).raw := by
    refine hdeduped.symm.trans ((elements.replaced before _).trans ?_)
    simp only [withChild, rawOf_cons, rawOf_nil, List.append_nil, List.nil_append]
    rfl
  refine ⟨before, certificates, after,
    ⟨certificates.tag, encodeTlv certificates.tag content, content⟩, rfl, htag, htag, ⟨?_⟩, tlvs, ?_,
    hnodup⟩
  · exact
      { outer := _, rest := [], contentType := elements.contentType, explicit := _,
        outerAfter := elements.outerAfter, signedData := _,
        explicitAfter := elements.explicitAfter,
        data_eq := by rw [List.append_nil]; exact hwritten
        outer_isTlv := houter
        outer_tag := elements.outer_tag
        outer_children := houterChildren
        contentType_raw := elements.contentType_raw
        explicit_tag := elements.explicit_tag
        explicit_children := hexplicitChildren
        signedData_tag := elements.signedData_tag
        signedData_children := hsdChildren }
  · simp [certificateTlvs, hfind, htlvs]

/-- Certificates are only removed from a blob with a `SignedData` in it. -/
theorem exists_of_dedupe {data deduped : List UInt8}
    (h : dedupeSignedDataCertificateSet data = some deduped) :
    ∃ fields, Nonempty (ContentInfoElements data fields) := by
  simp only [dedupeSignedDataCertificateSet, Option.bind_eq_bind, Option.bind_eq_some_iff,
    Option.guard_eq_some', exists_const] at h
  obtain ⟨outer, houter, houterTag, outerChildren, houterChildren, contentType, hcontentType,
    hoid, explicit, hexplicit, hexplicitTag, explicitChildren, hexplicitChildren, signedData,
    hsignedData, hsignedDataTag, signedChildren, hsignedChildren, -⟩ := h
  rw [derTlvAt_eq (Nat.le_refl _), range_self] at houter
  obtain ⟨⟨outerTlv, rest⟩, hread, rfl⟩ := Option.map_eq_some_iff.mp houter
  obtain ⟨hdata, hisTlv⟩ := readTlv_eq_some.mp hread
  have hstands : StandsAt data 0 outerTlv := by
    have hlength := congrArg List.length hdata
    rw [List.length_append] at hlength
    refine ⟨by omega, ?_, hisTlv⟩
    exact (range_append (Nat.le_refl _) (Nat.zero_le _) ((range_self data).trans hdata)).1
  rw [hstands.derTlvChildren] at houterChildren
  obtain ⟨tlvs, htlvs, rfl⟩ := Option.map_eq_some_iff.mp houterChildren
  match tlvs, hcontentType, hexplicit with
  | contentTypeTlv :: explicitTlv :: outerAfter, hfirst, hsecond =>
    simp only [placedAll, List.head?_cons, List.getElem?_cons_succ, List.getElem?_cons_zero,
      Option.some.injEq] at hfirst hsecond
    subst hfirst hsecond
    have hcontentTypeAt := hstands.childStandsAt [] htlvs
    have hexplicitAt := hstands.childStandsAt [contentTypeTlv] htlvs
    rw [rawOf_cons, rawOf_nil, List.append_nil] at hexplicitAt
    rw [hexplicitAt.derTlvChildren] at hexplicitChildren
    obtain ⟨inner, hinner, rfl⟩ := Option.map_eq_some_iff.mp hexplicitChildren
    match inner, hsignedData with
    | signedDataTlv :: explicitAfter, hhead =>
      simp only [placedAll, List.head?_cons, Option.some.injEq] at hhead
      subst hhead
      have hsignedDataAt := hexplicitAt.childStandsAt [] hinner
      rw [rawOf_nil, List.length_nil, Nat.add_zero] at hsignedDataAt
      rw [hsignedDataAt.derTlvChildren] at hsignedChildren
      obtain ⟨fields, hfields, -⟩ := Option.map_eq_some_iff.mp hsignedChildren
      exact ⟨fields, ⟨⟨outerTlv, rest, contentTypeTlv, explicitTlv, outerAfter, signedDataTlv,
        explicitAfter, hdata, hisTlv, houterTag, htlvs, hcontentTypeAt.bytes.symm.trans hoid,
        hexplicitTag, hinner, hsignedDataTag, hfields⟩⟩⟩

theorem payload_eq (elements : ContentInfoElements data fields) :
    stripPkcxP7xWrapper data = none ∧
      tlvOuterSequencePayload data = some elements.outer.value ∧
      elements.outer.value.head? = some 0x06 := by
  have hsequence := sequence_payload elements.outer_isTlv elements.outer_tag elements.rest
  rw [← elements.data_eq] at hsequence
  obtain ⟨hchildren, -⟩ := readTlvs_eq_some.mp elements.outer_children
  refine ⟨hsequence.1, hsequence.2, ?_⟩
  rw [hchildren, rawOf_cons, elements.contentType_raw]
  rfl

/-- Normalizing a `ContentInfo` only removes repeated certificates. -/
theorem normalize_eq (elements : ContentInfoElements data fields) :
    normalizePkcs7DerForAuthenticode data =
      (dedupeSignedDataCertificateSet data).getD data := by
  obtain ⟨hstrip, hpayload, hfirst⟩ := elements.payload_eq
  simp only [normalizePkcs7DerForAuthenticode, hstrip, Option.getD_none, hpayload, hfirst, if_true]

end ContentInfoElements

/-- A `ContentInfo` whose certificate set has no repetition is left alone. -/
theorem normalize_of_nodup {data : List UInt8} {fields : List Tlv}
    (h : signedDataFields data = some fields)
    (hnodup : ∀ tlvs, certificateTlvs fields = some tlvs → (tlvs.map Tlv.raw).Nodup) :
    normalizePkcs7DerForAuthenticode data = data := by
  obtain ⟨elements⟩ := signedDataFields_eq_some.mp h
  rw [elements.normalize_eq]
  cases hdedupe : dedupeSignedDataCertificateSet data with
  | none => rfl
  | some deduped =>
    obtain ⟨_, _, _, _, -, -, -, -, tlvs, htlvs, hrepeated⟩ := elements.of_dedupe hdedupe
    exact absurd (hnodup tlvs htlvs) hrepeated

/-- Normalizing a `ContentInfo` keeps its signer infos. -/
theorem fields_normalize {data : List UInt8} {fields : List Tlv} {last : Tlv}
    (h : signedDataFields data = some fields) (hlast : fields.getLast? = some last)
    (htag : last.tag ≠ 0xa0) :
    ∃ fields', signedDataFields (normalizePkcs7DerForAuthenticode data) = some fields' ∧
      fields'.getLast? = some last := by
  obtain ⟨elements⟩ := signedDataFields_eq_some.mp h
  rw [elements.normalize_eq]
  cases hdedupe : dedupeSignedDataCertificateSet data with
  | none => exact ⟨fields, h, hlast⟩
  | some deduped =>
    obtain ⟨before, certificates, after, kept, rfl, hcertificates, -, hkept, -⟩ :=
      elements.of_dedupe hdedupe
    refine ⟨before ++ kept :: after, signedDataFields_eq_some.mpr hkept, ?_⟩
    cases after with
    | nil =>
      rw [List.getLast?_concat] at hlast
      exact absurd (Option.some.inj hlast ▸ hcertificates) htag
    | cons first after =>
      rw [List.getLast?_append_cons, List.getLast?_cons_cons] at hlast ⊢
      exact hlast

end Psign.Sip
