import Psign.Sip.CatalogDer

/-!
# A catalog that was written is read back

The writer of a catalog emits nested elements with the shortest lengths.
`children_rawOf` is the lemma about reading them: a byte string that is the
concatenation of such elements is cut into exactly these.  With it the walk of the
reader is followed down the tree: an entry is recognised and gives its member back
(`memberOfSequence_entry`), the other parts of the trust list hold none
(`collect_ctl`).

`catalog_round_trip` puts this together with the writing of the entries: what
`catalog_members_bytes` returns is what the catalog was created with, every file of
the catalog verifies, and a file verifies only with the digest of a member.
-/

namespace Psign.Sip

open CodeLib CodeLib.Der CodeLib.RustStr CodeLib.Unicode

/-! ## Lengths and elements -/

/-- The shortest spelling of a number does not start with a zero byte. -/
theorem head?_beBytes {width n : Nat} (hn : n ≠ 0) (hlt : n < 256 ^ width) :
    (Der.beBytes width n).head? ≠ some 0 := by
  induction width generalizing n with
  | zero =>
    rw [Nat.pow_zero] at hlt
    omega
  | succ width ih =>
    rw [Der.beBytes, if_neg hn]
    by_cases hsmall : n / 256 = 0
    · have hbyte : n % 256 = n := Nat.mod_eq_of_lt (by omega)
      have hrest : Der.beBytes width (n / 256) = [] := by
        cases width <;> simp [Der.beBytes, hsmall]
      rw [hrest, List.nil_append, hbyte]
      intro hzero
      have := congrArg UInt8.toNat (Option.some.inj hzero)
      simp only [UInt8.toNat_ofNat', UInt8.toNat_zero] at this
      omega
    · have hquot : n / 256 < 256 ^ width := by
        rw [Nat.pow_succ] at hlt
        exact Nat.div_lt_of_lt_mul (by omega)
      rw [List.head?_append]
      cases hhead : (Der.beBytes width (n / 256)).head? with
      | none =>
        cases width with
        | zero => simp at hquot; omega
        | succ width =>
          exact absurd (List.head?_eq_none_iff.mp hhead) (beBytes_ne_nil hsmall)
      | some byte =>
        rw [Option.some_or, ← hhead]
        exact ih hsmall hquot

/-- The reader takes the length that the writer wrote. -/
theorem derLenAt_encodeLength (before after : List UInt8) {n : Nat} (hn : n < 2 ^ 64) :
    derLenAt (before ++ (encodeLength n ++ after)) before.length =
      .ok (n, (encodeLength n).length) := by
  by_cases hshort : n < 128
  · have hbyte : (UInt8.ofNat n).toNat = n := by
      rw [UInt8.toNat_ofNat']
      omega
    have hlen : encodeLength n = [UInt8.ofNat n] := if_pos hshort
    simp [derLenAt, hlen, hbyte, hshort]
  · have hwidth : n < 256 ^ 8 := by
      have hpow : 256 ^ 8 = 2 ^ 64 := by decide
      omega
    have hlength : (Der.beBytes 8 n).length ≤ 8 := length_beBytes_le hwidth
    have hpos : 0 < (Der.beBytes 8 n).length :=
      List.length_pos_iff.mpr (beBytes_ne_nil (by omega))
    have hbyte : (UInt8.ofNat (128 + (Der.beBytes 8 n).length)).toNat =
        128 + (Der.beBytes 8 n).length := by
      rw [UInt8.toNat_ofNat']
      omega
    have hlen : encodeLength n = UInt8.ofNat (128 + (Der.beBytes 8 n).length) :: Der.beBytes 8 n :=
      if_neg hshort
    have hslice := Bytes.slice_middle
      (before ++ [UInt8.ofNat (128 + (Der.beBytes 8 n).length)]) (Der.beBytes 8 n) after
    rw [List.append_assoc, List.length_append, List.length_singleton] at hslice
    have hfirst : (before ++ (encodeLength n ++ after))[before.length]? =
        some (UInt8.ofNat (128 + (Der.beBytes 8 n).length)) := by
      simp [hlen]
    unfold derLenAt
    rw [hfirst]
    simp only [hbyte, Nat.add_sub_cancel_left, hlen, List.cons_append]
    rw [if_neg (by omega), if_neg (by omega), if_neg (by omega), ← List.singleton_append, hslice]
    simp only [head?_beBytes (show n ≠ 0 by omega) hwidth, if_false, beNat_beBytes hwidth,
      List.length_cons, Nat.add_comm]

/-- An element with the shortest length. -/
def element (tag : UInt8) (value : List UInt8) : Tlv :=
  ⟨tag, derTlv tag value, value⟩

theorem length_derTlv (tag : UInt8) (value : List UInt8) :
    (derTlv tag value).length = 1 + (encodeLength value.length).length + value.length := by
  rw [derTlv, encodeTlv, List.length_cons, List.length_append]
  omega

/-- The reader takes the element that the writer wrote. -/
theorem tlvAt_derTlv (before after : List UInt8) (tag : UInt8) (value : List UInt8)
    (hlen : (before ++ (derTlv tag value ++ after)).length < 2 ^ 64) :
    tlvAt (before ++ (derTlv tag value ++ after)) before.length =
      .ok (element tag value, before.length + (derTlv tag value).length) := by
  have htotal := length_derTlv tag value
  simp only [List.length_append] at hlen
  have htag : (before ++ (derTlv tag value ++ after))[before.length]? = some tag := by
    simp [derTlv, encodeTlv]
  have hlength := derLenAt_encodeLength (before ++ [tag]) (value ++ after)
    (show value.length < 2 ^ 64 by omega)
  have hvalue := Bytes.slice_middle (before ++ tag :: encodeLength value.length) value after
  have hfull := Bytes.slice_middle before (derTlv tag value) after
  have hshape : before ++ (derTlv tag value ++ after) =
      before ++ [tag] ++ (encodeLength value.length ++ (value ++ after)) := by
    simp [derTlv, encodeTlv]
  have hshape' : before ++ (derTlv tag value ++ after) =
      (before ++ tag :: encodeLength value.length) ++ (value ++ after) := by
    simp [derTlv, encodeTlv]
  rw [← hshape, List.length_append, List.length_singleton] at hlength
  rw [← hshape', List.length_append, List.length_cons] at hvalue
  unfold tlvAt
  rw [htag, hlength]
  have hstart : before.length + (1 + (encodeLength value.length).length) =
      before.length + ((encodeLength value.length).length + 1) := by omega
  have hend : before.length + ((encodeLength value.length).length + 1) + value.length =
      before.length + (derTlv tag value).length := by omega
  simp only [Outcome.ofOption, Outcome.ok_bind, hstart, hend]
  rw [hend] at hvalue
  rw [Outcome.guardThat_of (by omega), Outcome.ok_bind, Outcome.guardThat_of (by omega),
    Outcome.ok_bind, hvalue, hfull]
  rfl

/-- An element as the writer writes it. -/
def Written (tlv : Tlv) : Prop :=
  tlv.raw = derTlv tlv.tag tlv.value

theorem written_element (tag : UInt8) (value : List UInt8) : Written (element tag value) := rfl

theorem eq_element_of_written {tlv : Tlv} (h : Written tlv) : tlv = element tlv.tag tlv.value := by
  unfold Written at h
  rw [element, ← h]

private theorem childrenFrom_rawOf {tlvs : List Tlv} (hwritten : ∀ tlv ∈ tlvs, Written tlv)
    (before : List UInt8) (hlen : (before ++ rawOf tlvs).length < 2 ^ 64) {fuel : Nat}
    (hfuel : (rawOf tlvs).length ≤ fuel) :
    childrenFrom (before ++ rawOf tlvs) fuel before.length = .ok tlvs := by
  induction tlvs generalizing before fuel with
  | nil => cases fuel <;> simp [childrenFrom]
  | cons tlv tlvs ih =>
    have htlv := eq_element_of_written (hwritten tlv List.mem_cons_self)
    have hraw : tlv.raw = derTlv tlv.tag tlv.value := hwritten tlv List.mem_cons_self
    have hpos := length_derTlv tlv.tag tlv.value
    rw [rawOf_cons, hraw, List.length_append] at hfuel
    cases fuel with
    | zero => omega
    | succ fuel =>
      rw [rawOf_cons, hraw] at hlen ⊢
      have hin : before.length < (before ++ (derTlv tlv.tag tlv.value ++ rawOf tlvs)).length := by
        simp only [List.length_append]
        omega
      have hrest := @ih (fun other hother => hwritten other (List.mem_cons_of_mem _ hother))
        (before ++ derTlv tlv.tag tlv.value) (by rwa [List.append_assoc]) fuel (by omega)
      rw [List.append_assoc, List.length_append] at hrest
      rw [childrenFrom, if_pos hin, tlvAt_derTlv before (rawOf tlvs) tlv.tag tlv.value hlen]
      simp only [Outcome.ok_bind, hrest, ← htlv]
      rfl

/-- A concatenation of written elements is cut into these. -/
theorem children_rawOf {tlvs : List Tlv} (hwritten : ∀ tlv ∈ tlvs, Written tlv)
    (hlen : (rawOf tlvs).length < 2 ^ 64) : children (rawOf tlvs) = .ok tlvs :=
  childrenFrom_rawOf hwritten [] hlen (Nat.le_refl _)

theorem length_value_lt {tlv : Tlv} (h : Written tlv) : tlv.value.length < tlv.raw.length := by
  rw [h, length_derTlv]
  omega

theorem length_raw_le {tlvs : List Tlv} {tlv : Tlv} (h : tlv ∈ tlvs) :
    tlv.raw.length ≤ (rawOf tlvs).length := by
  unfold rawOf
  exact (List.sublist_flatten_of_mem (List.mem_map_of_mem h)).length_le

/-! ## Entries -/

variable (crates : CatalogCrates) (spcOid : List UInt8)

/-- The attribute of an entry, around the contents octets of an
`SpcIndirectDataContent`. -/
def attributeElement (spcBody : List UInt8) : Tlv :=
  element tagSequence (rawOf [element tagObjectIdentifier spcOid,
    element tagSet (rawOf [element tagSequence spcBody])])

/-- The entry of a file. -/
def entryElement (subjectIdentifier spcBody : List UInt8) : Tlv :=
  element tagSequence (rawOf [element tagOctetString subjectIdentifier,
    element tagSet (rawOf [attributeElement spcOid spcBody])])

/-- The entry of a member. -/
def IsEntry (tlv : Tlv) (member : CatalogMember) : Prop :=
  ∃ spcBody indirect, tlv = entryElement spcOid member.subjectIdentifier spcBody ∧
    crates.spcFromDer (derTlv tagSequence spcBody) = .ok indirect ∧
    member = {
      subjectIdentifier := member.subjectIdentifier
      subjectName := decodeUtf16leSubjectIdentifier member.subjectIdentifier
      dataOid := indirect.valueType
      digestAlgorithmOid := indirect.digestAlgorithm.oid
      digest := indirect.digest }

/-- The elements of a written element. -/
theorem children_element {tag : UInt8} {tlvs : List Tlv} (hwritten : ∀ tlv ∈ tlvs, Written tlv)
    (hlen : (element tag (rawOf tlvs)).raw.length < 2 ^ 64) :
    children (element tag (rawOf tlvs)).value = .ok tlvs :=
  children_rawOf hwritten
    (Nat.lt_trans (length_value_lt (written_element tag (rawOf tlvs))) hlen)

/-- An element below a written element is shorter. -/
theorem length_raw_lt_of_mem {tag : UInt8} {tlvs : List Tlv} {tlv : Tlv} (h : tlv ∈ tlvs) :
    tlv.raw.length < (element tag (rawOf tlvs)).raw.length :=
  Nat.lt_of_le_of_lt (length_raw_le h) (length_value_lt (written_element tag (rawOf tlvs)))

theorem spcIndirectFromAttributeSequence_attribute {spcBody : List UInt8}
    {indirect : SpcIndirectDataContent}
    (hspc : crates.spcFromDer (derTlv tagSequence spcBody) = .ok indirect)
    (hlen : (attributeElement spcOid spcBody).raw.length < 2 ^ 64) :
    spcIndirectFromAttributeSequence crates (attributeElement spcOid spcBody).value spcOid =
      .ok (some indirect) := by
  have hset : (element tagSet (rawOf [element tagSequence spcBody])).raw.length < 2 ^ 64 :=
    Nat.lt_trans (length_raw_lt_of_mem (by simp)) hlen
  have hraw : crates.spcFromDer (element tagSequence spcBody).raw = .ok indirect := hspc
  unfold spcIndirectFromAttributeSequence attributeElement
  rw [children_element (by simp [written_element]) hlen, Outcome.ok_bind]
  show (if _ then _ else _) = _
  rw [if_neg (by simp [element]), children_element (by simp [written_element]) hset,
    Outcome.ok_bind, List.find?_cons_of_pos (by simp [element])]
  show ((crates.spcFromDer (element tagSequence spcBody).raw).mapErr _ >>= _) = _
  rw [hraw]
  rfl

/-- The content of an entry is found below it. -/
theorem findSpcIndirect_entry {subjectIdentifier spcBody : List UInt8}
    {indirect : SpcIndirectDataContent}
    (hspc : crates.spcFromDer (derTlv tagSequence spcBody) = .ok indirect)
    (hlen : (entryElement spcOid subjectIdentifier spcBody).raw.length < 2 ^ 64) (depth : Nat) :
    findSpcIndirectInMemberSequence crates spcOid (depth + 2)
      (entryElement spcOid subjectIdentifier spcBody).value = .ok (some indirect) := by
  have hset : (element tagSet (rawOf [attributeElement spcOid spcBody])).raw.length < 2 ^ 64 :=
    Nat.lt_trans (length_raw_lt_of_mem (by simp)) hlen
  have hattribute : (attributeElement spcOid spcBody).raw.length < 2 ^ 64 :=
    Nat.lt_trans (length_raw_lt_of_mem (by simp)) hset
  -- one level down, the SET holds the attribute
  have hbelow : findSpcIndirectInMemberSequence crates spcOid (depth + 1)
      (element tagSet (rawOf [attributeElement spcOid spcBody])).value = .ok (some indirect) := by
    rw [findSpcIndirectInMemberSequence,
      children_element (by simp [attributeElement, written_element]) hset, Outcome.ok_bind,
      findInChildren,
      if_pos (show (attributeElement spcOid spcBody).tag = tagSequence from rfl),
      spcIndirectFromAttributeSequence_attribute crates spcOid hspc hattribute]
    rfl
  rw [findSpcIndirectInMemberSequence, entryElement,
    children_element (by simp [written_element]) hlen, Outcome.ok_bind, findInChildren,
    if_neg (by exact (by decide : tagOctetString ≠ tagSequence)),
    if_neg (by exact (by decide : ¬ (tagOctetString = tagSequence ∨ tagOctetString = tagSet))),
    Outcome.ok_bind, Outcome.ok_bind]
  show findInChildren crates _ spcOid [element tagSet _] = _
  rw [findInChildren, if_neg (by exact (by decide : tagSet ≠ tagSequence)),
    if_pos (by exact Or.inr rfl), hbelow]
  rfl

/-- An entry gives its member back. -/
theorem memberOfSequence_entry {tlv : Tlv} {member : CatalogMember}
    (h : IsEntry crates spcOid tlv member) (hlen : tlv.raw.length < 2 ^ 64) :
    memberOfSequence crates spcOid tlv.value
      (element tagOctetString member.subjectIdentifier) = .ok (some member) := by
  obtain ⟨spcBody, indirect, rfl, hspc, hmember⟩ := h
  have hpos : ∃ depth, (entryElement spcOid member.subjectIdentifier spcBody).value.length + 1 =
      depth + 2 := by
    refine ⟨(entryElement spcOid member.subjectIdentifier spcBody).value.length - 1, ?_⟩
    simp only [entryElement, element, rawOf_cons, List.length_append, length_derTlv]
    omega
  obtain ⟨depth, hdepth⟩ := hpos
  rw [memberOfSequence, hdepth, findSpcIndirect_entry crates spcOid hspc hlen, Outcome.ok_bind]
  rw [hmember]
  rfl

/-- The entries give their members back, in their order. -/
theorem collectInChildren_entries {below : List UInt8 → Outcome (List CatalogMember)}
    {tlvs : List Tlv} {members : List CatalogMember}
    (h : List.Forall₂ (IsEntry crates spcOid) tlvs members)
    (hlen : (rawOf tlvs).length < 2 ^ 64) :
    collectInChildren crates below spcOid tlvs = .ok members := by
  induction h with
  | nil => rfl
  | @cons tlv member tlvs members hentry _ ih =>
    rw [rawOf_cons, List.length_append] at hlen
    have hraw : tlv.raw.length < 2 ^ 64 := by omega
    have hmember := memberOfSequence_entry crates spcOid hentry hraw
    obtain ⟨spcBody, indirect, rfl, hspc, -⟩ := hentry
    have hchildren : children (entryElement spcOid member.subjectIdentifier spcBody).value =
        .ok [element tagOctetString member.subjectIdentifier,
          element tagSet (rawOf [attributeElement spcOid spcBody])] :=
      children_element (by simp [written_element]) hraw
    rw [collectInChildren, if_neg (by simp [entryElement, element]), hchildren, Outcome.ok_bind]
    simp only [List.head?_cons]
    rw [if_pos (by rfl), hmember, Outcome.ok_bind, ih (by omega)]
    rfl

theorem written_entries {tlvs : List Tlv} {members : List CatalogMember}
    (h : List.Forall₂ (IsEntry crates spcOid) tlvs members) :
    ∀ tlv ∈ tlvs, Written tlv ∧ tlv.tag = tagSequence := by
  induction h with
  | nil => exact fun _ h => absurd h List.not_mem_nil
  | cons hentry _ ih =>
    obtain ⟨spcBody, indirect, rfl, -⟩ := hentry
    exact List.forall_mem_cons.mpr ⟨⟨rfl, rfl⟩, ih⟩

/-- Elements that are no SEQUENCE are passed over. -/
theorem collectInChildren_pass {below : List UInt8 → Outcome (List CatalogMember)} {tlvs : List Tlv}
    (h : ∀ tlv ∈ tlvs, tlv.tag ≠ tagSequence) : collectInChildren crates below spcOid tlvs = .ok [] := by
  induction tlvs with
  | nil => rfl
  | cons tlv tlvs ih =>
    rw [collectInChildren, if_pos (h tlv List.mem_cons_self)]
    exact ih fun other hother => h other (List.mem_cons_of_mem _ hother)

/-- A SEQUENCE that starts with another element than an OCTET STRING is walked into. -/
theorem collectInChildren_into {below : List UInt8 → Outcome (List CatalogMember)} {first : Tlv}
    {tlvs rest : List Tlv} {nested members : List CatalogMember}
    (hwritten : ∀ tlv ∈ first :: tlvs, Written tlv) (hfirst : first.tag ≠ tagOctetString)
    (hlen : (element tagSequence (rawOf (first :: tlvs))).raw.length < 2 ^ 64)
    (hnested : below (rawOf (first :: tlvs)) = .ok nested)
    (hrest : collectInChildren crates below spcOid rest = .ok members) :
    collectInChildren crates below spcOid (element tagSequence (rawOf (first :: tlvs)) :: rest) =
      .ok (nested ++ members) := by
  rw [collectInChildren, if_neg (by simp [element]), children_element hwritten hlen,
    Outcome.ok_bind]
  simp only [List.head?_cons]
  rw [if_neg hfirst, Outcome.ok_bind]
  show (below (rawOf (first :: tlvs)) >>= _) = _
  rw [hnested, Outcome.ok_bind, hrest]
  rfl

/-- The elements of a trust list. -/
def ctlElements (usageBody listIdentifier subjectAlgBody : List UInt8) (entries : List Tlv) :
    List Tlv :=
  [element tagSequence (rawOf [element tagObjectIdentifier usageBody]),
    element tagOctetString listIdentifier,
    element 0x17 catalogThisUpdateUtc,
    element tagSequence (rawOf [element tagObjectIdentifier subjectAlgBody, element 0x05 []]),
    element tagSequence (rawOf entries)]

/-- The walk finds the members of the entries in a trust list, and no others. -/
theorem collect_ctl {usageBody listIdentifier subjectAlgBody : List UInt8} {entries : List Tlv}
    {members : List CatalogMember} (hne : entries ≠ [])
    (hentries : List.Forall₂ (IsEntry crates spcOid) entries members)
    (hlen : (rawOf (ctlElements usageBody listIdentifier subjectAlgBody entries)).length < 2 ^ 64)
    (depth : Nat) :
    collectCatalogMembersFromSequence crates spcOid (depth + 2)
      (rawOf (ctlElements usageBody listIdentifier subjectAlgBody entries)) = .ok members := by
  have hraw : ∀ tlv ∈ ctlElements usageBody listIdentifier subjectAlgBody entries,
      tlv.raw.length < 2 ^ 64 := fun tlv htlv => Nat.lt_of_le_of_lt (length_raw_le htlv) hlen
  -- the two SEQUENCEs in front of the entries hold no SEQUENCE
  have hplain : ∀ tlvs : List Tlv, (∀ tlv ∈ tlvs, Written tlv ∧ tlv.tag ≠ tagSequence) →
      (rawOf tlvs).length < 2 ^ 64 →
      collectCatalogMembersFromSequence crates spcOid (depth + 1) (rawOf tlvs) = .ok [] := by
    intro tlvs htlvs hlength
    rw [collectCatalogMembersFromSequence,
      children_rawOf (fun tlv htlv => (htlvs tlv htlv).1) hlength, Outcome.ok_bind,
      collectInChildren_pass crates spcOid fun tlv htlv => (htlvs tlv htlv).2]
  have hshape := written_entries crates spcOid hentries
  have hplainLength : ∀ tlvs : List Tlv, element tagSequence (rawOf tlvs) ∈
      ctlElements usageBody listIdentifier subjectAlgBody entries →
      (rawOf tlvs).length < 2 ^ 64 := fun tlvs htlvs =>
    Nat.lt_trans (length_value_lt (written_element tagSequence _)) (hraw _ htlvs)
  have husage : element tagSequence (rawOf [element tagObjectIdentifier usageBody]) ∈
      ctlElements usageBody listIdentifier subjectAlgBody entries :=
    List.mem_of_getElem? (i := 0) rfl
  have hsubjectAlg : element tagSequence
      (rawOf [element tagObjectIdentifier subjectAlgBody, element 0x05 []]) ∈
      ctlElements usageBody listIdentifier subjectAlgBody entries :=
    List.mem_of_getElem? (i := 3) rfl
  have htrusted : element tagSequence (rawOf entries) ∈
      ctlElements usageBody listIdentifier subjectAlgBody entries :=
    List.mem_of_getElem? (i := 4) rfl
  have hoid : tagObjectIdentifier ≠ tagOctetString := by decide
  have hoid' : tagObjectIdentifier ≠ tagSequence := by decide
  have hlast : collectInChildren crates (collectCatalogMembersFromSequence crates spcOid (depth + 1))
      spcOid [element tagSequence (rawOf entries)] = .ok members := by
    have hbelow : collectCatalogMembersFromSequence crates spcOid (depth + 1) (rawOf entries) =
        .ok members := by
      rw [collectCatalogMembersFromSequence,
        children_rawOf (fun tlv h => (hshape tlv h).1) (hplainLength _ htrusted), Outcome.ok_bind,
        collectInChildren_entries crates spcOid hentries (hplainLength _ htrusted)]
    obtain ⟨first, rest, rfl⟩ := List.exists_cons_of_ne_nil hne
    rw [collectInChildren_into crates spcOid (fun tlv h => (hshape tlv h).1)
      (by rw [(hshape first List.mem_cons_self).2]; decide) (hraw _ htrusted) hbelow rfl,
      List.append_nil]
  rw [collectCatalogMembersFromSequence, children_rawOf (by simp [ctlElements, written_element]) hlen,
    Outcome.ok_bind, ctlElements]
  apply collectInChildren_into crates spcOid (by simp [written_element]) hoid (hraw _ husage)
    (hplain _ (List.forall_mem_singleton.mpr ⟨rfl, hoid'⟩) (hplainLength _ husage))
  rw [collectInChildren, if_pos (by exact (by decide : tagOctetString ≠ tagSequence)),
    collectInChildren, if_pos (by exact (by decide : (0x17 : UInt8) ≠ tagSequence))]
  apply collectInChildren_into crates spcOid (by simp [written_element]) hoid (hraw _ hsubjectAlg)
    (hplain _ (List.forall_mem_cons.mpr ⟨⟨rfl, hoid'⟩, List.forall_mem_singleton.mpr
      ⟨rfl, by exact (by decide : (0x05 : UInt8) ≠ tagSequence)⟩⟩) (hplainLength _ hsubjectAlg))
  exact hlast

/-! ## Names -/

theorem ne_zero_of_mem_utf16Units {c : Char} (hc : c ≠ '\x00') : ∀ u ∈ utf16Units c, u ≠ 0 := by
  intro u hu hzero
  have hvalid := toNat_valid c
  subst hzero
  unfold utf16Units at hu
  by_cases hbmp : c.toNat < 0x10000
  · rw [if_pos hbmp, List.mem_singleton] at hu
    have hnat := congrArg UInt16.toNat hu
    rw [toNat_unit hbmp] at hnat
    exact hc (Char.toNat_inj.mp (by simpa using hnat.symm))
  · rw [if_neg hbmp] at hu
    rcases List.mem_pair.mp hu with hu | hu
    · have hnat := congrArg UInt16.toNat hu
      rw [UInt16.toNat_ofNat'] at hnat
      simp only [UInt16.toNat_zero] at hnat
      omega
    · have hnat := congrArg UInt16.toNat hu
      rw [UInt16.toNat_ofNat'] at hnat
      simp only [UInt16.toNat_zero] at hnat
      omega

theorem ne_zero_of_mem_encodeUtf16 {text : List Char} (h : '\x00' ∉ text) :
    ∀ u ∈ encodeUtf16 text, u ≠ 0 := by
  intro u hu
  obtain ⟨c, hc, hunit⟩ := List.mem_flatMap.mp hu
  exact ne_zero_of_mem_utf16Units (fun heq => h (heq ▸ hc)) u hunit

/-- The name that an identifier was made of. -/
theorem decode_subjectIdentifier {name : List Char} {subjectIdentifier : List UInt8}
    (h : catalogSubjectIdentifier name = .ok subjectIdentifier) :
    decodeUtf16leSubjectIdentifier subjectIdentifier = some name := by
  obtain ⟨-, h⟩ := Outcome.guardThat_bind_eq_ok.mp h
  obtain ⟨hnul, h⟩ := Outcome.guardThat_bind_eq_ok.mp h
  cases Except.ok.inj h
  have heven : (utf16leBytes (encodeUtf16 ('<' :: name ++ ['>', '\x00']))).length % 2 = 0 := by
    rw [utf16leBytes, List.length_flatMap]
    simp [leBytes, Nat.mul_comm]
  have hunits : encodeUtf16 ('<' :: name ++ ['>', '\x00']) =
      encodeUtf16 ('<' :: name ++ ['>']) ++ [0] := by
    have hsplit : '<' :: name ++ ['>', '\x00'] = ('<' :: name ++ ['>']) ++ ['\x00'] := by simp
    rw [hsplit, encodeUtf16, List.flatMap_append, ← encodeUtf16]
    rfl
  have hnonzero : ∀ u ∈ encodeUtf16 ('<' :: name ++ ['>']), decide (u ≠ 0) = true := by
    intro u hu
    have htext : '\x00' ∉ '<' :: name ++ ['>'] := by simp [hnul]
    exact decide_eq_true (ne_zero_of_mem_encodeUtf16 htext u hu)
  unfold decodeUtf16leSubjectIdentifier
  rw [if_neg (fun hodd => hodd heven), mapPairs_utf16leBytes, hunits]
  simp only [List.takeWhile_append_of_pos hnonzero]
  simp [fromUtf16_encodeUtf16, stripPrefix, stripSuffix]

/-! ## Writing the entries -/

/-- The member of a file. -/
structure MemberOf (algorithm : CatalogHashAlgorithm) (subject : CatalogSubjectInput)
    (member : CatalogMember) : Prop where
  subjectName : member.subjectName = some subject.name
  subjectIdentifier : catalogSubjectIdentifier subject.name = .ok member.subjectIdentifier
  digestAlgorithmOid : member.digestAlgorithmOid = algorithm.digestAlgorithmOid
  digest : catalogMemberDigestForSubject crates.parser crates.hashes member subject.bytes =
    .ok member.digest

/-- The content that is written for a file. -/
theorem catalogSubjectIndirectData_spec (algorithm : CatalogHashAlgorithm) (bytes : List UInt8) :
    ∃ indirect, catalogSubjectIndirectData crates algorithm bytes =
        .ok (indirect, indirect.valueType, indirect.digest) ∧
      IsCatalogContent indirect ∧ indirect.digestAlgorithm = algorithm.digestAlgorithmIdentifier ∧
      ∀ member : CatalogMember, member.dataOid = indirect.valueType →
        member.digestAlgorithmOid = algorithm.digestAlgorithmOid →
        catalogMemberDigestForSubject crates.parser crates.hashes member bytes =
          .ok indirect.digest := by
  unfold catalogSubjectIndirectData
  cases hpe : peAuthenticodeDigest crates.parser crates.hashes bytes algorithm.peHashKind with
  | ok peDigest =>
    have hlength : peDigest.length = algorithm.peHashKind.digestOutputLen := by
      obtain ⟨stream, -, hdigest⟩ := Outcome.bind_eq_ok.mp hpe
      cases Except.ok.inj hdigest
      exact crates.hashes.length_hash _ _
    refine ⟨_, ?_, .pe algorithm hlength, rfl, ?_⟩
    · simp only [catalogPeSpcIndirectData, catalogSpcIndirectData]
      rw [Outcome.guardThat_of hlength]
      rfl
    · intro member hoid halgorithm
      unfold catalogMemberDigestForSubject
      rw [halgorithm, digestKindFromDigestAlgOid_digestAlgorithmOid, Outcome.ok_bind, if_pos hoid,
        hpe]
      rfl
  | error failure =>
    have hlength : (hashSubjectBytes crates.hashes algorithm bytes).length =
        algorithm.peHashKind.digestOutputLen := crates.hashes.length_hash _ _
    refine ⟨_, ?_, .generic algorithm hlength, rfl, ?_⟩
    · simp only [catalogGenericSpcIndirectData, catalogSpcIndirectData]
      rw [Outcome.guardThat_of hlength]
      rfl
    · intro member hoid halgorithm
      have hnot : member.dataOid ≠ idSpcPeImageData := by
        rw [hoid]
        show idSpcCabData ≠ idSpcPeImageData
        decide
      unfold catalogMemberDigestForSubject
      rw [halgorithm, digestKindFromDigestAlgOid_digestAlgorithmOid, Outcome.ok_bind, if_neg hnot]
      cases algorithm <;> rfl

/-- A file with a proper name gets an entry, which is the entry of its member. -/
theorem catalogEntry_spec (algorithm : CatalogHashAlgorithm) {subject : CatalogSubjectInput}
    (hoid : crates.oidToDer idSpcIndirectData = .ok (derTlv tagObjectIdentifier spcOid))
    (hne : subject.name ≠ []) (hnul : '\x00' ∉ subject.name) :
    ∃ tlv member, catalogEntry crates algorithm subject = .ok (tlv.raw, member) ∧
      IsEntry crates spcOid tlv member ∧ MemberOf crates algorithm subject member := by
  obtain ⟨subjectIdentifier, hidentifier⟩ :
      ∃ subjectIdentifier, catalogSubjectIdentifier subject.name = .ok subjectIdentifier :=
    ⟨_, by rw [catalogSubjectIdentifier, Outcome.guardThat_of hne, Outcome.ok_bind,
      Outcome.guardThat_of hnul]; rfl⟩
  obtain ⟨indirect, hindirect, hcontent, halgorithm, hdigest⟩ :=
    catalogSubjectIndirectData_spec crates algorithm subject.bytes
  obtain ⟨spcBody, hspc⟩ := crates.spcToDer_eq hcontent
  have hname := decode_subjectIdentifier hidentifier
  refine ⟨entryElement spcOid subjectIdentifier spcBody, {
    subjectName := decodeUtf16leSubjectIdentifier subjectIdentifier
    subjectIdentifier
    dataOid := indirect.valueType
    digestAlgorithmOid := algorithm.digestAlgorithmOid
    digest := indirect.digest }, ?_, ?_, ?_⟩
  · simp only [catalogEntry, hidentifier, Outcome.ok_bind, hindirect, catalogCtlEntryDer, hspc,
      derOid, hoid, Outcome.mapErr]
    rfl
  · refine ⟨spcBody, indirect, rfl, crates.spcFromDer_spcToDer hcontent hspc, ?_⟩
    rw [halgorithm]
    rfl
  · exact ⟨hname, hidentifier, rfl, hdigest _ rfl rfl⟩

/-- The names that a catalog can be made of. -/
structure CatalogNames (subjects : List CatalogSubjectInput) : Prop where
  ne_nil : ∀ subject ∈ subjects, subject.name ≠ []
  nul_not_mem : ∀ subject ∈ subjects, '\x00' ∉ subject.name
  nodup : (subjects.map fun subject => toAsciiLowercase subject.name).Nodup

theorem catalogEntries_spec (algorithm : CatalogHashAlgorithm)
    (hoid : crates.oidToDer idSpcIndirectData = .ok (derTlv tagObjectIdentifier spcOid))
    {subjects : List CatalogSubjectInput} (hnames : CatalogNames subjects) (seen : List (List Char))
    (hseen : ∀ subject ∈ subjects, toAsciiLowercase subject.name ∉ seen) :
    ∃ tlvs members, catalogEntries crates algorithm seen subjects =
        .ok ((tlvs.map Tlv.raw).zip members) ∧
      List.Forall₂ (IsEntry crates spcOid) tlvs members ∧
      List.Forall₂ (MemberOf crates algorithm) subjects members := by
  induction subjects generalizing seen with
  | nil => exact ⟨[], [], rfl, .nil, .nil⟩
  | cons subject subjects ih =>
    have hnodup := hnames.nodup
    rw [List.map_cons, List.nodup_cons] at hnodup
    have hrest : CatalogNames subjects :=
      ⟨fun s hs => hnames.ne_nil s (List.mem_cons_of_mem _ hs),
        fun s hs => hnames.nul_not_mem s (List.mem_cons_of_mem _ hs), hnodup.2⟩
    have hseen' : ∀ s ∈ subjects, toAsciiLowercase s.name ∉ toAsciiLowercase subject.name :: seen := by
      intro s hs hmem
      rcases List.mem_cons.mp hmem with hsame | hmem
      · exact hnodup.1 (List.mem_map.mpr ⟨s, hs, hsame⟩)
      · exact hseen s (List.mem_cons_of_mem _ hs) hmem
    obtain ⟨tlv, member, hentry, hisEntry, hmember⟩ := catalogEntry_spec crates spcOid
      algorithm hoid (hnames.ne_nil subject List.mem_cons_self)
      (hnames.nul_not_mem subject List.mem_cons_self)
    obtain ⟨tlvs, members, hentries, hisEntries, hmembers⟩ := ih hrest _ hseen'
    refine ⟨tlv :: tlvs, member :: members, ?_, .cons hisEntry hisEntries, .cons hmember hmembers⟩
    rw [catalogEntries]
    simp only [Outcome.guardThat_of (hseen subject List.mem_cons_self), Outcome.ok_bind, hentry,
      hentries]
    rfl

/-- The trust list of files with proper names: its elements, and the members. -/
theorem createCatalogCtl_spec (algorithm : CatalogHashAlgorithm)
    (hoid : crates.oidToDer idSpcIndirectData = .ok (derTlv tagObjectIdentifier spcOid))
    {subjects : List CatalogSubjectInput} (hne : subjects ≠ []) (hnames : CatalogNames subjects) :
    ∃ usageBody listIdentifier subjectAlgBody tlvs members,
      createCatalogCtlEcontentDerWithHash crates subjects algorithm =
        .ok (derTlv tagSequence
          (rawOf (ctlElements usageBody listIdentifier subjectAlgBody tlvs)), members) ∧
      List.Forall₂ (IsEntry crates spcOid) tlvs members ∧
      List.Forall₂ (MemberOf crates algorithm) subjects members := by
  obtain ⟨usageBody, husage, -⟩ := crates.oidToDer_eq idMsCtlUsage (by simp)
  obtain ⟨subjectAlgBody, hsubjectAlg, -⟩ := crates.oidToDer_eq idMsCtlSubjectAlg (by simp)
  obtain ⟨tlvs, members, hentries, hisEntries, hmembers⟩ :=
    catalogEntries_spec crates spcOid algorithm hoid hnames [] (by simp)
  have hlength : (tlvs.map Tlv.raw).length = members.length := by
    rw [List.length_map, hisEntries.length_eq]
  refine ⟨usageBody, catalogListIdentifier crates members, subjectAlgBody, tlvs, members, ?_,
    hisEntries, hmembers⟩
  rw [createCatalogCtlEcontentDerWithHash, Outcome.guardThat_of hne, Outcome.ok_bind, hentries,
    Outcome.ok_bind]
  simp only [List.map_fst_zip (Nat.le_of_eq hlength), List.map_snd_zip (Nat.le_of_eq hlength.symm),
    derOid, husage, hsubjectAlg, Outcome.mapErr, Outcome.ok_bind]
  rfl

/-! ## The wrapping -/

/-- The shortest spelling of an element determines it. -/
theorem derTlv_append_inj {tag tag' : UInt8} {value value' rest : List UInt8}
    (h : derTlv tag value ++ rest = derTlv tag' value') (hlen : (derTlv tag' value').length < 2 ^ 32) :
    tag = tag' ∧ value = value' ∧ rest = [] := by
  have hlengths := congrArg List.length h
  rw [List.length_append, length_derTlv, length_derTlv] at hlengths
  rw [length_derTlv] at hlen
  have hpow : 256 ^ 8 = 2 ^ 64 := by decide
  have hvalue : IsTlv 8 (element tag value) := isTlv_encodeTlv (by omega) (Nat.le_refl 8)
  have hvalue' : IsTlv 8 (element tag' value') := isTlv_encodeTlv (by omega) (Nat.le_refl 8)
  have hread := hvalue.readTlv_append rest
  have hread' := hvalue'.readTlv_append []
  have hsame : (element tag value).raw ++ rest = (element tag' value').raw ++ [] := by
    rw [List.append_nil]
    exact h
  rw [hsame, hread'] at hread
  simp only [Option.some.injEq, Prod.mk.injEq, element, Tlv.mk.injEq] at hread
  exact ⟨hread.1.1.symm, hread.1.2.2.symm, hread.2.symm⟩

/-- What the catalog reader finds in a trust list that was wrapped. -/
theorem catalogSignedData_of_create {tag : UInt8} {value pkcs7Der : List UInt8}
    {algorithm : AlgorithmIdentifier}
    (h : createPkcs7UnsignedSignedDataDer crates idMsCtl (derTlv tag value) algorithm =
      .ok pkcs7Der) :
    ∃ sd any, catalogSignedData crates pkcs7Der = .ok sd ∧ sd.econtent = some any ∧
      any.value = value ∧ (derTlv tag value).length < 2 ^ 32 := by
  obtain ⟨_, -, h⟩ := Outcome.bind_eq_ok.mp h
  obtain ⟨⟨econtent, rest⟩, hany, h⟩ := Outcome.bind_eq_ok.mp h
  obtain ⟨_, -, h⟩ := Outcome.bind_eq_ok.mp h
  obtain ⟨sdDer, hsdDer, h⟩ := Outcome.bind_eq_ok.mp h
  obtain ⟨_, -, h⟩ := Outcome.bind_eq_ok.mp h
  obtain ⟨⟨content, left⟩, hcontent, h⟩ := Outcome.bind_eq_ok.mp h
  simp only [Outcome.mapErr_eq_ok] at hany hsdDer hcontent h
  obtain ⟨hreads, hlen⟩ := crates.anyDecode_reads hany
  obtain ⟨-, hvalue, -⟩ := derTlv_append_inj (hreads.symm : derTlv econtent.tag econtent.value ++ rest =
    derTlv tag value) hlen
  -- the encoding of the `SignedData` is the whole content of the `ContentInfo`
  obtain ⟨body, hbody⟩ := crates.signedDataToDer_eq hsdDer
  obtain ⟨hreads', hlen'⟩ := crates.anyDecode_reads hcontent
  have hsd : content.toDer = sdDer := by
    rw [hbody] at hreads' hlen' ⊢
    obtain ⟨htag, hval, -⟩ := derTlv_append_inj (hreads'.symm : derTlv content.tag content.value ++
      left = derTlv tagSequence body) hlen'
    rw [DerAny.toDer, htag, hval]
  obtain ⟨hreader, hdecode⟩ := crates.contentInfoDecode_toDer h
  have hsignedData := crates.signedDataFromDer_toDer rfl rfl hsdDer
  refine ⟨⟨idMsCtl, some econtent, none, []⟩, econtent, ?_, rfl, hvalue, hlen⟩
  unfold catalogSignedData
  rw [hreader, hdecode]
  simp only [Outcome.mapErr, Outcome.ok_bind, hsd, hsignedData]
  rw [Outcome.guardThat_of trivial, Outcome.ok_bind, Outcome.guardThat_of trivial]
  rfl

/-! ## Verifying -/

/-- The loop over the members finds one that has the digest of the file. -/
theorem findMember_eq_inl {subject : List UInt8} {idx : Nat} {errors : List String}
    {members : List CatalogMember} {found : CatalogMemberMatch}
    (h : findMember crates subject idx errors members = .inl found) :
    found.member ∈ members ∧ found.computedDigest = found.member.digest ∧
      catalogMemberDigestForSubject crates.parser crates.hashes found.member subject =
        .ok found.member.digest := by
  induction members generalizing idx errors with
  | nil => simp [findMember] at h
  | cons member members ih =>
    rw [findMember] at h
    cases hdigest : catalogMemberDigestForSubject crates.parser crates.hashes member subject with
    | error failure =>
      simp only [hdigest] at h
      obtain ⟨hmem, hfound⟩ := ih h
      exact ⟨List.mem_cons_of_mem _ hmem, hfound⟩
    | ok computed =>
      simp only [hdigest] at h
      by_cases hsame : computed = member.digest
      · rw [if_pos hsame] at h
        cases Sum.inl.inj h
        exact ⟨List.mem_cons_self, hsame, hsame ▸ hdigest⟩
      · rw [if_neg hsame] at h
        obtain ⟨hmem, hfound⟩ := ih h
        exact ⟨List.mem_cons_of_mem _ hmem, hfound⟩

/-- The loop over the members finds a member if there is one with the digest of the file. -/
theorem exists_findMember {subject : List UInt8} {members : List CatalogMember}
    (h : ∃ member ∈ members, catalogMemberDigestForSubject crates.parser crates.hashes member
      subject = .ok member.digest) (idx : Nat) (errors : List String) :
    ∃ found, findMember crates subject idx errors members = .inl found := by
  induction members generalizing idx errors with
  | nil => simp at h
  | cons member members ih =>
    rw [findMember]
    cases hdigest : catalogMemberDigestForSubject crates.parser crates.hashes member subject with
    | error failure =>
      apply ih
      obtain ⟨other, hother, hok⟩ := h
      rcases List.mem_cons.mp hother with rfl | hother
      · exact absurd (hdigest.symm.trans hok) (by simp)
      · exact ⟨other, hother, hok⟩
    | ok computed =>
      by_cases hsame : computed = member.digest
      · exact ⟨_, if_pos hsame⟩
      · simp only [if_neg hsame]
        apply ih
        obtain ⟨other, hother, hok⟩ := h
        rcases List.mem_cons.mp hother with rfl | hother
        · exact absurd (Except.ok.inj (hdigest.symm.trans hok)) hsame
        · exact ⟨other, hother, hok⟩

/-- A file is verified if a member has its digest, and only then. -/
theorem verifyCatalogMemberBytes_spec {catalog : List UInt8} {members : List CatalogMember}
    (hmembers : catalogMembersBytes crates catalog = .ok members) (subject : List UInt8) :
    (∃ found, verifyCatalogMemberBytes crates catalog subject = .ok found) ↔
      ∃ member ∈ members, catalogMemberDigestForSubject crates.parser crates.hashes member subject =
        .ok member.digest := by
  unfold verifyCatalogMemberBytes
  rw [hmembers, Outcome.ok_bind]
  cases hfind : findMember crates subject 0 [] members with
  | inl found =>
    obtain ⟨hmem, -, hdigest⟩ := findMember_eq_inl crates hfind
    exact iff_of_true ⟨found, rfl⟩ ⟨found.member, hmem, hdigest⟩
  | inr errors =>
    refine iff_of_false ?_ ?_
    · cases errors <;> simp
    · intro h
      obtain ⟨found, hfound⟩ := exists_findMember crates h 0 []
      exact absurd (hfind.symm.trans hfound) (by simp)

theorem exists_member_of_mem {algorithm : CatalogHashAlgorithm}
    {subjects : List CatalogSubjectInput} {members : List CatalogMember}
    (h : List.Forall₂ (MemberOf crates algorithm) subjects members) :
    ∀ subject ∈ subjects, ∃ member ∈ members, MemberOf crates algorithm subject member := by
  induction h with
  | nil => exact fun _ h => absurd h List.not_mem_nil
  | @cons subject member subjects members hmember _ ih =>
    intro other hother
    rcases List.mem_cons.mp hother with rfl | hother
    · exact ⟨member, List.mem_cons_self, hmember⟩
    · obtain ⟨found, hfound, hmemberOf⟩ := ih other hother
      exact ⟨found, List.mem_cons_of_mem _ hfound, hmemberOf⟩

/-- The reader gives back the members that a wrapped trust list was made of. -/
theorem catalogMembersBytes_of_create {algorithm : AlgorithmIdentifier}
    (hoid : crates.oidToDer idSpcIndirectData = .ok (derTlv tagObjectIdentifier spcOid))
    (hspcOid : spcOid.length < 128)
    {usageBody listIdentifier subjectAlgBody : List UInt8} {tlvs : List Tlv}
    {members : List CatalogMember} (hne : tlvs ≠ [])
    (hentries : List.Forall₂ (IsEntry crates spcOid) tlvs members) {pkcs7Der : List UInt8}
    (h : createPkcs7UnsignedSignedDataDer crates idMsCtl (derTlv tagSequence
      (rawOf (ctlElements usageBody listIdentifier subjectAlgBody tlvs))) algorithm = .ok pkcs7Der) :
    catalogMembersBytes crates pkcs7Der = .ok members := by
  obtain ⟨sd, any, hsd, hecontent, hvalue, hlen⟩ := catalogSignedData_of_create crates h
  rw [length_derTlv] at hlen
  have hdepth : ∃ depth, (rawOf (ctlElements usageBody listIdentifier subjectAlgBody tlvs)).length +
      1 = depth + 2 := by
    refine ⟨(rawOf (ctlElements usageBody listIdentifier subjectAlgBody tlvs)).length - 1, ?_⟩
    simp only [ctlElements, element, rawOf_cons, List.length_append, length_derTlv]
    omega
  obtain ⟨depth, hdepth⟩ := hdepth
  have hoidBytes : oidValueBytes crates idSpcIndirectData = .ok spcOid := by
    have hshort : (encodeLength spcOid.length).length = 1 := by simp [encodeLength, hspcOid]
    have hread := tlvAt_derTlv [] [] tagObjectIdentifier spcOid
      (by simp [length_derTlv, hshort]; omega)
    rw [List.append_nil, List.nil_append] at hread
    simp only [oidValueBytes, derOid, hoid, Outcome.mapErr, Outcome.ok_bind]
    rw [show tlvAt (derTlv tagObjectIdentifier spcOid) 0 = _ from hread, Outcome.ok_bind,
      Outcome.guardThat_of ⟨by simp, rfl⟩]
    rfl
  have hmembers : members ≠ [] := by
    intro hnil
    exact hne (List.length_eq_zero_iff.mp (by rw [hentries.length_eq, hnil]; rfl))
  unfold catalogMembersBytes
  rw [hsd, Outcome.ok_bind, hecontent, Option.map_some, hvalue]
  simp only [Outcome.ofOption, Outcome.ok_bind, hoidBytes, hdepth]
  rw [collect_ctl crates spcOid hne hentries (by omega), Outcome.ok_bind,
    Outcome.guardThat_of hmembers]
  rfl

/-! ## The limit of the encoders -/

/-- The `der` crate writes and reads whatever stays below its limit of 2^28 octets, and adds headers
and identifiers of bounded length. -/
structure EncodesWithinLimit (crates : CatalogCrates) : Prop where
  sliceReader : ∀ {bytes}, bytes.length < 2 ^ 28 → crates.sliceReader bytes = .ok ()
  anyDecode : ∀ {any : DerAny}, any.tag = tagSequence → any.toDer.length < 2 ^ 28 →
    crates.anyDecode any.toDer = .ok (any, [])
  finish : crates.finish [] = .ok ()
  spcToDer : ∀ {indirect der}, IsCatalogContent indirect → crates.spcToDer indirect = .ok der →
    der.length ≤ 256
  signedDataToDer : ∀ (algorithm : CatalogHashAlgorithm) {any : DerAny},
    any.toDer.length + 256 < 2 ^ 28 → ∃ der, crates.signedDataToDer 1
      [algorithm.digestAlgorithmIdentifier] ⟨idMsCtl, some any, none, []⟩ = .ok der ∧
      der.length ≤ any.toDer.length + 256
  contentInfoToDer : ∀ {content : DerAny}, content.toDer.length + 128 < 2 ^ 28 →
    ∃ der, crates.contentInfoToDer ⟨idSignedDataOid, content⟩ = .ok der

/-- The names are together short enough for the limit. -/
def CatalogFits (subjects : List CatalogSubjectInput) : Prop :=
  (subjects.map fun subject => 4 * subject.name.length + 512).sum + 1024 < 2 ^ 28

theorem length_derTlv_le (tag : UInt8) (value : List UInt8) :
    (derTlv tag value).length ≤ value.length + 10 :=
  CatalogDer.length_encodeTlv_le tag value

theorem length_encodeUtf16_le (text : List Char) : (encodeUtf16 text).length ≤ 2 * text.length := by
  induction text with
  | nil => rfl
  | cons c text ih =>
    have hunits : (utf16Units c).length ≤ 2 := by
      unfold utf16Units
      split <;> simp
    rw [encodeUtf16, List.flatMap_cons, ← encodeUtf16, List.length_append, List.length_cons]
    omega

theorem length_subjectIdentifier_le {name : List Char} {identifier : List UInt8}
    (h : catalogSubjectIdentifier name = .ok identifier) : identifier.length ≤ 4 * name.length + 12 := by
  obtain ⟨_, -, h⟩ := Outcome.bind_eq_ok.mp h
  obtain ⟨_, -, h⟩ := Outcome.bind_eq_ok.mp h
  cases Except.ok.inj h
  have hunits := length_encodeUtf16_le ('<' :: name ++ ['>', '\x00'])
  rw [List.length_append, List.length_cons, List.length_cons, List.length_singleton] at hunits
  rw [length_utf16leBytes]
  omega

section limit

variable {crates}

theorem length_derOid_le {oid : String} (hoid : oid ∈ [idSpcIndirectData, idMsCtlUsage,
    idMsCtlSubjectAlg]) {der : List UInt8} (h : derOid crates oid = .ok der) : der.length ≤ 138 := by
  obtain ⟨body, hbody, hlen⟩ := crates.oidToDer_eq oid hoid
  rw [derOid, Outcome.mapErr_eq_ok, hbody] at h
  cases Except.ok.inj h
  have hle := length_derTlv_le tagObjectIdentifier body
  unfold derTlv at hle
  omega

/-- The entry of a file is as long as its name allows. -/
theorem length_catalogEntry_le (hlimit : EncodesWithinLimit crates)
    {algorithm : CatalogHashAlgorithm} {subject : CatalogSubjectInput} {entry : List UInt8}
    {member : CatalogMember} (h : catalogEntry crates algorithm subject = .ok (entry, member)) :
    entry.length ≤ 4 * subject.name.length + 512 := by
  obtain ⟨indirect, hindirect, hcontent, -⟩ :=
    catalogSubjectIndirectData_spec crates algorithm subject.bytes
  obtain ⟨identifier, hidentifier, h⟩ := Outcome.bind_eq_ok.mp h
  rw [hindirect, Outcome.ok_bind] at h
  obtain ⟨der, hder, h⟩ := Outcome.bind_eq_ok.mp h
  obtain ⟨rfl, -⟩ := Prod.mk.inj (Except.ok.inj h)
  obtain ⟨indirectDer, hindirectDer, h⟩ := Outcome.bind_eq_ok.mp hder
  obtain ⟨oid, hoid, h⟩ := Outcome.bind_eq_ok.mp h
  cases Except.ok.inj h
  have hid := length_subjectIdentifier_le hidentifier
  have hspc := hlimit.spcToDer hcontent (Outcome.mapErr_eq_ok.mp hindirectDer)
  have hoid := length_derOid_le (by simp) hoid
  unfold derSequence derSet derOctetString
  simp only [List.flatten_cons, List.flatten_nil, List.append_nil]
  have hset := length_derTlv_le tagSet indirectDer
  have hattr := length_derTlv_le tagSequence (oid ++ derTlv tagSet indirectDer)
  have hattrs := length_derTlv_le tagSet (derTlv tagSequence (oid ++ derTlv tagSet indirectDer))
  have hocts := length_derTlv_le tagOctetString identifier
  have hentry := length_derTlv_le tagSequence (derTlv tagOctetString identifier ++
    derTlv tagSet (derTlv tagSequence (oid ++ derTlv tagSet indirectDer)))
  rw [List.length_append] at hattr hentry
  omega

theorem length_catalogEntries_le (hlimit : EncodesWithinLimit crates)
    {algorithm : CatalogHashAlgorithm} {subjects : List CatalogSubjectInput} {seen : List (List Char)}
    {entries : List (List UInt8 × CatalogMember)}
    (h : catalogEntries crates algorithm seen subjects = .ok entries) :
    (entries.map Prod.fst).flatten.length ≤
      (subjects.map fun subject => 4 * subject.name.length + 512).sum := by
  induction subjects generalizing seen entries with
  | nil =>
    cases Except.ok.inj h
    exact Nat.le_refl 0
  | cons subject subjects ih =>
    obtain ⟨_, -, h⟩ := Outcome.bind_eq_ok.mp h
    obtain ⟨⟨entry, member⟩, hentry, h⟩ := Outcome.bind_eq_ok.mp h
    obtain ⟨rest, hrest, h⟩ := Outcome.bind_eq_ok.mp h
    cases Except.ok.inj h
    have hfirst := length_catalogEntry_le hlimit hentry
    have hothers := ih hrest
    rw [List.map_cons, List.flatten_cons, List.length_append, List.map_cons, List.sum_cons]
    exact Nat.add_le_add hfirst hothers

/-- The trust list is as long as the names allow. -/
theorem length_createCatalogCtl_le (hlimit : EncodesWithinLimit crates)
    {algorithm : CatalogHashAlgorithm} {subjects : List CatalogSubjectInput} {econtentDer : List UInt8}
    {members : List CatalogMember}
    (h : createCatalogCtlEcontentDerWithHash crates subjects algorithm = .ok (econtentDer, members)) :
    econtentDer.length ≤ (subjects.map fun subject => 4 * subject.name.length + 512).sum + 512 := by
  obtain ⟨_, -, h⟩ := Outcome.bind_eq_ok.mp h
  obtain ⟨entries, hentries, h⟩ := Outcome.bind_eq_ok.mp h
  obtain ⟨usage, husage, h⟩ := Outcome.bind_eq_ok.mp h
  obtain ⟨thisUpdate, hupdate, h⟩ := Outcome.bind_eq_ok.mp h
  obtain ⟨subjectAlg, halg, h⟩ := Outcome.bind_eq_ok.mp h
  obtain ⟨rfl, -⟩ := Prod.mk.inj (Except.ok.inj h)
  have hupdate : thisUpdate.length = 15 := by
    cases Except.ok.inj hupdate
    rfl
  have hsum := length_catalogEntries_le hlimit hentries
  have husage := length_derOid_le (by simp) husage
  have halg := length_derOid_le (by simp) halg
  have hidentifier : (catalogListIdentifier crates (entries.map Prod.snd)).length ≤ 16 :=
    List.length_take_le _ _
  unfold derSequence derOctetString derNull
  simp only [List.flatten_cons, List.flatten_nil, List.append_nil]
  have h1 := length_derTlv_le tagSequence usage
  have h2 := length_derTlv_le tagOctetString (catalogListIdentifier crates (entries.map Prod.snd))
  have h3 := length_derTlv_le tagSequence (subjectAlg ++ [0x05, 0x00])
  have h4 := length_derTlv_le tagSequence (entries.map Prod.fst).flatten
  refine (length_derTlv_le tagSequence _).trans ?_
  simp only [List.length_append, List.length_cons, List.length_nil] at h3 ⊢
  omega

/-- A trust list below the limit is wrapped. -/
theorem exists_createPkcs7 (hlimit : EncodesWithinLimit crates) (algorithm : CatalogHashAlgorithm)
    (value : List UInt8) (hlen : (derTlv tagSequence value).length + 512 < 2 ^ 28) :
    ∃ pkcs7Der, createPkcs7UnsignedSignedDataDer crates idMsCtl (derTlv tagSequence value)
      algorithm.digestAlgorithmIdentifier = .ok pkcs7Der := by
  have hany := @hlimit.anyDecode ⟨tagSequence, value⟩ rfl (show (derTlv tagSequence value).length < _ by
    omega)
  obtain ⟨sdDer, hsd, hsdLen⟩ := @hlimit.signedDataToDer algorithm ⟨tagSequence, value⟩
    (show (derTlv tagSequence value).length + 256 < _ by omega)
  obtain ⟨body, rfl⟩ := crates.signedDataToDer_eq hsd
  have hsdLen : (encodeTlv tagSequence body).length ≤ (derTlv tagSequence value).length + 256 := hsdLen
  have hcontent := @hlimit.anyDecode ⟨tagSequence, body⟩ rfl
    (show (encodeTlv tagSequence body).length < _ by omega)
  obtain ⟨der, hder⟩ := @hlimit.contentInfoToDer ⟨tagSequence, body⟩
    (show (encodeTlv tagSequence body).length + 128 < _ by omega)
  refine ⟨der, ?_⟩
  unfold createPkcs7UnsignedSignedDataDer encodePkcs7ContentInfoSignedDataDer
  rw [hlimit.sliceReader (by omega), show crates.anyDecode (derTlv tagSequence value) = _ from hany]
  simp only [Outcome.mapErr, Outcome.ok_bind, hlimit.finish, hsd]
  rw [hlimit.sliceReader (by omega), show crates.anyDecode (encodeTlv tagSequence body) = _ from hcontent]
  simp only [Outcome.ok_bind, hder]

end limit

/-- **Catalog round trip.**  A catalog that is created has one member for each file, in order.  It is
read back as these members, every file of it is verified, and a file is verified only with the digest
of a member.  For files with proper names it is created, if the names are short enough together. -/
theorem catalog_round_trip (hlimit : EncodesWithinLimit crates)
    {subjects : List CatalogSubjectInput} (hne : subjects ≠ []) (hnames : CatalogNames subjects)
    (algorithm : CatalogHashAlgorithm) :
    (∀ result, createUnsignedCatalogPkcs7Der crates subjects algorithm = .ok result →
      List.Forall₂ (MemberOf crates algorithm) subjects result.members ∧
      catalogMembersBytes crates result.pkcs7Der = .ok result.members ∧
      (∀ subject ∈ subjects,
        ∃ found, verifyCatalogMemberBytes crates result.pkcs7Der subject.bytes = .ok found) ∧
      ∀ bytes found, verifyCatalogMemberBytes crates result.pkcs7Der bytes = .ok found →
        ∃ member ∈ result.members, catalogMemberDigestForSubject crates.parser crates.hashes member
          bytes = .ok member.digest) ∧
    (CatalogFits subjects →
      ∃ result, createUnsignedCatalogPkcs7Der crates subjects algorithm = .ok result) := by
  obtain ⟨spcOid, hoid, hspcOid⟩ := crates.oidToDer_eq idSpcIndirectData (by simp)
  obtain ⟨usageBody, listIdentifier, subjectAlgBody, tlvs, members, hcreate, hentries, hmembers⟩ :=
    createCatalogCtl_spec crates spcOid algorithm hoid hne hnames
  have htlvs : tlvs ≠ [] := by
    intro hnil
    apply hne
    rw [← List.length_eq_zero_iff, hmembers.length_eq, ← hentries.length_eq, hnil]
    rfl
  constructor
  · intro result hresult
    rw [createUnsignedCatalogPkcs7Der, hcreate, Outcome.ok_bind] at hresult
    obtain ⟨pkcs7Der, hpkcs7, hsame⟩ := Outcome.bind_eq_ok.mp hresult
    cases Except.ok.inj hsame
    have hread := catalogMembersBytes_of_create crates spcOid hoid hspcOid htlvs hentries hpkcs7
    refine ⟨hmembers, hread, ?_, ?_⟩
    · intro subject hsubject
      obtain ⟨member, hmember, hmemberOf⟩ := exists_member_of_mem crates hmembers subject hsubject
      exact (verifyCatalogMemberBytes_spec crates hread subject.bytes).mpr
        ⟨member, hmember, hmemberOf.digest⟩
    · intro bytes found hverify
      exact (verifyCatalogMemberBytes_spec crates hread bytes).mp ⟨found, hverify⟩
  · intro hfits
    have hlen := length_createCatalogCtl_le hlimit hcreate
    unfold CatalogFits at hfits
    obtain ⟨pkcs7Der, hpkcs7⟩ := exists_createPkcs7 hlimit algorithm
      (rawOf (ctlElements usageBody listIdentifier subjectAlgBody tlvs)) (by omega)
    refine ⟨⟨pkcs7Der, members⟩, ?_⟩
    rw [createUnsignedCatalogPkcs7Der, hcreate, Outcome.ok_bind]
    show (createPkcs7UnsignedSignedDataDer crates _ _ _ >>= _) = _
    rw [hpkcs7]
    rfl

namespace CatalogDer

theorem length_spcToDer_le {indirect : SpcIndirectDataContent} {der : List UInt8}
    (hparameters : indirect.digestAlgorithm.parameters = none) (hvalue : indirect.value.length ≤ 64)
    (hdigest : indirect.digest.length ≤ 64) (h : spcToDer indirect = .ok der) :
    der.length ≤ 256 := by
  obtain ⟨valueType, hvalueType, h⟩ := Outcome.bind_eq_ok.mp h
  obtain ⟨algorithm, halgorithm, h⟩ := Outcome.bind_eq_ok.mp h
  cases Except.ok.inj h
  have htype := length_oidToDer_le hvalueType
  have hoid := length_oidToDer_le halgorithm
  have hdata := length_encodeTlv_le 0x30 (valueType ++ indirect.value)
  have halg := length_encodeTlv_le 0x30 algorithm
  have hoctets := length_encodeTlv_le 0x04 indirect.digest
  have hinfo := length_encodeTlv_le 0x30 (encodeTlv 0x30 algorithm ++ encodeTlv 0x04 indirect.digest)
  rw [hparameters, Option.getD_none, List.append_nil]
  refine (length_encodeTlv_le 0x30 _).trans ?_
  rw [List.length_append] at hdata hinfo ⊢
  omega

theorem exists_signedDataToDer (algorithm : CatalogHashAlgorithm) {any : DerAny}
    (hlen : any.toDer.length + 256 < 2 ^ 28) :
    ∃ der, signedDataToDer 1 [algorithm.digestAlgorithmIdentifier] ⟨idMsCtl, some any, none, []⟩ =
      .ok der ∧ der.length ≤ any.toDer.length + 256 := by
  obtain ⟨econtentType, htype⟩ : ∃ der, oidToDer idMsCtl = .ok der := ⟨_, rfl⟩
  obtain ⟨oid, hoid⟩ : ∃ der, oidToDer algorithm.digestAlgorithmIdentifier.oid = .ok der := by
    cases algorithm <;> exact ⟨_, rfl⟩
  have halgorithm : [algorithm.digestAlgorithmIdentifier].mapM algorithmToDer =
      .ok [encodeTlv 0x30 oid] := by
    rw [List.mapM_cons, algorithmToDer, hoid]
    show Except.ok [encodeTlv 0x30 (oid ++ [])] = _
    rw [List.append_nil]
  have hlenType := length_oidToDer_le htype
  have hlenOid := length_oidToDer_le hoid
  have halg := length_encodeTlv_le 0x30 oid
  have halgs := length_encodeTlv_le 0x31 [encodeTlv 0x30 oid].flatten
  have hexplicit := length_encodeTlv_le 0xa0 any.toDer
  have hencap := length_encodeTlv_le 0x30 (econtentType ++ encodeTlv 0xa0 any.toDer)
  have hversion := length_encodeTlv_le 0x02 [1]
  have hsigners := length_encodeTlv_le 0x31 []
  have hall := length_encodeTlv_le 0x30 (encodeTlv 0x02 [1] ++
    (encodeTlv 0x31 [encodeTlv 0x30 oid].flatten ++
      (encodeTlv 0x30 (econtentType ++ encodeTlv 0xa0 any.toDer) ++ encodeTlv 0x31 [])))
  simp only [List.length_append, List.flatten_cons, List.flatten_nil, List.append_nil,
    List.length_singleton, List.length_nil] at halgs hencap hversion hsigners hall
  refine ⟨encodeTlv 0x30 (encodeTlv 0x02 [1] ++ (encodeTlv 0x31 (encodeTlv 0x30 oid) ++
    (encodeTlv 0x30 (econtentType ++ encodeTlv 0xa0 any.toDer) ++ encodeTlv 0x31 []))), ?_,
    by omega⟩
  have hlimited := limited_eq_ok.mpr (And.intro (show (encodeTlv 0x30 _).length < 2 ^ 28 by
    exact Nat.lt_of_le_of_lt hall (by omega)) rfl)
  unfold signedDataToDer
  rw [htype, Outcome.ok_bind, halgorithm, Outcome.ok_bind, ← hlimited, List.flatten_singleton]
  rfl

theorem exists_contentInfoToDer {content : DerAny} (hlen : content.toDer.length + 128 < 2 ^ 28) :
    ∃ der, contentInfoToDer ⟨idSignedDataOid, content⟩ = .ok der := by
  obtain ⟨contentType, htype⟩ : ∃ der, oidToDer idSignedDataOid = .ok der := ⟨_, rfl⟩
  have hlenType := length_oidToDer_le htype
  have hexplicit := length_encodeTlv_le 0xa0 content.toDer
  have hall := length_encodeTlv_le 0x30 (contentType ++ encodeTlv 0xa0 content.toDer)
  rw [List.length_append] at hall
  refine ⟨encodeTlv 0x30 (contentType ++ encodeTlv 0xa0 content.toDer), ?_⟩
  rw [contentInfoToDer, htype, Outcome.ok_bind]
  exact limited_eq_ok.mpr ⟨Nat.lt_of_le_of_lt hall (by omega), rfl⟩

/-- The crates that can be evaluated write what stays below the limit. -/
theorem encodesWithinLimit : EncodesWithinLimit CatalogDer.crates where
  sliceReader := by
    intro bytes hlen
    show (limited bytes >>= fun _ => _) = _
    rw [limited_eq_ok.mpr ⟨hlen, rfl⟩]
    rfl
  anyDecode := by
    intro any _ hlen
    have hvalue : any.value.length < 2 ^ 28 := length_lt_of_encodeTlv _ (Nat.le_of_lt hlen)
    have hfirst := first_encodeTlv any.tag any.value (by omega) []
    rw [List.append_nil] at hfirst
    show anyDecode any.toDer = _
    unfold anyDecode
    rw [limited_eq_ok.mpr ⟨hlen, rfl⟩, Outcome.ok_bind, show first any.toDer = _ from hfirst]
    simp only [Outcome.ok_bind]
    rw [Outcome.guardThat_of trivial]
    rfl
  finish := rfl
  spcToDer := by
    intro indirect der hcontent h
    have hoctets : ∀ algorithm : CatalogHashAlgorithm,
        algorithm.peHashKind.digestOutputLen ≤ 64 := by
      intro algorithm
      cases algorithm <;> decide
    cases hcontent with
    | generic algorithm hlength =>
      exact length_spcToDer_le rfl (by exact (by decide : catalogGenericLinkValueDer.length ≤ 64))
        (hlength.symm ▸ hoctets algorithm) h
    | pe algorithm hlength =>
      exact length_spcToDer_le rfl
        (by exact (by decide : (encodeTlv tagSequence catalogPeImageDataValue).length ≤ 64))
        (hlength.symm ▸ hoctets algorithm) h
  signedDataToDer := exists_signedDataToDer
  contentInfoToDer := exists_contentInfoToDer

end CatalogDer

/-- Two files, one with a name outside of the basic plane. -/
def twoSubjects : List CatalogSubjectInput :=
  [⟨"a.txt".toList, [97]⟩, ⟨['<', Char.ofNat 0x1F600, '>'], []⟩]

theorem catalogNames_twoSubjects : CatalogNames twoSubjects := by
  refine ⟨?_, ?_, by decide⟩
  · intro subject hsubject
    rcases List.mem_pair.mp hsubject with rfl | rfl <;> decide
  · intro subject hsubject
    rcases List.mem_pair.mp hsubject with rfl | rfl <;> decide

set_option maxRecDepth 2000

/-- The catalog of two files is written and read back. -/
theorem catalog_round_trip_two :
    ∃ result, createUnsignedCatalogPkcs7Der CatalogDer.crates twoSubjects .sha256 = .ok result ∧
      List.Forall₂ (MemberOf CatalogDer.crates .sha256) twoSubjects result.members ∧
      catalogMembersBytes CatalogDer.crates result.pkcs7Der = .ok result.members ∧
      ∃ found, verifyCatalogMemberBytes CatalogDer.crates result.pkcs7Der [97] = .ok found := by
  have hround := catalog_round_trip CatalogDer.crates CatalogDer.encodesWithinLimit
    (show twoSubjects ≠ [] by decide) catalogNames_twoSubjects .sha256
  have hfits : CatalogFits twoSubjects := by
    unfold CatalogFits
    decide
  obtain ⟨result, hresult⟩ := hround.2 hfits
  obtain ⟨hmembers, hread, hverified, -⟩ := hround.1 result hresult
  exact ⟨result, hresult, hmembers, hread, hverified ⟨"a.txt".toList, [97]⟩ List.mem_cons_self⟩

/-- Two names that differ in case only: no catalog is written. -/
theorem catalog_names_differ_in_case :
    ("a.txt".toList ≠ "A.txt".toList) ∧
      ¬ ∃ result, createUnsignedCatalogPkcs7Der CatalogDer.crates
        [⟨"a.txt".toList, [97]⟩, ⟨"A.txt".toList, [98]⟩] .sha256 = .ok result := by
  refine ⟨by decide, ?_⟩
  rintro ⟨result, hresult⟩
  have hnone : (createUnsignedCatalogPkcs7Der CatalogDer.crates
      [⟨"a.txt".toList, [97]⟩, ⟨"A.txt".toList, [98]⟩] .sha256).toOption = none := by
    decide
  rw [hresult] at hnone
  exact absurd hnone (by simp [Outcome.toOption])

end Psign.Sip
