import Psign.CodeLib.Der
import Psign.CodeLib.Run

/-!
# Subjects of certificate trust lists

`authroot_ctl.rs` reads the SHA-1 identifiers of the trusted subjects out of the content of a
signed trust list.  It follows no grammar: every SEQUENCE among the children of the content is
tried as the list of subjects, and a list of subjects is a SEQUENCE of SEQUENCEs that begin with
an OCTET STRING of 20 octets.

`tlv_collect_children` cuts the content at the announced lengths without a look at what is left,
and a slice that is too long is a panic.  `Cut` is where this happens
(`tlvCollectChildren_eq_panicked`).
-/

namespace Psign.Trust.AuthrootCtl

open CodeLib CodeLib.Der

/-! ## The code -/

/-- `parse_der_len`. -/
def parseDerLen (bytes : List UInt8) : Run (ℕ × ℕ) :=
  match bytes with
  | [] => .bail "truncated DER"
  | first :: rest =>
    if first.toNat < 0x80 then .ok (first.toNat, 1)
    else
      let n := first.toNat % 0x80
      if n = 0 ∨ 4 < n ∨ rest.length < n then .bail "invalid DER length"
      else .ok (beNat (rest.take n), 1 + n)

/-- `tlv_sequence_payload`. -/
def tlvSequencePayload (input : List UInt8) : Run (List UInt8) :=
  if input.head? ≠ some 0x30 then .bail "expected SEQUENCE"
  else do
    let (len, hdr) ← parseDerLen (input.drop 1)
    if input.length < 1 + hdr + len then .bail "truncated SEQUENCE"
    else return (input.drop (1 + hdr)).take len

/-- `tlv_total_len`. -/
def tlvTotalLen (input : List UInt8) : Run ℕ :=
  match input with
  | [] => .bail "eof"
  | _ :: rest => do
    let (len, hdr) ← parseDerLen rest
    return 1 + hdr + len

/-- The loop of `tlv_collect_children`; a slice that reaches over the end is a panic. -/
def collectFrom : ℕ → List UInt8 → Run (List (List UInt8))
  | _, [] => .ok []
  | 0, _ :: _ => .returned (.error .outOfFuel)
  | fuel + 1, b :: rest => do
    let total ← tlvTotalLen (b :: rest)
    if total ≤ (b :: rest).length then do
      let more ← collectFrom fuel ((b :: rest).drop total)
      return (b :: rest).take total :: more
    else .panicked

/-- `tlv_collect_children`.  An element takes an octet at least. -/
def tlvCollectChildren (content : List UInt8) : Run (List (List UInt8)) :=
  collectFrom content.length content

/-- `tlv_octet_string_fixed`. -/
def tlvOctetStringFixed (input : List UInt8) (expectedLen : ℕ) : Option (List UInt8) :=
  if input.head? ≠ some 0x04 then none
  else
    match parseDerLen (input.drop 1) with
    | .returned (.ok (len, hdr)) =>
      if len ≠ expectedLen ∨ input.length < 1 + hdr + len then none
      else some ((input.drop (1 + hdr)).take expectedLen)
    | _ => none

/-- The identifier at the front of the elements of a subject, if it is there. -/
def firstThumb (parts : List (List UInt8)) : List (List UInt8) :=
  match parts with
  | [] => []
  | first :: _ => (tlvOctetStringFixed first 20).toList

/-- The loop of `parse_subject_list`. -/
def subjectsOf : List (List UInt8) → Run (List (List UInt8))
  | [] => .ok []
  | el :: els =>
    if el.head? ≠ some 0x30 then subjectsOf els
    else do
      let inner ← tlvSequencePayload el
      let parts ← tlvCollectChildren inner
      let more ← subjectsOf els
      return firstThumb parts ++ more

/-- `parse_subject_list`. -/
def parseSubjectList (seqTlv : List UInt8) : Run (List (List UInt8)) := do
  let content ← tlvSequencePayload seqTlv
  let els ← tlvCollectChildren content
  subjectsOf els

/-- The loop over the children of a trust list; a child that is no list of subjects is skipped. -/
def subjectsOfChildren : List (List UInt8) → Run (List (List UInt8))
  | [] => .ok []
  | child :: rest => do
    let ts ← (parseSubjectList child).unwrapOr []
    let more ← subjectsOfChildren rest
    return ts ++ more

/-- `extract_subjects_from_ctl_children`. -/
def extractSubjectsFromCtlChildren (content : List UInt8) : Run (List (List UInt8)) := do
  let children ← (tlvCollectChildren content).unwrapOr []
  subjectsOfChildren children

/-- The first strategy of `parse_ctl_inner_subject_sha1s`: where the content begins with a
SEQUENCE, its content if that is more than half of all, and else the children of all. -/
def firstStrategy (econtent : List UInt8) : Run (List (List UInt8)) :=
  match tlvSequencePayload econtent with
  | .returned (.ok seqContent) =>
    if econtent.length / 2 < seqContent.length then extractSubjectsFromCtlChildren seqContent
    else do
      let children ← (tlvCollectChildren econtent).unwrapOr []
      subjectsOfChildren children
  | .returned (.error _) => .ok []
  | .panicked => .panicked

/-- The second strategy: the children of all. -/
def secondStrategy (econtent : List UInt8) (out : List (List UInt8)) : Run (List (List UInt8)) :=
  if out = [] then extractSubjectsFromCtlChildren econtent else .ok out

/-- The third strategy: all is a list of subjects. -/
def thirdStrategy (econtent : List UInt8) (out : List (List UInt8)) : Run (List (List UInt8)) :=
  if out = [] then (parseSubjectList econtent).unwrapOr [] else .ok out

/-- `parse_ctl_inner_subject_sha1s`. -/
def parseCtlInnerSubjectSha1s (econtent : List UInt8) : Run (List (List UInt8)) := do
  let out ← firstStrategy econtent
  let out ← secondStrategy econtent out
  thirdStrategy econtent out

/-- `Vec::dedup`. -/
def dedup : List (List UInt8) → List (List UInt8)
  | [] => []
  | a :: rest =>
    match dedup rest with
    | [] => [a]
    | b :: more => if a = b then b :: more else a :: b :: more

/-- `ctl_subject_sha1_thumbprints_from_stl_bytes`; `readEcontent` decodes the SignedData and gives
the value octets of the content that is signed. -/
def ctlSubjectSha1ThumbprintsFromStlBytes (readEcontent : List UInt8 → Outcome (List UInt8))
    (buf : List UInt8) : Run (List (List UInt8)) := do
  let thumbs ← (do
    let econtent ← Run.returned (readEcontent buf)
    parseCtlInnerSubjectSha1s econtent : Run (List (List UInt8))).unwrapOr []
  return dedup (thumbs.mergeSort fun a b => decide (a ≤ b))

/-! ## Elements -/

theorem parseDerLen_eq_ok {bytes : List UInt8} {found : ℕ × ℕ} :
    parseDerLen bytes = .ok found ↔ readLength 4 bytes = some found := by
  cases bytes with
  | nil => simp [parseDerLen, readLength, Run.bail, Run.ok]
  | cons first rest =>
    rw [parseDerLen, readLength]
    by_cases hshort : first.toNat < 128
    · rw [if_pos hshort, if_pos hshort]
      constructor
      · intro h
        exact congrArg some (Except.ok.inj (Run.returned.inj h))
      · intro h
        exact congrArg Run.ok (Option.some.inj h)
    · have hmod : first.toNat % 0x80 = first.toNat - 128 := by
        have := first.toNat_lt
        omega
      rw [if_neg hshort, if_neg hshort]
      dsimp only
      rw [hmod]
      by_cases hform : first.toNat - 128 = 0 ∨ 4 < first.toNat - 128 ∨
          rest.length < first.toNat - 128
      · rw [if_pos hform, if_pos (by omega)]
        simp [Run.bail, Run.ok]
      · rw [if_neg hform, if_neg (by omega)]
        constructor
        · intro h
          exact congrArg some (Except.ok.inj (Run.returned.inj h))
        · intro h
          exact congrArg Run.ok (Option.some.inj h)

theorem parseDerLen_ne_panicked (bytes : List UInt8) : parseDerLen bytes ≠ .panicked := by
  cases bytes with
  | nil => simp [parseDerLen, Run.bail]
  | cons first rest =>
    rw [parseDerLen]
    split
    · simp [Run.ok]
    · dsimp only
      split <;> simp [Run.ok, Run.bail]

theorem tlvTotalLen_eq_ok {b : UInt8} {rest : List UInt8} {total : ℕ} :
    tlvTotalLen (b :: rest) = .ok total ↔
      ∃ len hdr, readLength 4 rest = some (len, hdr) ∧ total = 1 + hdr + len := by
  rw [tlvTotalLen, Run.bind_eq_ok]
  constructor
  · intro h
    obtain ⟨⟨len, hdr⟩, hlen, h⟩ := h
    exact ⟨len, hdr, parseDerLen_eq_ok.mp hlen, (Except.ok.inj (Run.returned.inj h)).symm⟩
  · intro h
    obtain ⟨len, hdr, hlen, rfl⟩ := h
    exact ⟨(len, hdr), parseDerLen_eq_ok.mpr hlen, rfl⟩

/-- The element at the front, by its tag and its lengths. -/
theorem readTlv_cons {b : UInt8} {rest : List UInt8} :
    readTlv 4 (b :: rest) =
      match readLength 4 rest with
      | none => none
      | some (len, hdr) =>
        if hdr + len ≤ rest.length then
          some (⟨b, b :: rest.take (hdr + len), (rest.drop hdr).take len⟩, rest.drop (hdr + len))
        else none := rfl

/-- The content of a SEQUENCE at the front. -/
theorem tlvSequencePayload_eq_ok {input content : List UInt8} :
    tlvSequencePayload input = .ok content ↔
      ∃ tlv rest, readTlv 4 input = some (tlv, rest) ∧ tlv.tag = 0x30 ∧ content = tlv.value := by
  cases input with
  | nil => exact iff_of_false nofun fun ⟨_, _, h, _⟩ => nomatch h
  | cons b rest =>
    rw [tlvSequencePayload, readTlv_cons, List.head?_cons, List.drop_one, List.tail_cons]
    by_cases hb : b = 0x30
    · subst hb
      rw [if_neg (not_not.mpr rfl), Run.bind_eq_ok]
      constructor
      · intro h
        obtain ⟨⟨len, hdr⟩, hlen, h⟩ := h
        dsimp only at h
        split at h
        · exact nomatch h
        · rename_i hfits
          rw [List.length_cons] at hfits
          rw [parseDerLen_eq_ok.mp hlen]
          dsimp only
          rw [if_pos (by omega)]
          refine ⟨_, _, rfl, rfl, ?_⟩
          rw [← Except.ok.inj (Run.returned.inj h), Nat.add_comm 1, List.drop_succ_cons]
      · intro h
        obtain ⟨tlv, after, h, _, rfl⟩ := h
        split at h
        · exact nomatch h
        · rename_i len hdr hlen
          split at h
          · rename_i hfits
            obtain ⟨rfl, rfl⟩ := Prod.mk.inj (Option.some.inj h)
            refine ⟨(len, hdr), parseDerLen_eq_ok.mpr hlen, ?_⟩
            dsimp only
            rw [List.length_cons, if_neg (by omega), Nat.add_comm 1, List.drop_succ_cons]
            rfl
          · exact nomatch h
    · rw [if_pos (by simpa using hb)]
      refine iff_of_false nofun fun h => ?_
      obtain ⟨tlv, after, h, htag, _⟩ := h
      split at h
      · exact nomatch h
      · split at h
        · obtain ⟨rfl, rfl⟩ := Prod.mk.inj (Option.some.inj h)
          exact hb htag
        · exact nomatch h

theorem tlvSequencePayload_ne_panicked (input : List UInt8) :
    tlvSequencePayload input ≠ .panicked := by
  unfold tlvSequencePayload
  split
  · exact nofun
  · intro h
    rcases Run.bind_eq_panicked.mp h with h | ⟨_, _, h⟩
    · exact parseDerLen_ne_panicked _ h
    · dsimp only at h
      split at h <;> exact nomatch h

/-! ## Contents that are cut -/

/-- Behind some elements, one announces more than is left. -/
def Cut (content : List UInt8) : Prop :=
  ∃ tlvs b rest len hdr, (∀ t ∈ tlvs, IsTlv 4 t) ∧ content = rawOf tlvs ++ b :: rest ∧
    readLength 4 rest = some (len, hdr) ∧ rest.length < hdr + len

theorem not_cut_nil : ¬ Cut [] := by
  intro h
  obtain ⟨tlvs, b, rest, _, _, _, h, _⟩ := h
  exact absurd h.symm (by simp)

/-- Behind an element, a content is cut where what is left is. -/
theorem cut_of_readTlv {content rest : List UInt8} {tlv : Tlv}
    (h : readTlv 4 content = some (tlv, rest)) : Cut content ↔ Cut rest := by
  obtain ⟨hcontent, htlv⟩ := readTlv_eq_some.mp h
  constructor
  · intro hcut
    obtain ⟨tlvs, b, more, len, hdr, htlvs, heq, hlen, hover⟩ := hcut
    cases tlvs with
    | nil =>
      rw [heq, rawOf_nil, List.nil_append, readTlv_cons, hlen] at h
      dsimp only at h
      rw [if_neg (by omega)] at h
      exact nomatch h
    | cons first tlvs =>
      have hfirst := (htlvs first List.mem_cons_self).readTlv_append (rawOf tlvs ++ b :: more)
      rw [← List.append_assoc, ← rawOf_cons, ← heq, h] at hfirst
      obtain ⟨_, rfl⟩ := Prod.mk.inj (Option.some.inj hfirst)
      exact ⟨tlvs, b, more, len, hdr, fun t ht => htlvs t (List.mem_cons_of_mem _ ht), rfl, hlen,
        hover⟩
  · intro hcut
    obtain ⟨tlvs, b, more, len, hdr, htlvs, rfl, hlen, hover⟩ := hcut
    refine ⟨tlv :: tlvs, b, more, len, hdr, ?_, ?_, hlen, hover⟩
    · intro t ht
      rcases List.mem_cons.mp ht with rfl | ht
      · exact htlv
      · exact htlvs t ht
    · rw [hcontent, rawOf_cons, List.append_assoc]

private theorem collectFrom_does {fuel : ℕ} {content : List UInt8} (hfuel : content.length ≤ fuel) :
    (collectFrom fuel content = .panicked ↔ Cut content) ∧
      ∀ els, collectFrom fuel content = .ok els ↔
        ∃ tlvs, readTlvs 4 content = some tlvs ∧ els = tlvs.map Tlv.raw := by
  induction fuel generalizing content with
  | zero =>
    obtain rfl := List.length_eq_zero_iff.mp (Nat.le_zero.mp hfuel)
    refine ⟨iff_of_false (by simp [collectFrom, Run.ok]) not_cut_nil, fun els => ?_⟩
    constructor
    · intro h
      exact ⟨[], rfl, (Except.ok.inj (Run.returned.inj h)).symm⟩
    · intro h
      obtain ⟨tlvs, htlvs, rfl⟩ := h
      obtain rfl := Option.some.inj htlvs
      rfl
  | succ fuel ih =>
    cases content with
    | nil =>
      refine ⟨iff_of_false (by simp [collectFrom, Run.ok]) not_cut_nil, fun els => ?_⟩
      constructor
      · intro h
        exact ⟨[], rfl, (Except.ok.inj (Run.returned.inj h)).symm⟩
      · intro h
        obtain ⟨tlvs, htlvs, rfl⟩ := h
        obtain rfl := Option.some.inj htlvs
        rfl
    | cons b rest =>
      rw [List.length_cons] at hfuel
      rw [collectFrom]
      cases hlen : readLength 4 rest with
      | none =>
        have herror : ∀ {total}, tlvTotalLen (b :: rest) ≠ .ok total := by
          intro total h
          obtain ⟨_, _, h, _⟩ := tlvTotalLen_eq_ok.mp h
          cases hlen.symm.trans h
        have hnone : readTlv 4 (b :: rest) = none := by rw [readTlv_cons, hlen]
        constructor
        · refine iff_of_false ?_ ?_
          · intro h
            rcases Run.bind_eq_panicked.mp h with h | ⟨_, h, _⟩
            · rw [tlvTotalLen] at h
              rcases Run.bind_eq_panicked.mp h with h | ⟨_, _, h⟩
              · exact parseDerLen_ne_panicked rest h
              · cases h
            · exact herror h
          · intro h
            obtain ⟨tlvs, b', more, len, hdr, htlvs, heq, hlen', _⟩ := h
            cases tlvs with
            | nil =>
              obtain ⟨_, rfl⟩ := List.cons.inj heq
              cases hlen.symm.trans hlen'
            | cons first tlvs =>
              have hfirst := (htlvs first List.mem_cons_self).readTlv_append
                (rawOf tlvs ++ b' :: more)
              rw [← List.append_assoc, ← rawOf_cons, ← heq, hnone] at hfirst
              cases hfirst
        · intro els
          refine iff_of_false ?_ ?_
          · intro h
            obtain ⟨_, h, _⟩ := Run.bind_eq_ok.mp h
            exact herror h
          · intro h
            obtain ⟨tlvs, h, _⟩ := h
            cases (readTlvs_eq_none (List.cons_ne_nil b rest) hnone).symm.trans h
      | some found =>
        obtain ⟨len, hdr⟩ := found
        have htotal : tlvTotalLen (b :: rest) = .ok (1 + hdr + len) :=
          tlvTotalLen_eq_ok.mpr ⟨len, hdr, hlen, rfl⟩
        rw [htotal, Run.ok_bind, List.length_cons]
        by_cases hfits : hdr + len ≤ rest.length
        · have hread : readTlv 4 (b :: rest) = some (⟨b, b :: rest.take (hdr + len),
              (rest.drop hdr).take len⟩, rest.drop (hdr + len)) := by
            rw [readTlv_cons, hlen]
            dsimp only
            rw [if_pos hfits]
          have hhdr := (hdr_le_of_readLength hlen).1
          have hcut := cut_of_readTlv hread
          obtain ⟨hpanics, hoks⟩ := @ih (rest.drop (hdr + len)) (by rw [List.length_drop]; omega)
          have hdrop : (b :: rest).drop (1 + hdr + len) = rest.drop (hdr + len) := by
            rw [show 1 + hdr + len = hdr + len + 1 by omega, List.drop_succ_cons]
          have htake : (b :: rest).take (1 + hdr + len) = b :: rest.take (hdr + len) := by
            rw [show 1 + hdr + len = hdr + len + 1 by omega, List.take_succ_cons]
          rw [if_pos (by omega), hdrop, htake]
          constructor
          · rw [hcut, ← hpanics, Run.bind_eq_panicked]
            constructor
            · intro h
              rcases h with h | ⟨_, _, h⟩
              · exact h
              · cases h
            · intro h
              exact Or.inl h
          · intro els
            rw [readTlvs_of_readTlv hread, Run.bind_eq_ok]
            constructor
            · intro h
              obtain ⟨more, hmore, h⟩ := h
              obtain ⟨tlvs, htlvs, rfl⟩ := (hoks more).mp hmore
              rw [htlvs]
              exact ⟨_, rfl, (Except.ok.inj (Run.returned.inj h)).symm⟩
            · intro h
              obtain ⟨tlvs, htlvs, rfl⟩ := h
              obtain ⟨tlvs, hmore, rfl⟩ := Option.map_eq_some_iff.mp htlvs
              exact ⟨_, (hoks _).mpr ⟨tlvs, hmore, rfl⟩, rfl⟩
        · rw [if_neg (by omega)]
          have hnone : readTlv 4 (b :: rest) = none := by
            rw [readTlv_cons, hlen]
            dsimp only
            rw [if_neg hfits]
          constructor
          · refine iff_of_true rfl ⟨[], b, rest, len, hdr, ?_, rfl, hlen, by omega⟩
            exact fun t ht => absurd ht List.not_mem_nil
          · intro els
            refine iff_of_false (by simp [Run.ok]) fun h => ?_
            obtain ⟨tlvs, h, _⟩ := h
            cases (readTlvs_eq_none (List.cons_ne_nil b rest) hnone).symm.trans h

variable {content : List UInt8}

/-- The program panics exactly where the content is cut. -/
theorem tlvCollectChildren_eq_panicked : tlvCollectChildren content = .panicked ↔ Cut content :=
  (collectFrom_does (Nat.le_refl _)).1

theorem tlvCollectChildren_eq_ok {els : List (List UInt8)} :
    tlvCollectChildren content = .ok els ↔
      ∃ tlvs, readTlvs 4 content = some tlvs ∧ els = tlvs.map Tlv.raw :=
  (collectFrom_does (Nat.le_refl _)).2 els

/-- A content that consists of elements is not cut. -/
theorem not_cut_of_readTlvs {tlvs : List Tlv} (h : readTlvs 4 content = some tlvs) :
    ¬ Cut content := by
  intro hcut
  have hok := tlvCollectChildren_eq_ok.mpr ⟨tlvs, h, rfl⟩
  exact nomatch hok.symm.trans (tlvCollectChildren_eq_panicked.mpr hcut)

/-! ## Lists of subjects -/

/-- The identifier at the front of the elements of a subject. -/
def identifier : List Tlv → List (List UInt8)
  | [] => []
  | first :: _ => if first.tag = 0x04 ∧ first.value.length = 20 then [first.value] else []

/-- The identifiers of subjects; there are none if a SEQUENCE does not consist of elements. -/
def identifiers : List Tlv → Option (List (List UInt8))
  | [] => some []
  | el :: els =>
    if el.tag = 0x30 then do
      let parts ← readTlvs 4 el.value
      let more ← identifiers els
      return identifier parts ++ more
    else identifiers els

/-- The identifiers in the content of a list of subjects. -/
def listSubjects (content : List UInt8) : Option (List (List UInt8)) :=
  (readTlvs 4 content).bind identifiers

/-- The first SEQUENCE that does not consist of elements is cut. -/
def ElementCut (els : List Tlv) : Prop :=
  ∃ before el after, els = before ++ el :: after ∧
    (∀ x ∈ before, x.tag = 0x30 → (readTlvs 4 x.value).isSome) ∧ el.tag = 0x30 ∧ Cut el.value

/-- The program panics in a list of subjects with this content. -/
def ListCut (content : List UInt8) : Prop :=
  Cut content ∨ ∃ els, readTlvs 4 content = some els ∧ ElementCut els

/-- The identifiers that a child of a trust list gives. -/
def childSubjects (child : Tlv) : List (List UInt8) :=
  if child.tag = 0x30 then (listSubjects child.value).getD [] else []

/-- The identifiers in the children of a trust list. -/
def subjectsIn (content : List UInt8) : List (List UInt8) :=
  ((readTlvs 4 content).getD []).flatMap childSubjects

/-- The program panics in the children of a trust list. -/
def ChildrenCut (content : List UInt8) : Prop :=
  Cut content ∨ ∃ tlvs, readTlvs 4 content = some tlvs ∧
    ∃ child ∈ tlvs, child.tag = 0x30 ∧ ListCut child.value

/-- The first octet of an element is its tag. -/
theorem head?_raw {tlv : Tlv} (h : IsTlv 4 tlv) : tlv.raw.head? = some tlv.tag := by
  obtain ⟨lengthOctets, hraw, _⟩ := h.exists_header
  rw [hraw]
  rfl

theorem tlvSequencePayload_raw {tlv : Tlv} (h : IsTlv 4 tlv) (htag : tlv.tag = 0x30) :
    tlvSequencePayload tlv.raw = .ok tlv.value :=
  tlvSequencePayload_eq_ok.mpr ⟨tlv, [], h, htag, rfl⟩

theorem firstThumb_raw {parts : List Tlv} (h : ∀ t ∈ parts, IsTlv 4 t) :
    firstThumb (parts.map Tlv.raw) = identifier parts := by
  cases parts with
  | nil => rfl
  | cons first parts =>
    have hfirst := h first List.mem_cons_self
    obtain ⟨lengthOctets, hraw, hlen⟩ := hfirst.exists_header
    rw [List.map_cons, firstThumb, tlvOctetStringFixed, head?_raw hfirst, identifier]
    by_cases htag : first.tag = 0x04
    · rw [if_neg (by simp [htag]), hraw, List.drop_one, List.tail_cons,
        parseDerLen_eq_ok.mpr hlen]
      show Option.toList (if _ then _ else _) = _
      by_cases hvalue : first.value.length = 20
      · have hfits : ¬ ((first.tag :: (lengthOctets ++ first.value)).length <
            1 + lengthOctets.length + first.value.length) := by
          rw [List.length_cons, List.length_append]
          omega
        rw [if_neg (by rw [not_or]; exact ⟨not_not.mpr hvalue, hfits⟩), if_pos ⟨htag, hvalue⟩,
          Nat.add_comm 1, List.drop_succ_cons, List.drop_left, ← hvalue, List.take_length]
        rfl
      · rw [if_pos (Or.inl hvalue), if_neg fun h => hvalue h.2]
        rfl
    · rw [if_pos (by simpa using htag), if_neg fun h => htag h.1]
      rfl

theorem elementCut_nil : ¬ ElementCut [] := by
  intro h
  obtain ⟨before, el, after, h, _⟩ := h
  exact absurd h.symm (by simp)

theorem elementCut_cons {el : Tlv} {els : List Tlv} :
    ElementCut (el :: els) ↔ (el.tag = 0x30 ∧ Cut el.value) ∨
      ((el.tag = 0x30 → (readTlvs 4 el.value).isSome) ∧ ElementCut els) := by
  constructor
  · intro h
    obtain ⟨before, x, after, heq, hbefore, htag, hcut⟩ := h
    cases before with
    | nil =>
      obtain ⟨rfl, rfl⟩ := List.cons.inj heq
      exact Or.inl ⟨htag, hcut⟩
    | cons y before =>
      obtain ⟨rfl, rfl⟩ := List.cons.inj heq
      exact Or.inr ⟨hbefore _ List.mem_cons_self, before, x, after, rfl,
        fun z hz => hbefore z (List.mem_cons_of_mem _ hz), htag, hcut⟩
  · intro h
    rcases h with h | ⟨hread, before, x, after, rfl, hbefore, htag, hcut⟩
    · exact ⟨[], el, els, rfl, fun x hx => absurd hx List.not_mem_nil, h.1, h.2⟩
    · refine ⟨el :: before, x, after, rfl, ?_, htag, hcut⟩
      intro z hz
      rcases List.mem_cons.mp hz with rfl | hz
      · exact hread
      · exact hbefore z hz

/-- The loop over the subjects reads the identifiers, or panics. -/
theorem subjectsOf_raw {els : List Tlv} (h : ∀ t ∈ els, IsTlv 4 t) :
    (subjectsOf (els.map Tlv.raw) = .panicked ↔ ElementCut els) ∧
      ∀ ids, subjectsOf (els.map Tlv.raw) = .ok ids ↔ identifiers els = some ids := by
  induction els with
  | nil =>
    refine ⟨iff_of_false nofun elementCut_nil, fun ids => ?_⟩
    constructor
    · intro h
      exact congrArg some (Except.ok.inj (Run.returned.inj h))
    · intro h
      exact congrArg Run.ok (Option.some.inj h)
  | cons el els ih =>
    have hel := h el List.mem_cons_self
    obtain ⟨hpanics, hoks⟩ := ih fun t ht => h t (List.mem_cons_of_mem _ ht)
    rw [List.map_cons, subjectsOf, head?_raw hel, identifiers, elementCut_cons]
    by_cases htag : el.tag = 0x30
    · rw [if_neg (by simp [htag]), if_pos htag, tlvSequencePayload_raw hel htag, Run.ok_bind]
      constructor
      · rw [Run.bind_eq_panicked, tlvCollectChildren_eq_panicked]
        constructor
        · intro h
          rcases h with h | ⟨parts, hparts, h⟩
          · exact Or.inl ⟨htag, h⟩
          · obtain ⟨tlvs, htlvs, rfl⟩ := tlvCollectChildren_eq_ok.mp hparts
            rcases Run.bind_eq_panicked.mp h with h | ⟨_, _, h⟩
            · exact Or.inr ⟨fun _ => by rw [htlvs]; rfl, hpanics.mp h⟩
            · exact nomatch h
        · intro h
          rcases h with h | ⟨hread, h⟩
          · exact Or.inl h.2
          · obtain ⟨tlvs, htlvs⟩ := Option.isSome_iff_exists.mp (hread htag)
            refine Or.inr ⟨_, tlvCollectChildren_eq_ok.mpr ⟨tlvs, htlvs, rfl⟩, ?_⟩
            exact Run.bind_eq_panicked.mpr (Or.inl (hpanics.mpr h))
      · intro ids
        rw [Run.bind_eq_ok]
        constructor
        · intro h
          obtain ⟨parts, hparts, h⟩ := h
          obtain ⟨tlvs, htlvs, rfl⟩ := tlvCollectChildren_eq_ok.mp hparts
          obtain ⟨more, hmore, h⟩ := Run.bind_eq_ok.mp h
          rw [htlvs, (hoks more).mp hmore]
          show some (identifier tlvs ++ more) = some ids
          rw [← firstThumb_raw (readTlvs_eq_some.mp htlvs).2]
          exact congrArg some (Except.ok.inj (Run.returned.inj h))
        · intro h
          obtain ⟨tlvs, htlvs, h⟩ := Option.bind_eq_some_iff.mp h
          obtain ⟨more, hmore, h⟩ := Option.bind_eq_some_iff.mp h
          refine ⟨_, tlvCollectChildren_eq_ok.mpr ⟨tlvs, htlvs, rfl⟩, ?_⟩
          rw [(hoks more).mpr hmore, firstThumb_raw (readTlvs_eq_some.mp htlvs).2]
          exact congrArg Run.ok (Option.some.inj h)
    · rw [if_pos (by simpa using htag), if_neg htag]
      refine ⟨hpanics.trans ?_, hoks⟩
      constructor
      · intro h
        exact Or.inr ⟨fun h => absurd h htag, h⟩
      · intro h
        rcases h with h | h
        · exact absurd h.1 htag
        · exact h.2

end Psign.Trust.AuthrootCtl
