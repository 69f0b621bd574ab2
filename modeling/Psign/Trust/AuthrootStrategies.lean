import Psign.Trust.AuthrootCtl

/-!
# The strategies of the trust list reader

`parse_ctl_inner_subject_sha1s` tries three readings of the signed content in turn, the next where
the last found nothing.  `parseCtlInnerSubjectSha1s_does` says what comes out: the program panics
where a reading that is tried meets a content that is cut (`CutAnywhere`), and finds
`foundSubjects` otherwise.
-/

namespace Psign.Trust.AuthrootCtl

open CodeLib CodeLib.Der

/-! ## The strategies -/

/-- The identifiers at the front of a content, taken as a list of subjects. -/
def frontSubjects (content : List UInt8) : List (List UInt8) :=
  match readTlv 4 content with
  | some (tlv, _) => childSubjects tlv
  | none => []

/-- The program panics in the list of subjects at the front. -/
def FrontCut (content : List UInt8) : Prop :=
  ∃ tlv rest, readTlv 4 content = some (tlv, rest) ∧ tlv.tag = 0x30 ∧ ListCut tlv.value

/-- The content whose children the first strategy reads. -/
def firstContent (econtent : List UInt8) : Option (List UInt8) :=
  match readTlv 4 econtent with
  | some (tlv, _) =>
    if tlv.tag = 0x30 then
      some (if econtent.length / 2 < tlv.value.length then tlv.value else econtent)
    else none
  | none => none

/-- What the first strategy finds. -/
def firstSubjects (econtent : List UInt8) : List (List UInt8) :=
  ((firstContent econtent).map subjectsIn).getD []

/-- What the first two strategies find. -/
def secondSubjects (econtent : List UInt8) : List (List UInt8) :=
  if firstSubjects econtent = [] then subjectsIn econtent else firstSubjects econtent

/-- What the strategies find. -/
def foundSubjects (econtent : List UInt8) : List (List UInt8) :=
  if secondSubjects econtent = [] then frontSubjects econtent else secondSubjects econtent

/-- A strategy that is tried meets an element that announces more than is left. -/
def CutAnywhere (econtent : List UInt8) : Prop :=
  (∃ content, firstContent econtent = some content ∧ ChildrenCut content) ∨
    (firstSubjects econtent = [] ∧ ChildrenCut econtent) ∨
    (secondSubjects econtent = [] ∧ FrontCut econtent)

/-- A list of subjects with this content. -/
theorem parseSubjectList_of_payload {seqTlv content : List UInt8}
    (h : tlvSequencePayload seqTlv = .ok content) :
    ((parseSubjectList seqTlv).unwrapOr []).Does (ListCut content)
      ((listSubjects content).getD []) := by
  rw [parseSubjectList, h, Run.ok_bind, listSubjects]
  constructor
  · rw [Run.unwrapOr_eq_panicked, Run.bind_eq_panicked, tlvCollectChildren_eq_panicked, ListCut]
    refine or_congr_right ?_
    constructor
    · intro h
      obtain ⟨els, hels, h⟩ := h
      obtain ⟨tlvs, htlvs, rfl⟩ := tlvCollectChildren_eq_ok.mp hels
      exact ⟨tlvs, htlvs, (subjectsOf_raw (readTlvs_eq_some.mp htlvs).2).1.mp h⟩
    · intro h
      obtain ⟨tlvs, htlvs, h⟩ := h
      exact ⟨_, tlvCollectChildren_eq_ok.mpr ⟨tlvs, htlvs, rfl⟩,
        (subjectsOf_raw (readTlvs_eq_some.mp htlvs).2).1.mpr h⟩
  · intro hcut
    cases htlvs : readTlvs 4 content with
    | none =>
      cases hels : tlvCollectChildren content with
      | returned result =>
        cases result with
        | ok els =>
          obtain ⟨tlvs, h, _⟩ := tlvCollectChildren_eq_ok.mp hels
          exact nomatch htlvs.symm.trans h
        | error failure => rfl
      | panicked => exact absurd (Or.inl (tlvCollectChildren_eq_panicked.mp hels)) hcut
    | some tlvs =>
      obtain ⟨hpanics, hoks⟩ := subjectsOf_raw (readTlvs_eq_some.mp htlvs).2
      rw [tlvCollectChildren_eq_ok.mpr ⟨tlvs, htlvs, rfl⟩, Run.ok_bind, Option.bind_some]
      cases hids : subjectsOf (tlvs.map Tlv.raw) with
      | returned result =>
        cases result with
        | ok ids =>
          rw [(hoks ids).mp hids]
          rfl
        | error failure =>
          cases hsome : identifiers tlvs with
          | none => rfl
          | some ids => exact nomatch hids.symm.trans ((hoks ids).mpr hsome)
      | panicked => exact absurd (Or.inr ⟨tlvs, htlvs, hpanics.mp hids⟩) hcut

theorem parseSubjectList_raw {child : Tlv} (h : IsTlv 4 child) :
    ((parseSubjectList child.raw).unwrapOr []).Does (child.tag = 0x30 ∧ ListCut child.value)
      (childSubjects child) := by
  rw [childSubjects]
  by_cases htag : child.tag = 0x30
  · rw [if_pos htag]
    exact (parseSubjectList_of_payload (tlvSequencePayload_raw h htag)).congr
      (and_iff_right htag).symm rfl
  · have hnot : tlvSequencePayload child.raw = .bail "expected SEQUENCE" := by
      rw [tlvSequencePayload, head?_raw h, if_pos (by simpa using htag)]
    rw [if_neg htag, parseSubjectList, hnot]
    exact (Run.does_ok []).congr (iff_of_false id fun h => htag h.1) rfl

theorem parseSubjectList_front (content : List UInt8) :
    ((parseSubjectList content).unwrapOr []).Does (FrontCut content) (frontSubjects content) := by
  rw [frontSubjects]
  cases hpayload : tlvSequencePayload content with
  | panicked => exact absurd hpayload (tlvSequencePayload_ne_panicked content)
  | returned result =>
    cases result with
    | ok value =>
      obtain ⟨tlv, rest, hread, htag, rfl⟩ := tlvSequencePayload_eq_ok.mp hpayload
      rw [hread]
      dsimp only
      rw [childSubjects, if_pos htag]
      refine (parseSubjectList_of_payload hpayload).congr ?_ rfl
      constructor
      · intro h
        exact ⟨tlv, rest, hread, htag, h⟩
      · intro h
        obtain ⟨tlv', rest', hread', _, h⟩ := h
        obtain ⟨rfl, _⟩ := Prod.mk.inj (Option.some.inj (hread.symm.trans hread'))
        exact h
    | error failure =>
      have hnot : ∀ {tlv rest}, readTlv 4 content = some (tlv, rest) → tlv.tag ≠ 0x30 := by
        intro tlv rest hread htag
        exact nomatch hpayload.symm.trans
          (tlvSequencePayload_eq_ok.mpr ⟨tlv, rest, hread, htag, rfl⟩)
      rw [parseSubjectList, hpayload]
      refine (Run.does_ok []).congr (iff_of_false id ?_) ?_
      · intro h
        obtain ⟨tlv, rest, hread, htag, _⟩ := h
        exact hnot hread htag
      · cases hread : readTlv 4 content with
        | none => rfl
        | some found =>
          obtain ⟨tlv, rest⟩ := found
          dsimp only
          rw [childSubjects, if_neg (hnot hread)]

/-- The loop over the children. -/
theorem subjectsOfChildren_raw {children : List Tlv} (h : ∀ t ∈ children, IsTlv 4 t) :
    (subjectsOfChildren (children.map Tlv.raw)).Does
      (∃ child ∈ children, child.tag = 0x30 ∧ ListCut child.value)
      (children.flatMap childSubjects) := by
  induction children with
  | nil => exact (Run.does_ok []).congr (iff_of_false id (by simp)) rfl
  | cons child children ih =>
    have hrest := ih fun t ht => h t (List.mem_cons_of_mem _ ht)
    have hall : (subjectsOfChildren (child.raw :: children.map Tlv.raw)).Does
        ((child.tag = 0x30 ∧ ListCut child.value) ∨
          ∃ child ∈ children, child.tag = 0x30 ∧ ListCut child.value)
        (childSubjects child ++ children.flatMap childSubjects) :=
      (parseSubjectList_raw (h child List.mem_cons_self)).bind (hrest.map _)
    rw [List.map_cons, List.flatMap_cons, List.exists_mem_cons_iff]
    exact hall

/-- The children of a content, or none where it does not consist of elements. -/
theorem subjectsOfChildren_content (content : List UInt8) :
    ((tlvCollectChildren content).unwrapOr [] >>= subjectsOfChildren).Does (ChildrenCut content)
      (subjectsIn content) := by
  rw [subjectsIn]
  cases htlvs : readTlvs 4 content with
  | some tlvs =>
    rw [tlvCollectChildren_eq_ok.mpr ⟨tlvs, htlvs, rfl⟩, Run.unwrapOr_ok, Run.ok_bind]
    refine (subjectsOfChildren_raw (readTlvs_eq_some.mp htlvs).2).congr ?_ rfl
    constructor
    · intro h
      exact Or.inr ⟨tlvs, htlvs, h⟩
    · intro h
      rcases h with h | ⟨tlvs', htlvs', h⟩
      · exact absurd h (not_cut_of_readTlvs htlvs)
      · obtain rfl := Option.some.inj (htlvs.symm.trans htlvs')
        exact h
  | none =>
    have hcut : ChildrenCut content ↔ Cut content := by
      refine or_iff_left fun h => ?_
      obtain ⟨tlvs, h, _⟩ := h
      exact nomatch htlvs.symm.trans h
    cases hels : tlvCollectChildren content with
    | panicked =>
      have h := hcut.mpr (tlvCollectChildren_eq_panicked.mp hels)
      exact ⟨iff_of_true rfl h, fun hnot => absurd h hnot⟩
    | returned result =>
      cases result with
      | ok els =>
        obtain ⟨tlvs, h, _⟩ := tlvCollectChildren_eq_ok.mp hels
        exact nomatch htlvs.symm.trans h
      | error failure =>
        refine (Run.does_ok []).congr (iff_of_false id fun h => ?_) rfl
        exact nomatch hels.symm.trans (tlvCollectChildren_eq_panicked.mpr (hcut.mp h))

theorem extractSubjectsFromCtlChildren_does (content : List UInt8) :
    (extractSubjectsFromCtlChildren content).Does (ChildrenCut content) (subjectsIn content) :=
  subjectsOfChildren_content content

theorem firstStrategy_does (econtent : List UInt8) :
    (firstStrategy econtent).Does
      (∃ content, firstContent econtent = some content ∧ ChildrenCut content)
      (firstSubjects econtent) := by
  rw [firstStrategy, firstSubjects]
  cases hpayload : tlvSequencePayload econtent with
  | panicked => exact absurd hpayload (tlvSequencePayload_ne_panicked econtent)
  | returned result =>
    cases result with
    | ok value =>
      obtain ⟨tlv, rest, hread, htag, rfl⟩ := tlvSequencePayload_eq_ok.mp hpayload
      have hfirst : firstContent econtent =
          some (if econtent.length / 2 < tlv.value.length then tlv.value else econtent) := by
        rw [firstContent, hread]
        exact if_pos htag
      rw [hfirst]
      dsimp only
      split
      · refine (extractSubjectsFromCtlChildren_does tlv.value).congr ?_ rfl
        simp
      · refine (subjectsOfChildren_content econtent).congr ?_ rfl
        simp
    | error failure =>
      have hfirst : firstContent econtent = none := by
        rw [firstContent]
        split
        · rename_i tlv rest hread
          refine if_neg fun htag => ?_
          exact nomatch hpayload.symm.trans
            (tlvSequencePayload_eq_ok.mpr ⟨tlv, rest, hread, htag, rfl⟩)
        · rfl
      rw [hfirst]
      refine (Run.does_ok []).congr (iff_of_false id fun h => ?_) rfl
      obtain ⟨_, h, _⟩ := h
      exact nomatch h

/-- The strategies, one behind the other. -/
theorem parseCtlInnerSubjectSha1s_does (econtent : List UInt8) :
    (parseCtlInnerSubjectSha1s econtent).Does (CutAnywhere econtent) (foundSubjects econtent) :=
  (firstStrategy_does econtent).bind
    ((extractSubjectsFromCtlChildren_does econtent).ite.bind (parseSubjectList_front econtent).ite)

/-! ## Sorted, without duplicates -/

theorem mem_dedup {t : List UInt8} {l : List (List UInt8)} : t ∈ dedup l ↔ t ∈ l := by
  induction l with
  | nil => exact Iff.rfl
  | cons a rest ih =>
    rw [dedup, List.mem_cons, ← ih]
    cases hrest : dedup rest with
    | nil => exact List.mem_cons
    | cons b more =>
      dsimp only
      by_cases hab : a = b
      · subst hab
        rw [if_pos rfl]
        constructor
        · exact Or.inr
        · intro h
          rcases h with rfl | h
          · exact List.mem_cons_self
          · exact h
      · rw [if_neg hab]
        exact List.mem_cons

/-- In a sorted list equal values stand side by side. -/
theorem dedup_sorted {l : List (List UInt8)} (h : l.Pairwise (· ≤ ·)) :
    (dedup l).Pairwise (· ≤ ·) ∧ (dedup l).Nodup := by
  induction l with
  | nil => exact ⟨List.Pairwise.nil, List.nodup_nil⟩
  | cons a rest ih =>
    obtain ⟨hle, hrest⟩ := List.pairwise_cons.mp h
    obtain ⟨hsorted, hnodup⟩ := ih hrest
    have hall : ∀ t ∈ dedup rest, a ≤ t := fun t ht => hle t (mem_dedup.mp ht)
    rw [dedup]
    cases hdedup : dedup rest with
    | nil => exact ⟨List.pairwise_singleton _ _, List.nodup_cons.mpr ⟨List.not_mem_nil, List.nodup_nil⟩⟩
    | cons b more =>
      rw [hdedup] at hsorted hnodup hall
      dsimp only
      by_cases hab : a = b
      · rw [if_pos hab]
        exact ⟨hsorted, hnodup⟩
      · rw [if_neg hab]
        refine ⟨List.pairwise_cons.mpr ⟨hall, hsorted⟩, List.nodup_cons.mpr ⟨?_, hnodup⟩⟩
        intro hmem
        rcases List.mem_cons.mp hmem with rfl | hmem
        · exact hab rfl
        · have hba := (List.pairwise_cons.mp hsorted).1 a hmem
          exact hab (List.le_antisymm (hall b List.mem_cons_self) hba)

theorem dedup_mergeSort (l : List (List UInt8)) :
    (dedup (l.mergeSort fun a b => decide (a ≤ b))).Pairwise (· ≤ ·) ∧
      (dedup (l.mergeSort fun a b => decide (a ≤ b))).Nodup ∧
      ∀ t, t ∈ dedup (l.mergeSort fun a b => decide (a ≤ b)) ↔ t ∈ l := by
  have hsorted : (l.mergeSort fun a b => decide (a ≤ b)).Pairwise (· ≤ ·) := by
    have h := @List.pairwise_mergeSort _ (fun a b : List UInt8 => decide (a ≤ b))
      (fun a b c hab hbc => decide_eq_true
        (List.le_trans (of_decide_eq_true hab) (of_decide_eq_true hbc)))
      (fun a b => by simpa using List.le_total a b) l
    exact h.imp fun h => of_decide_eq_true h
  obtain ⟨hle, hnodup⟩ := dedup_sorted hsorted
  exact ⟨hle, hnodup, fun t => mem_dedup.trans (List.mergeSort_perm l _).mem_iff⟩

end Psign.Trust.AuthrootCtl
