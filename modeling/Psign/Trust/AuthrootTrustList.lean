import Psign.Trust.AuthrootStrategies

/-!
# Trust lists in a signed message

A `TrustList` is what `ctl_subject_sha1_thumbprints_from_stl_bytes` is meant to read.  A PKCS#7
message signs the fields of the list, a CMS message the SEQUENCE around them, and the program finds
the same subjects in both (`foundSubjects_of_trustList`): those of the list, and those that the
parameters of its algorithm look like, since the SEQUENCE around the parameters is tried as a list
of subjects too.
-/

namespace Psign.Trust.AuthrootCtl

open CodeLib CodeLib.Der

/-! ## Encodings -/

/-- The element with this tag and these contents. -/
def element (tag : UInt8) (value : List UInt8) : Tlv := ⟨tag, encodeTlv tag value, value⟩

/-- A subject that is trusted: its SHA-1 identifier, and the attributes. -/
structure TrustedSubject where
  identifier : List UInt8
  length_identifier : identifier.length = 20
  attributes : Option (List UInt8)

/-- A point in time, as a UTCTime or as a GeneralizedTime. -/
structure CtlTime where
  generalized : Bool
  text : List UInt8

/-- A certificate trust list.  The parameters of the algorithm are any octets. -/
structure TrustList where
  version : Option (List UInt8)
  subjectUsage : List (List UInt8)
  listIdentifier : Option (List UInt8)
  sequenceNumber : Option (List UInt8)
  thisUpdate : CtlTime
  nextUpdate : Option CtlTime
  algorithm : List UInt8
  parameters : List UInt8
  trustedSubjects : Option (List TrustedSubject)
  extensions : Option (List UInt8)

namespace TrustedSubject

/-- The elements of a subject. -/
def parts (subject : TrustedSubject) : List Tlv :=
  element 0x04 subject.identifier :: (subject.attributes.map (element 0x31)).toList

/-- The SEQUENCE of a subject. -/
def encoded (subject : TrustedSubject) : Tlv := element 0x30 (rawOf subject.parts)

end TrustedSubject

/-- The element of a point in time. -/
def CtlTime.encoded (time : CtlTime) : Tlv :=
  element (if time.generalized then 0x18 else 0x17) time.text

namespace TrustList

/-- The content of the SEQUENCE around the algorithm. -/
def algorithmContent (ctl : TrustList) : List UInt8 :=
  encodeTlv 0x06 ctl.algorithm ++ ctl.parameters

/-- The SEQUENCE of the object identifiers of the usage. -/
def usageElement (ctl : TrustList) : Tlv :=
  element 0x30 (rawOf (ctl.subjectUsage.map (element 0x06)))

/-- The SEQUENCE of the subjects, if there is one. -/
def subjectElements (ctl : TrustList) : List Tlv :=
  (ctl.trustedSubjects.map fun subjects =>
    element 0x30 (rawOf (subjects.map TrustedSubject.encoded))).toList

/-- The fields, each in its place. -/
def fields (ctl : TrustList) : List Tlv :=
  (ctl.version.map (element 0x02)).toList ++ ctl.usageElement ::
    ((ctl.listIdentifier.map (element 0x04)).toList ++
      (ctl.sequenceNumber.map (element 0x02)).toList ++
      ctl.thisUpdate.encoded :: (ctl.nextUpdate.map CtlTime.encoded).toList ++
      element 0x30 ctl.algorithmContent :: (ctl.subjectElements ++
        (ctl.extensions.map (element 0xA0)).toList))

/-- The list in a PKCS#7 message. -/
def naked (ctl : TrustList) : List UInt8 := rawOf ctl.fields

/-- The list in a CMS message. -/
def wrapped (ctl : TrustList) : List UInt8 := encodeTlv 0x30 ctl.naked

/-- The identifiers of the trusted subjects. -/
def identifiers (ctl : TrustList) : List (List UInt8) :=
  (ctl.trustedSubjects.getD []).map TrustedSubject.identifier

end TrustList

/-! ## Reading an encoding back -/

/-- The value of an element is shorter than all elements together. -/
theorem length_value_le {tlvs : List Tlv} {tag : UInt8} {value : List UInt8}
    (h : element tag value ∈ tlvs) : value.length + 2 ≤ (rawOf tlvs).length := by
  have hle : (element tag value).raw.length ≤ (rawOf tlvs).length :=
    List.Sublist.length_le (List.sublist_flatten_of_mem (List.mem_map_of_mem h))
  have hvalue : value.length + 2 ≤ (element tag value).raw.length := by
    show value.length + 2 ≤ (encodeTlv tag value).length
    have hone := one_le_length_encodeLength value.length
    rw [encodeTlv, List.length_cons, List.length_append]
    omega
  exact Nat.le_trans hvalue hle

/-- Elements that are short enough together are read back. -/
theorem readTlvs_rawOf {tlvs : List Tlv} (helements : ∀ t ∈ tlvs, ∃ tag value, t = element tag value)
    (hlen : (rawOf tlvs).length < 2 ^ 32) : readTlvs 4 (rawOf tlvs) = some tlvs := by
  refine readTlvs_eq_some.mpr ⟨rfl, fun t ht => ?_⟩
  obtain ⟨tag, value, rfl⟩ := helements t ht
  have hle := length_value_le ht
  refine isTlv_encodeTlv ?_ (by decide)
  have hpow : (256 : ℕ) ^ 4 = 2 ^ 32 := by decide
  omega

theorem readTlvs_map_element {tag : UInt8} {values : List (List UInt8)}
    (hlen : (rawOf (values.map (element tag))).length < 2 ^ 32) :
    readTlvs 4 (rawOf (values.map (element tag))) = some (values.map (element tag)) := by
  refine readTlvs_rawOf (fun t ht => ?_) hlen
  obtain ⟨value, _, rfl⟩ := List.mem_map.mp ht
  exact ⟨tag, value, rfl⟩

/-- Elements other than SEQUENCEs give no identifiers. -/
theorem identifiers_eq_nil {els : List Tlv} (h : ∀ el ∈ els, el.tag ≠ 0x30) :
    identifiers els = some [] := by
  induction els with
  | nil => rfl
  | cons el els ih =>
    rw [identifiers, if_neg (h el List.mem_cons_self)]
    exact ih fun t ht => h t (List.mem_cons_of_mem _ ht)

/-- Nor do SEQUENCEs that do not begin with an identifier. -/
theorem identifiers_getD_eq_nil {els : List Tlv} (h : ∀ el ∈ els, el.tag = 0x30 →
    ∀ parts, readTlvs 4 el.value = some parts → identifier parts = []) :
    (identifiers els).getD [] = [] := by
  induction els with
  | nil => rfl
  | cons el els ih =>
    have hrest := ih fun t ht => h t (List.mem_cons_of_mem _ ht)
    rw [identifiers]
    by_cases htag : el.tag = 0x30
    · rw [if_pos htag]
      cases hparts : readTlvs 4 el.value with
      | none => rfl
      | some parts =>
        cases hmore : identifiers els with
        | none => rfl
        | some more =>
          rw [hmore] at hrest
          show identifier parts ++ more = []
          rw [h el List.mem_cons_self htag parts hparts, List.nil_append]
          exact hrest
    · rw [if_neg htag]
      exact hrest

/-- A list of subjects is not cut where the SEQUENCEs in it consist of elements. -/
theorem not_listCut {content : List UInt8} {els : List Tlv} (h : readTlvs 4 content = some els)
    (hels : ∀ el ∈ els, el.tag = 0x30 → (readTlvs 4 el.value).isSome) : ¬ ListCut content := by
  intro hcut
  rcases hcut with hcut | ⟨els', hels', hcut⟩
  · exact not_cut_of_readTlvs h hcut
  · obtain rfl := Option.some.inj (h.symm.trans hels')
    obtain ⟨before, el, after, rfl, _, htag, hcut⟩ := hcut
    obtain ⟨parts, hparts⟩ := Option.isSome_iff_exists.mp (hels el (by simp) htag)
    exact not_cut_of_readTlvs hparts hcut

/-! ## The fields of a trust list -/

namespace TrustList

variable {ctl : TrustList}

/-- Every field is an element, and only three of them are SEQUENCEs. -/
theorem mem_fields {t : Tlv} (ht : t ∈ ctl.fields) :
    (∃ tag value, t = element tag value) ∧ (t.tag = 0x30 →
      t = ctl.usageElement ∨ t = element 0x30 ctl.algorithmContent ∨ t ∈ ctl.subjectElements) := by
  have hoptional : ∀ {o : Option (List UInt8)} {tag : UInt8}, tag ≠ 0x30 →
      t ∈ (o.map (element tag)).toList → (∃ tag value, t = element tag value) ∧ t.tag ≠ 0x30 := by
    intro o tag htag h
    obtain ⟨value, _, rfl⟩ := Option.map_eq_some_iff.mp (Option.mem_toList.mp h)
    exact ⟨⟨tag, value, rfl⟩, htag⟩
  have htime : ∀ {time : CtlTime}, t = time.encoded →
      (∃ tag value, t = element tag value) ∧ t.tag ≠ 0x30 := by
    intro time h
    subst h
    refine ⟨⟨_, _, rfl⟩, ?_⟩
    show (if time.generalized then (0x18 : UInt8) else 0x17) ≠ 0x30
    split <;> decide
  have hother : ∀ {P : Prop}, (∃ tag value, t = element tag value) ∧ t.tag ≠ 0x30 →
      (∃ tag value, t = element tag value) ∧ (t.tag = 0x30 → P) :=
    fun h => ⟨h.1, fun htag => absurd htag h.2⟩
  simp only [fields, List.mem_append, List.mem_cons] at ht
  rcases ht with h | h | ((h | h) | h | h) | h | h | h
  · exact hother (hoptional (by decide) h)
  · exact ⟨⟨_, _, h⟩, fun _ => Or.inl h⟩
  · exact hother (hoptional (by decide) h)
  · exact hother (hoptional (by decide) h)
  · exact hother (htime h)
  · obtain ⟨time, _, h⟩ := Option.map_eq_some_iff.mp (Option.mem_toList.mp h)
    exact hother (htime h.symm)
  · exact ⟨⟨_, _, h⟩, fun _ => Or.inr (Or.inl h)⟩
  · refine ⟨?_, fun _ => Or.inr (Or.inr h)⟩
    obtain ⟨subjects, _, rfl⟩ := Option.map_eq_some_iff.mp (Option.mem_toList.mp h)
    exact ⟨_, _, rfl⟩
  · exact hother (hoptional (by decide) h)

theorem usageElement_mem : ctl.usageElement ∈ ctl.fields := by
  simp [fields]

theorem algorithm_mem : element 0x30 ctl.algorithmContent ∈ ctl.fields := by
  simp [fields]

/-- The first field is the version or the usage. -/
theorem exists_first : ∃ first rest, ctl.fields = first :: rest ∧
    (first.tag ≠ 0x30 ∨ first = ctl.usageElement) := by
  rw [fields]
  cases ctl.version with
  | none => exact ⟨_, _, rfl, Or.inr rfl⟩
  | some version =>
    exact ⟨element 0x02 version, _, rfl, Or.inl (show (0x02 : UInt8) ≠ 0x30 by decide)⟩

theorem subjectElements_subset {t : Tlv} (h : t ∈ ctl.subjectElements) : t ∈ ctl.fields := by
  simp [fields, h]

variable (hlen : ctl.naked.length < 2 ^ 32)

include hlen

theorem readTlvs_naked : readTlvs 4 ctl.naked = some ctl.fields :=
  readTlvs_rawOf (fun _ ht => (mem_fields ht).1) hlen

/-- The value of a field is short. -/
theorem length_field {tag : UInt8} {value : List UInt8} (h : element tag value ∈ ctl.fields) :
    value.length < 2 ^ 32 := by
  have hle := length_value_le h
  have hnaked : (rawOf ctl.fields).length < 2 ^ 32 := hlen
  omega

theorem readTlvs_usage :
    readTlvs 4 ctl.usageElement.value = some (ctl.subjectUsage.map (element 0x06)) :=
  readTlvs_map_element (length_field hlen usageElement_mem)

/-- The usage holds no list of subjects. -/
theorem usage_subjects :
    listSubjects ctl.usageElement.value = some [] ∧ ¬ ListCut ctl.usageElement.value ∧
      subjectsIn ctl.usageElement.value = [] ∧ ¬ ChildrenCut ctl.usageElement.value := by
  have hread := readTlvs_usage hlen
  have htags : ∀ el ∈ ctl.subjectUsage.map (element 0x06), el.tag ≠ 0x30 := by
    intro el hel
    obtain ⟨_, _, rfl⟩ := List.mem_map.mp hel
    exact show (0x06 : UInt8) ≠ 0x30 by decide
  refine ⟨?_, not_listCut hread fun el hel htag => absurd htag (htags el hel), ?_, ?_⟩
  · rw [listSubjects, hread, Option.bind_some]
    exact identifiers_eq_nil htags
  · rw [subjectsIn, hread]
    refine List.flatMap_eq_nil_iff.mpr fun el hel => ?_
    rw [childSubjects, if_neg (htags el hel)]
  · intro hcut
    rcases hcut with hcut | ⟨els, hels, el, hel, htag, _⟩
    · exact not_cut_of_readTlvs hread hcut
    · obtain rfl := Option.some.inj (hread.symm.trans hels)
      exact htags el hel htag

/-- A trusted subject is read back. -/
theorem readTlvs_subject {subjects : List TrustedSubject} {subject : TrustedSubject}
    (hsubjects : ctl.trustedSubjects = some subjects) (hsubject : subject ∈ subjects) :
    readTlvs 4 subject.encoded.value = some subject.parts := by
  have hmem : element 0x30 (rawOf (subjects.map TrustedSubject.encoded)) ∈ ctl.fields := by
    apply subjectElements_subset
    rw [subjectElements, hsubjects]
    exact List.mem_singleton_self _
  have hlist := length_field hlen hmem
  have hsubject : element 0x30 (rawOf subject.parts) ∈ subjects.map TrustedSubject.encoded :=
    List.mem_map_of_mem hsubject
  have hle := length_value_le hsubject
  refine readTlvs_rawOf (fun t ht => ?_) (by omega)
  rcases List.mem_cons.mp ht with rfl | ht
  · exact ⟨_, _, rfl⟩
  · obtain ⟨value, _, rfl⟩ := Option.map_eq_some_iff.mp (Option.mem_toList.mp ht)
    exact ⟨_, _, rfl⟩

theorem readTlvs_subjects {subjects : List TrustedSubject}
    (hsubjects : ctl.trustedSubjects = some subjects) :
    readTlvs 4 (rawOf (subjects.map TrustedSubject.encoded)) =
      some (subjects.map TrustedSubject.encoded) := by
  have hmem : element 0x30 (rawOf (subjects.map TrustedSubject.encoded)) ∈ ctl.fields := by
    apply subjectElements_subset
    rw [subjectElements, hsubjects]
    exact List.mem_singleton_self _
  refine readTlvs_rawOf (fun t ht => ?_) (length_field hlen hmem)
  obtain ⟨subject, _, rfl⟩ := List.mem_map.mp ht
  exact ⟨_, _, rfl⟩

/-- The list of subjects gives the identifiers of all subjects. -/
theorem subjects_subjects {subjects : List TrustedSubject}
    (hsubjects : ctl.trustedSubjects = some subjects) :
    listSubjects (rawOf (subjects.map TrustedSubject.encoded)) =
        some (subjects.map TrustedSubject.identifier) ∧
      ¬ ListCut (rawOf (subjects.map TrustedSubject.encoded)) := by
  have hread := readTlvs_subjects hlen hsubjects
  have hparts : ∀ subject ∈ subjects,
      readTlvs 4 subject.encoded.value = some subject.parts :=
    fun subject hsubject => readTlvs_subject hlen hsubjects hsubject
  constructor
  · rw [listSubjects, hread, Option.bind_some]
    clear hread hsubjects
    induction subjects with
    | nil => rfl
    | cons subject subjects ih =>
      have hmore := ih fun s hs => hparts s (List.mem_cons_of_mem _ hs)
      have htag : subject.encoded.tag = 0x30 := rfl
      rw [List.map_cons, AuthrootCtl.identifiers, if_pos htag, hparts subject List.mem_cons_self,
        hmore]
      have hid : identifier subject.parts = [subject.identifier] :=
        if_pos ⟨rfl, subject.length_identifier⟩
      show some (identifier subject.parts ++ subjects.map TrustedSubject.identifier) = _
      rw [hid]
      rfl
  · refine not_listCut hread fun el hel _ => ?_
    obtain ⟨subject, hsubject, rfl⟩ := List.mem_map.mp hel
    rw [hparts subject hsubject]
    rfl

/-- The identifiers in the fields of a trust list. -/
theorem subjectsIn_naked :
    subjectsIn ctl.naked = (listSubjects ctl.algorithmContent).getD [] ++ ctl.identifiers := by
  have hoptional : ∀ (o : Option (List UInt8)) {tag : UInt8}, tag ≠ 0x30 →
      (o.map (element tag)).toList.flatMap childSubjects = [] := by
    intro o tag htag
    cases o with
    | none => rfl
    | some value =>
      show childSubjects (element tag value) ++ [] = []
      rw [List.append_nil]
      exact if_neg htag
  have htime : ∀ time : CtlTime, childSubjects time.encoded = [] := by
    intro time
    refine if_neg ?_
    show (if time.generalized then (0x18 : UInt8) else 0x17) ≠ 0x30
    split <;> decide
  have hnext : (ctl.nextUpdate.map CtlTime.encoded).toList.flatMap childSubjects = [] := by
    cases ctl.nextUpdate with
    | none => rfl
    | some time => exact (List.append_nil _).trans (htime time)
  have husage : childSubjects ctl.usageElement = [] := by
    rw [childSubjects, (usage_subjects hlen).1]
    rfl
  have hsubjects : ctl.subjectElements.flatMap childSubjects = ctl.identifiers := by
    rw [subjectElements, identifiers]
    cases hsubjects : ctl.trustedSubjects with
    | none => rfl
    | some subjects =>
      show (listSubjects (rawOf (subjects.map TrustedSubject.encoded))).getD [] ++ [] =
        subjects.map TrustedSubject.identifier
      rw [(subjects_subjects hlen hsubjects).1, List.append_nil]
      rfl
  rw [subjectsIn, readTlvs_naked hlen, Option.getD_some, fields]
  simp only [List.flatMap_append, List.flatMap_cons, hoptional _ (show (0x02 : UInt8) ≠ 0x30 by decide),
    hoptional _ (show (0x04 : UInt8) ≠ 0x30 by decide),
    hoptional _ (show (0xA0 : UInt8) ≠ 0x30 by decide), htime, hnext, husage, hsubjects,
    List.nil_append, List.append_nil]
  rfl

/-- The program panics in the fields where it does in the parameters of the algorithm. -/
theorem childrenCut_naked : ChildrenCut ctl.naked ↔ ListCut ctl.algorithmContent := by
  have hread := readTlvs_naked hlen
  constructor
  · intro h
    rcases h with h | ⟨els, hels, child, hchild, htag, h⟩
    · exact absurd h (not_cut_of_readTlvs hread)
    · obtain rfl := Option.some.inj (hread.symm.trans hels)
      rcases (mem_fields hchild).2 htag with rfl | rfl | hsubjects
      · exact absurd h (usage_subjects hlen).2.1
      · exact h
      · obtain ⟨subjects, hsome, rfl⟩ :=
          Option.map_eq_some_iff.mp (Option.mem_toList.mp hsubjects)
        exact absurd h (subjects_subjects hlen hsome).2
  · intro h
    exact Or.inr ⟨_, hread, _, algorithm_mem, rfl, h⟩

/-- The SEQUENCE around a trust list is no list of subjects. -/
theorem listSubjects_naked : (listSubjects ctl.naked).getD [] = [] := by
  rw [listSubjects, readTlvs_naked hlen, Option.bind_some]
  refine identifiers_getD_eq_nil fun el hel htag parts hparts => ?_
  rcases (mem_fields hel).2 htag with rfl | rfl | hsubjects
  · obtain rfl := Option.some.inj ((readTlvs_usage hlen).symm.trans hparts)
    cases ctl.subjectUsage with
    | nil => rfl
    | cons first rest => rfl
  · have hparts : readTlvs 4 (encodeTlv 0x06 ctl.algorithm ++ ctl.parameters) = some parts := hparts
    rw [readTlvs_encodeTlv (by decide) (by decide)] at hparts
    split at hparts
    · obtain ⟨more, _, rfl⟩ := Option.map_eq_some_iff.mp hparts
      rfl
    · cases hparts
  · obtain ⟨subjects, hsome, rfl⟩ := Option.map_eq_some_iff.mp (Option.mem_toList.mp hsubjects)
    obtain rfl := Option.some.inj ((readTlvs_subjects hlen hsome).symm.trans hparts)
    cases subjects with
    | nil => rfl
    | cons first rest => rfl

/-- It is cut only where the parameters of the algorithm are. -/
theorem listCut_naked (h : ListCut ctl.naked) : ListCut ctl.algorithmContent := by
  have hread := readTlvs_naked hlen
  rcases h with h | ⟨els, hels, before, el, after, heq, _, htag, h⟩
  · exact absurd h (not_cut_of_readTlvs hread)
  · obtain rfl := Option.some.inj (hread.symm.trans hels)
    have hel : el ∈ ctl.fields := by
      rw [heq]
      simp
    rcases (mem_fields hel).2 htag with rfl | rfl | hsubjects
    · exact absurd h (not_cut_of_readTlvs (readTlvs_usage hlen))
    · exact Or.inl h
    · obtain ⟨subjects, hsome, rfl⟩ := Option.map_eq_some_iff.mp (Option.mem_toList.mp hsubjects)
      exact absurd h (not_cut_of_readTlvs (readTlvs_subjects hlen hsome))

end TrustList

/-! ## What the strategies find in a trust list -/

/-- A content whose first strategy reads the same, or nothing. -/
theorem strategies_of_front {econtent : List UInt8}
    (hfirst : ∀ content, firstContent econtent = some content →
      content = econtent ∨ (subjectsIn content = [] ∧ ¬ ChildrenCut content))
    (hfront : frontSubjects econtent = []) (hcut : ¬ FrontCut econtent) :
    foundSubjects econtent = subjectsIn econtent ∧
      (CutAnywhere econtent ↔ ChildrenCut econtent) := by
  have hsecond : secondSubjects econtent = subjectsIn econtent := by
    rw [secondSubjects]
    split
    · rfl
    · rename_i hne
      rw [firstSubjects] at hne ⊢
      cases hsome : firstContent econtent with
      | none =>
        rw [hsome] at hne
        exact absurd rfl hne
      | some content =>
        rcases hfirst content hsome with rfl | ⟨hnil, _⟩
        · rfl
        · rw [hsome] at hne
          exact absurd hnil hne
  constructor
  · rw [foundSubjects, hsecond, hfront]
    split
    · rename_i h
      exact h.symm
    · rfl
  · constructor
    · intro h
      rcases h with ⟨content, hsome, h⟩ | ⟨_, h⟩ | ⟨_, h⟩
      · rcases hfirst content hsome with rfl | ⟨_, hnot⟩
        · exact h
        · exact absurd h hnot
      · exact h
      · exact absurd h hcut
    · intro h
      by_cases hnil : firstSubjects econtent = []
      · exact Or.inr (Or.inl ⟨hnil, h⟩)
      · rw [firstSubjects] at hnil
        cases hsome : firstContent econtent with
        | none =>
          rw [hsome] at hnil
          exact absurd rfl hnil
        | some content =>
          rcases hfirst content hsome with rfl | ⟨hempty, _⟩
          · exact Or.inl ⟨_, hsome, h⟩
          · rw [hsome] at hnil
            exact absurd hempty hnil

/-- A content of which only the first strategy finds anything. -/
theorem strategies_of_wrapped {econtent content : List UInt8}
    (hfirst : firstContent econtent = some content) (hsubjects : subjectsIn econtent = [])
    (hfront : frontSubjects econtent = [])
    (hcut : ChildrenCut econtent ∨ FrontCut econtent → ChildrenCut content) :
    foundSubjects econtent = subjectsIn content ∧
      (CutAnywhere econtent ↔ ChildrenCut content) := by
  have hfound : firstSubjects econtent = subjectsIn content := by
    rw [firstSubjects, hfirst]
    rfl
  have hsecond : secondSubjects econtent = subjectsIn content := by
    rw [secondSubjects, hfound, hsubjects]
    split
    · rename_i h
      exact h.symm
    · rfl
  constructor
  · rw [foundSubjects, hsecond, hfront]
    split
    · rename_i h
      exact h.symm
    · rfl
  · constructor
    · intro h
      rcases h with ⟨content', hsome, h⟩ | ⟨_, h⟩ | ⟨_, h⟩
      · obtain rfl := Option.some.inj (hfirst.symm.trans hsome)
        exact h
      · exact hcut (Or.inl h)
      · exact hcut (Or.inr h)
    · intro h
      exact Or.inl ⟨content, hfirst, h⟩

namespace TrustList

variable {ctl : TrustList} (hlen : ctl.naked.length < 2 ^ 32)

include hlen

/-- The strategies on the fields of a trust list. -/
theorem strategies_naked : foundSubjects ctl.naked = subjectsIn ctl.naked ∧
    (CutAnywhere ctl.naked ↔ ChildrenCut ctl.naked) := by
  obtain ⟨first, rest, hread, hfirst⟩ : ∃ first rest, readTlv 4 ctl.naked = some (first, rest) ∧
      (first.tag ≠ 0x30 ∨ first = ctl.usageElement) := by
    obtain ⟨first, more, hfields, hfirst⟩ := @exists_first ctl
    have htlvs := (readTlvs_eq_some.mp (readTlvs_naked hlen)).2 first
      (by rw [hfields]; exact List.mem_cons_self)
    refine ⟨first, rawOf more, ?_, hfirst⟩
    rw [naked, hfields, rawOf_cons]
    exact htlvs.readTlv_append _
  obtain ⟨husage, hlist, hchildren, hcut⟩ := usage_subjects hlen
  apply strategies_of_front
  · intro content hsome
    rw [firstContent, hread] at hsome
    dsimp only at hsome
    split at hsome
    · rename_i htag
      rcases hfirst with hne | rfl
      · exact absurd htag hne
      · obtain rfl := Option.some.inj hsome
        split
        · exact Or.inr ⟨hchildren, hcut⟩
        · exact Or.inl rfl
    · cases hsome
  · rw [frontSubjects, hread]
    dsimp only
    rcases hfirst with hne | rfl
    · exact if_neg hne
    · rw [childSubjects, husage]
      rfl
  · intro h
    obtain ⟨tlv, after, hread', htag, h⟩ := h
    obtain ⟨rfl, _⟩ := Prod.mk.inj (Option.some.inj (hread.symm.trans hread'))
    rcases hfirst with hne | rfl
    · exact hne htag
    · exact hlist h

/-- The strategies on the SEQUENCE of a trust list. -/
theorem strategies_wrapped : foundSubjects ctl.wrapped = subjectsIn ctl.naked ∧
    (CutAnywhere ctl.wrapped ↔ ChildrenCut ctl.naked) := by
  have hpow : (256 : ℕ) ^ 4 = 2 ^ 32 := by decide
  have hshort : ctl.naked.length < 256 ^ 4 := by omega
  have hread : readTlv 4 ctl.wrapped = some (element 0x30 ctl.naked, []) :=
    isTlv_encodeTlv hshort (by decide)
  have hreads : readTlvs 4 ctl.wrapped = some [element 0x30 ctl.naked] := by
    rw [readTlvs_of_readTlv hread, readTlvs_nil]
    rfl
  have hlist : childSubjects (element 0x30 ctl.naked) = [] := listSubjects_naked hlen
  have hhalf : ctl.wrapped.length / 2 < ctl.naked.length := by
    have husage := length_value_le (usageElement_mem : ctl.usageElement ∈ ctl.fields)
    have halgorithm := length_value_le (algorithm_mem : _ ∈ ctl.fields)
    have hcontent : 2 ≤ ctl.algorithmContent.length := by
      have hone := one_le_length_encodeLength ctl.algorithm.length
      rw [algorithmContent, encodeTlv, List.length_append, List.length_cons, List.length_append]
      omega
    have hnaked : ctl.algorithmContent.length + 2 ≤ ctl.naked.length := halgorithm
    rw [wrapped, encodeTlv, List.length_cons, List.length_append]
    have hheader : (encodeLength ctl.naked.length).length ≤ 5 ∧ (ctl.naked.length < 128 →
        (encodeLength ctl.naked.length).length = 1) := by
      rw [encodeLength]
      split
      · exact ⟨by simp, fun _ => rfl⟩
      · rename_i hlong
        refine ⟨?_, fun h => absurd h hlong⟩
        have hle := @length_beBytes_le 8 _ _ hshort
        rw [List.length_cons]
        omega
    omega
  apply strategies_of_wrapped
  · rw [firstContent, hread]
    dsimp only
    rw [if_pos (show (element 0x30 ctl.naked).tag = 0x30 from rfl)]
    exact congrArg some (if_pos hhalf)
  · rw [subjectsIn, hreads]
    show childSubjects (element 0x30 ctl.naked) ++ [] = []
    rw [hlist, List.append_nil]
  · rw [frontSubjects, hread]
    exact hlist
  · intro h
    refine (childrenCut_naked hlen).mpr (listCut_naked hlen ?_)
    rcases h with (h | ⟨tlvs, htlvs, child, hchild, _, h⟩) | ⟨tlv, after, hread', _, h⟩
    · exact absurd h (not_cut_of_readTlvs hreads)
    · obtain rfl := Option.some.inj (hreads.symm.trans htlvs)
      obtain rfl := List.mem_singleton.mp hchild
      exact h
    · obtain ⟨rfl, _⟩ := Prod.mk.inj (Option.some.inj (hread.symm.trans hread'))
      exact h

/-- What the program finds in a trust list, and where it panics. -/
theorem foundSubjects_of_trustList {econtent : List UInt8}
    (h : econtent = ctl.naked ∨ econtent = ctl.wrapped) :
    foundSubjects econtent = (listSubjects ctl.algorithmContent).getD [] ++ ctl.identifiers ∧
      (CutAnywhere econtent ↔ ListCut ctl.algorithmContent) := by
  rw [← subjectsIn_naked hlen, ← childrenCut_naked hlen]
  rcases h with rfl | rfl
  · exact strategies_naked hlen
  · exact strategies_wrapped hlen

end TrustList

/-! ## What is returned -/

variable {readEcontent : List UInt8 → Outcome (List UInt8)} {buf econtent : List UInt8}

/-- A message whose signed content is read. -/
theorem ctlSubjectSha1ThumbprintsFromStlBytes_does (h : readEcontent buf = .ok econtent) :
    (ctlSubjectSha1ThumbprintsFromStlBytes readEcontent buf).Does (CutAnywhere econtent)
      (dedup ((foundSubjects econtent).mergeSort fun a b => decide (a ≤ b))) := by
  obtain ⟨hpanics, hok⟩ := parseCtlInnerSubjectSha1s_does econtent
  rw [ctlSubjectSha1ThumbprintsFromStlBytes, h]
  show Run.Does ((parseCtlInnerSubjectSha1s econtent).unwrapOr [] >>= fun thumbs =>
    .ok (dedup (thumbs.mergeSort fun a b => decide (a ≤ b)))) _ _
  refine Run.Does.map ⟨Run.unwrapOr_eq_panicked.trans hpanics, fun hcut => ?_⟩ _
  rw [hok hcut, Run.unwrapOr_ok]

theorem ctlSubjectSha1ThumbprintsFromStlBytes_of_parse {ids : List (List UInt8)}
    (h : readEcontent buf = .ok econtent) (hids : parseCtlInnerSubjectSha1s econtent = .ok ids) :
    ctlSubjectSha1ThumbprintsFromStlBytes readEcontent buf =
      .ok (dedup (ids.mergeSort fun a b => decide (a ≤ b))) := by
  rw [ctlSubjectSha1ThumbprintsFromStlBytes, h]
  show ((parseCtlInnerSubjectSha1s econtent).unwrapOr [] >>= fun thumbs =>
    Run.ok (dedup (thumbs.mergeSort fun a b => decide (a ≤ b)))) = _
  rw [hids, Run.unwrapOr_ok, Run.ok_bind]

/-- A message that is not read has no subjects. -/
theorem ctlSubjectSha1ThumbprintsFromStlBytes_error {failure : Failure}
    (h : readEcontent buf = .error failure) :
    ctlSubjectSha1ThumbprintsFromStlBytes readEcontent buf = .ok [] := by
  rw [ctlSubjectSha1ThumbprintsFromStlBytes, h]
  show Run.ok (dedup (List.mergeSort [] _)) = .ok []
  rw [List.mergeSort_nil]
  rfl

/-- The program returns unless a reading that it tries meets a content that is cut.  For a trust
list it returns the subjects, sorted and without duplicates, exactly where the parameters of the
algorithm are not cut and look like no other subject. -/
theorem ctl_subject_sha1_thumbprints
    (hshort : ∀ buf econtent, readEcontent buf = .ok econtent → econtent.length < 2 ^ 32) :
    (∀ buf, (∃ ids, ctlSubjectSha1ThumbprintsFromStlBytes readEcontent buf = .ok ids) ↔
      ∀ econtent, readEcontent buf = .ok econtent → ¬ CutAnywhere econtent) ∧
    (∀ buf failure, readEcontent buf = .error failure →
      ctlSubjectSha1ThumbprintsFromStlBytes readEcontent buf = .ok []) ∧
    ∀ buf (ctl : TrustList),
      readEcontent buf = .ok ctl.naked ∨ readEcontent buf = .ok ctl.wrapped →
      ((∃ ids, ctlSubjectSha1ThumbprintsFromStlBytes readEcontent buf = .ok ids ∧
          ids.Pairwise (· ≤ ·) ∧ ids.Nodup ∧ ∀ t, t ∈ ids ↔ t ∈ ctl.identifiers) ↔
        ¬ ListCut ctl.algorithmContent ∧
          ∀ t ∈ (listSubjects ctl.algorithmContent).getD [], t ∈ ctl.identifiers) := by
  refine ⟨fun buf => ?_, fun buf failure h => ctlSubjectSha1ThumbprintsFromStlBytes_error h,
    fun buf ctl h => ?_⟩
  · cases hread : readEcontent buf with
    | error failure =>
      exact iff_of_true ⟨[], ctlSubjectSha1ThumbprintsFromStlBytes_error hread⟩ nofun
    | ok econtent =>
      obtain ⟨hpanics, hok⟩ := ctlSubjectSha1ThumbprintsFromStlBytes_does hread
      constructor
      · intro h econtent' heq hcut
        obtain ⟨ids, h⟩ := h
        obtain rfl := Except.ok.inj heq
        exact nomatch h.symm.trans (hpanics.mpr hcut)
      · intro h
        exact ⟨_, hok (h econtent rfl)⟩
  · have hnaked : ctl.naked.length < 2 ^ 32 := by
      rcases h with h | h
      · exact hshort buf _ h
      · have hlen := hshort buf _ h
        rw [TrustList.wrapped, encodeTlv, List.length_cons, List.length_append] at hlen
        omega
    obtain ⟨econtent, hread, heither⟩ : ∃ econtent, readEcontent buf = .ok econtent ∧
        (econtent = ctl.naked ∨ econtent = ctl.wrapped) := by
      rcases h with h | h
      · exact ⟨_, h, Or.inl rfl⟩
      · exact ⟨_, h, Or.inr rfl⟩
    obtain ⟨hfound, hcut⟩ := TrustList.foundSubjects_of_trustList hnaked heither
    obtain ⟨hpanics, hok⟩ := ctlSubjectSha1ThumbprintsFromStlBytes_does hread
    obtain ⟨hsorted, hnodup, hmem⟩ := dedup_mergeSort (foundSubjects econtent)
    rw [hcut] at hpanics hok
    constructor
    · intro h
      obtain ⟨ids, h, _, _, hids⟩ := h
      have hnot : ¬ ListCut ctl.algorithmContent := fun hlist =>
        nomatch h.symm.trans (hpanics.mpr hlist)
      obtain rfl := Except.ok.inj (Run.returned.inj (h.symm.trans (hok hnot)))
      refine ⟨hnot, fun t ht => (hids t).mp ((hmem t).mpr ?_)⟩
      rw [hfound]
      exact List.mem_append_left _ ht
    · intro h
      obtain ⟨hnot, hparameters⟩ := h
      refine ⟨_, hok hnot, hsorted, hnodup, fun t => (hmem t).trans ?_⟩
      rw [hfound, List.mem_append]
      exact or_iff_right_of_imp (hparameters t)

/-- The value of the element at the front, if it has this tag, and what is behind it. -/
def takeValue (tag : UInt8) (bytes : List UInt8) : Option (List UInt8 × List UInt8) :=
  (readTlv 4 bytes).bind fun (tlv, rest) => if tlv.tag = tag then some (tlv.value, rest) else none

/-- The value octets of the content, in its place in a SignedData. -/
def signedContent (stl : List UInt8) : Outcome (List UInt8) :=
  Outcome.ofOption (do
    let (contentInfo, _) ← takeValue 0x30 stl
    let (_, content) ← takeValue 0x06 contentInfo
    let (explicit, _) ← takeValue 0xA0 content
    let (signedData, _) ← takeValue 0x30 explicit
    let (_, afterVersion) ← takeValue 0x02 signedData
    let (_, afterDigests) ← takeValue 0x31 afterVersion
    let (encapsulated, _) ← takeValue 0x30 afterDigests
    let (_, econtent) ← takeValue 0x06 encapsulated
    let (explicit, _) ← takeValue 0xA0 econtent
    (readTlv 4 explicit).map fun (any, _) => any.value) "STL is not PKCS#7 ContentInfo"

/-- A SignedData without signers around a content. -/
def signedMessage (econtent : List UInt8) : List UInt8 :=
  encodeTlv 0x30 (encodeTlv 0x06 [0x2A, 0x86, 0x48, 0x86, 0xF7, 0x0D, 0x01, 0x07, 0x02] ++
    encodeTlv 0xA0 (encodeTlv 0x30 (encodeTlv 0x02 [1] ++ encodeTlv 0x31 [] ++
      encodeTlv 0x30 (encodeTlv 0x06 [0x2B, 0x06, 0x01, 0x04, 0x01, 0x82, 0x37, 0x0A, 0x01] ++
        encodeTlv 0xA0 econtent) ++ encodeTlv 0x31 [])))

theorem signedContent_short (stl content : List UInt8) (h : signedContent stl = .ok content) :
    content.length < 2 ^ 32 := by
  rw [signedContent, Outcome.ofOption_eq_ok] at h
  simp only [Option.bind_eq_bind, Option.bind_eq_some_iff, Option.map_eq_some_iff] at h
  obtain ⟨_, _, _, _, _, _, _, _, _, _, _, _, _, _, _, _, _, _, ⟨any, rest⟩, hread, rfl⟩ := h
  have hlen := (readTlv_eq_some.mp hread).2.length_value_lt
  have hmax : max 128 (256 ^ 4) = 2 ^ 32 := by decide
  show any.value.length < 2 ^ 32
  omega

/-- A trust list with three subjects, two of them the same. -/
def sampleTrustList (parameters : List UInt8) : TrustList where
  version := none
  subjectUsage := [[0x2B, 0x06, 0x01, 0x04, 0x01, 0x82, 0x37, 0x0A, 0x03, 0x09]]
  listIdentifier := none
  sequenceNumber := some [1]
  thisUpdate := ⟨false, [0x32, 0x36, 0x30, 0x31, 0x30, 0x31, 0x30, 0x30, 0x30, 0x30, 0x30, 0x30,
    0x5A]⟩
  nextUpdate := none
  algorithm := [0x2B, 0x0E, 0x03, 0x02, 0x1A]
  parameters := parameters
  trustedSubjects := some [⟨List.replicate 20 9, rfl, some []⟩, ⟨List.replicate 20 7, rfl, none⟩,
    ⟨List.replicate 20 9, rfl, none⟩]
  extensions := none

set_option maxRecDepth 2000

/-- A list whose algorithm has the parameter NULL is read. -/
theorem ctl_subject_sha1_thumbprints_null :
    ∃ ids, ctlSubjectSha1ThumbprintsFromStlBytes signedContent
        (signedMessage (sampleTrustList [0x05, 0x00]).wrapped) = .ok ids ∧
      ids.Pairwise (· ≤ ·) ∧ ids.Nodup ∧
        ∀ t, t ∈ ids ↔ t ∈ (sampleTrustList [0x05, 0x00]).identifiers := by
  have hread : readTlvs 4 (sampleTrustList [0x05, 0x00]).algorithmContent =
      some [element 0x06 [0x2B, 0x0E, 0x03, 0x02, 0x1A], ⟨0x05, [0x05, 0x00], []⟩] := by
    decide
  have hcontent : signedContent (signedMessage (sampleTrustList [0x05, 0x00]).wrapped) =
      .ok (sampleTrustList [0x05, 0x00]).naked := by decide
  refine ((ctl_subject_sha1_thumbprints signedContent_short).2.2 _ _ (Or.inl hcontent)).mpr
    ⟨not_listCut hread (by decide), ?_⟩
  rw [listSubjects, hread]
  exact fun t ht => absurd ht List.not_mem_nil

/-- An OCTET STRING of 127 octets that ends behind its length is a panic, and a parameter that
begins with 20 octets in an OCTET STRING is returned as a subject. -/
theorem truncated_content_panics :
    ctlSubjectSha1ThumbprintsFromStlBytes signedContent
        (signedMessage (encodeTlv 0x04 [0x04, 0x7F])) = .panicked ∧
      signedContent (signedMessage (sampleTrustList
        (encodeTlv 0x30 (encodeTlv 0x04 (List.replicate 20 1)))).wrapped) =
          .ok (sampleTrustList (encodeTlv 0x30 (encodeTlv 0x04 (List.replicate 20 1)))).naked ∧
      ∃ ids, ctlSubjectSha1ThumbprintsFromStlBytes signedContent (signedMessage (sampleTrustList
          (encodeTlv 0x30 (encodeTlv 0x04 (List.replicate 20 1)))).wrapped) = .ok ids ∧
        List.replicate 20 1 ∈ ids ∧ List.replicate 20 1 ∉ (sampleTrustList
          (encodeTlv 0x30 (encodeTlv 0x04 (List.replicate 20 1)))).identifiers := by
  have hcontent : signedContent (signedMessage (sampleTrustList
      (encodeTlv 0x30 (encodeTlv 0x04 (List.replicate 20 1)))).wrapped) =
        .ok (sampleTrustList (encodeTlv 0x30 (encodeTlv 0x04 (List.replicate 20 1)))).naked := by
    decide
  have hfound : parseCtlInnerSubjectSha1s (sampleTrustList
      (encodeTlv 0x30 (encodeTlv 0x04 (List.replicate 20 1)))).naked =
        .ok [List.replicate 20 1, List.replicate 20 9, List.replicate 20 7, List.replicate 20 9] := by
    decide
  refine ⟨by decide, hcontent, ?_⟩
  exact ⟨_, ctlSubjectSha1ThumbprintsFromStlBytes_of_parse hcontent hfound,
    ((dedup_mergeSort _).2.2 _).mpr List.mem_cons_self, by decide⟩

end Psign.Trust.AuthrootCtl
