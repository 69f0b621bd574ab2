import Psign.Code.StartTags

/-!
# The publisher in a manifest

`update_attr_for_tags` and `update_attr_for_local_tags` write an attribute into the tags of some
name.  Both look for tags in the text and edit the text from a `<` to the first `>`
(`replace_or_insert_xml_attr`).

A `TagSearch` is what both searches have in common: a search for the tags whose names it takes for
the name that is looked for (`hits`).  What an update does to a document is said of every such
search (`TagSearch.updatesTo_iff`).
-/

namespace Psign.Code

open CodeLib CodeLib.Edits CodeLib.Markup Subslice

/-! ## The code -/

/-- `xml_escape_attr`. -/
def xmlEscapeAttr (value : List Char) : List Char :=
  RustStr.replace ['>'] "&gt;".toList (RustStr.replace ['<'] "&lt;".toList
    (RustStr.replace ['"'] "&quot;".toList (RustStr.replace ['&'] "&amp;".toList value)))

/-- The text before the value of an attribute. -/
def attrNeedle (attr : List Char) : List Char := attr ++ ['=', '"']

/-- `replace_or_insert_xml_attr`. -/
def replaceOrInsertXmlAttr (tag attr escapedValue : List Char) : Outcome (List Char) :=
  match firstAt? (attrNeedle attr) tag with
  | some at_ =>
    let valueStart := at_ + (attrNeedle attr).length
    if '"' ∈ tag.drop valueStart then
      .ok (tag.take valueStart ++ escapedValue ++ (tag.drop valueStart).dropWhile (· ≠ '"'))
    else Outcome.bail ("XML " ++ String.ofList attr ++ " attribute is not closed")
  | none =>
    match (lastAt? ['/', '>'] tag).or (lastAt? ['>'] tag) with
    | some insertAt =>
      .ok (tag.take insertAt ++ ' ' :: (attrNeedle attr ++ escapedValue ++ '"' :: tag.drop insertAt))
    | none => Outcome.bail "XML tag is not closed"

/-- The search of `update_attr_for_tags`. -/
def findTag (tag text : List Char) : Outcome (Option (List Char × List Char × List Char)) :=
  match firstAt? ('<' :: tag) text with
  | none => .ok none
  | some start =>
    if '>' ∈ text.drop start then
      .ok (some (text.take start, (text.drop start).takeWhile (· ≠ '>') ++ ['>'],
        ((text.drop start).dropWhile (· ≠ '>')).tail))
    else Outcome.bail ("XML <" ++ String.ofList tag ++ "> tag is not closed")

/-- `update_attr_for_tags`. -/
def updateAttrForTags (text tag attr escapedValue : List Char) : Outcome (List Char) :=
  editAll (findTag tag) (fun found => replaceOrInsertXmlAttr found attr escapedValue) text

/-- `update_attr_for_local_tags`. -/
def updateAttrForLocalTags (text localName attr escapedValue : List Char) : Outcome (List Char) :=
  editAll (findLocalTag localName) (fun found => replaceOrInsertXmlAttr found attr escapedValue)
    text

example : updateAttrForLocalTags "<p:a b=\"1\"/><a/>".toList "a".toList "b".toList "x".toList =
    .ok "<p:a b=\"x\"/><a b=\"x\"/>".toList := by decide

/-! ## Values that are escaped -/

/-- The text of a character in a value. -/
def escapeChar (c : Char) : List Char :=
  if c = '&' then "&amp;".toList
  else if c = '"' then "&quot;".toList
  else if c = '<' then "&lt;".toList
  else if c = '>' then "&gt;".toList
  else [c]

theorem replace_singleton (c : Char) (rep s : List Char) :
    RustStr.replace [c] rep s = s.flatMap fun d => if d = c then rep else [d] := by
  induction s with
  | nil => rfl
  | cons d s ih =>
    rw [List.flatMap_cons]
    by_cases hd : d = c
    · subst hd
      have h := @RustStr.replace_append [d] (List.cons_ne_nil _ _) rep s
      rw [if_pos rfl, ← ih]
      exact h
    · rw [if_neg hd, RustStr.replace_cons, ih, List.singleton_append]
      intro hprefixed
      exact hd (List.cons_prefix_cons.mp hprefixed).1.symm

theorem xmlEscapeAttr_eq (value : List Char) : xmlEscapeAttr value = value.flatMap escapeChar := by
  simp only [xmlEscapeAttr, replace_singleton, List.flatMap_assoc]
  refine List.flatMap_congr fun c _ => ?_
  rw [escapeChar]
  by_cases hamp : c = '&'
  · subst hamp
    decide
  · by_cases hquot : c = '"'
    · subst hquot
      decide
    · by_cases hlt : c = '<'
      · subst hlt
        decide
      · simp [hamp, hquot, hlt]

/-- A publisher that an attribute can hold: characters of XML, and no white space but blanks. -/
def Publishable (publisher : List Char) : Prop :=
  ∀ c ∈ publisher, isXmlChar c = true ∧ (isSpace c = true → c = ' ')

instance (publisher : List Char) : Decidable (Publishable publisher) :=
  inferInstanceAs (Decidable (∀ c ∈ publisher, _))

/-- A character is written as itself or as a reference to it. -/
theorem escapeChar_cases (c : Char) :
    (escapeChar c = [c] ∧ c ≠ '&' ∧ c ≠ '"' ∧ c ≠ '<' ∧ c ≠ '>') ∨
      ∃ body, escapeChar c = '&' :: (body ++ [';']) ∧ resolve body = some c ∧
        ∀ d ∈ body, d.isAlpha = true := by
  rw [escapeChar]
  by_cases hamp : c = '&'
  · exact Or.inr ⟨"amp".toList, by rw [hamp]; decide, by rw [hamp]; decide, by decide⟩
  · by_cases hquot : c = '"'
    · exact Or.inr ⟨"quot".toList, by rw [hquot]; decide, by rw [hquot]; decide, by decide⟩
    · by_cases hlt : c = '<'
      · exact Or.inr ⟨"lt".toList, by rw [hlt]; decide, by rw [hlt]; decide, by decide⟩
      · by_cases hgt : c = '>'
        · exact Or.inr ⟨"gt".toList, by rw [hgt]; decide, by rw [hgt]; decide, by decide⟩
        · rw [if_neg hamp, if_neg hquot, if_neg hlt, if_neg hgt]
          exact Or.inl ⟨rfl, hamp, hquot, hlt, hgt⟩

theorem not_mem_of_isAlpha {s : List Char} {d : Char} (h : ∀ c ∈ s, c.isAlpha = true)
    (hd : d.isAlpha = false) : d ∉ s := by
  intro hmem
  have halpha := h d hmem
  rw [hd] at halpha
  exact absurd halpha (by decide)

/-- The marks of a tag are escaped. -/
theorem not_mem_xmlEscapeAttr {d : Char} (hd : d = '"' ∨ d = '<' ∨ d = '>')
    (value : List Char) : d ∉ xmlEscapeAttr value := by
  rw [xmlEscapeAttr_eq]
  intro hmem
  obtain ⟨c, _, hmem⟩ := List.mem_flatMap.mp hmem
  rcases escapeChar_cases c with ⟨heq, _, hquot, hlt, hgt⟩ | ⟨body, heq, _, hbody⟩
  · rw [heq] at hmem
    obtain rfl := List.mem_singleton.mp hmem
    rcases hd with rfl | rfl | rfl <;> contradiction
  · have hnot : d ∉ body := not_mem_of_isAlpha hbody (by rcases hd with rfl | rfl | rfl <;> decide)
    rw [heq] at hmem
    rcases hd with rfl | rfl | rfl <;> simp [hnot] at hmem

/-- An escaped publisher can stand in double quotes. -/
theorem isValue_xmlEscapeAttr {publisher : List Char} (h : Publishable publisher) :
    IsValue '"' (xmlEscapeAttr publisher) := by
  refine ⟨not_mem_xmlEscapeAttr (Or.inl rfl) _, not_mem_xmlEscapeAttr (Or.inr (Or.inl rfl)) _,
    ?_, ?_⟩
  · rw [xmlEscapeAttr_eq]
    intro d hd
    obtain ⟨c, hc, hd⟩ := List.mem_flatMap.mp hd
    rcases escapeChar_cases c with ⟨heq, _⟩ | ⟨body, heq, _, hbody⟩
    · rw [heq] at hd
      obtain rfl := List.mem_singleton.mp hd
      exact (h d hc).1
    · rw [heq] at hd
      rcases List.mem_cons.mp hd with rfl | hd
      · decide
      · rcases List.mem_append.mp hd with hd | hd
        · have halpha := hbody d hd
          simp only [Char.isAlpha, Char.isUpper, Char.isLower, Bool.or_eq_true, Bool.and_eq_true,
            decide_eq_true_eq, UInt32.le_iff_toNat_le] at halpha
          have hnum : (65 ≤ d.toNat ∧ d.toNat ≤ 90) ∨ (97 ≤ d.toNat ∧ d.toNat ≤ 122) := halpha
          simp only [isXmlChar, Bool.or_eq_true, Bool.and_eq_true, decide_eq_true_eq, beq_iff_eq]
          omega
        · obtain rfl := List.mem_singleton.mp hd
          decide
  · rw [xmlEscapeAttr_eq]
    clear h
    induction publisher with
    | nil => exact referencesOk_of_not_mem List.not_mem_nil
    | cons c publisher ih =>
      rw [List.flatMap_cons]
      refine ReferencesOk.append ?_ ih
      rcases escapeChar_cases c with ⟨heq, hamp, _⟩ | ⟨body, heq, hresolve, hbody⟩
      · rw [heq]
        exact referencesOk_of_not_mem (by simpa using hamp.symm)
      · rw [heq]
        exact referencesOk_reference (not_mem_of_isAlpha hbody (by decide))
          (by rw [hresolve]; rfl)

/-- The value of an escaped publisher, with blanks for white space. -/
theorem parseValue_xmlEscapeAttr (publisher : List Char) :
    parseValue (xmlEscapeAttr publisher) =
      some (publisher.map fun c => if isSpace c = true then ' ' else c) := by
  rw [xmlEscapeAttr_eq]
  induction publisher with
  | nil => rfl
  | cons c publisher ih =>
    rw [List.flatMap_cons]
    rcases escapeChar_cases c with ⟨heq, hamp, _⟩ | ⟨body, heq, hresolve, hbody⟩
    · rw [heq, List.singleton_append, parseValue_cons hamp, ih]
      rfl
    · have hspace : isSpace c = false := by
        by_contra hspace
        have hself : escapeChar c = [c] := by
          simp only [isSpace, Bool.not_eq_false, Bool.or_eq_true, beq_iff_eq] at hspace
          rcases hspace with ((rfl | rfl) | rfl) | rfl <;> decide
        rw [hself] at heq
        simp at heq
      rw [heq, List.cons_append, List.append_assoc, List.singleton_append,
        parseValue_reference (not_mem_of_isAlpha hbody (by decide)) hresolve, ih, List.map_cons,
        hspace]
      rfl

theorem map_eq_self_of_publishable {publisher : List Char} (h : Publishable publisher) :
    (publisher.map fun c => if isSpace c = true then ' ' else c) = publisher := by
  refine (List.map_congr_left fun c hc => ?_).trans (List.map_id publisher)
  split
  · rename_i hspace
    exact ((h c hc).2 hspace).symm
  · rfl

/-! ## Searches for tags -/

/-- What stands behind the name in a tag. -/
def BehindName (more : List Char) : Prop :=
  '>' ∈ more ∧ ∀ c ∈ more.head?, isSpace c = true ∨ c = '/' ∨ c = '>'

theorem BehindName.not_isNameChar {more : List Char} (h : BehindName more) :
    ∀ c ∈ more.head?, isNameChar c = false := by
  intro c hc
  rcases h.2 c hc with hspace | rfl | rfl
  · exact isSpace_not_isNameChar hspace
  · decide
  · decide

/-- A search for the tags with certain names. -/
structure TagSearch (find : Search Char) (hits : List Char → Prop) : Prop where
  spans : ∀ {text before span behind}, find text = .ok (some (before, span, behind)) →
    ∃ inside, span = '<' :: (inside ++ ['>']) ∧ '>' ∉ inside ∧ text = before ++ (span ++ behind)
  isLocal : Local find Sealed
  hit : ∀ {name more}, IsName name → hits name → BehindName more →
    ∃ span behind, find ('<' :: (name ++ more)) = .ok (some ([], span, behind))
  miss : ∀ {name more}, IsName name → ¬ hits name → BehindName more → '<' ∉ more →
    find ('<' :: (name ++ more)) = .ok none
  nothing : ∀ {raw}, '<' ∉ raw → find raw = .ok none

theorem TagSearch.splits {find : Search Char} {hits : List Char → Prop} (h : TagSearch find hits) :
    Splits find := by
  intro text before span behind hfind
  obtain ⟨inside, rfl, _, htext⟩ := h.spans hfind
  exact ⟨htext, List.cons_ne_nil _ _⟩

/-- The name in a tag is read up to where the name ends, or to white space in it. -/
theorem tagName_append_of_behindName {name more : List Char} (h : BehindName more) :
    tagName (name ++ more) = tagName name := by
  rw [tagName, tagName, List.takeWhile_append]
  split
  · rename_i hlen
    have hname := (List.takeWhile_prefix _).eq_of_length hlen
    rw [hname]
    cases more with
    | nil => rw [List.takeWhile_nil, List.append_nil]
    | cons c more =>
      rw [List.takeWhile_cons_of_neg, List.append_nil]
      rcases h.2 c rfl with hspace | rfl | rfl
      · simp only [isSpace, Bool.or_eq_true, beq_iff_eq] at hspace
        rcases hspace with ((rfl | rfl) | rfl) | rfl <;> decide
      · decide
      · decide
  · rfl

/-- The name that the code reads has this local part. -/
def HitsLocal (localName name : List Char) : Prop := tagLocalName (tagName name) = localName

theorem tagSearch_findLocalTag (localName : List Char) :
    TagSearch (findLocalTag localName) (HitsLocal localName) where
  spans h := by
    obtain ⟨inside, hspan, hinside, htext, _⟩ := findLocalTag_eq_some.mp h
    exact ⟨inside, hspan, hinside, htext⟩
  isLocal := local_findLocalTag
  hit := by
    intro name more hname hhits hmore
    obtain ⟨first, rest, rfl⟩ := List.exists_cons_of_ne_nil hname.ne_nil
    have hfirst : ¬ (first = '/' ∨ first = '!' ∨ first = '?') := by
      have h := hname.isNameChar first List.mem_cons_self
      intro hor
      rcases hor with rfl | rfl | rfl <;> exact absurd h (by decide)
    have hfound : ∃ tag, findXmlStartTagByLocalName ('<' :: (first :: rest ++ more)) localName =
        .ok (some tag) ∧ tag.start = 0 := by
      have hlocal : tagLocalName (tagName (first :: (rest ++ more))) = localName := by
        rw [← List.cons_append, tagName_append_of_behindName hmore]
        exact hhits
      rw [findXmlStartTagByLocalName, findStartTagFrom, if_pos rfl, List.cons_append,
        List.head?_cons]
      dsimp only
      rw [if_neg hfirst, if_pos (by simp [hmore.1]), if_pos hlocal]
      exact ⟨_, rfl, rfl⟩
    obtain ⟨tag, htag, hstart⟩ := hfound
    obtain ⟨before, span, behind, hfind⟩ : ∃ before span behind,
        findLocalTag localName ('<' :: (first :: rest ++ more)) =
          .ok (some (before, span, behind)) := by
      rw [findLocalTag, htag]
      exact ⟨_, _, _, rfl⟩
    obtain ⟨_, _, _, _, tag', htag', hstart'⟩ := findLocalTag_eq_some.mp hfind
    obtain rfl := Option.some.inj (Except.ok.inj (htag.symm.trans htag'))
    obtain rfl := List.length_eq_zero_iff.mp (hstart'.symm.trans hstart)
    exact ⟨span, behind, hfind⟩
  miss := by
    intro name more hname hhits hmore hlt
    have hlt : '<' ∉ name ++ more := by
      simpa [hlt] using hname.not_mem (by decide)
    rw [findLocalTag_eq_none]
    cases hfound : findXmlStartTagByLocalName ('<' :: (name ++ more)) localName with
    | error failure =>
      have hsealed : Sealed ('<' :: (name ++ more)) := by
        intro rest hsuffix
        rcases List.suffix_cons_iff.mp hsuffix with h | h
        · rw [(List.cons.inj h).2]
          exact List.mem_append_right _ hmore.1
        · exact absurd (h.mem List.mem_cons_self) hlt
      obtain ⟨found, hok⟩ := (local_findLocalTag : Local (findLocalTag localName) Sealed).total
        hsealed
      rw [findLocalTag, hfound] at hok
      cases hok
    | ok found =>
      cases found with
      | none => rfl
      | some tag =>
        obtain ⟨before, inside, behind, htext, _, _, _, hname', hlocal⟩ :=
          findStartTagFrom_eq_some hfound
        cases before with
        | nil =>
          rw [List.nil_append] at htext
          rw [hname', ← (List.cons.inj htext).2, tagName_append_of_behindName hmore] at hlocal
          exact absurd hlocal hhits
        | cons c before =>
          refine absurd ?_ hlt
          rw [(List.cons.inj htext).2]
          simp
  nothing := by
    intro raw hraw
    rw [findLocalTag_eq_none]
    rcases @findStartTagFrom_append localName raw (sealed_of_not_mem hraw) 0 0 (Nat.zero_le _) []
      with ⟨h, _⟩ | ⟨tag, h, _⟩
    · exact h
    · obtain ⟨before, inside, behind, rfl, _⟩ := findStartTagFrom_eq_some h
      simp at hraw

/-- The search for `<tag` finds the names that begin so. -/
def HitsPrefix (tag name : List Char) : Prop := tag <+: name

theorem findTag_eq_some {tag text before span behind : List Char} :
    findTag tag text = .ok (some (before, span, behind)) ↔
      ∃ inside, span = '<' :: (inside ++ ['>']) ∧ '>' ∉ inside ∧ text = before ++ (span ++ behind) ∧
        firstAt? ('<' :: tag) text = some before.length := by
  rw [findTag]
  constructor
  · intro h
    split at h
    · cases h
    · rename_i start hstart
      split at h
      · rename_i hgt
        obtain ⟨hbefore, hspan⟩ := Prod.mk.inj (Option.some.inj (Except.ok.inj h))
        obtain ⟨hspan, hbehind⟩ := Prod.mk.inj hspan
        obtain ⟨hle, hprefixed, _⟩ := firstAt?_eq_some_iff.mp hstart
        obtain ⟨inside, rest, hdrop, hinside, htake⟩ := exists_inside hgt
        have hrest : (text.drop start).dropWhile (· ≠ '>') = '>' :: rest := by
          have hparts := List.takeWhile_append_dropWhile (p := (· ≠ '>')) (l := text.drop start)
          rw [htake, hdrop] at hparts
          rw [hdrop]
          exact List.append_cancel_left hparts
        obtain ⟨more, hmore⟩ := hprefixed
        rw [htake] at hspan
        rw [hrest, List.tail_cons] at hbehind
        have hlt : ∃ inner, inside = '<' :: inner := by
          rw [hdrop, List.cons_append] at hmore
          cases inside with
          | nil => exact absurd (List.cons.inj hmore).1 (by decide)
          | cons c inner => exact ⟨inner, by rw [← (List.cons.inj hmore).1]⟩
        obtain ⟨inner, rfl⟩ := hlt
        refine ⟨inner, hspan.symm, fun hmem => hinside (List.mem_cons_of_mem _ hmem), ?_, ?_⟩
        · rw [← hbefore, ← hspan, ← hbehind]
          calc text = text.take start ++ text.drop start := (List.take_append_drop _ _).symm
            _ = text.take start ++ ('<' :: inner ++ ['>'] ++ rest) := by rw [hdrop]; simp
        · rw [hstart, ← hbefore, List.length_take_of_le hle]
      · cases h
  · intro h
    obtain ⟨inside, rfl, hinside, rfl, hstart⟩ := h
    rw [hstart]
    have hnot : ∀ c ∈ '<' :: inside, decide (c ≠ '>') = true := by
      intro c hc
      rcases List.mem_cons.mp hc with rfl | hc
      · decide
      · simpa using ne_of_mem_of_not_mem hc hinside
    have hshape : '<' :: (inside ++ ['>']) ++ behind = '<' :: inside ++ '>' :: behind := by simp
    dsimp only
    rw [List.drop_left, List.take_left, hshape, if_pos (by simp),
      List.takeWhile_append_of_pos hnot, List.dropWhile_append_of_pos hnot]
    simp

theorem findTag_eq_none {tag text : List Char} :
    findTag tag text = .ok none ↔ firstAt? ('<' :: tag) text = none := by
  rw [findTag]
  constructor
  · intro h
    cases hstart : firstAt? ('<' :: tag) text with
    | none => rfl
    | some start =>
      rw [hstart] at h
      dsimp only at h
      split at h <;> exact nomatch h
  · intro h
    rw [h]

theorem tagSearch_findTag {tag : List Char} (htag : IsName tag) :
    TagSearch (findTag tag) (HitsPrefix tag) where
  spans h := by
    obtain ⟨inside, hspan, hinside, htext, _⟩ := findTag_eq_some.mp h
    exact ⟨inside, hspan, hinside, htext⟩
  isLocal := by
    have hgt : '>' ∉ tag := htag.not_mem (by decide)
    -- a `<tag` that begins in a sealed text ends in it
    have hwithin : ∀ {raw rest : List Char} {j : ℕ}, Sealed raw → j < raw.length →
        '<' :: tag <+: raw.drop j ++ rest → '<' :: tag <+: raw.drop j := by
      intro raw rest j hraw hj hprefixed
      rw [List.drop_eq_getElem_cons hj, List.cons_append] at hprefixed
      obtain ⟨hlt, hprefixed⟩ := List.cons_prefix_cons.mp hprefixed
      have hmem : '>' ∈ raw.drop (j + 1) := by
        apply hraw
        rw [hlt, ← List.drop_eq_getElem_cons hj]
        exact List.drop_suffix _ _
      obtain ⟨inside, behind, hsplit, _⟩ := exists_inside hmem
      rw [List.drop_eq_getElem_cons hj, ← hlt]
      refine List.cons_prefix_cons.mpr ⟨rfl, ?_⟩
      rw [hsplit] at hprefixed ⊢
      rw [List.append_assoc, List.cons_append] at hprefixed
      exact (prefix_of_prefix_append_cons inside hgt hprefixed).trans (List.prefix_append _ _)
    have hfirst : ∀ {raw : List Char} {at_ : ℕ}, Sealed raw → firstAt? ('<' :: tag) raw = some at_ →
        '>' ∈ raw.drop at_ := by
      intro raw at_ hraw h
      obtain ⟨_, ⟨more, hmore⟩, _⟩ := firstAt?_eq_some_iff.mp h
      rw [List.cons_append] at hmore
      have hmem : '>' ∈ tag ++ more := by
        apply hraw
        rw [hmore]
        exact List.drop_suffix _ _
      rw [← hmore]
      exact List.mem_cons_of_mem _ hmem
    refine ⟨fun hraw hsuffix => hraw.of_suffix hsuffix, ?_, ?_, ?_⟩
    · intro raw hraw h rest
      have hnone := findTag_eq_none.mp h
      have happend : firstAt? ('<' :: tag) (raw ++ rest) =
          (firstAt? ('<' :: tag) rest).map (· + raw.length) := by
        apply firstAt?_append_of_not
        intro j hj hprefixed
        exact firstAt?_eq_none_iff.mp hnone
          ((hwithin hraw hj hprefixed).isInfix.trans (List.drop_suffix _ _).isInfix)
      rw [findTag, findTag, happend]
      cases firstAt? ('<' :: tag) rest with
      | none => rfl
      | some start =>
        dsimp only [Option.map_some]
        rw [Nat.add_comm start, List.drop_length_add_append, List.take_length_add_append]
        split <;> rfl
    · intro raw before span behind hraw h rest
      obtain ⟨inside, rfl, hinside, rfl, hstart⟩ := findTag_eq_some.mp h
      refine findTag_eq_some.mpr ⟨inside, rfl, hinside, by simp, ?_⟩
      obtain ⟨hle, hprefixed, hmin⟩ := firstAt?_eq_some_iff.mp hstart
      have hlen : before.length < (before ++ ('<' :: (inside ++ ['>']) ++ behind)).length := by
        simp only [List.length_append, List.length_cons]
        omega
      refine firstAt?_eq_some_iff.mpr ⟨?_, ?_, ?_⟩
      · rw [List.length_append]
        omega
      · rw [List.drop_append_of_le_length hle]
        exact hprefixed.trans (List.prefix_append _ _)
      · intro j hj hprefixed'
        rw [List.drop_append_of_le_length (by omega)] at hprefixed'
        exact hmin j hj (hwithin hraw (by omega) hprefixed')
    · intro raw hraw
      rw [findTag]
      cases hstart : firstAt? ('<' :: tag) raw with
      | none => exact ⟨_, rfl⟩
      | some start =>
        dsimp only
        rw [if_pos (hfirst hraw hstart)]
        exact ⟨_, rfl⟩
  hit := by
    intro name more hname hhits hmore
    have hstart : firstAt? ('<' :: tag) ('<' :: (name ++ more)) = some 0 := by
      refine firstAt?_eq_some_iff.mpr ⟨Nat.zero_le _, ?_, fun j hj => absurd hj (Nat.not_lt_zero j)⟩
      exact List.cons_prefix_cons.mpr ⟨rfl, hhits.trans (List.prefix_append _ _)⟩
    have hgt : '>' ∈ '<' :: (name ++ more) :=
      List.mem_cons_of_mem _ (List.mem_append_right _ hmore.1)
    rw [findTag, hstart]
    dsimp only
    rw [List.drop_zero, if_pos hgt]
    exact ⟨_, _, rfl⟩
  miss := by
    intro name more hname hhits hmore hlt
    rw [findTag_eq_none, firstAt?_eq_none_iff]
    intro hcontained
    have hlt : '<' ∉ name ++ more := by
      simpa [hlt] using hname.not_mem (by decide)
    rcases List.infix_cons_iff.mp hcontained with hprefixed | hcontained
    · have hprefixed := (List.cons_prefix_cons.mp hprefixed).2
      cases more with
      | nil => exact absurd hmore.1 List.not_mem_nil
      | cons c more =>
        refine hhits (prefix_of_prefix_append_cons name (htag.not_mem ?_) hprefixed)
        exact hmore.not_isNameChar c rfl
    · exact hlt (hcontained.mem List.mem_cons_self)
  nothing := by
    intro raw hraw
    rw [findTag_eq_none, firstAt?_eq_none_iff]
    exact fun hcontained => hraw (hcontained.mem List.mem_cons_self)

end Psign.Code
