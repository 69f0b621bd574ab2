import Psign.Code.PublisherUpdate

/-!
# The publisher in a document

What the update of an attribute does to a `Document`.  The pieces of a document are edited one by
one, and in a tag that the search stops at the edit is right where the attribute can be found by its
text (`Writable`).
-/

namespace Psign.Code

open CodeLib CodeLib.Edits CodeLib.Markup Subslice

/-! ## What an update is meant to do -/

/-- The attribute of this name has this value in the new tag.  Everything else is as it was. -/
def SetsAttr (attr value : List Char) (tag new : Tag) : Prop :=
  new.name = tag.name ∧ ∃ before own after, new.attrs = before ++ own :: after ∧ own.name = attr ∧
    parseValue own.value = some value ∧
    (tag.attrs = before ++ after ∨ ∃ old, old.name = attr ∧ tag.attrs = before ++ old :: after)

/-- The new piece has the attribute if it is a tag that is meant, and is the old one else. -/
def PieceUpdated (target : List Char → Prop) (attr value : List Char) : Piece → Piece → Prop
  | .start tag, .start new =>
    (target tag.name → SetsAttr attr value tag new) ∧ (¬ target tag.name → new = tag)
  | .empty tag, .empty new =>
    (target tag.name → SetsAttr attr value tag new) ∧ (¬ target tag.name → new = tag)
  | piece, new => new = piece

/-- The update writes the value into the tags that are meant and into nothing else, and a second
update changes nothing. -/
def UpdatesTo (update : List Char → Outcome (List Char)) (target : List Char → Prop)
    (attr value : List Char) (doc : Document) : Prop :=
  ∃ new : Document, update doc.render = .ok new.render ∧
    List.Forall₂ (PieceUpdated target attr value) doc.pieces new.pieces ∧
    update new.render = .ok new.render

/-! ## Tags in which the attribute can be written -/

/-- The attribute can be written by its text.  Where it stands in the tag, it is written without
white space around the `=` and in double quotes, the text of its start is nowhere before, and there
is no `>` in a value up to its own.  Where it is missing, the text of its start is nowhere in the
tag, and there is no `>` in a value. -/
def Writable (attr : List Char) (tag : Tag) : Prop :=
  (∃ before own after, tag.attrs = before ++ own :: after ∧ own.name = attr ∧
      own.beforeEquals = [] ∧ own.afterEquals = [] ∧ own.quote = '"' ∧ '>' ∉ own.value ∧
      (∀ a ∈ before, '>' ∉ a.value) ∧
      ¬ Contains ('<' :: (tag.name ++ before.flatMap Attr.render)) (attrNeedle attr)) ∨
    ((∀ a ∈ tag.attrs, a.name ≠ attr ∧ '>' ∉ a.value) ∧
      ¬ Contains ('<' :: tag.body) (attrNeedle attr))

/-- The search stops at a piece if it is a tag that is meant, and its attribute can be written. -/
def Updatable (find : Search Char) (hits target : List Char → Prop) (attr : List Char) :
    Piece → Prop
  | .start tag => (hits tag.name ↔ target tag.name) ∧ (target tag.name → Writable attr tag)
  | .empty tag => (hits tag.name ↔ target tag.name) ∧ (target tag.name → Writable attr tag)
  | piece => find piece.render = .ok none

/-! ## The edit of a tag -/

variable {attr escaped : List Char}

theorem attrNeedle_not_mem (hattr : IsName attr) {d : Char} (hname : isNameChar d = false)
    (hequals : d ≠ '=') (hquote : d ≠ '"') : d ∉ attrNeedle attr := by
  simp [attrNeedle, hattr.not_mem hname, hequals, hquote]

theorem attrNeedle_ne_nil : attrNeedle attr ≠ [] := by
  simp [attrNeedle]

/-- The value behind the first needle is replaced. -/
theorem replaceOrInsertXmlAttr_replace {lead value rest : List Char}
    (hfirst : firstAt? (attrNeedle attr) (lead ++ (attrNeedle attr ++ (value ++ '"' :: rest))) =
      some lead.length) (hvalue : '"' ∉ value) :
    replaceOrInsertXmlAttr (lead ++ (attrNeedle attr ++ (value ++ '"' :: rest))) attr escaped =
      .ok (lead ++ (attrNeedle attr ++ (escaped ++ '"' :: rest))) := by
  have hnot : ∀ c ∈ value, decide (c ≠ '"') = true :=
    fun c hc => by simpa using ne_of_mem_of_not_mem hc hvalue
  rw [replaceOrInsertXmlAttr, hfirst]
  dsimp only
  have hsplit : lead ++ (attrNeedle attr ++ (value ++ '"' :: rest)) =
      (lead ++ attrNeedle attr) ++ (value ++ '"' :: rest) := (List.append_assoc _ _ _).symm
  rw [hsplit, ← List.length_append, List.drop_left, List.take_left, if_pos (by simp),
    List.dropWhile_append_of_pos hnot, List.dropWhile_cons_of_neg (by simp)]
  simp

/-- Without a needle the attribute is inserted before the end of the tag. -/
theorem replaceOrInsertXmlAttr_insert {inside stop : List Char}
    (hnone : firstAt? (attrNeedle attr) ('<' :: (inside ++ stop)) = none)
    (hstop : stop = ['/', '>'] ∨ (stop = ['>'] ∧ inside.getLast? ≠ some '/'))
    (hinside : '>' ∉ inside) :
    replaceOrInsertXmlAttr ('<' :: (inside ++ stop)) attr escaped =
      .ok ('<' :: (inside ++ ' ' :: (attrNeedle attr ++ escaped ++ '"' :: stop))) := by
  have hat : (lastAt? ['/', '>'] ('<' :: (inside ++ stop))).or
      (lastAt? ['>'] ('<' :: (inside ++ stop))) = some ('<' :: inside).length := by
    rcases hstop with rfl | ⟨rfl, hlast⟩
    · have h := @lastAt?_append_pattern Char _ '/' ['>'] [] ('<' :: inside) (by decide)
      rw [List.append_nil, List.cons_append] at h
      rw [h]
      rfl
    · have hslash : lastAt? ['/', '>'] ('<' :: (inside ++ ['>'])) = none := by
        apply lastAt?_eq_none_of_firstAt?
        rw [firstAt?_eq_none_iff]
        intro hcontained
        obtain ⟨lead, rest, h⟩ := hcontained
        have hshape : (lead ++ ['/']) ++ '>' :: rest = '<' :: inside ++ '>' :: [] := by
          simpa using h
        have hmem : '>' ∉ lead := by
          intro hmem
          have hlen := congrArg (List.count '>') hshape
          have hcount := List.count_pos_iff.mpr hmem
          have hzero := List.count_eq_zero.mpr hinside
          simp only [List.count_append, List.count_cons, List.count_nil] at hlen
          simp at hlen
          omega
        have hsame := @run_append_inj (· ≠ '>') (lead ++ ['/']) ('<' :: inside) _ _
          (by
            intro c hc
            rcases List.mem_append.mp hc with hc | hc
            · simpa using ne_of_mem_of_not_mem hc hmem
            · rw [List.mem_singleton.mp hc]
              decide)
          (by
            intro c hc
            rcases List.mem_cons.mp hc with rfl | hc
            · decide
            · simpa using ne_of_mem_of_not_mem hc hinside)
          (by simp) (by simp) hshape
        cases lead with
        | nil => exact absurd (List.cons.inj hsame.1).1 (by decide)
        | cons c lead =>
          apply hlast
          rw [← (List.cons.inj hsame.1).2]
          simp
      have h := @lastAt?_append_pattern Char _ '>' [] [] ('<' :: inside) rfl
      rw [List.append_nil, List.cons_append] at h
      rw [hslash, h]
      rfl
  rw [replaceOrInsertXmlAttr, hnone]
  dsimp only
  rw [hat]
  dsimp only
  rw [← List.cons_append, List.take_left, List.drop_left]
  simp

/-- The text of a tag, with the text before and behind one of its attributes. -/
theorem render_ofTag_split (isEmpty : Bool) {tag : Tag} {before after : List Attr} {own : Attr}
    (hattrs : tag.attrs = before ++ own :: after) :
    (Piece.ofTag isEmpty tag).render =
      ('<' :: (tag.name ++ before.flatMap Attr.render) ++ own.lead) ++
        (own.name ++ (own.assignment ++
          (after.flatMap Attr.render ++ (tag.trail ++ tagEnd isEmpty)))) := by
  rw [Piece.render_ofTag, Tag.body, hattrs, List.flatMap_append, List.flatMap_cons, Attr.render]
  simp

/-- An attribute that is written as it is searched for. -/
theorem name_assignment {own : Attr} (hname : own.name = attr) (hbefore : own.beforeEquals = [])
    (hafter : own.afterEquals = []) (hquote : own.quote = '"') (rest : List Char) :
    own.name ++ (own.assignment ++ rest) = attrNeedle attr ++ (own.value ++ '"' :: rest) := by
  rw [Attr.assignment, hname, hbefore, hafter, hquote, attrNeedle]
  simp

theorem behindName_ofTag (isEmpty : Bool) (tag : Tag) :
    BehindName (tag.attrs.flatMap Attr.render ++ (tag.trail ++ tagEnd isEmpty)) := by
  constructor
  · cases isEmpty <;> simp [tagEnd]
  · intro c hc
    cases hattrs : tag.attrs with
    | nil =>
      rw [hattrs] at hc
      cases htrail : tag.trail with
      | nil =>
        rw [htrail] at hc
        cases isEmpty
        · exact Or.inr (Or.inr (Option.some.inj hc).symm)
        · exact Or.inr (Or.inl (Option.some.inj hc).symm)
      | cons d trail =>
        rw [htrail] at hc
        obtain rfl := Option.some.inj hc
        exact Or.inl (tag.trail_space _ (by rw [htrail]; exact List.mem_cons_self))
    | cons first attrs =>
      obtain ⟨d, lead, hlead⟩ := List.exists_cons_of_ne_nil first.lead_ne
      rw [hattrs, List.flatMap_cons, Attr.render, hlead] at hc
      obtain rfl := Option.some.inj hc
      exact Or.inl (first.lead_space _ (by rw [hlead]; exact List.mem_cons_self))

theorem lt_not_mem_tagEnd (isEmpty : Bool) : '<' ∉ tagEnd isEmpty := by
  cases isEmpty <;> decide

/-- The text of a tag with its name in front. -/
theorem render_ofTag_name (isEmpty : Bool) (tag : Tag) :
    (Piece.ofTag isEmpty tag).render =
      '<' :: (tag.name ++ (tag.attrs.flatMap Attr.render ++ (tag.trail ++ tagEnd isEmpty))) := by
  rw [Piece.render_ofTag, Tag.body]
  simp

variable {find : Search Char} {hits : List Char → Prop}

/-- The search stops at a tag that it takes for one that is meant, and ends at the first `>`. -/
theorem TagSearch.find_ofTag (h : TagSearch find hits) {tag : Tag} (hhits : hits tag.name)
    (isEmpty : Bool) {inside behind : List Char}
    (hrender : (Piece.ofTag isEmpty tag).render = '<' :: (inside ++ '>' :: behind))
    (hinside : '>' ∉ inside) :
    find (Piece.ofTag isEmpty tag).render = .ok (some ([], '<' :: (inside ++ ['>']), behind)) := by
  obtain ⟨span, rest, hfind⟩ := h.hit tag.isName hhits (behindName_ofTag isEmpty tag)
  rw [← render_ofTag_name] at hfind
  obtain ⟨inside', rfl, hinside', hsplit⟩ := h.spans hfind
  have hsame : inside' ++ '>' :: rest = inside ++ '>' :: behind := by
    have htail := hsplit.symm.trans hrender
    simpa using htail
  obtain ⟨rfl, hrest⟩ := @run_append_inj (· ≠ '>') inside' inside _ _
    (fun c hc => by simpa using ne_of_mem_of_not_mem hc hinside')
    (fun c hc => by simpa using ne_of_mem_of_not_mem hc hinside) (by simp) (by simp) hsame
  rw [hfind, (List.cons.inj hrest).2]

/-- What is behind the first `>` of a tag stays as it is. -/
theorem TagSearch.editAll_ofTag (h : TagSearch find hits) {tag : Tag} (hhits : hits tag.name)
    (isEmpty : Bool) {inside behind edited : List Char} {edit : List Char → Outcome (List Char)}
    (hrender : (Piece.ofTag isEmpty tag).render = '<' :: (inside ++ '>' :: behind))
    (hinside : '>' ∉ inside) (hedit : edit ('<' :: (inside ++ ['>'])) = .ok edited) :
    editAll find edit (Piece.ofTag isEmpty tag).render = .ok (edited ++ behind) := by
  have hlt : '<' ∉ behind := by
    intro hmem
    rw [Piece.render_ofTag] at hrender
    have hmem : '<' ∈ tag.body ++ tagEnd isEmpty := by
      rw [(List.cons.inj hrender).2]
      exact List.mem_append_right _ (List.mem_cons_of_mem _ hmem)
    rcases List.mem_append.mp hmem with hmem | hmem
    · exact tag.lt_not_mem_body hmem
    · exact lt_not_mem_tagEnd isEmpty hmem
  rw [editAll_of_some h.splits (h.find_ofTag hhits isEmpty hrender hinside), hedit,
    editAll_of_none (h.nothing hlt)]
  rfl

/-- A mark that is in no value is in no attribute. -/
theorem gt_not_mem_attrs {attrs : List Attr} (h : ∀ a ∈ attrs, '>' ∉ a.value) :
    '>' ∉ attrs.flatMap Attr.render := by
  intro hmem
  obtain ⟨a, ha, hmem⟩ := List.mem_flatMap.mp hmem
  have hquote : '>' ≠ a.quote := by
    rcases a.isQuote with hq | hq <;> rw [hq] <;> decide
  exact h a ha ((Attr.mem_render (by decide) (by decide) (by decide) hquote).mp hmem)

/-- The needle of the attribute itself is the first one. -/
theorem firstAt?_attrNeedle (hattr : IsName attr) {front lead rest : List Char} (hne : lead ≠ [])
    (hlead : ∀ c ∈ lead, isSpace c = true) (hfront : ¬ Contains front (attrNeedle attr)) :
    firstAt? (attrNeedle attr) (front ++ lead ++ (attrNeedle attr ++ rest)) =
      some (front ++ lead).length := by
  have hspace : ∀ {d}, isSpace d = true → d ∉ attrNeedle attr := by
    intro d hd
    apply attrNeedle_not_mem hattr (isSpace_not_isNameChar hd)
    · rintro rfl
      exact absurd hd (by decide)
    · rintro rfl
      exact absurd hd (by decide)
  obtain ⟨c, needle, hneedle⟩ := List.exists_cons_of_ne_nil (@attrNeedle_ne_nil attr)
  obtain ⟨d, lead, rfl⟩ := List.exists_cons_of_ne_nil hne
  rw [firstAt?_append_of_not, firstAt?_append_self]
  · simp
  · intro j hj hprefixed
    by_cases hwhere : j < front.length
    · rw [List.drop_append_of_le_length (by omega), List.append_assoc, List.cons_append] at hprefixed
      have hin := prefix_of_prefix_append_cons (front.drop j)
        (hspace (hlead d List.mem_cons_self)) hprefixed
      exact hfront (hin.isInfix.trans (List.drop_suffix _ _).isInfix)
    · obtain ⟨k, rfl⟩ := Nat.exists_eq_add_of_le (Nat.le_of_not_lt hwhere)
      rw [List.drop_length_add_append] at hprefixed
      have hk : k < (d :: lead).length := by
        rw [List.length_append] at hj
        omega
      rw [List.drop_eq_getElem_cons hk, hneedle] at hprefixed
      have hhead := (List.cons_prefix_cons.mp hprefixed).1
      refine hspace (hlead _ (List.getElem_mem hk)) ?_
      rw [hneedle, ← hhead]
      exact List.mem_cons_self

/-- The edit of a tag that has the attribute. -/
theorem TagSearch.editAll_present (h : TagSearch find hits) {tag : Tag} (hhits : hits tag.name)
    (hattr : IsName attr) (isEmpty : Bool) {before after : List Attr} {own : Attr}
    (hattrs : tag.attrs = before ++ own :: after) (hname : own.name = attr)
    (hbefore : own.beforeEquals = []) (hafter : own.afterEquals = []) (hquote : own.quote = '"')
    (hvalue : '>' ∉ own.value) (hgt : ∀ a ∈ before, '>' ∉ a.value)
    (hnone : ¬ Contains ('<' :: (tag.name ++ before.flatMap Attr.render)) (attrNeedle attr)) :
    editAll find (fun found => replaceOrInsertXmlAttr found attr escaped)
        (Piece.ofTag isEmpty tag).render =
      .ok (('<' :: (tag.name ++ before.flatMap Attr.render) ++ own.lead) ++
        (attrNeedle attr ++ (escaped ++ '"' ::
          (after.flatMap Attr.render ++ (tag.trail ++ tagEnd isEmpty))))) := by
  have hrender := render_ofTag_split isEmpty hattrs
  rw [name_assignment hname hbefore hafter hquote] at hrender
  have hend : '>' ∈ after.flatMap Attr.render ++ (tag.trail ++ tagEnd isEmpty) := by
    cases isEmpty <;> simp [tagEnd]
  obtain ⟨inside, behind, hrest, hinside, _⟩ := exists_inside hend
  rw [hrest] at hrender ⊢
  have hfront : '>' ∉ tag.name ++ before.flatMap Attr.render ++ own.lead := by
    simp only [List.mem_append, not_or]
    exact ⟨⟨tag.isName.not_mem (by decide), gt_not_mem_attrs hgt⟩,
      not_mem_of_isSpace own.lead_space (by decide)⟩
  have hneedle : '>' ∉ attrNeedle attr :=
    attrNeedle_not_mem hattr (by decide) (by decide) (by decide)
  have hquoteValue : '"' ∉ own.value := hquote ▸ own.isValue.1
  have hedit := @replaceOrInsertXmlAttr_replace attr escaped
    ('<' :: (tag.name ++ before.flatMap Attr.render) ++ own.lead) own.value (inside ++ ['>'])
    (firstAt?_attrNeedle hattr own.lead_ne own.lead_space hnone) hquoteValue
  have hfree : '>' ∉ tag.name ++ before.flatMap Attr.render ++ own.lead ++
      (attrNeedle attr ++ (own.value ++ '"' :: inside)) := by
    simp only [List.mem_append, List.mem_cons, not_or] at hfront ⊢
    exact ⟨hfront, hneedle, hvalue, by decide, hinside⟩
  have hspan : '<' :: ((tag.name ++ before.flatMap Attr.render ++ own.lead ++
      (attrNeedle attr ++ (own.value ++ '"' :: inside))) ++ ['>']) =
      ('<' :: (tag.name ++ before.flatMap Attr.render) ++ own.lead) ++
        (attrNeedle attr ++ (own.value ++ '"' :: (inside ++ ['>']))) := by simp
  rw [← hspan] at hedit
  rw [@TagSearch.editAll_ofTag find hits h tag hhits isEmpty _ behind _
    (fun found => replaceOrInsertXmlAttr found attr escaped) (by rw [hrender]; simp)
    hfree hedit]
  simp

/-- The edit of a tag that does not have it. -/
theorem TagSearch.editAll_absent (h : TagSearch find hits) {tag : Tag} (hhits : hits tag.name)
    (hattr : IsName attr) (isEmpty : Bool) (hgt : ∀ a ∈ tag.attrs, '>' ∉ a.value)
    (hnone : ¬ Contains ('<' :: tag.body) (attrNeedle attr)) :
    editAll find (fun found => replaceOrInsertXmlAttr found attr escaped)
        (Piece.ofTag isEmpty tag).render =
      .ok ('<' :: (tag.body ++ ' ' :: (attrNeedle attr ++ escaped ++ '"' :: tagEnd isEmpty))) := by
  have hbody : '>' ∉ tag.body := by
    simp only [Tag.body, List.mem_append, not_or]
    exact ⟨tag.isName.not_mem (by decide), gt_not_mem_attrs hgt,
      not_mem_of_isSpace tag.trail_space (by decide)⟩
  have hstop : tagEnd isEmpty = ['/', '>'] ∨
      (tagEnd isEmpty = ['>'] ∧ tag.body.getLast? ≠ some '/') := by
    cases isEmpty
    · exact Or.inr ⟨rfl, tag.getLast?_body_ne⟩
    · exact Or.inl rfl
  have hfirst : firstAt? (attrNeedle attr) ('<' :: (tag.body ++ tagEnd isEmpty)) = none := by
    have hgt : '>' ∉ attrNeedle attr := attrNeedle_not_mem hattr (by decide) (by decide) (by decide)
    have hslash : '/' ∉ attrNeedle attr :=
      attrNeedle_not_mem hattr (by decide) (by decide) (by decide)
    have hnil : firstAt? (attrNeedle attr) [] = none := by
      rw [firstAt?, if_neg attrNeedle_ne_nil]
    rw [← List.cons_append]
    cases isEmpty
    · show firstAt? (attrNeedle attr) ('<' :: tag.body ++ '>' :: []) = none
      rw [firstAt?_append_cons hgt hnone, hnil]
      rfl
    · show firstAt? (attrNeedle attr) ('<' :: tag.body ++ '/' :: ['>']) = none
      have hend := @firstAt?_append_cons Char _ (attrNeedle attr) [] '>' hgt
        (fun hc => attrNeedle_ne_nil (List.infix_nil.mp hc)) []
      rw [firstAt?_append_cons hslash hnone]
      rw [List.nil_append, hnil] at hend
      rw [hend]
      rfl
  have hedit := @replaceOrInsertXmlAttr_insert attr escaped tag.body (tagEnd isEmpty) hfirst hstop
    hbody
  cases isEmpty
  · rw [@TagSearch.editAll_ofTag find hits h tag hhits false tag.body [] _
      (fun found => replaceOrInsertXmlAttr found attr escaped) (Piece.render_ofTag false tag) hbody
      hedit, List.append_nil]
  · have hshape : (Piece.ofTag true tag).render = '<' :: ((tag.body ++ ['/']) ++ '>' :: []) := by
      rw [Piece.render_ofTag]
      simp [tagEnd]
    have hspan : '<' :: (tag.body ++ tagEnd true) = '<' :: (tag.body ++ ['/'] ++ ['>']) := by
      simp [tagEnd]
    rw [hspan] at hedit
    rw [@TagSearch.editAll_ofTag find hits h tag hhits true _ [] _
      (fun found => replaceOrInsertXmlAttr found attr escaped) hshape (by simp [hbody]) hedit,
      List.append_nil]

/-! ## The tag that is written -/

/-- The attribute with another value in double quotes. -/
def withValue (own : Attr) (value : List Char) (hquote : own.quote = '"')
    (hvalue : IsValue '"' value) : Attr :=
  { own with value := value, isValue := by rw [hquote]; exact hvalue }

/-- An attribute that is added behind the white space at the end of a tag. -/
def addedAttr (trail attr value : List Char) (htrail : ∀ c ∈ trail, isSpace c = true)
    (hattr : IsName attr) (hvalue : IsValue '"' value) : Attr where
  lead := trail ++ [' ']
  name := attr
  beforeEquals := []
  afterEquals := []
  quote := '"'
  value := value
  lead_ne := by simp
  lead_space := by
    intro c hc
    rcases List.mem_append.mp hc with hc | hc
    · exact htrail c hc
    · rw [List.mem_singleton.mp hc]
      decide
  isName := hattr
  beforeEquals_space := fun _ hc => absurd hc List.not_mem_nil
  afterEquals_space := fun _ hc => absurd hc List.not_mem_nil
  isQuote := Or.inl rfl
  isValue := hvalue

/-- The tag with one more attribute, and nothing behind it. -/
def withAttr (tag : Tag) (own : Attr) (hnew : ∀ a ∈ tag.attrs, a.name ≠ own.name) : Tag :=
  { tag with
    attrs := tag.attrs ++ [own]
    nodup := by
      rw [List.map_append, List.nodup_append]
      refine ⟨tag.nodup, List.nodup_cons.mpr ⟨List.not_mem_nil, List.nodup_nil⟩, ?_⟩
      intro name hname other hother
      obtain ⟨a, ha, rfl⟩ := List.mem_map.mp hname
      obtain rfl := List.mem_singleton.mp hother
      exact hnew a ha
    trail := []
    trail_space := fun _ hc => absurd hc List.not_mem_nil }

variable {publisher : List Char}

/-- In a tag in which the attribute can be written it is written, and written once. -/
theorem TagSearch.exists_written (h : TagSearch find hits) {tag : Tag} (hhits : hits tag.name)
    (hattr : IsName attr) (hpublisher : Publishable publisher) (hwritable : Writable attr tag) :
    ∃ new : Tag, SetsAttr attr publisher tag new ∧ ∀ isEmpty,
      editAll find (fun found => replaceOrInsertXmlAttr found attr (xmlEscapeAttr publisher))
          (Piece.ofTag isEmpty tag).render = .ok (Piece.ofTag isEmpty new).render ∧
        editAll find (fun found => replaceOrInsertXmlAttr found attr (xmlEscapeAttr publisher))
          (Piece.ofTag isEmpty new).render = .ok (Piece.ofTag isEmpty new).render := by
  have hvalue := isValue_xmlEscapeAttr hpublisher
  have hparse : parseValue (xmlEscapeAttr publisher) = some publisher := by
    rw [parseValue_xmlEscapeAttr, map_eq_self_of_publishable hpublisher]
  have hgtEscaped : '>' ∉ xmlEscapeAttr publisher :=
    not_mem_xmlEscapeAttr (Or.inr (Or.inr rfl)) publisher
  rcases hwritable with ⟨before, own, after, hattrs, hname, hbefore, hafter, hquote, hgt, hgts,
    hnone⟩ | ⟨hall, hnone⟩
  · have hnodup : ((before ++ withValue own _ hquote hvalue :: after).map Attr.name).Nodup := by
      have hnodup := tag.nodup
      rw [hattrs, List.map_append, List.map_cons] at hnodup
      rw [List.map_append, List.map_cons]
      exact hnodup
    refine ⟨{ tag with attrs := before ++ withValue own _ hquote hvalue :: after,
                       nodup := hnodup },
      ⟨rfl, before, _, after, rfl, hname, hparse, Or.inr ⟨own, hname, hattrs⟩⟩,
      fun isEmpty => ⟨?_, ?_⟩⟩
    · rw [h.editAll_present hhits hattr isEmpty hattrs hname hbefore hafter hquote hgt hgts hnone,
        render_ofTag_split isEmpty rfl,
        @name_assignment attr (withValue own _ hquote hvalue) hname hbefore hafter hquote]
      rfl
    · rw [@TagSearch.editAll_present attr _ find hits h
          { tag with attrs := before ++ withValue own _ hquote hvalue :: after, nodup := hnodup }
          hhits hattr isEmpty before after (withValue own _ hquote hvalue) rfl hname hbefore hafter
          hquote hgtEscaped hgts hnone,
        render_ofTag_split isEmpty rfl,
        @name_assignment attr (withValue own _ hquote hvalue) hname hbefore hafter hquote]
      rfl
  · have hgts : ∀ a ∈ tag.attrs, '>' ∉ a.value := fun a ha => (hall a ha).2
    have hnew : ∀ a ∈ tag.attrs, a.name ≠
        (addedAttr tag.trail attr _ tag.trail_space hattr hvalue).name := fun a ha => (hall a ha).1
    have hfront : ¬ Contains ('<' :: (tag.name ++ tag.attrs.flatMap Attr.render))
        (attrNeedle attr) := by
      intro hcontained
      refine hnone (hcontained.trans (List.IsPrefix.isInfix ⟨tag.trail, ?_⟩))
      rw [Tag.body]
      simp
    have hrender : ∀ isEmpty, '<' :: (tag.body ++ ' ' ::
        (attrNeedle attr ++ xmlEscapeAttr publisher ++ '"' :: tagEnd isEmpty)) =
        ('<' :: (tag.name ++ tag.attrs.flatMap Attr.render) ++ (tag.trail ++ [' '])) ++
          (attrNeedle attr ++ (xmlEscapeAttr publisher ++ '"' ::
            ([] ++ ([] ++ tagEnd isEmpty)))) := by
      intro isEmpty
      rw [Tag.body]
      simp
    have hadded := fun isEmpty => @name_assignment attr
      (addedAttr tag.trail attr _ tag.trail_space hattr hvalue) rfl rfl rfl rfl
      (List.flatMap Attr.render [] ++ ([] ++ tagEnd isEmpty))
    refine ⟨withAttr tag _ hnew,
      ⟨rfl, tag.attrs, _, [], rfl, rfl, hparse, Or.inl (List.append_nil _).symm⟩,
      fun isEmpty => ⟨?_, ?_⟩⟩
    · rw [h.editAll_absent hhits hattr isEmpty hgts hnone,
        @render_ofTag_split isEmpty (withAttr tag _ hnew) tag.attrs [] _ rfl]
      show _ = Except.ok (_ ++ (_ ++ (_ ++ (List.flatMap Attr.render [] ++ ([] ++ tagEnd isEmpty)))))
      rw [hadded, hrender]
      rfl
    · rw [@TagSearch.editAll_present attr (xmlEscapeAttr publisher) find hits h
          (withAttr tag _ hnew) hhits hattr isEmpty tag.attrs [] _ rfl rfl rfl rfl rfl hgtEscaped
          hgts hfront,
        @render_ofTag_split isEmpty (withAttr tag _ hnew) tag.attrs [] _ rfl]
      show _ = Except.ok (_ ++ (_ ++ (_ ++ (List.flatMap Attr.render [] ++ ([] ++ tagEnd isEmpty)))))
      rw [hadded]
      rfl

/-! ## The document that is written -/

/-- The pieces of a document are edited one by one. -/
theorem TagSearch.editAll_pieces (h : TagSearch find hits) {edit : List Char → Outcome (List Char)}
    {pieces : List Piece} {f : Piece → Piece}
    (hpieces : ∀ piece ∈ pieces, editAll find edit piece.render = .ok (f piece).render) :
    editAll find edit (renderAll pieces) = .ok (renderAll (pieces.map f)) := by
  induction pieces with
  | nil => exact editAll_of_none (h.nothing List.not_mem_nil)
  | cons piece pieces ih =>
    rw [renderAll_cons, editAll_append h.splits h.isLocal piece.sealed,
      hpieces piece List.mem_cons_self, ih fun p hp => hpieces p (List.mem_cons_of_mem _ hp)]
    rfl

variable {target : List Char → Prop}

/-- The update of a document in which the search stops at the tags that are meant and in which
their attribute can be written. -/
theorem TagSearch.updatesTo (h : TagSearch find hits) (hattr : IsName attr)
    (hpublisher : Publishable publisher) {doc : Document}
    (hdoc : ∀ piece ∈ doc.pieces, Updatable find hits target attr piece) :
    UpdatesTo (editAll find fun found =>
      replaceOrInsertXmlAttr found attr (xmlEscapeAttr publisher)) target attr publisher doc := by
  classical
  have hwritten : ∀ tag : Tag, ∃ new : {new : Tag // new.name = tag.name},
      (hits tag.name ∧ Writable attr tag → SetsAttr attr publisher tag new ∧ ∀ isEmpty,
        editAll find (fun found => replaceOrInsertXmlAttr found attr (xmlEscapeAttr publisher))
            (Piece.ofTag isEmpty tag).render = .ok (Piece.ofTag isEmpty new.val).render ∧
          editAll find (fun found => replaceOrInsertXmlAttr found attr (xmlEscapeAttr publisher))
            (Piece.ofTag isEmpty new.val).render = .ok (Piece.ofTag isEmpty new.val).render) ∧
      (¬ (hits tag.name ∧ Writable attr tag) → new.val = tag) := by
    intro tag
    by_cases htag : hits tag.name ∧ Writable attr tag
    · obtain ⟨new, hsets, hedit⟩ := h.exists_written htag.1 hattr hpublisher htag.2
      exact ⟨⟨new, hsets.1⟩, fun _ => ⟨hsets, hedit⟩, fun hnot => absurd htag hnot⟩
    · exact ⟨⟨tag, rfl⟩, fun hyes => absurd hyes htag, fun _ => rfl⟩
  choose f hf hsame using hwritten
  -- what the update makes of a tag
  have htag : ∀ (isEmpty : Bool) (tag : Tag), (hits tag.name ↔ target tag.name) →
      (target tag.name → Writable attr tag) →
      PieceUpdated target attr publisher (Piece.ofTag isEmpty tag) (Piece.ofTag isEmpty (f tag)) ∧
      editAll find (fun found => replaceOrInsertXmlAttr found attr (xmlEscapeAttr publisher))
          (Piece.ofTag isEmpty tag).render = .ok (Piece.ofTag isEmpty (f tag).val).render ∧
        editAll find (fun found => replaceOrInsertXmlAttr found attr (xmlEscapeAttr publisher))
          (Piece.ofTag isEmpty (f tag).val).render = .ok (Piece.ofTag isEmpty (f tag).val).render := by
    intro isEmpty tag hhits hwritable
    by_cases htarget : target tag.name
    · obtain ⟨hsets, hedit⟩ := hf tag ⟨hhits.mpr htarget, hwritable htarget⟩
      refine ⟨?_, hedit isEmpty⟩
      cases isEmpty
      · exact ⟨fun _ => hsets, fun hnot => absurd htarget hnot⟩
      · exact ⟨fun _ => hsets, fun hnot => absurd htarget hnot⟩
    · have hnot : ¬ hits tag.name := fun hyes => htarget (hhits.mp hyes)
      have hold : (f tag).val = tag := hsame tag fun hyes => hnot hyes.1
      have hmiss : find (Piece.ofTag isEmpty tag).render = .ok none := by
        rw [render_ofTag_name]
        refine h.miss tag.isName hnot (behindName_ofTag isEmpty tag) ?_
        have hlt := tag.lt_not_mem_body
        simp only [Tag.body, List.mem_append, not_or] at hlt ⊢
        exact ⟨hlt.2.1, hlt.2.2, lt_not_mem_tagEnd isEmpty⟩
      rw [hold]
      refine ⟨?_, editAll_of_none hmiss, editAll_of_none hmiss⟩
      cases isEmpty
      · exact ⟨fun hyes => absurd hyes htarget, fun _ => rfl⟩
      · exact ⟨fun hyes => absurd hyes htarget, fun _ => rfl⟩
  have hpiece : ∀ piece ∈ doc.pieces,
      PieceUpdated target attr publisher piece (piece.mapTag f) ∧
      editAll find (fun found => replaceOrInsertXmlAttr found attr (xmlEscapeAttr publisher))
          piece.render = .ok (piece.mapTag f).render ∧
        editAll find (fun found => replaceOrInsertXmlAttr found attr (xmlEscapeAttr publisher))
          (piece.mapTag f).render = .ok (piece.mapTag f).render := by
    intro piece hmem
    have hok := hdoc piece hmem
    cases piece with
    | start tag => exact htag false tag hok.1 hok.2
    | empty tag => exact htag true tag hok.1 hok.2
    | text raw isText => exact ⟨rfl, editAll_of_none hok, editAll_of_none hok⟩
    | comment body isComment => exact ⟨rfl, editAll_of_none hok, editAll_of_none hok⟩
    | cdata body isCData => exact ⟨rfl, editAll_of_none hok, editAll_of_none hok⟩
    | instruction body isInstruction => exact ⟨rfl, editAll_of_none hok, editAll_of_none hok⟩
    | doctype body isXml => exact ⟨rfl, editAll_of_none hok, editAll_of_none hok⟩
    | close name trail isName isSpace => exact ⟨rfl, editAll_of_none hok, editAll_of_none hok⟩
  refine ⟨doc.mapTags f, ?_, ?_, ?_⟩
  · rw [Document.render, Document.render, Document.pieces_mapTags]
    exact h.editAll_pieces fun piece hmem => (hpiece piece hmem).2.1
  · rw [Document.pieces_mapTags, List.forall₂_map_right_iff, List.forall₂_same]
    exact fun piece hmem => (hpiece piece hmem).1
  · rw [Document.render, Document.pieces_mapTags]
    have hagain := @TagSearch.editAll_pieces find hits h
      (fun found => replaceOrInsertXmlAttr found attr (xmlEscapeAttr publisher))
      (doc.pieces.map (Piece.mapTag f)) id (by
        intro new hnew
        obtain ⟨piece, hmem, rfl⟩ := List.mem_map.mp hnew
        exact (hpiece piece hmem).2.2)
    rw [List.map_id] at hagain
    exact hagain

end Psign.Code
