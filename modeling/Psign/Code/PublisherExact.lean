import Psign.Code.PublisherDocument

/-!
# When the update of a publisher is right

The converse of `TagSearch.updatesTo`.  Where an update writes something else than it is meant to,
its text and the text that is meant differ at some place first.  Up to this place both are the text
of the document, and a tag is read in one way, so the place tells which part of the tag is hit
(`first_difference`).  Publishers of one letter are enough to tell a value that is written from one
that was there before.  `updateAttr_publisher` puts both directions together.
-/

namespace Psign.Code

open CodeLib CodeLib.Edits CodeLib.Markup Subslice

variable {attr publisher : List Char} {find : Search Char} {hits target : List Char → Prop}

/-! ## What an edit does -/

/-- The value behind the first needle is replaced, or the attribute is inserted, or the edit fails,
whatever the value is. -/
theorem replaceOrInsertXmlAttr_cases (attr : List Char) {inside : List Char} (hinside : '>' ∉ inside) :
    (∃ lead value rest, '<' :: (inside ++ ['>']) = lead ++ (attrNeedle attr ++ (value ++ '"' :: rest)) ∧
        '"' ∉ value ∧ firstAt? (attrNeedle attr) ('<' :: (inside ++ ['>'])) = some lead.length ∧
        ∀ escaped, replaceOrInsertXmlAttr ('<' :: (inside ++ ['>'])) attr escaped =
          .ok (lead ++ (attrNeedle attr ++ (escaped ++ '"' :: rest)))) ∨
      (firstAt? (attrNeedle attr) ('<' :: (inside ++ ['>'])) = none ∧
        ∃ lead stop, '<' :: (inside ++ ['>']) = lead ++ stop ∧ (stop = ['/', '>'] ∨ stop = ['>']) ∧
          ∀ escaped, replaceOrInsertXmlAttr ('<' :: (inside ++ ['>'])) attr escaped =
            .ok (lead ++ ' ' :: (attrNeedle attr ++ escaped ++ '"' :: stop))) ∨
      ∀ escaped edited, replaceOrInsertXmlAttr ('<' :: (inside ++ ['>'])) attr escaped ≠ .ok edited := by
  cases hfirst : firstAt? (attrNeedle attr) ('<' :: (inside ++ ['>'])) with
  | some start =>
    obtain ⟨post, hsplit, hlen⟩ := exists_split_of_firstAt? hfirst
    generalize hlead : ('<' :: (inside ++ ['>'])).take start = lead at hsplit hlen
    subst hlen
    by_cases hquote : '"' ∈ post
    · obtain ⟨value, rest, rfl, hvalue⟩ := List.eq_append_cons_of_mem hquote
      rw [List.append_assoc] at hsplit
      refine Or.inl ⟨lead, value, rest, hsplit, hvalue, rfl, fun escaped => ?_⟩
      rw [hsplit] at hfirst ⊢
      exact replaceOrInsertXmlAttr_replace hfirst hvalue
    · refine Or.inr (Or.inr fun escaped edited h => ?_)
      rw [replaceOrInsertXmlAttr, hfirst] at h
      dsimp only at h
      rw [hsplit, ← List.length_append, List.drop_left, if_neg hquote] at h
      cases h
  | none =>
    refine Or.inr (Or.inl ⟨rfl, ?_⟩)
    rcases List.eq_nil_or_concat inside with rfl | ⟨init, last, rfl⟩
    · exact ⟨['<'], ['>'], rfl, Or.inr rfl, fun escaped =>
        replaceOrInsertXmlAttr_insert hfirst (Or.inr ⟨rfl, by simp⟩) hinside⟩
    · rw [List.concat_eq_append] at hfirst hinside ⊢
      by_cases hlast : last = '/'
      · subst hlast
        have hshape : '<' :: (init ++ ['/'] ++ ['>']) = '<' :: (init ++ ['/', '>']) := by simp
        rw [hshape] at hfirst ⊢
        refine ⟨'<' :: init, ['/', '>'], rfl, Or.inl rfl, fun escaped =>
          replaceOrInsertXmlAttr_insert hfirst (Or.inl rfl) fun hmem => hinside ?_⟩
        exact List.mem_append_left _ hmem
      · refine ⟨'<' :: (init ++ [last]), ['>'], rfl, Or.inr rfl, fun escaped =>
          replaceOrInsertXmlAttr_insert hfirst (Or.inr ⟨rfl, ?_⟩) hinside⟩
        rw [List.getLast?_concat]
        exact fun h => hlast (Option.some.inj h)

/-! ## The first difference -/

/-- Texts with the same beginning differ first behind it. -/
theorem first_difference_behind {d pre t t' r r' : List Char} {c c' : Char} (hne : c ≠ c')
    (h : d ++ c :: t = pre ++ r) (h' : d ++ c' :: t' = pre ++ r') :
    ∃ d', d = pre ++ d' ∧ d' ++ c :: t = r ∧ d' ++ c' :: t' = r' := by
  rcases List.append_eq_append_iff.mp h with ⟨m, hpre, hm⟩ | ⟨m, hd, hm⟩
  · cases m with
    | nil =>
      rw [List.append_nil] at hpre
      subst hpre
      exact ⟨[], (List.append_nil _).symm, hm, List.append_cancel_left h'⟩
    | cons e m =>
      obtain ⟨rfl, _⟩ := List.cons.inj hm
      rw [hpre, List.append_assoc] at h'
      exact absurd (List.cons.inj (List.append_cancel_left h')).1.symm hne
  · subst hd
    rw [List.append_assoc] at h'
    exact ⟨m, rfl, hm.symm, List.append_cancel_left h'⟩

/-- A stretch without the stop is in what ends at the first stop. -/
theorem prefix_of_stop {value rest stretch more : List Char} {stop : Char}
    (h : value ++ stop :: rest = stretch ++ more) (hstop : stop ∉ stretch) : stretch <+: value := by
  rcases List.append_eq_append_iff.mp h with ⟨m, rfl, hm⟩ | ⟨m, rfl, hm⟩
  · cases m with
    | nil =>
      rw [List.append_nil]
    | cons e m =>
      obtain ⟨rfl, _⟩ := List.cons.inj hm
      exact absurd (List.mem_append_right _ List.mem_cons_self) hstop
  · exact List.prefix_append _ _

/-- The opening of an attribute has no quote but its last character. -/
theorem quote_not_mem_opening (own : Attr) : ∃ init, own.opening = init ++ [own.quote] ∧ '"' ∉ init ∧
    '/' ∉ own.opening ∧ '>' ∉ own.opening := by
  have hquote : '"' ∉ own.name := own.isName.not_mem (by decide)
  have hslash : '/' ∉ own.name := own.isName.not_mem (by decide)
  have hgt : '>' ∉ own.name := own.isName.not_mem (by decide)
  have hspaces : ∀ {d}, isSpace d = false →
      d ∉ own.lead ∧ d ∉ own.beforeEquals ∧ d ∉ own.afterEquals := fun hd =>
    ⟨not_mem_of_isSpace own.lead_space hd, not_mem_of_isSpace own.beforeEquals_space hd,
      not_mem_of_isSpace own.afterEquals_space hd⟩
  have hq : '/' ≠ own.quote ∧ '>' ≠ own.quote := by
    rcases own.isQuote with h | h <;> rw [h] <;> decide
  refine ⟨own.lead ++ (own.name ++ (own.beforeEquals ++ '=' :: own.afterEquals)), ?_, ?_, ?_, ?_⟩
  · simp [Attr.opening]
  · have h := @hspaces '"' (by decide)
    simp [h, hquote]
  · have h := @hspaces '/' (by decide)
    simp [Attr.opening, h, hslash, hq.1]
  · have h := @hspaces '>' (by decide)
    simp [Attr.opening, h, hgt, hq.2]

/-- A text differs from that of a tag first in the value of the attribute, or behind all attributes
where there is none. -/
theorem first_difference {tag new : Tag} {isEmpty : Bool} {d t t' x y : List Char} {c c' : Char}
    (hsets : SetsAttr attr publisher tag new) (hne : c ≠ c')
    (htag : (Piece.ofTag isEmpty tag).render = d ++ c :: t)
    (hnew : d ++ c' :: t' ++ x = (Piece.ofTag isEmpty new).render ++ y)
    (hkind : c = '/' ∨ c = '>' ∨ ((∃ d', d = d' ++ ['"']) ∧ isSpace c' = false)) :
    (∃ before own after d', tag.attrs = before ++ own :: after ∧ own.name = attr ∧
        d = '<' :: (tag.name ++ before.flatMap Attr.render) ++ (own.opening ++ d') ∧
        (∃ rest, own.value ++ own.quote :: rest = d' ++ c :: t) ∧
        ∃ value rest, parseValue value = some publisher ∧ own.quote ∉ value ∧
          value ++ own.quote :: rest = d' ++ c' :: (t' ++ x)) ∨
      ((∀ a ∈ tag.attrs, a.name ≠ attr) ∧ ∃ d', '"' ∉ d' ∧ (d' = [] → isSpace c' = true) ∧
        d = '<' :: (tag.name ++ tag.attrs.flatMap Attr.render) ++ d') := by
  obtain ⟨hname, before, own', after, hattrs', hown', hparse, hold⟩ := hsets
  obtain ⟨bs, hbs, hcases⟩ : ∃ bs, tag.attrs = before ++ bs ∧
      (bs = after ∨ ∃ old, old.name = attr ∧ bs = old :: after) := by
    rcases hold with h | ⟨old, hname, h⟩
    · exact ⟨_, h, Or.inl rfl⟩
    · exact ⟨_, h, Or.inr ⟨old, hname, rfl⟩⟩
  have hnodup : (∀ a ∈ before, a.name ≠ attr) ∧ ∀ a ∈ after, a.name ≠ attr := by
    have h := new.nodup
    rw [hattrs', List.map_append, List.map_cons, List.nodup_append, List.nodup_cons, hown'] at h
    obtain ⟨_, ⟨hafter, _⟩, hbefore⟩ := h
    exact ⟨fun a ha => hbefore a.name (List.mem_map_of_mem ha) attr List.mem_cons_self,
      fun a ha heq => hafter (heq ▸ List.mem_map_of_mem ha)⟩
  have htext : d ++ c :: t = '<' :: (tag.name ++ before.flatMap Attr.render) ++
      (bs.flatMap Attr.render ++ (tag.trail ++ tagEnd isEmpty)) := by
    rw [← htag, Piece.render_ofTag, Tag.body, hbs, List.flatMap_append]
    simp
  have htext' : d ++ c' :: (t' ++ x) = '<' :: (tag.name ++ before.flatMap Attr.render) ++
      (own'.opening ++ (own'.value ++ own'.quote ::
        (after.flatMap Attr.render ++ (new.trail ++ (tagEnd isEmpty ++ y))))) := by
    rw [Piece.render_ofTag, Tag.body, hname, hattrs', List.flatMap_append, List.flatMap_cons,
      Attr.render_eq] at hnew
    simpa using hnew
  obtain ⟨d₁, hd, hrest, hrest'⟩ := first_difference_behind hne htext htext'
  have hspace' : d₁ = [] → isSpace c' = true := by
    rintro rfl
    obtain ⟨first, lead, hlead⟩ := List.exists_cons_of_ne_nil own'.lead_ne
    rw [Attr.opening, hlead] at hrest'
    obtain rfl := (List.cons.inj hrest').1
    exact own'.lead_space _ (by rw [hlead]; exact List.mem_cons_self)
  -- the place is behind an opening quote, and so not before the attribute
  have hd₁ : c = '/' ∨ c = '>' ∨ ∃ d₂, d₁ = d₂ ++ ['"'] := by
    rcases hkind with h | h | ⟨⟨d', hquote⟩, hspace⟩
    · exact Or.inl h
    · exact Or.inr (Or.inl h)
    · rcases List.eq_nil_or_concat d₁ with rfl | ⟨d₂, last, rfl⟩
      · rw [hspace' rfl] at hspace
        cases hspace
      · rw [List.concat_eq_append] at hd ⊢
        rw [hquote, ← List.append_assoc] at hd
        obtain ⟨_, hlast⟩ := List.append_inj' hd rfl
        rw [← hlast]
        exact Or.inr (Or.inr ⟨d₂, rfl⟩)
  cases bs with
  | nil =>
    refine Or.inr ⟨?_, d₁, ?_, hspace', ?_⟩
    · intro a ha
      rw [hbs, List.append_nil] at ha
      exact hnodup.1 a ha
    · intro hmem
      have hmem : '"' ∈ List.flatMap Attr.render [] ++ (tag.trail ++ tagEnd isEmpty) := by
        rw [← hrest]
        exact List.mem_append_left _ hmem
      have htrail : '"' ∉ tag.trail := not_mem_of_isSpace tag.trail_space (by decide)
      cases isEmpty <;> simp [tagEnd, htrail] at hmem
    · rw [hd, hbs, List.append_nil]
  | cons b bs =>
    have hopening : ∃ d₂, d₁ = b.opening ++ d₂ := by
      obtain ⟨init, hinit, hquote, hslash, hgt⟩ := quote_not_mem_opening b
      rw [List.flatMap_cons, Attr.render_eq, List.append_assoc, List.append_assoc] at hrest
      rcases List.append_eq_append_iff.mp hrest with ⟨m, hm, hmore⟩ | ⟨m, hm, _⟩
      · cases m with
        | nil => exact ⟨[], by rw [hm, List.append_nil, List.append_nil]⟩
        | cons e m =>
          obtain ⟨rfl, _⟩ := List.cons.inj hmore
          exfalso
          rcases hd₁ with rfl | rfl | ⟨d₂, rfl⟩
          · exact hslash (by rw [hm]; simp)
          · exact hgt (by rw [hm]; simp)
          · apply hquote
            obtain ⟨last, m', hlast⟩ : ∃ last m', c :: m = m' ++ [last] := by
              rcases List.eq_nil_or_concat (c :: m) with h | ⟨m', last, h⟩
              · cases h
              · exact ⟨last, m', by rw [h, List.concat_eq_append]⟩
            rw [hinit, hlast, ← List.append_assoc] at hm
            rw [(List.append_inj' hm rfl).1]
            simp
      · exact ⟨m, hm⟩
    obtain ⟨d₂, rfl⟩ := hopening
    rw [List.append_assoc] at hrest'
    obtain ⟨_, hnames, _, _, hquotes, hvalues⟩ := Attr.opening_append_inj hrest'
    rcases hcases with h | ⟨old, holdName, h⟩
    · exact absurd (hnames.trans hown') (hnodup.2 b (by rw [← h]; exact List.mem_cons_self))
    · obtain ⟨rfl, rfl⟩ := List.cons.inj h
      rw [List.flatMap_cons, Attr.render_eq] at hrest
      refine Or.inl ⟨before, b, bs, d₂, hbs, holdName, hd,
        ⟨bs.flatMap Attr.render ++ (tag.trail ++ tagEnd isEmpty), ?_⟩, own'.value,
        bs.flatMap Attr.render ++ (new.trail ++ (tagEnd isEmpty ++ y)), hparse, ?_, ?_⟩
      · simpa using hrest.symm
      · rw [hquotes]
        exact own'.isValue.1
      · rw [hquotes]
        exact hvalues.symm

/-! ## A tag that is meant -/

/-- The attribute of the tag has this value. -/
def HasValue (attr value : List Char) (tag : Tag) : Prop :=
  ∃ own ∈ tag.attrs, own.name = attr ∧ parseValue own.value = some value

/-- An attribute has one value. -/
theorem HasValue.unique {value value' : List Char} {tag : Tag} (h : HasValue attr value tag)
    (h' : HasValue attr value' tag) : value = value' := by
  obtain ⟨own, hmem, hname, hvalue⟩ := h
  obtain ⟨own', hmem', hname', hvalue'⟩ := h'
  obtain rfl := List.inj_on_of_nodup_map tag.nodup hmem hmem' (hname.trans hname'.symm)
  exact Option.some.inj (hvalue.symm.trans hvalue')

theorem SetsAttr.hasValue {tag new : Tag} (h : SetsAttr attr publisher tag new) :
    HasValue attr publisher new := by
  obtain ⟨_, before, own, after, hattrs, hname, hvalue, _⟩ := h
  exact ⟨own, by rw [hattrs]; simp, hname, hvalue⟩

/-- A letter that is written as it is. -/
theorem letter_marks {p : Char} (hp : p = 'a' ∨ p = 'b' ∨ p = 'c') :
    xmlEscapeAttr [p] = [p] ∧ Publishable [p] ∧ isSpace p = false ∧ '=' ∉ [p] ∧ '"' ∉ [p] := by
  rcases hp with rfl | rfl | rfl <;> decide

/-- The first value behind an opening quote that the edit leaves is a value of the tag. -/
theorem hasValue_of_quote_mem {tag : Tag} {before after : List Attr} {own : Attr}
    {d value rest rest' more more' : List Char} (hattrs : tag.attrs = before ++ own :: after)
    (hname : own.name = attr) (hvalue : own.value ++ own.quote :: rest = d ++ more)
    (hnew : value ++ own.quote :: rest' = d ++ more') (hquote : own.quote ∈ d)
    (hnot : own.quote ∉ value) (hparse : parseValue value = some publisher) :
    HasValue attr publisher tag := by
  have hstop : ∀ {v r m : List Char}, v ++ own.quote :: r = d ++ m → own.quote ∉ v →
      v = d.takeWhile (· ≠ own.quote) := by
    intro v r m h hv
    rw [← takeWhile_append_of_mem hquote (by simp) m, ← h, List.takeWhile_append_of_pos
      fun c hc => by simpa using ne_of_mem_of_not_mem hc hv]
    simp
  refine ⟨own, by rw [hattrs]; simp, hname, ?_⟩
  rw [hstop hvalue own.isValue.1, ← hstop hnew hnot]
  exact hparse

/-- A tag in which the attribute is inserted. -/
theorem writable_of_insert (hattr : IsName attr) {tag new : Tag} {isEmpty : Bool}
    {inside behind lead stop x y : List Char} {p : Char} (hp : p = 'a' ∨ p = 'b' ∨ p = 'c')
    (hsets : SetsAttr attr [p] tag new)
    (hrender : (Piece.ofTag isEmpty tag).render = '<' :: (inside ++ '>' :: behind))
    (hinside : '>' ∉ inside) (hsplit : '<' :: (inside ++ ['>']) = lead ++ stop)
    (hstop : stop = ['/', '>'] ∨ stop = ['>'])
    (hnone : firstAt? (attrNeedle attr) ('<' :: (inside ++ ['>'])) = none)
    (hnew : lead ++ ' ' :: (attrNeedle attr ++ [p] ++ '"' :: stop) ++ behind ++ x =
      (Piece.ofTag isEmpty new).render ++ y) :
    Writable attr tag ∨ HasValue attr [p] tag := by
  obtain ⟨c, stop', rfl, hc⟩ : ∃ c stop', stop = c :: stop' ∧ (c = '/' ∨ c = '>') := by
    rcases hstop with rfl | rfl
    · exact ⟨_, _, rfl, Or.inl rfl⟩
    · exact ⟨_, _, rfl, Or.inr rfl⟩
  have htext : (Piece.ofTag isEmpty tag).render = lead ++ c :: (stop' ++ behind) := by
    rw [hrender]
    calc '<' :: (inside ++ '>' :: behind) = '<' :: (inside ++ ['>']) ++ behind := by simp
      _ = lead ++ c :: (stop' ++ behind) := by rw [hsplit]; simp
  have hne : c ≠ ' ' := by
    rcases hc with rfl | rfl <;> decide
  rcases @first_difference attr [p] tag new isEmpty lead (stop' ++ behind)
    (attrNeedle attr ++ [p] ++ '"' :: (c :: stop' ++ behind)) x y c ' ' hsets hne htext
    (by rw [← hnew]; simp) (by tauto) with
    ⟨before, own, after, d, hattrs, hname, hd, ⟨rest, hvalue⟩, value, rest', hparse, hnot, hwrite⟩ |
      ⟨hnames, d, _, _, hd⟩
  · right
    by_cases hquote : own.quote ∈ d
    · exact hasValue_of_quote_mem hattrs hname hvalue hwrite hquote hnot hparse
    · -- the value goes on with the text that is inserted
      exfalso
      have hprefixed : d ++ ' ' :: (attr ++ ['=']) <+: value := by
        apply @prefix_of_stop value rest' _ ('"' :: ([p] ++ '"' :: (c :: stop' ++ behind) ++ x))
          own.quote
        · rw [hwrite, attrNeedle]
          simp
        · have hnotName : own.quote ∉ attr := by
            rcases own.isQuote with h | h <;> rw [h] <;> exact hattr.not_mem (by decide)
          have hmarks : own.quote ≠ ' ' ∧ own.quote ≠ '=' := by
            rcases own.isQuote with h | h <;> rw [h] <;> decide
          simp [hquote, hnotName, hmarks]
      have hmem : '=' ∈ value := hprefixed.subset (by simp)
      exact (letter_marks hp).2.2.2.1 (mem_of_parseValue (by decide) (by decide) (by decide)
        (by decide) (by decide) hparse hmem)
  · -- behind all attributes: the tag is without `>` up to its end
    left
    right
    have hlead : lead <+: '<' :: inside := by
      rw [← List.cons_append] at hsplit
      rcases List.append_eq_append_iff.mp hsplit with ⟨m, hm, hmore⟩ | ⟨m, hm, _⟩
      · cases m with
        | nil => exact ⟨[], by rw [hm, List.append_nil, List.append_nil]⟩
        | cons e m =>
          have hnil := (List.cons.inj hmore).2
          simp at hnil
      · exact ⟨m, hm.symm⟩
    have hfront : '>' ∉ tag.attrs.flatMap Attr.render := by
      intro hmem
      have hin : '>' ∈ '<' :: inside := by
        apply hlead.subset
        rw [hd]
        simp [hmem]
      rcases List.mem_cons.mp hin with h | h
      · exact absurd h (by decide)
      · exact hinside h
    refine ⟨fun a ha => ⟨hnames a ha, fun hmem => hfront ?_⟩, ?_⟩
    · have hquote : '>' ≠ a.quote := by
        rcases a.isQuote with hq | hq <;> rw [hq] <;> decide
      exact List.mem_flatMap.mpr
        ⟨a, ha, (Attr.mem_render (by decide) (by decide) (by decide) hquote).mpr hmem⟩
    · have hbody : '>' ∉ tag.body := by
        simp only [Tag.body, List.mem_append, not_or]
        exact ⟨tag.isName.not_mem (by decide), hfront,
          not_mem_of_isSpace tag.trail_space (by decide)⟩
      have hprefixed : tag.body <+: inside := by
        apply @prefix_of_stop inside behind _ (tagEnd isEmpty) '>' _ hbody
        rw [Piece.render_ofTag] at hrender
        exact (List.cons.inj hrender).2.symm
      intro hcontained
      refine firstAt?_eq_none_iff.mp hnone (hcontained.trans (List.IsPrefix.isInfix ?_))
      exact List.cons_prefix_cons.mpr ⟨rfl, hprefixed.trans (List.prefix_append _ _)⟩

/-- A needle that ends where an opening ends is the opening of the attribute. -/
theorem opening_of_needle (hattr : IsName attr) {own : Attr} {front lead : List Char}
    (hname : own.name = attr) (h : lead ++ attrNeedle attr = front ++ own.opening) :
    own.beforeEquals = [] ∧ own.afterEquals = [] ∧ own.quote = '"' ∧ lead = front ++ own.lead := by
  have hshape : (lead ++ attr ++ ['=']) ++ ['"'] =
      (front ++ (own.lead ++ (attr ++ (own.beforeEquals ++ '=' :: own.afterEquals)))) ++
        [own.quote] := by
    rw [Attr.opening, attrNeedle, hname] at h
    simpa using h
  obtain ⟨hbody, hquote⟩ := List.append_inj' hshape rfl
  have hafter : own.afterEquals = [] := by
    rcases List.eq_nil_or_concat own.afterEquals with hnil | ⟨init, last, hlast⟩
    · exact hnil
    · rw [hlast, List.concat_eq_append] at hbody
      have hshape : (lead ++ attr) ++ ['='] = (front ++ (own.lead ++ (attr ++
          (own.beforeEquals ++ '=' :: init)))) ++ [last] := by simpa using hbody
      have heq := (List.append_inj' hshape rfl).2
      have hspace := own.afterEquals_space last (by rw [hlast]; simp)
      rw [← (List.cons.inj heq).1] at hspace
      exact absurd hspace (by decide)
  rw [hafter] at hbody
  have hshape : (lead ++ attr) ++ ['='] =
      (front ++ (own.lead ++ (attr ++ own.beforeEquals))) ++ ['='] := by simpa using hbody
  have hnames := (List.append_inj' hshape rfl).1
  have hbefore : own.beforeEquals = [] := by
    rcases List.eq_nil_or_concat own.beforeEquals with hnil | ⟨init, last, hlast⟩
    · exact hnil
    · obtain ⟨start, final, hfinal⟩ : ∃ start final, attr = start ++ [final] := by
        rcases List.eq_nil_or_concat attr with h | ⟨start, final, h⟩
        · exact absurd h hattr.ne_nil
        · exact ⟨start, final, by rw [h, List.concat_eq_append]⟩
      have hshape : (lead ++ start) ++ [final] =
          (front ++ (own.lead ++ (attr ++ init))) ++ [last] := by
        rw [hlast, List.concat_eq_append] at hnames
        nth_rewrite 1 [hfinal] at hnames
        simpa using hnames
      have heq := (List.append_inj' hshape rfl).2
      have hspace := own.beforeEquals_space last (by rw [hlast]; simp)
      rw [← (List.cons.inj heq).1] at hspace
      have hchar := hattr.isNameChar final (by rw [hfinal]; simp)
      rw [isSpace_not_isNameChar hspace] at hchar
      cases hchar
  refine ⟨hbefore, hafter, (List.cons.inj hquote).1.symm, ?_⟩
  rw [hbefore, List.append_nil, ← List.append_assoc] at hnames
  exact List.append_cancel_right hnames

/-- What ends before the first `>` of a text is in what stands before it. -/
theorem prefix_inside {inside front rest : List Char} {c : Char}
    (h : '<' :: (inside ++ ['>']) = front ++ c :: rest) (hc : c ≠ '>') :
    front ++ [c] <+: '<' :: inside := by
  rcases List.eq_nil_or_concat rest with rfl | ⟨init, last, rfl⟩
  · rw [← List.cons_append] at h
    exact absurd (List.cons.inj (List.append_inj' h rfl).2).1.symm hc
  · rw [List.concat_eq_append] at h
    have hshape : ('<' :: inside) ++ ['>'] = (front ++ c :: init) ++ [last] := by simpa using h
    rw [(List.append_inj' hshape rfl).1]
    exact ⟨init, by simp⟩

/-- A tag in which a value is replaced, by one that begins otherwise. -/
theorem writable_of_replace (hattr : IsName attr) {tag new : Tag} {isEmpty : Bool}
    {inside behind lead value rest x y : List Char} {p : Char} (hp : p = 'a' ∨ p = 'b' ∨ p = 'c')
    (hsets : SetsAttr attr [p] tag new)
    (hrender : (Piece.ofTag isEmpty tag).render = '<' :: (inside ++ '>' :: behind))
    (hinside : '>' ∉ inside)
    (hsplit : '<' :: (inside ++ ['>']) = lead ++ (attrNeedle attr ++ (value ++ '"' :: rest)))
    (hvalue : '"' ∉ value)
    (hfirst : firstAt? (attrNeedle attr) ('<' :: (inside ++ ['>'])) = some lead.length)
    (hhead : value.head? ≠ some p)
    (hnew : lead ++ (attrNeedle attr ++ ([p] ++ '"' :: rest)) ++ behind ++ x =
      (Piece.ofTag isEmpty new).render ++ y) :
    Writable attr tag ∨ HasValue attr [p] tag := by
  obtain ⟨hescape, hpub, hspace, hequals, hquotes⟩ := letter_marks hp
  obtain ⟨c, more, hc, hne⟩ : ∃ c more, value ++ '"' :: rest = c :: more ∧ c ≠ p := by
    cases value with
    | nil => exact ⟨'"', rest, rfl, fun h => hquotes (by rw [h]; exact List.mem_cons_self)⟩
    | cons first value => exact ⟨first, value ++ '"' :: rest, rfl, fun h => hhead (by rw [h]; rfl)⟩
  have hall : (Piece.ofTag isEmpty tag).render =
      lead ++ (attrNeedle attr ++ (value ++ '"' :: (rest ++ behind))) := by
    rw [hrender]
    calc '<' :: (inside ++ '>' :: behind) = '<' :: (inside ++ ['>']) ++ behind := by simp
      _ = lead ++ (attrNeedle attr ++ (value ++ '"' :: (rest ++ behind))) := by rw [hsplit]; simp
  have htext : (Piece.ofTag isEmpty tag).render = lead ++ attrNeedle attr ++ c :: (more ++ behind) := by
    have hc' : value ++ '"' :: (rest ++ behind) = c :: (more ++ behind) := by
      rw [← List.cons_append, ← List.append_assoc, hc, List.cons_append]
    rw [hall, hc', List.append_assoc]
  have hlast : lead ++ attrNeedle attr = (lead ++ (attr ++ ['='])) ++ ['"'] := by
    simp [attrNeedle]
  rcases @first_difference attr [p] tag new isEmpty (lead ++ attrNeedle attr) (more ++ behind)
    ('"' :: rest ++ behind) x y c p hsets hne htext (by rw [← hnew]; simp)
    (Or.inr (Or.inr ⟨⟨_, hlast⟩, hspace⟩)) with
    ⟨before, own, after, d, hattrs, hname, hd, ⟨rest', hown⟩, value', rest'', hparse, hnot, hwrite⟩ |
      ⟨_, d, hd, hnil, hfront⟩
  · by_cases hquote : own.quote ∈ d
    · exact Or.inr (hasValue_of_quote_mem hattrs hname hown hwrite hquote hnot hparse)
    · rcases List.eq_nil_or_concat d with rfl | ⟨d', last, rfl⟩
      · -- the needle is the opening of the attribute
        left
        left
        rw [List.append_nil] at hd
        obtain ⟨hbefore, hafter, hq, hlead⟩ := opening_of_needle hattr hname hd
        have hvalues : own.value = value := by
          have hshape : own.value ++ '"' :: rest' = value ++ '"' :: (rest ++ behind) := by
            have hc' : value ++ '"' :: (rest ++ behind) = c :: (more ++ behind) := by
              rw [← List.cons_append, ← List.append_assoc, hc, List.cons_append]
            rw [hc', ← hq]
            exact hown
          exact (@run_append_inj (· ≠ '"') _ _ _ _
            (fun e he => by simpa using ne_of_mem_of_not_mem he (hq ▸ own.isValue.1))
            (fun e he => by simpa using ne_of_mem_of_not_mem he hvalue) (by simp) (by simp)
            hshape).1
        have hprefixed : lead ++ (attrNeedle attr ++ value) ++ ['"'] <+: '<' :: inside := by
          apply @prefix_inside inside _ rest '"' _ (by decide)
          rw [hsplit]
          simp
        have hgt : '>' ∉ lead ++ (attrNeedle attr ++ value) := by
          intro hmem
          rcases List.mem_cons.mp (hprefixed.subset (List.mem_append_left _ hmem)) with h | h
          · exact absurd h (by decide)
          · exact hinside h
        refine ⟨before, own, after, hattrs, hname, hbefore, hafter, hq, ?_, ?_, ?_⟩
        · rw [hvalues]
          exact fun hmem => hgt (by simp [hmem])
        · intro a ha hmem
          have hquote : '>' ≠ a.quote := by
            rcases a.isQuote with hq | hq <;> rw [hq] <;> decide
          have hrendered := (Attr.mem_render (by decide) (by decide) (by decide) hquote).mpr hmem
          refine hgt (List.mem_append_left _ ?_)
          rw [hlead]
          exact List.mem_append_left _ (List.mem_cons_of_mem _ (List.mem_append_right _
            (List.mem_flatMap.mpr ⟨a, ha, hrendered⟩)))
        · -- a needle before the attribute would be the first
          intro hcontained
          obtain ⟨_, _, hmin⟩ := firstAt?_eq_some_iff.mp hfirst
          obtain ⟨u, w, huw⟩ := hcontained
          have hneedle : 0 < (attrNeedle attr).length := by simp [attrNeedle]
          refine hmin u.length ?_ ?_
          · rw [hlead, ← huw]
            simp only [List.length_append]
            omega
          · rw [hsplit, hlead, ← huw]
            refine ⟨w ++ own.lead ++ (attrNeedle attr ++ (value ++ '"' :: rest)), ?_⟩
            have hshape : u ++ attrNeedle attr ++ w ++ own.lead ++
                (attrNeedle attr ++ (value ++ '"' :: rest)) =
                u ++ (attrNeedle attr ++ (w ++ own.lead ++
                  (attrNeedle attr ++ (value ++ '"' :: rest)))) := by simp
            rw [hshape, List.drop_left]
      · -- the needle is in a value in single quotes
        exfalso
        rw [List.concat_eq_append] at hd hquote hwrite
        have hends : (lead ++ (attr ++ ['='])) ++ ['"'] =
            ('<' :: (tag.name ++ before.flatMap Attr.render) ++ (own.opening ++ d')) ++ [last] := by
          rw [← hlast, hd]
          simp
        obtain rfl := (List.cons.inj (List.append_inj' hends rfl).2).1
        have hprefixed := prefix_of_stop hwrite hquote
        refine hquotes (mem_of_parseValue (by decide) (by decide) (by decide) (by decide) (by decide)
          hparse (hprefixed.subset (by simp)))
  · exfalso
    rcases List.eq_nil_or_concat d with rfl | ⟨d', last, rfl⟩
    · rw [hnil rfl] at hspace
      cases hspace
    · rw [List.concat_eq_append] at hd hfront
      have hends : (lead ++ (attr ++ ['='])) ++ ['"'] =
          ('<' :: (tag.name ++ tag.attrs.flatMap Attr.render) ++ d') ++ [last] := by
        rw [← hlast, hfront]
        simp
      rw [← (List.cons.inj (List.append_inj' hends rfl).2).1] at hd
      exact hd (by simp)

/-! ## All pieces -/

/-- A text that is to stay holds no tag that the search stops at. -/
theorem TagSearch.eq_none_of_same (h : TagSearch find hits) {raw : List Char} (hraw : Sealed raw)
    (hsame : ∀ p, p = 'a' ∨ p = 'b' ∨ p = 'c' → ∃ text x y,
      editAll find (fun found => replaceOrInsertXmlAttr found attr (xmlEscapeAttr [p])) raw =
        .ok text ∧ text ++ x = raw ++ y) : find raw = .ok none := by
  obtain ⟨found, hfind⟩ := h.isLocal.total hraw
  rcases found with _ | ⟨before, span, behind⟩
  · exact hfind
  · exfalso
    obtain ⟨inside, rfl, hinside, hsplit⟩ := h.spans hfind
    -- what the edit makes of the span stands in the place of the span
    have hedited : ∀ p, p = 'a' ∨ p = 'b' ∨ p = 'c' → ∃ edited x y,
        replaceOrInsertXmlAttr ('<' :: (inside ++ ['>'])) attr [p] = .ok edited ∧
          edited ++ x = '<' :: (inside ++ ['>']) ++ y := by
      intro p hp
      obtain ⟨text, x, y, htext, heq⟩ := hsame p hp
      rw [(letter_marks hp).1, editAll_of_some h.splits hfind] at htext
      obtain ⟨edited, hedit, htext⟩ := Outcome.bind_eq_ok.mp htext
      obtain ⟨more, _, htext⟩ := Outcome.bind_eq_ok.mp htext
      rw [← Except.ok.inj htext, hsplit] at heq
      refine ⟨edited, more ++ x, behind ++ y, hedit, ?_⟩
      simpa using heq
    rcases replaceOrInsertXmlAttr_cases attr hinside with
      ⟨lead, value, rest, hspan, hvalue, _, hedit⟩ | ⟨_, lead, stop, hspan, hstop, hedit⟩ | hfail
    · have hvalues : ∀ p, p = 'a' ∨ p = 'b' ∨ p = 'c' → value = [p] := by
        intro p hp
        obtain ⟨edited, x, y, hok, heq⟩ := hedited p hp
        obtain rfl := Except.ok.inj ((hedit [p]).symm.trans hok)
        have hshape : [p] ++ '"' :: (rest ++ x) = value ++ '"' :: (rest ++ y) := by
          rw [hspan] at heq
          simpa using heq
        exact (@run_append_inj (· ≠ '"') _ _ _ _
          (fun e he => by simpa using ne_of_mem_of_not_mem he (letter_marks hp).2.2.2.2)
          (fun e he => by simpa using ne_of_mem_of_not_mem he hvalue) (by simp) (by simp)
          hshape).1.symm
      have hab := (hvalues 'a' (Or.inl rfl)).symm.trans (hvalues 'b' (Or.inr (Or.inl rfl)))
      exact absurd hab (by decide)
    · obtain ⟨edited, x, y, hok, heq⟩ := hedited 'a' (Or.inl rfl)
      obtain rfl := Except.ok.inj ((hedit ['a']).symm.trans hok)
      rw [hspan, List.append_assoc lead, List.append_assoc lead stop] at heq
      have hhead := List.append_cancel_left heq
      rcases hstop with rfl | rfl
      · exact absurd (List.cons.inj hhead).1 (by decide)
      · exact absurd (List.cons.inj hhead).1 (by decide)
    · obtain ⟨edited, _, _, hok, _⟩ := hedited 'a' (Or.inl rfl)
      exact hfail _ _ hok

/-- A tag that is meant is one that the search stops at, and the attribute can be written. -/
theorem TagSearch.hits_and_writable (h : TagSearch find hits) (hattr : IsName attr) {tag : Tag}
    {isEmpty : Bool} (hall : ∀ p, p = 'a' ∨ p = 'b' ∨ p = 'c' → ∃ new text x y,
      SetsAttr attr [p] tag new ∧
      editAll find (fun found => replaceOrInsertXmlAttr found attr (xmlEscapeAttr [p]))
        (Piece.ofTag isEmpty tag).render = .ok text ∧
      text ++ x = (Piece.ofTag isEmpty new).render ++ y) :
    hits tag.name ∧ Writable attr tag := by
  have htwo : ∀ {p q : Char}, p ≠ q → HasValue attr [p] tag → ¬ HasValue attr [q] tag :=
    fun hne hp hq => hne (List.cons.inj (hp.unique hq)).1
  have hhits : hits tag.name := by
    by_contra hnot
    have hmiss : find (Piece.ofTag isEmpty tag).render = .ok none := by
      rw [render_ofTag_name]
      refine h.miss tag.isName hnot (behindName_ofTag isEmpty tag) ?_
      have hlt := tag.lt_not_mem_body
      simp only [Tag.body, List.mem_append, not_or] at hlt ⊢
      exact ⟨hlt.2.1, hlt.2.2, lt_not_mem_tagEnd isEmpty⟩
    have hvalue : ∀ p, p = 'a' ∨ p = 'b' ∨ p = 'c' → HasValue attr [p] tag := by
      intro p hp
      obtain ⟨new, text, x, y, hsets, htext, heq⟩ := hall p hp
      obtain rfl := Except.ok.inj ((editAll_of_none hmiss).symm.trans htext)
      obtain ⟨rfl, _⟩ := Tag.render_append_inj isEmpty hsets.1 heq
      exact hsets.hasValue
    exact htwo (by decide) (hvalue 'a' (Or.inl rfl)) (hvalue 'b' (Or.inr (Or.inl rfl)))
  refine ⟨hhits, ?_⟩
  have hgt : '>' ∈ tag.body ++ tagEnd isEmpty := by
    cases isEmpty <;> simp [tagEnd]
  obtain ⟨inside, behind, hbody, hinside, _⟩ := exists_inside hgt
  have hrender : (Piece.ofTag isEmpty tag).render = '<' :: (inside ++ '>' :: behind) := by
    rw [Piece.render_ofTag, hbody]
  have hedited : ∀ p, p = 'a' ∨ p = 'b' ∨ p = 'c' → ∃ new edited x y, SetsAttr attr [p] tag new ∧
      replaceOrInsertXmlAttr ('<' :: (inside ++ ['>'])) attr [p] = .ok edited ∧
        edited ++ behind ++ x = (Piece.ofTag isEmpty new).render ++ y := by
    intro p hp
    obtain ⟨new, text, x, y, hsets, htext, heq⟩ := hall p hp
    rw [(letter_marks hp).1, editAll_of_some h.splits
      (h.find_ofTag hhits isEmpty hrender hinside)] at htext
    obtain ⟨edited, hedit, htext'⟩ := Outcome.bind_eq_ok.mp htext
    have hwhole := @TagSearch.editAll_ofTag find hits h tag hhits isEmpty inside behind edited
      (fun found => replaceOrInsertXmlAttr found attr [p]) hrender hinside hedit
    rw [editAll_of_some h.splits (h.find_ofTag hhits isEmpty hrender hinside)] at hwhole
    rw [← Except.ok.inj (hwhole.symm.trans htext)] at heq
    exact ⟨new, edited, x, y, hsets, hedit, heq⟩
  rcases replaceOrInsertXmlAttr_cases attr hinside with
    ⟨lead, value, rest, hspan, hvalue, hfirst, hedit⟩ | ⟨hnone, lead, stop, hspan, hstop, hedit⟩ |
      hfail
  · have hone : ∀ p, p = 'a' ∨ p = 'b' ∨ p = 'c' → value.head? ≠ some p →
        Writable attr tag ∨ HasValue attr [p] tag := by
      intro p hp hhead
      obtain ⟨new, edited, x, y, hsets, hok, heq⟩ := hedited p hp
      obtain rfl := Except.ok.inj ((hedit [p]).symm.trans hok)
      exact writable_of_replace hattr hp hsets hrender hinside hspan hvalue hfirst hhead heq
    -- two of the letters are not the first one of the value that is replaced
    obtain ⟨p, q, hp, hq, hne, hheadp, hheadq⟩ : ∃ p q, (p = 'a' ∨ p = 'b' ∨ p = 'c') ∧
        (q = 'a' ∨ q = 'b' ∨ q = 'c') ∧ p ≠ q ∧ value.head? ≠ some p ∧ value.head? ≠ some q := by
      by_cases ha : value.head? = some 'a'
      · exact ⟨'b', 'c', by decide, by decide, by decide, by rw [ha]; decide, by rw [ha]; decide⟩
      · by_cases hb : value.head? = some 'b'
        · exact ⟨'a', 'c', by decide, by decide, by decide, by rw [hb]; decide, by rw [hb]; decide⟩
        · exact ⟨'a', 'b', by decide, by decide, by decide, ha, hb⟩
    rcases hone p hp hheadp with hw | hvp
    · exact hw
    · rcases hone q hq hheadq with hw | hvq
      · exact hw
      · exact absurd hvq (htwo hne hvp)
  · have hone : ∀ p, p = 'a' ∨ p = 'b' ∨ p = 'c' → Writable attr tag ∨ HasValue attr [p] tag := by
      intro p hp
      obtain ⟨new, edited, x, y, hsets, hok, heq⟩ := hedited p hp
      obtain rfl := Except.ok.inj ((hedit [p]).symm.trans hok)
      exact writable_of_insert hattr hp hsets hrender hinside hspan hstop hnone heq
    rcases hone 'a' (Or.inl rfl) with hw | hva
    · exact hw
    · rcases hone 'b' (Or.inr (Or.inl rfl)) with hw | hvb
      · exact hw
      · exact absurd hvb (htwo (by decide) hva)
  · obtain ⟨_, edited, _, _, _, hok, _⟩ := hedited 'a' (Or.inl rfl)
    exact absurd hok (hfail _ _)

/-- A document in which the update is right for every publisher that an attribute can hold. -/
theorem TagSearch.updatable_of_updatesTo (h : TagSearch find hits) (hattr : IsName attr)
    {doc : Document} (hdoc : ∀ publisher, Publishable publisher →
      UpdatesTo (editAll find fun found =>
        replaceOrInsertXmlAttr found attr (xmlEscapeAttr publisher)) target attr publisher doc) :
    ∀ piece ∈ doc.pieces, Updatable find hits target attr piece := by
  -- the pieces, and the text that is meant
  have hpieces : ∀ publisher, Publishable publisher → ∃ news : List Piece,
      List.Forall₂ (PieceUpdated target attr publisher) doc.pieces news ∧
        editAll find (fun found => replaceOrInsertXmlAttr found attr (xmlEscapeAttr publisher))
          (renderAll doc.pieces) = .ok (renderAll news) := by
    intro publisher hpub
    obtain ⟨new, hnew, hpieces, _⟩ := hdoc publisher hpub
    exact ⟨new.pieces, hpieces, hnew⟩
  clear hdoc
  generalize doc.pieces = pieces at hpieces
  induction pieces with
  | nil => exact fun piece hpiece => absurd hpiece List.not_mem_nil
  | cons piece pieces ih =>
    have hsplit : ∀ publisher, Publishable publisher → ∃ new news first second,
        PieceUpdated target attr publisher piece new ∧
          List.Forall₂ (PieceUpdated target attr publisher) pieces news ∧
          editAll find (fun found => replaceOrInsertXmlAttr found attr (xmlEscapeAttr publisher))
            piece.render = .ok first ∧
          editAll find (fun found => replaceOrInsertXmlAttr found attr (xmlEscapeAttr publisher))
            (renderAll pieces) = .ok second ∧
          first ++ second = new.render ++ renderAll news := by
      intro publisher hpub
      obtain ⟨news, hnews, htext⟩ := hpieces publisher hpub
      obtain ⟨new, news, hnew, hrest, rfl⟩ := List.forall₂_cons_left_iff.mp hnews
      rw [renderAll_cons, editAll_append h.splits h.isLocal piece.sealed] at htext
      obtain ⟨first, hfirst, htext⟩ := Outcome.bind_eq_ok.mp htext
      obtain ⟨second, hsecond, htext⟩ := Outcome.bind_eq_ok.mp htext
      exact ⟨new, news, first, second, hnew, hrest, hfirst, hsecond, Except.ok.inj htext⟩
    -- the piece, and that its text is the one that is meant
    have hpiece : Updatable find hits target attr piece ∧ ∀ publisher, Publishable publisher →
        ∀ new, PieceUpdated target attr publisher piece new → ∀ first x y,
        editAll find (fun found => replaceOrInsertXmlAttr found attr (xmlEscapeAttr publisher))
          piece.render = .ok first → first ++ x = new.render ++ y → x = y := by
      have hstay : (∀ publisher new, PieceUpdated target attr publisher piece new → new = piece) →
          find piece.render = .ok none ∧ ∀ publisher, Publishable publisher →
          ∀ new, PieceUpdated target attr publisher piece new → ∀ first x y,
          editAll find (fun found => replaceOrInsertXmlAttr found attr (xmlEscapeAttr publisher))
            piece.render = .ok first → first ++ x = new.render ++ y → x = y := by
        intro hsame
        have hnone := h.eq_none_of_same piece.sealed (fun p hp => by
          obtain ⟨new, news, first, second, hnew, _, hfirst, _, heq⟩ :=
            hsplit [p] (letter_marks hp).2.1
          rw [hsame [p] new hnew] at heq
          exact ⟨first, second, renderAll news, hfirst, heq⟩)
        refine ⟨hnone, fun publisher _ new hnew first x y hfirst heq => ?_⟩
        rw [hsame publisher new hnew,
          ← Except.ok.inj ((editAll_of_none hnone).symm.trans hfirst)] at heq
        exact List.append_cancel_left heq
      have htag : ∀ (isEmpty : Bool) (tag : Tag), piece = Piece.ofTag isEmpty tag →
          (∀ publisher new, PieceUpdated target attr publisher piece new → ∃ new',
            new = Piece.ofTag isEmpty new' ∧ (target tag.name → SetsAttr attr publisher tag new') ∧
              (¬ target tag.name → new' = tag)) →
          ((hits tag.name ↔ target tag.name) ∧ (target tag.name → Writable attr tag)) ∧
          ∀ publisher, Publishable publisher →
          ∀ new, PieceUpdated target attr publisher piece new → ∀ first x y,
          editAll find (fun found => replaceOrInsertXmlAttr found attr (xmlEscapeAttr publisher))
            piece.render = .ok first → first ++ x = new.render ++ y → x = y := by
        intro isEmpty tag hpiece hupdated
        by_cases htarget : target tag.name
        · have hboth := @TagSearch.hits_and_writable attr find hits h hattr tag isEmpty
            (fun p hp => by
              obtain ⟨new, news, first, second, hnew, _, hfirst, _, heq⟩ :=
                hsplit [p] (letter_marks hp).2.1
              obtain ⟨new', rfl, hsets, _⟩ := hupdated [p] new hnew
              rw [hpiece] at hfirst
              exact ⟨new', first, second, renderAll news, hsets htarget, hfirst, heq⟩)
          refine ⟨⟨iff_of_true hboth.1 htarget, fun _ => hboth.2⟩, ?_⟩
          intro publisher hpub new hnew first x y hfirst heq
          obtain ⟨new', rfl, hsets, _⟩ := hupdated publisher new hnew
          obtain ⟨written, hwritten, hedit⟩ := h.exists_written hboth.1 hattr hpub hboth.2
          rw [hpiece] at hfirst
          rw [← Except.ok.inj ((hedit isEmpty).1.symm.trans hfirst)] at heq
          exact (Tag.render_append_inj isEmpty
            ((hsets htarget).1.trans hwritten.1.symm) heq).2
        · obtain ⟨hnone, hrest⟩ := hstay (fun publisher new hnew => by
            obtain ⟨new', rfl, _, hsame⟩ := hupdated publisher new hnew
            rw [hsame htarget, hpiece])
          refine ⟨⟨iff_of_false (fun hhits => ?_) htarget, fun hyes => absurd hyes htarget⟩, hrest⟩
          obtain ⟨span, behind, hfind⟩ := h.hit tag.isName hhits (behindName_ofTag isEmpty tag)
          rw [← render_ofTag_name, ← hpiece, hnone] at hfind
          exact nomatch hfind
      cases piece with
      | start tag =>
        refine htag false tag rfl fun publisher new hnew => ?_
        cases new with
        | start new => exact ⟨new, rfl, hnew⟩
        | text | comment | cdata | instruction | doctype | empty | close => exact nomatch hnew
      | empty tag =>
        refine htag true tag rfl fun publisher new hnew => ?_
        cases new with
        | empty new => exact ⟨new, rfl, hnew⟩
        | text | comment | cdata | instruction | doctype | start | close => exact nomatch hnew
      | text raw isText => exact hstay fun _ _ hnew => hnew
      | comment body isComment => exact hstay fun _ _ hnew => hnew
      | cdata body isCData => exact hstay fun _ _ hnew => hnew
      | instruction body isInstruction => exact hstay fun _ _ hnew => hnew
      | doctype body isXml => exact hstay fun _ _ hnew => hnew
      | close name trail isName isSpace => exact hstay fun _ _ hnew => hnew
    intro p hp
    rcases List.mem_cons.mp hp with rfl | hp
    · exact hpiece.1
    · refine ih (fun publisher hpub => ?_) p hp
      obtain ⟨new, news, first, second, hnew, hrest, hfirst, hsecond, heq⟩ := hsplit publisher hpub
      refine ⟨news, hrest, ?_⟩
      rw [hsecond, hpiece.2 publisher hpub new hnew first second _ hfirst heq]

/-! ## Publishers that an attribute cannot hold -/

/-- A publisher that is the value of what is written can be written. -/
theorem publishable_of_parseValue
    (hchars : ∀ c ∈ xmlEscapeAttr publisher, isXmlChar c = true)
    (hparse : parseValue (xmlEscapeAttr publisher) = some publisher) : Publishable publisher := by
  rw [parseValue_xmlEscapeAttr] at hparse
  have hmap : publisher.map (fun c => if isSpace c = true then ' ' else c) = publisher.map id := by
    rw [Option.some.inj hparse, List.map_id]
  intro c hc
  constructor
  · rcases escapeChar_cases c with ⟨heq, _⟩ | ⟨body, heq, hresolve, _⟩
    · apply hchars
      rw [xmlEscapeAttr_eq]
      exact List.mem_flatMap.mpr ⟨c, hc, by rw [heq]; exact List.mem_cons_self⟩
    · by_cases hamp : c = '&'
      · rw [hamp]
        decide
      · by_cases hmarks : c = '"' ∨ c = '<' ∨ c = '>'
        · rcases hmarks with rfl | rfl | rfl <;> decide
        · simp only [not_or] at hmarks
          rw [escapeChar, if_neg hamp, if_neg hmarks.1, if_neg hmarks.2.1, if_neg hmarks.2.2] at heq
          simp at heq
  · intro hspace
    have hself := List.map_inj_left.mp hmap c hc
    rw [if_pos hspace] at hself
    exact hself.symm

/-- What stands behind an opening in double quotes is the value that is meant. -/
theorem publishable_of_opening {new : Tag} {isEmpty : Bool} {before after : List Attr} {own o : Attr}
    {x y : List Char} (hattrs : new.attrs = before ++ own :: after) (hquote : o.quote = '"')
    (hparse : parseValue own.value = some publisher)
    (heq : '<' :: (new.name ++ before.flatMap Attr.render) ++
      (o.opening ++ (xmlEscapeAttr publisher ++ '"' :: x)) =
        (Piece.ofTag isEmpty new).render ++ y) : Publishable publisher := by
  have hshape : '<' :: (new.name ++ before.flatMap Attr.render) ++
      (o.opening ++ (xmlEscapeAttr publisher ++ '"' :: x)) =
      '<' :: (new.name ++ before.flatMap Attr.render) ++
        (own.opening ++ (own.value ++ own.quote ::
          (after.flatMap Attr.render ++ (new.trail ++ (tagEnd isEmpty ++ y))))) := by
    rw [heq, Piece.render_ofTag, Tag.body, hattrs, List.flatMap_append, List.flatMap_cons,
      Attr.render_eq]
    simp
  obtain ⟨_, _, _, _, hquotes, hvalues⟩ :=
    Attr.opening_append_inj (List.append_cancel_left hshape)
  rw [hquote] at hquotes
  rw [← hquotes] at hvalues
  have hescaped : '"' ∉ xmlEscapeAttr publisher := not_mem_xmlEscapeAttr (Or.inl rfl) publisher
  have hown : '"' ∉ own.value := hquotes ▸ own.isValue.1
  have hsame := (@run_append_inj (· ≠ '"') (xmlEscapeAttr publisher) own.value _ _
    (fun e he => by simpa using ne_of_mem_of_not_mem he hescaped)
    (fun e he => by simpa using ne_of_mem_of_not_mem he hown)
    (by simp) (by simp) hvalues).1
  rw [← hsame] at hparse
  exact publishable_of_parseValue (hsame ▸ own.isValue.2.2.1) hparse

/-- The text that an update writes into a tag is the one that is meant only if the publisher can be
held by an attribute. -/
theorem TagSearch.publishable_of_written (h : TagSearch find hits) (hattr : IsName attr)
    {tag new : Tag} {isEmpty : Bool} {text x y : List Char} (hhits : hits tag.name)
    (hwritable : Writable attr tag) (hsets : SetsAttr attr publisher tag new)
    (htext : editAll find (fun found =>
      replaceOrInsertXmlAttr found attr (xmlEscapeAttr publisher)) (Piece.ofTag isEmpty tag).render =
        .ok text) (heq : text ++ x = (Piece.ofTag isEmpty new).render ++ y) :
    Publishable publisher := by
  obtain ⟨hname, before', own', after', hattrs', hown', hparse, hold⟩ := hsets
  have hnodup : attr ∉ before'.map Attr.name ∧ attr ∉ after'.map Attr.name := by
    have hnodup := new.nodup
    rw [hattrs', List.map_append, List.map_cons, List.nodup_append, List.nodup_cons, hown'] at hnodup
    obtain ⟨_, ⟨hafter, _⟩, hbefore⟩ := hnodup
    exact ⟨fun hmem => hbefore attr hmem attr List.mem_cons_self rfl, hafter⟩
  rcases hwritable with ⟨before, own, after, hattrs, hown, hbe, hae, hquote, hgt, hgts, hnone⟩ |
    ⟨hall, hnone⟩
  · have hsame : before' = before := by
      rcases hold with hold | ⟨old, hold', hold⟩
      · exfalso
        have hmem : own ∈ before' ++ after' := by
          rw [← hold, hattrs]
          simp
        rcases List.mem_append.mp hmem with hmem | hmem
        · exact hnodup.1 (hown ▸ List.mem_map_of_mem hmem)
        · exact hnodup.2 (hown ▸ List.mem_map_of_mem hmem)
      · have hnames := congrArg (List.map Attr.name) (hold.symm.trans hattrs)
        rw [List.map_append, List.map_append, List.map_cons, List.map_cons, hold', hown] at hnames
        have hlen := congrArg List.length
          ((List.append_cons_inj_of_notMem hnodup.1 hnodup.2).mp hnames).1
        rw [List.length_map, List.length_map] at hlen
        exact (List.append_inj (hold.symm.trans hattrs) hlen).1
    subst hsame
    rw [h.editAll_present hhits hattr isEmpty hattrs hown hbe hae hquote hgt hgts hnone] at htext
    refine @publishable_of_opening publisher new isEmpty before' after' own' own
      (after.flatMap Attr.render ++ (tag.trail ++ tagEnd isEmpty) ++ x) y hattrs' hquote hparse ?_
    rw [← heq, ← Except.ok.inj htext, hname, Attr.opening, hown, hbe, hae, hquote, attrNeedle]
    simp
  · have hno : ∀ a ∈ tag.attrs, a.name ≠ attr := fun a ha => (hall a ha).1
    have hattrs : tag.attrs = before' ++ after' := by
      rcases hold with hold | ⟨old, hold', hold⟩
      · exact hold
      · exact absurd hold' (hno old (by rw [hold]; simp))
    rw [h.editAll_absent hhits hattr isEmpty (fun a ha => (hall a ha).2) hnone] at htext
    rw [← Except.ok.inj htext] at heq
    have hnil : after' = [] := by
      cases after' with
      | nil => rfl
      | cons b rest =>
        exfalso
        have hshape : '<' :: (tag.name ++ before'.flatMap Attr.render) ++ (b.render ++
            (rest.flatMap Attr.render ++ (tag.trail ++ ' ' :: (attrNeedle attr ++
              xmlEscapeAttr publisher ++ '"' :: tagEnd isEmpty)) ++ x)) =
            '<' :: (tag.name ++ before'.flatMap Attr.render) ++ (own'.render ++
              ((b :: rest).flatMap Attr.render ++ (new.trail ++ (tagEnd isEmpty ++ y)))) := by
          rw [Piece.render_ofTag, Tag.body, Tag.body, hattrs, hattrs', hname, List.flatMap_append,
            List.flatMap_append, List.flatMap_cons] at heq
          simpa using heq
        obtain ⟨rfl, _⟩ := Attr.render_append_inj (List.append_cancel_left hshape)
        exact hno b (by rw [hattrs]; simp) hown'
    subst hnil
    rw [List.append_nil] at hattrs
    refine @publishable_of_opening publisher new isEmpty before' [] own'
      (addedAttr tag.trail attr [] tag.trail_space hattr
        ⟨List.not_mem_nil, List.not_mem_nil, by simp, referencesOk_of_not_mem List.not_mem_nil⟩)
      (tagEnd isEmpty ++ x) y hattrs' rfl hparse ?_
    rw [← heq, hname, Tag.body, hattrs]
    simp [Attr.opening, addedAttr, attrNeedle]

/-- A piece that the update is meant to write into. -/
def Targets (target : List Char → Prop) : Piece → Prop
  | .start tag => target tag.name
  | .empty tag => target tag.name
  | _ => False

/-- A piece that the update is not meant to write into is to stay as it is. -/
theorem PieceUpdated.eq_of_not_targets {piece new : Piece}
    (h : PieceUpdated target attr publisher piece new) (hnot : ¬ Targets target piece) :
    new = piece := by
  cases piece with
  | start tag =>
    cases new with
    | start new => rw [h.2 hnot]
    | text | comment | cdata | instruction | doctype | empty | close => exact nomatch h
  | empty tag =>
    cases new with
    | empty new => rw [h.2 hnot]
    | text | comment | cdata | instruction | doctype | start | close => exact nomatch h
  | text | comment | cdata | instruction | doctype | close => exact h

/-- A piece that the update is not meant to write into stays as it is. -/
theorem TagSearch.editAll_of_not_targets (h : TagSearch find hits) {piece : Piece}
    (hok : Updatable find hits target attr piece) (hnot : ¬ Targets target piece)
    (edit : List Char → Outcome (List Char)) :
    editAll find edit piece.render = .ok piece.render ∧
      PieceUpdated target attr publisher piece piece := by
  have htag : ∀ (isEmpty : Bool) (tag : Tag), (hits tag.name ↔ target tag.name) →
      ¬ target tag.name →
      editAll find edit (Piece.ofTag isEmpty tag).render = .ok (Piece.ofTag isEmpty tag).render := by
    intro isEmpty tag hhits hnot
    apply editAll_of_none
    rw [render_ofTag_name]
    refine h.miss tag.isName (mt hhits.mp hnot) (behindName_ofTag isEmpty tag) ?_
    have hlt := tag.lt_not_mem_body
    simp only [Tag.body, List.mem_append, not_or] at hlt ⊢
    exact ⟨hlt.2.1, hlt.2.2, lt_not_mem_tagEnd isEmpty⟩
  cases piece with
  | start tag => exact ⟨htag false tag hok.1 hnot, fun hyes => absurd hyes hnot, fun _ => rfl⟩
  | empty tag => exact ⟨htag true tag hok.1 hnot, fun hyes => absurd hyes hnot, fun _ => rfl⟩
  | text raw isText => exact ⟨editAll_of_none hok, rfl⟩
  | comment body isComment => exact ⟨editAll_of_none hok, rfl⟩
  | cdata body isCData => exact ⟨editAll_of_none hok, rfl⟩
  | instruction body isInstruction => exact ⟨editAll_of_none hok, rfl⟩
  | doctype body isXml => exact ⟨editAll_of_none hok, rfl⟩
  | close name trail isName isSpace => exact ⟨editAll_of_none hok, rfl⟩

/-- A document without an element that is meant stays as it is, whatever the publisher is. -/
theorem TagSearch.updatesTo_of_not_targets (h : TagSearch find hits) {doc : Document}
    (hdoc : ∀ piece ∈ doc.pieces, Updatable find hits target attr piece)
    (hnot : ∀ piece ∈ doc.pieces, ¬ Targets target piece) :
    UpdatesTo (editAll find fun found =>
      replaceOrInsertXmlAttr found attr (xmlEscapeAttr publisher)) target attr publisher doc := by
  have hsame := @TagSearch.editAll_pieces find hits h
    (fun found => replaceOrInsertXmlAttr found attr (xmlEscapeAttr publisher)) doc.pieces id
    fun piece hmem => (@TagSearch.editAll_of_not_targets attr [] find hits target h piece
      (hdoc piece hmem) (hnot piece hmem) _).1
  rw [List.map_id] at hsame
  refine ⟨doc, hsame, List.forall₂_same.mpr fun piece hmem => ?_, hsame⟩
  exact (h.editAll_of_not_targets (hdoc piece hmem) (hnot piece hmem) fun _ => .ok []).2

/-- A document into which the publisher is written rightly. -/
theorem TagSearch.publishable_of_updatesTo (h : TagSearch find hits) (hattr : IsName attr)
    {doc : Document} (hdoc : ∀ piece ∈ doc.pieces, Updatable find hits target attr piece)
    (hupdate : UpdatesTo (editAll find fun found =>
      replaceOrInsertXmlAttr found attr (xmlEscapeAttr publisher)) target attr publisher doc)
    (htargets : ∃ piece ∈ doc.pieces, Targets target piece) : Publishable publisher := by
  obtain ⟨new, htext, hpieces, _⟩ := hupdate
  rw [Document.render, Document.render] at htext
  generalize doc.pieces = pieces at hdoc htext hpieces htargets
  generalize new.pieces = news at htext hpieces
  -- the first piece that is meant decides, those before it cancel
  induction hpieces with
  | nil =>
    obtain ⟨piece, hmem, _⟩ := htargets
    exact absurd hmem List.not_mem_nil
  | @cons piece new pieces news hnew hrest ih =>
    rw [renderAll_cons, editAll_append h.splits h.isLocal piece.sealed] at htext
    obtain ⟨first, hfirst, htext⟩ := Outcome.bind_eq_ok.mp htext
    obtain ⟨second, hsecond, htext⟩ := Outcome.bind_eq_ok.mp htext
    have heq : first ++ second = new.render ++ renderAll news := Except.ok.inj htext
    have hok := hdoc piece List.mem_cons_self
    have htag : ∀ (isEmpty : Bool) (tag new' : Tag), piece = Piece.ofTag isEmpty tag →
        new = Piece.ofTag isEmpty new' → hits tag.name → Writable attr tag →
        SetsAttr attr publisher tag new' → Publishable publisher := by
      intro isEmpty tag new' hpiece hnew' hhits hwritable hsets
      rw [hpiece] at hfirst
      rw [hnew'] at heq
      exact h.publishable_of_written hattr hhits hwritable hsets hfirst heq
    by_cases htarget : Targets target piece
    · cases piece with
      | start tag =>
        cases new with
        | start new =>
          exact htag false tag new rfl rfl (hok.1.mpr htarget) (hok.2 htarget) (hnew.1 htarget)
        | text | comment | cdata | instruction | doctype | empty | close => cases hnew
      | empty tag =>
        cases new with
        | empty new =>
          exact htag true tag new rfl rfl (hok.1.mpr htarget) (hok.2 htarget) (hnew.1 htarget)
        | text | comment | cdata | instruction | doctype | start | close => cases hnew
      | text | comment | cdata | instruction | doctype | close => exact htarget.elim
    · have hstay := (@TagSearch.editAll_of_not_targets attr publisher find hits target h piece hok
        htarget fun found => replaceOrInsertXmlAttr found attr (xmlEscapeAttr publisher)).1
      rw [hnew.eq_of_not_targets htarget, ← Except.ok.inj (hstay.symm.trans hfirst)] at heq
      refine ih (fun p hp => hdoc p (List.mem_cons_of_mem _ hp)) ?_ ?_
      · obtain ⟨p, hp, hmeant⟩ := htargets
        rcases List.mem_cons.mp hp with rfl | hp
        · exact absurd hmeant htarget
        · exact ⟨p, hp, hmeant⟩
      · rw [hsecond, List.append_cancel_left heq]

/-- In which documents, and for which publishers, an update is right. -/
theorem TagSearch.updatesTo_iff (h : TagSearch find hits) (hattr : IsName attr) (doc : Document) :
    ((∀ publisher, Publishable publisher → UpdatesTo (editAll find fun found =>
        replaceOrInsertXmlAttr found attr (xmlEscapeAttr publisher)) target attr publisher doc) ↔
      ∀ piece ∈ doc.pieces, Updatable find hits target attr piece) ∧
    ((∀ piece ∈ doc.pieces, Updatable find hits target attr piece) → ∀ publisher,
      (UpdatesTo (editAll find fun found =>
          replaceOrInsertXmlAttr found attr (xmlEscapeAttr publisher)) target attr publisher doc ↔
        Publishable publisher ∨ ∀ piece ∈ doc.pieces, ¬ Targets target piece)) := by
  refine ⟨⟨h.updatable_of_updatesTo hattr, fun hdoc _ hpub => h.updatesTo hattr hpub hdoc⟩,
    fun hdoc publisher => ⟨fun hupdate => ?_, fun hcase => ?_⟩⟩
  · by_cases htargets : ∃ piece ∈ doc.pieces, Targets target piece
    · exact Or.inl (h.publishable_of_updatesTo hattr hdoc hupdate htargets)
    · exact Or.inr fun piece hmem hmeant => htargets ⟨piece, hmem, hmeant⟩
  · rcases hcase with hpub | hnot
    · exact h.updatesTo hattr hpub hdoc
    · exact h.updatesTo_of_not_targets hdoc hnot

/-! ## The two updates -/

/-- In a document in which every publisher that an attribute can hold is written rightly, the search
stops at the tags that are meant and their attribute can be written, and the other way round.  In
such a document no other publisher is written rightly, unless there is no tag to write it into. -/
theorem updateAttr_publisher {name attr : List Char} (hname : IsName name) (hattr : IsName attr)
    (doc : Document) :
    (((∀ publisher, Publishable publisher →
          UpdatesTo (updateAttrForTags · name attr (xmlEscapeAttr publisher)) (· = name) attr
            publisher doc) ↔
        ∀ piece ∈ doc.pieces, Updatable (findTag name) (HitsPrefix name) (· = name) attr piece) ∧
      ((∀ piece ∈ doc.pieces, Updatable (findTag name) (HitsPrefix name) (· = name) attr piece) →
        ∀ publisher,
          (UpdatesTo (updateAttrForTags · name attr (xmlEscapeAttr publisher)) (· = name) attr
              publisher doc ↔
            Publishable publisher ∨ ∀ piece ∈ doc.pieces, ¬ Targets (· = name) piece))) ∧
    (((∀ publisher, Publishable publisher →
          UpdatesTo (updateAttrForLocalTags · name attr (xmlEscapeAttr publisher))
            (localName · = name) attr publisher doc) ↔
        ∀ piece ∈ doc.pieces,
          Updatable (findLocalTag name) (HitsLocal name) (localName · = name) attr piece) ∧
      ((∀ piece ∈ doc.pieces,
          Updatable (findLocalTag name) (HitsLocal name) (localName · = name) attr piece) →
        ∀ publisher,
          (UpdatesTo (updateAttrForLocalTags · name attr (xmlEscapeAttr publisher))
              (localName · = name) attr publisher doc ↔
            Publishable publisher ∨ ∀ piece ∈ doc.pieces, ¬ Targets (localName · = name) piece))) :=
  ⟨(tagSearch_findTag hname).updatesTo_iff hattr doc,
    (tagSearch_findLocalTag name).updatesTo_iff hattr doc⟩

/-- Where there is no tag to write into the text stays as it is. -/
theorem UpdatesTo.eq_render {update : List Char → Outcome (List Char)} {doc : Document}
    (h : UpdatesTo update target attr publisher doc)
    (hnot : ∀ piece ∈ doc.pieces, ¬ Targets target piece) : update doc.render = .ok doc.render := by
  obtain ⟨new, hnew, hpieces, _⟩ := h
  have hsame : new.pieces = doc.pieces := by
    generalize new.pieces = news at hpieces
    generalize doc.pieces = pieces at hpieces hnot
    induction hpieces with
    | nil => rfl
    | @cons piece new pieces news hpiece hrest ih =>
      rw [hpiece.eq_of_not_targets (hnot piece List.mem_cons_self),
        ih fun p hp => hnot p (List.mem_cons_of_mem _ hp)]
  rw [hnew, Document.render, Document.render, hsame]

/-- No white space at all. -/
theorem isSpace_of_mem_nil : ∀ c ∈ ([] : List Char), isSpace c = true :=
  fun _ hc => absurd hc List.not_mem_nil

/-- A document of one empty element without attributes, and what follows it. -/
def emptyElement (name : List Char) (hname : IsName name) (epilog : List Piece)
    (hepilog : ∀ piece ∈ epilog, piece.IsMisc) : Document where
  prolog := []
  root := { name := name, attrs := [], trail := [], isName := hname, nodup := List.nodup_nil,
            trail_space := isSpace_of_mem_nil }
  content := none
  epilog := epilog
  prolog_misc := fun _ hp => absurd hp List.not_mem_nil
  epilog_misc := hepilog
  balanced := nofun
  end_space := nofun

theorem isSpace_of_mem_blank : ∀ c ∈ [' '], isSpace c = true := by
  intro c hc
  rw [List.mem_singleton.mp hc]
  rfl

theorem isQuote_double : '"' = '"' ∨ '"' = '\'' := Or.inl rfl

/-- An attribute behind a blank, in double quotes. -/
def quotedAttr (name value : List Char) (hname : IsName name)
    (hvalue : '"' ∉ value ∧ '<' ∉ value ∧ '&' ∉ value ∧ ∀ c ∈ value, isXmlChar c = true) :
    Attr where
  lead := [' ']
  name := name
  beforeEquals := []
  afterEquals := []
  quote := '"'
  value := value
  lead_ne := List.cons_ne_nil _ _
  lead_space := isSpace_of_mem_blank
  isName := hname
  beforeEquals_space := isSpace_of_mem_nil
  afterEquals_space := isSpace_of_mem_nil
  isQuote := isQuote_double
  isValue := ⟨hvalue.1, hvalue.2.1, hvalue.2.2.2, referencesOk_of_not_mem hvalue.2.2.1⟩

/-- A tag with these attributes. -/
def tagOf (name : List Char) (attrs : List Attr) (hname : IsName name)
    (hnodup : (attrs.map Attr.name).Nodup) : Tag :=
  ⟨name, attrs, [], hname, hnodup, isSpace_of_mem_nil⟩

/-- The identity of a manifest, with a publisher. -/
def ownIdentity : Tag :=
  tagOf "Identity".toList
    [quotedAttr "Name".toList "App".toList (by decide) (by decide),
      quotedAttr "Publisher".toList "CN=Old".toList (by decide) (by decide),
      quotedAttr "Version".toList "1.0".toList (by decide) (by decide)]
    (by decide) (by decide)

/-- An identity with a prefix, which has no publisher. -/
def prefixedIdentity : Tag :=
  tagOf "m:Identity".toList [quotedAttr "Name".toList "Part".toList (by decide) (by decide)]
    (by decide) (by decide)

/-- What is between the tags of the manifest. -/
def manifestContent : List Piece :=
  [.comment " the app ".toList ⟨by decide, by decide⟩, .empty ownIdentity,
    .start (tagOf "Title".toList [] (by decide) (by decide)),
    .text "A > B".toList ⟨by decide, by decide, by decide, referencesOk_of_not_mem (by decide)⟩,
    .close "Title".toList [] (by decide) isSpace_of_mem_nil, .empty prefixedIdentity]

/-- A manifest with a comment, a title, and the two identities. -/
def manifest : Document where
  prolog := [.instruction "xml version=\"1.0\"".toList
    ⟨⟨"xml".toList, " version=\"1.0\"".toList, rfl, by decide, by decide⟩, by decide, by decide⟩]
  root := tagOf "Package".toList
    [quotedAttr "xmlns:m".toList "urn:m".toList (by decide) (by decide)] (by decide) (by decide)
  content := some (manifestContent, [])
  epilog := []
  prolog_misc := by
    intro piece hpiece
    rw [List.mem_singleton.mp hpiece]
    exact Or.inl trivial
  epilog_misc := fun _ hp => absurd hp List.not_mem_nil
  balanced := by
    intro inside hinside
    rw [← Option.some.inj hinside]
    exact ⟨rfl, rfl⟩
  end_space := by
    intro inside hinside
    rw [← Option.some.inj hinside]
    exact isSpace_of_mem_nil

theorem writable_ownIdentity : Writable "Publisher".toList ownIdentity :=
  Or.inl ⟨[_], _, [_], rfl, rfl, rfl, rfl, rfl, by decide, by decide, by decide⟩

theorem writable_prefixedIdentity : Writable "Publisher".toList prefixedIdentity :=
  Or.inr ⟨by decide, by decide⟩

/-- A search that stops at the tags that are meant, and nowhere between them. -/
theorem updatable_manifest {find : Search Char} {hits target : List Char → Prop}
    (hhits : ∀ name ∈ ["Package".toList, "Identity".toList, "Title".toList, "m:Identity".toList],
      hits name ↔ target name)
    (hothers : ¬ target "Package".toList ∧ ¬ target "Title".toList)
    (hbetween : ∀ raw ∈ ["<?xml version=\"1.0\"?>".toList, "<!-- the app -->".toList,
      "A > B".toList, "</Title>".toList, "</Package>".toList], find raw = .ok none) :
    ∀ piece ∈ manifest.pieces, Updatable find hits target "Publisher".toList piece := by
  have hpieces : manifest.pieces = manifest.prolog ++ (.start manifest.root ::
      (manifestContent ++ [.close "Package".toList [] (by decide) isSpace_of_mem_nil])) := rfl
  rw [hpieces]
  simp only [List.forall_mem_cons] at hhits hbetween
  obtain ⟨hpackage, hidentity, htitle, hprefixed, -⟩ := hhits
  obtain ⟨hxml, hcomment, htext, hcloseTitle, hclose, -⟩ := hbetween
  simp only [manifest, manifestContent, List.cons_append, List.nil_append, List.forall_mem_cons]
  exact ⟨hxml, ⟨hpackage, fun h => absurd h hothers.1⟩, hcomment,
    ⟨hidentity, fun _ => writable_ownIdentity⟩, ⟨htitle, fun h => absurd h hothers.2⟩, htext,
    hcloseTitle, ⟨hprefixed, fun _ => writable_prefixedIdentity⟩, hclose,
    fun _ hp => absurd hp List.not_mem_nil⟩

/-- The publisher of a manifest.  The search by the local name finds the second identity too. -/
theorem updateAttr_publisher_manifest :
    UpdatesTo
      (updateAttrForTags · "Identity".toList "Publisher".toList (xmlEscapeAttr "CN=A".toList))
      (· = "Identity".toList) "Publisher".toList "CN=A".toList manifest ∧
    UpdatesTo
      (updateAttrForLocalTags · "Identity".toList "Publisher".toList (xmlEscapeAttr "CN=A".toList))
      (localName · = "Identity".toList) "Publisher".toList "CN=A".toList manifest := by
  have hboth := @updateAttr_publisher "Identity".toList "Publisher".toList (by decide) (by decide)
    manifest
  constructor
  · refine hboth.1.1.mpr (updatable_manifest ?_ (by decide) (by decide)) _ (by decide)
    unfold HitsPrefix
    decide
  · refine hboth.2.1.mpr (updatable_manifest ?_ (by decide) (by decide)) _ (by decide)
    unfold HitsLocal
    decide

/-- A manifest that has an identity only in a comment. -/
def commentedIdentity : Document :=
  emptyElement "Package".toList (by decide)
    [.comment "<Identity>".toList ⟨by decide, by decide⟩]
    (by simp [Piece.IsMisc])

/-- The element in the comment is written into. -/
theorem commentedIdentity_updated :
    ¬ UpdatesTo
      (updateAttrForTags · "Identity".toList "Publisher".toList (xmlEscapeAttr "CN=A".toList))
      (· = "Identity".toList) "Publisher".toList "CN=A".toList commentedIdentity ∧
    ¬ UpdatesTo
      (updateAttrForLocalTags · "Identity".toList "Publisher".toList (xmlEscapeAttr "CN=A".toList))
      (localName · = "Identity".toList) "Publisher".toList "CN=A".toList commentedIdentity := by
  constructor
  · intro h
    exact absurd (h.eq_render (by simp [commentedIdentity, emptyElement, Document.pieces,
      rootPieces, Targets])) (by decide)
  · intro h
    exact absurd (h.eq_render (by
      intro piece hpiece
      rcases List.mem_cons.mp hpiece with rfl | hpiece
      · show ¬ localName "Package".toList = _
        decide
      · obtain rfl := List.mem_singleton.mp hpiece
        exact id)) (by decide)

end Psign.Code
