import Mathlib.Data.List.Chain
import Mathlib.Data.List.TakeWhile
import Psign.CodeLib.Outcome
import Psign.CodeLib.RustStr

/-!
# XML text

What a pull reader reports of an XML document.  A `Piece` is one tag, one run of text or the
declaration; `render` writes pieces one after the other.

`Reader` is a pull reader with the documented facts about it: well formed pieces
are reported one by one, and the entities of a written value are resolved.
`Reader.simple` is a reader with these properties that can be evaluated.
-/

namespace CodeLib.Xml

/-- A name and a value, as they are written. -/
abbrev Attr := List Char × List Char

/-- What a reader reports.  Empty elements are a start and an end. -/
inductive Event where
  | start (name : List Char) (attributes : List (Outcome Attr))
  | close (name : List Char)
  | text (raw : List Char)
  | cdata (raw : List Char)
  | generalRef (raw : List Char)
  | comment
  | declaration
  | instruction
  | docType

/-! ## Written documents -/

/-- One tag, one run of text, or the declaration of a document. -/
inductive Piece where
  | declaration (content : List Char)
  | start (name : List Char) (attributes : List Attr)
  | empty (name : List Char) (attributes : List Attr)
  | close (name : List Char)
  | text (raw : List Char)
  deriving DecidableEq

/-- Attributes in a tag. -/
def renderAttrs (attributes : List Attr) : List Char :=
  attributes.flatMap fun (key, value) => ' ' :: (key ++ '=' :: '"' :: (value ++ ['"']))

/-- The text of a piece. -/
def Piece.render : Piece → List Char
  | declaration content => '<' :: '?' :: (content ++ ['?', '>'])
  | start name attributes => '<' :: (name ++ (renderAttrs attributes ++ ['>']))
  | empty name attributes => '<' :: (name ++ (renderAttrs attributes ++ [' ', '/', '>']))
  | close name => '<' :: '/' :: (name ++ ['>'])
  | text raw => raw

/-- The text of a document. -/
def render (pieces : List Piece) : List Char :=
  pieces.flatMap Piece.render

@[simp] theorem render_nil : render [] = [] := rfl

@[simp] theorem render_cons (piece : Piece) (pieces : List Piece) :
    render (piece :: pieces) = piece.render ++ render pieces := rfl

/-- The events that a reader reports for a piece. -/
def Piece.events : Piece → List Event
  | declaration _ => [.declaration]
  | start name attributes => [.start name (attributes.map .ok)]
  | empty name attributes => [.start name (attributes.map .ok), .close name]
  | close name => [.close name]
  | text raw => [.text raw]

/-- A name of letters and digits. -/
def IsName (name : List Char) : Prop :=
  name ≠ [] ∧ ∀ c ∈ name, c.isAlphanum = true

instance (name : List Char) : Decidable (IsName name) :=
  inferInstanceAs (Decidable (_ ∧ _))

/-- Attributes with different names, and values that a tag can hold. -/
def AttrsOk (attributes : List Attr) : Prop :=
  (attributes.map Prod.fst).Nodup ∧
    ∀ attr ∈ attributes, IsName attr.1 ∧ '"' ∉ attr.2 ∧ '<' ∉ attr.2

/-- A piece that can be told from what stands around it. -/
def Piece.Ok : Piece → Prop
  | declaration content => "xml".toList <+: content ∧ '?' ∉ content
  | start name attributes => IsName name ∧ AttrsOk attributes
  | empty name attributes => IsName name ∧ AttrsOk attributes
  | close name => IsName name
  | text raw => raw ≠ [] ∧ '<' ∉ raw ∧ '&' ∉ raw

/-- Whether the text of a piece is delimited by what follows. -/
def Piece.isText : Piece → Bool
  | text _ => true
  | _ => false

/-- Every end tag closes the element that was opened last. -/
def Balanced : List (List Char) → List Piece → Prop
  | stack, [] => stack = []
  | stack, .declaration _ :: rest => Balanced stack rest
  | stack, .start name _ :: rest => Balanced (name :: stack) rest
  | stack, .empty _ _ :: rest => Balanced stack rest
  | stack, .close name :: rest => stack.head? = some name ∧ Balanced stack.tail rest
  | stack, .text _ :: rest => Balanced stack rest

/-- A document that a reader reports piece by piece. -/
structure WellFormed (pieces : List Piece) : Prop where
  ok : ∀ piece ∈ pieces, piece.Ok
  separated : pieces.IsChain fun first second => ¬ (first.isText = true ∧ second.isText = true)
  balanced : Balanced [] pieces

/-! ## Written characters -/

/-- The entity of a character in a text. -/
def textEntity (c : Char) : List Char :=
  match c with
  | '&' => "&amp;".toList
  | '<' => "&lt;".toList
  | '>' => "&gt;".toList
  | '\r' => "&#xD;".toList
  | c => [c]

/-- The entity of a character in an attribute value. -/
def attrEntity (c : Char) : List Char :=
  match c with
  | '&' => "&amp;".toList
  | '<' => "&lt;".toList
  | '"' => "&quot;".toList
  | '\t' => "&#x9;".toList
  | '\n' => "&#xA;".toList
  | '\r' => "&#xD;".toList
  | c => [c]

/-! ## Readers -/

/-- The entities of a written value. -/
def entities : List (List Char × Char) :=
  [("&amp;".toList, '&'), ("&lt;".toList, '<'), ("&gt;".toList, '>'), ("&quot;".toList, '"'),
    ("&#x9;".toList, '\t'), ("&#xA;".toList, '\n'), ("&#xD;".toList, '\r')]

/-- A pull reader. -/
structure Reader where
  /-- The events up to the end of the document or the first error. -/
  readEvents : List Char → List (Outcome Event)
  /-- Resolve the references in an attribute value. -/
  unescape : List Char → Outcome (List Char)
  /-- Resolve the character that a reference in the text names. -/
  resolveCharRef : List Char → Outcome (Option Char)
  readEvents_render : ∀ {pieces}, WellFormed pieces →
    readEvents (render pieces) = (pieces.flatMap Piece.events).map .ok
  unescape_nil : unescape [] = .ok []
  unescape_char : ∀ {c rest}, c ≠ '&' → unescape (c :: rest) = (unescape rest).map (c :: ·)
  unescape_entity : ∀ {entity rest}, entity ∈ entities →
    unescape (entity.1 ++ rest) = (unescape rest).map (entity.2 :: ·)

/-! ### A reader that can be evaluated -/

/-- The attributes of a tag, whether it is empty, and what follows it. -/
def readAttributes : Nat → List Char → Option (List Attr × Bool × List Char)
  | _, '>' :: rest => some ([], false, rest)
  | _, '/' :: '>' :: rest => some ([], true, rest)
  | _, ' ' :: '/' :: '>' :: rest => some ([], true, rest)
  | fuel + 1, ' ' :: rest =>
    match rest.dropWhile (· ≠ '=') with
    | '=' :: '"' :: more =>
      (readAttributes fuel (more.dropWhile (· ≠ '"')).tail).map fun (attributes, found) =>
        ((rest.takeWhile (· ≠ '='), more.takeWhile (· ≠ '"')) :: attributes, found)
    | _ => none
  | _, _ => none

/-- One event after the other. -/
def readEventsFuel : Nat → List Char → List (Outcome Event)
  | _, [] => []
  | 0, _ :: _ => [Outcome.bail "XML is truncated"]
  | fuel + 1, '<' :: '?' :: rest =>
    .ok .declaration :: readEventsFuel fuel ((rest.dropWhile (· ≠ '?')).drop 2)
  | fuel + 1, '<' :: '/' :: rest =>
    .ok (.close (rest.takeWhile (· ≠ '>'))) ::
      readEventsFuel fuel (rest.dropWhile (· ≠ '>')).tail
  | fuel + 1, '<' :: rest =>
    let name := rest.takeWhile Char.isAlphanum
    match readAttributes rest.length (rest.dropWhile Char.isAlphanum) with
    | some (attributes, isEmpty, after) =>
      .ok (.start name (attributes.map .ok)) ::
        ((if isEmpty then [.ok (.close name)] else []) ++ readEventsFuel fuel after)
    | none => [Outcome.bail "XML tag is not supported"]
  | fuel + 1, c :: rest =>
    .ok (.text (c :: rest.takeWhile fun d => d ≠ '<' ∧ d ≠ '&')) ::
      readEventsFuel fuel (rest.dropWhile fun d => d ≠ '<' ∧ d ≠ '&')

/-- A value with its entities resolved. -/
def unescapeSimple : List Char → Outcome (List Char)
  | [] => .ok []
  | '&' :: 'a' :: 'm' :: 'p' :: ';' :: rest => (unescapeSimple rest).map ('&' :: ·)
  | '&' :: 'l' :: 't' :: ';' :: rest => (unescapeSimple rest).map ('<' :: ·)
  | '&' :: 'g' :: 't' :: ';' :: rest => (unescapeSimple rest).map ('>' :: ·)
  | '&' :: 'q' :: 'u' :: 'o' :: 't' :: ';' :: rest => (unescapeSimple rest).map ('"' :: ·)
  | '&' :: '#' :: 'x' :: '9' :: ';' :: rest => (unescapeSimple rest).map ('\t' :: ·)
  | '&' :: '#' :: 'x' :: 'A' :: ';' :: rest => (unescapeSimple rest).map ('\n' :: ·)
  | '&' :: '#' :: 'x' :: 'D' :: ';' :: rest => (unescapeSimple rest).map ('\r' :: ·)
  | c :: rest =>
    if c = '&' then Outcome.bail "unknown entity" else (unescapeSimple rest).map (c :: ·)

private theorem takeWhile_append_stop {p : Char → Bool} {content rest : List Char} {stop : Char}
    (hcontent : ∀ c ∈ content, p c = true) (hstop : p stop = false) :
    (content ++ stop :: rest).takeWhile p = content ∧
      (content ++ stop :: rest).dropWhile p = stop :: rest := by
  rw [List.takeWhile_append_of_pos hcontent, List.dropWhile_append_of_pos hcontent,
    List.takeWhile_cons_of_neg (by simp [hstop]), List.dropWhile_cons_of_neg (by simp [hstop]),
    List.append_nil]
  exact ⟨rfl, rfl⟩

theorem ne_of_isAlphanum {c d : Char} (hc : c.isAlphanum = true) (hd : d.isAlphanum = false) :
    c ≠ d := by
  intro heq
  rw [heq, hd] at hc
  exact absurd hc (by decide)

/-- The attributes of a tag are read back, up to its end. -/
private theorem readAttributes_render {attributes : List Attr} {fuel : Nat} {isEmpty : Bool}
    {tail rest : List Char} (hfuel : attributes.length ≤ fuel)
    (hattrs : ∀ attr ∈ attributes, IsName attr.1 ∧ '"' ∉ attr.2)
    (htail : ∀ fuel, readAttributes fuel tail = some ([], isEmpty, rest)) :
    readAttributes fuel (renderAttrs attributes ++ tail) = some (attributes, isEmpty, rest) := by
  induction attributes generalizing fuel with
  | nil => exact htail fuel
  | cons attr attributes ih =>
    obtain ⟨key, value⟩ := attr
    obtain ⟨⟨hne, hkey⟩, hvalue⟩ := hattrs _ List.mem_cons_self
    obtain ⟨first, key, rfl⟩ := List.exists_cons_of_ne_nil hne
    cases fuel with
    | zero => simp at hfuel
    | succ fuel =>
      have hshape : renderAttrs ((first :: key, value) :: attributes) ++ tail =
          ' ' :: (first :: key ++ '=' :: '"' :: (value ++ '"' :: (renderAttrs attributes ++ tail))) := by
        simp [renderAttrs]
      have hkeyStop := @takeWhile_append_stop (· ≠ '=') (first :: key)
        ('"' :: (value ++ '"' :: (renderAttrs attributes ++ tail))) '='
        (fun c hc => by simpa using ne_of_isAlphanum (hkey c hc) (by decide)) (by simp)
      have hvalueStop := @takeWhile_append_stop (· ≠ '"') value (renderAttrs attributes ++ tail) '"'
        (fun c hc => by simpa using ne_of_mem_of_not_mem hc hvalue) (by simp)
      have hslash : first ≠ '/' := ne_of_isAlphanum (hkey first List.mem_cons_self) (by decide)
      have ih := @ih fuel (by simpa using hfuel)
        fun attr hattr => hattrs attr (List.mem_cons_of_mem _ hattr)
      rw [hshape, List.cons_append, readAttributes]
      · rw [← List.cons_append, hkeyStop.2, hkeyStop.1]
        simp only [hvalueStop.1, hvalueStop.2, List.tail_cons, ih, Option.map_some]
      · intro rest heq
        exact hslash (List.cons.inj heq).1

/-- What follows a run of text starts with a mark. -/
private theorem text_stop {raw : List Char} {rest : List Piece}
    (hraw : '<' ∉ raw ∧ '&' ∉ raw) (hrest : ∀ piece ∈ rest.head?, piece.isText = false) :
    (raw ++ render rest).takeWhile (fun d => d ≠ '<' ∧ d ≠ '&') = raw ∧
      (raw ++ render rest).dropWhile (fun d => d ≠ '<' ∧ d ≠ '&') = render rest := by
  have hall : ∀ c ∈ raw, decide (c ≠ '<' ∧ c ≠ '&') = true := by
    intro c hc
    simpa using ⟨ne_of_mem_of_not_mem hc hraw.1, ne_of_mem_of_not_mem hc hraw.2⟩
  cases rest with
  | nil =>
    rw [render_nil, List.append_nil]
    exact ⟨List.takeWhile_eq_self_iff.mpr hall, List.dropWhile_eq_nil_iff.mpr hall⟩
  | cons piece rest =>
    have hmark : ∃ more, render (piece :: rest) = '<' :: more := by
      have hpiece := hrest piece rfl
      cases piece with
      | text raw => simp [Piece.isText] at hpiece
      | declaration | start | empty | close => exact ⟨_, rfl⟩
    obtain ⟨more, hmore⟩ := hmark
    rw [hmore]
    exact takeWhile_append_stop hall (by decide)

private theorem readAttributes_tail (rest : List Char) (fuel : Nat) :
    readAttributes fuel ('>' :: rest) = some ([], false, rest) ∧
      readAttributes fuel (' ' :: '/' :: '>' :: rest) = some ([], true, rest) := by
  cases fuel <;> exact ⟨rfl, rfl⟩

theorem length_le_renderAttrs (attributes : List Attr) :
    attributes.length ≤ (renderAttrs attributes).length := by
  induction attributes with
  | nil => exact Nat.zero_le _
  | cons attr attributes ih =>
    simp only [renderAttrs, List.flatMap_cons, List.length_append, List.length_cons] at ih ⊢
    omega

/-- A tag is read up to its end. -/
private theorem readEventsFuel_tag {fuel : Nat} {name : List Char} {attributes : List Attr}
    {isEmpty : Bool} {tail rest : List Char} (hname : IsName name) (hattrs : AttrsOk attributes)
    (hstop : ∀ c ∈ (renderAttrs attributes ++ tail).head?, c.isAlphanum = false)
    (htail : ∀ fuel, readAttributes fuel tail = some ([], isEmpty, rest)) :
    readEventsFuel (fuel + 1) ('<' :: (name ++ (renderAttrs attributes ++ tail))) =
      .ok (.start name (attributes.map .ok)) ::
        ((if isEmpty then [.ok (.close name)] else []) ++ readEventsFuel fuel rest) := by
  obtain ⟨hne, halnum⟩ := hname
  obtain ⟨first, name, rfl⟩ := List.exists_cons_of_ne_nil hne
  have hfirst := halnum first List.mem_cons_self
  have hsplit : (first :: name ++ (renderAttrs attributes ++ tail)).takeWhile Char.isAlphanum =
        first :: name ∧
      (first :: name ++ (renderAttrs attributes ++ tail)).dropWhile Char.isAlphanum =
        renderAttrs attributes ++ tail := by
    cases hmore : renderAttrs attributes ++ tail with
    | nil =>
      rw [List.append_nil]
      exact ⟨List.takeWhile_eq_self_iff.mpr halnum, List.dropWhile_eq_nil_iff.mpr halnum⟩
    | cons c more => exact takeWhile_append_stop halnum (hstop c (by rw [hmore]; rfl))
  have hfuel : attributes.length ≤ (first :: name ++ (renderAttrs attributes ++ tail)).length := by
    have hlength := length_le_renderAttrs attributes
    simp only [List.length_append, List.length_cons]
    omega
  have hread := readAttributes_render hfuel
    (fun attr hattr => ⟨(hattrs.2 attr hattr).1, (hattrs.2 attr hattr).2.1⟩) htail
  rw [List.cons_append, readEventsFuel]
  · rw [← List.cons_append, hsplit.1, hsplit.2, hread]
  · intro rest heq
    exact ne_of_isAlphanum hfirst (by decide) (List.cons.inj heq).1
  · intro rest heq
    exact ne_of_isAlphanum hfirst (by decide) (List.cons.inj heq).1

private theorem readEventsFuel_render {pieces : List Piece} {fuel : Nat}
    (hfuel : (render pieces).length ≤ fuel) (hok : ∀ piece ∈ pieces, piece.Ok)
    (hsep : pieces.IsChain fun first second => ¬ (first.isText = true ∧ second.isText = true)) :
    readEventsFuel fuel (render pieces) = (pieces.flatMap Piece.events).map .ok := by
  induction pieces generalizing fuel with
  | nil => cases fuel <;> rfl
  | cons piece pieces ih =>
    have hpiece := hok piece List.mem_cons_self
    have hlength : 1 ≤ piece.render.length := by
      cases piece with
      | text raw => exact List.length_pos_iff.mpr hpiece.1
      | declaration | start | empty | close => simp [Piece.render]
    rw [render_cons, List.length_append] at hfuel
    cases fuel with
    | zero => omega
    | succ fuel =>
      have ih := @ih fuel (by omega) (fun p hp => hok p (List.mem_cons_of_mem _ hp))
        hsep.tail
      rw [render_cons, List.flatMap_cons, List.map_append, ← ih]
      cases piece with
      | declaration content =>
        have hstop := @takeWhile_append_stop (· ≠ '?') content ('>' :: render pieces) '?'
          (fun c hc => by simpa using ne_of_mem_of_not_mem hc hpiece.2) (by simp)
        simp only [Piece.render, List.cons_append, List.append_assoc, List.nil_append,
          readEventsFuel, hstop.2]
        rfl
      | start name attributes =>
        simp only [Piece.render, List.cons_append, List.append_assoc, List.nil_append]
        rw [readEventsFuel_tag hpiece.1 hpiece.2 _ fun fuel =>
          (readAttributes_tail (render pieces) fuel).1]
        · rfl
        · cases attributes <;> simp [renderAttrs]
      | empty name attributes =>
        simp only [Piece.render, List.cons_append, List.append_assoc, List.nil_append]
        rw [readEventsFuel_tag hpiece.1 hpiece.2 _ fun fuel =>
          (readAttributes_tail (render pieces) fuel).2]
        · rfl
        · cases attributes <;> simp [renderAttrs]
      | close name =>
        have hstop := @takeWhile_append_stop (· ≠ '>') name (render pieces) '>'
          (fun c hc => by simpa using ne_of_isAlphanum (hpiece.2 c hc) (by decide)) (by simp)
        simp only [Piece.render, List.cons_append, List.append_assoc, List.nil_append,
          readEventsFuel, hstop.1, hstop.2, List.tail_cons]
        rfl
      | text raw =>
        obtain ⟨hne, hlt, hamp⟩ := hpiece
        obtain ⟨c, raw, rfl⟩ := List.exists_cons_of_ne_nil hne
        have hhead : ∀ piece ∈ pieces.head?, piece.isText = false := by
          intro next hnext
          obtain ⟨more, rfl⟩ := List.head?_eq_some_iff.mp hnext
          have := (List.isChain_cons_cons.mp hsep).1
          simpa [Piece.isText] using this
        have hstop := @text_stop raw pieces
          ⟨fun h => hlt (List.mem_cons_of_mem _ h), fun h => hamp (List.mem_cons_of_mem _ h)⟩ hhead
        have hc : c ≠ '<' := fun heq => hlt (heq ▸ List.mem_cons_self)
        simp only [Piece.render, List.cons_append]
        rw [readEventsFuel]
        · rw [hstop.1, hstop.2]
          rfl
        · exact fun _ heq => absurd heq hc
        · exact fun _ heq => absurd heq hc
        · exact hc

private theorem unescapeSimple_entity {entity : List Char × Char} {rest : List Char}
    (h : entity ∈ entities) :
    unescapeSimple (entity.1 ++ rest) = (unescapeSimple rest).map (entity.2 :: ·) := by
  simp only [entities, List.mem_cons, List.not_mem_nil, or_false] at h
  rcases h with rfl | rfl | rfl | rfl | rfl | rfl | rfl <;> rfl

/-- A reader of what the pieces here write, and a little more. -/
def Reader.simple : Reader where
  readEvents text := readEventsFuel text.length text
  unescape := unescapeSimple
  resolveCharRef _ := Outcome.bail "character reference is not supported"
  readEvents_render h := readEventsFuel_render (Nat.le_refl _) h.ok h.separated
  unescape_nil := rfl
  unescape_char := by
    intro c rest hc
    rw [unescapeSimple, if_neg hc]
    all_goals exact fun _ heq => absurd heq hc
  unescape_entity := unescapeSimple_entity

end CodeLib.Xml
