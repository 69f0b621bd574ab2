import Mathlib.Data.List.TakeWhile
import Mathlib.Data.List.Forall2
import Psign.CodeLib.RustStr
import Psign.CodeLib.Subslice

/-!
# XML documents as they are written

A `Document` is an XML document with every character of its text: white space in tags, the quotes
of values, comments, CDATA sections, instructions and the declaration of the document type.  A
piece carries the proof that it is well formed, so a document has no text that a parser rejects;
only of the declaration of the document type nothing is asked but that it consists of characters
of XML.

`Sealed` is what lets a search go on behind a piece: every mark that it opens it closes.
`Attr.render_append_inj` and `Tag.body_append_inj` say that a tag is read in one way only.
-/

namespace CodeLib.Markup

/-! ## Characters and names -/

/-- `Char` of XML. -/
def isXmlChar (c : Char) : Bool :=
  let n := c.toNat
  n == 9 || n == 10 || n == 13 || (0x20 ≤ n && n ≤ 0xD7FF) || (0xE000 ≤ n && n ≤ 0xFFFD) ||
    0x10000 ≤ n

/-- `S` of XML. -/
def isSpace (c : Char) : Bool := c == ' ' || c == '\t' || c == '\n' || c == '\r'

/-- `NameStartChar` of XML. -/
def isNameStart (c : Char) : Bool :=
  let n := c.toNat
  n == 0x3A || (0x41 ≤ n && n ≤ 0x5A) || n == 0x5F || (0x61 ≤ n && n ≤ 0x7A) ||
    (0xC0 ≤ n && n ≤ 0xD6) || (0xD8 ≤ n && n ≤ 0xF6) || (0xF8 ≤ n && n ≤ 0x2FF) ||
    (0x370 ≤ n && n ≤ 0x37D) || (0x37F ≤ n && n ≤ 0x1FFF) || (0x200C ≤ n && n ≤ 0x200D) ||
    (0x2070 ≤ n && n ≤ 0x218F) || (0x2C00 ≤ n && n ≤ 0x2FEF) || (0x3001 ≤ n && n ≤ 0xD7FF) ||
    (0xF900 ≤ n && n ≤ 0xFDCF) || (0xFDF0 ≤ n && n ≤ 0xFFFD) || (0x10000 ≤ n && n ≤ 0xEFFFF)

/-- `NameChar` of XML. -/
def isNameChar (c : Char) : Bool :=
  let n := c.toNat
  isNameStart c || n == 0x2D || n == 0x2E || (0x30 ≤ n && n ≤ 0x39) || n == 0xB7 ||
    (0x300 ≤ n && n ≤ 0x36F) || (0x203F ≤ n && n ≤ 0x2040)

/-- A name of XML. -/
def IsName : List Char → Prop
  | [] => False
  | c :: rest => isNameStart c = true ∧ ∀ d ∈ rest, isNameChar d = true

instance : (name : List Char) → Decidable (IsName name)
  | [] => isFalse id
  | _ :: _ => inferInstanceAs (Decidable (_ ∧ _))

/-- The part of a name behind its colon. -/
def localName (name : List Char) : List Char :=
  ((RustStr.splitOnce ':' name).map Prod.snd).getD name

/-! ## References -/

/-- The value of a digit, if there is such a digit in the base. -/
def digitValue (base : ℕ) (c : Char) : Option ℕ :=
  let n := c.toNat
  let value := if 0x30 ≤ n ∧ n ≤ 0x39 then n - 0x30
    else if 0x41 ≤ n ∧ n ≤ 0x46 then n - 0x37
    else if 0x61 ≤ n ∧ n ≤ 0x66 then n - 0x57
    else base
  if value < base then some value else none

/-- The character with this number. -/
def charOfDigits (base : ℕ) (digits : List Char) : Option Char := do
  let values ← digits.mapM (digitValue base)
  let n := values.foldl (fun n value => n * base + value) 0
  if digits ≠ [] ∧ n.isValidChar ∧ isXmlChar (Char.ofNat n) = true then some (Char.ofNat n) else none

/-- The character that a reference names, by what stands between `&` and `;`. -/
def resolve (body : List Char) : Option Char :=
  if body = "amp".toList then some '&'
  else if body = "lt".toList then some '<'
  else if body = "gt".toList then some '>'
  else if body = "quot".toList then some '"'
  else if body = "apos".toList then some '\''
  else
    match body with
    | '#' :: 'x' :: digits => charOfDigits 16 digits
    | '#' :: digits => charOfDigits 10 digits
    | _ => none

/-- Every `&` starts a reference to a character or to an entity. -/
def ReferencesOk (raw : List Char) : Prop :=
  ∀ before after, raw = before ++ '&' :: after →
    ∃ body rest, after = body ++ ';' :: rest ∧ (IsName body ∨ (resolve body).isSome = true)

/-- The loop of `parseValue`; `skip` characters are passed over. -/
def parseValueFrom : (skip : ℕ) → List Char → Option (List Char)
  | _, [] => some []
  | skip + 1, _ :: rest => parseValueFrom skip rest
  | 0, c :: rest =>
    if c = '&' then do
      let (body, _) ← RustStr.splitOnce ';' rest
      let d ← resolve body
      let more ← parseValueFrom (body.length + 1) rest
      return d :: more
    else do
      let more ← parseValueFrom 0 rest
      return (if isSpace c = true then ' ' else c) :: more

/-- The value of an attribute: references are resolved, and white space is a blank.  There is no
value here for an entity that the document declares. -/
def parseValue (raw : List Char) : Option (List Char) := parseValueFrom 0 raw

/-! ## Tags -/

/-- A raw value can stand in these quotes. -/
def IsValue (quote : Char) (value : List Char) : Prop :=
  quote ∉ value ∧ '<' ∉ value ∧ (∀ c ∈ value, isXmlChar c = true) ∧ ReferencesOk value

/-- An attribute with the white space before it. -/
structure Attr where
  lead : List Char
  name : List Char
  beforeEquals : List Char
  afterEquals : List Char
  quote : Char
  value : List Char
  lead_ne : lead ≠ []
  lead_space : ∀ c ∈ lead, isSpace c = true
  isName : IsName name
  beforeEquals_space : ∀ c ∈ beforeEquals, isSpace c = true
  afterEquals_space : ∀ c ∈ afterEquals, isSpace c = true
  isQuote : quote = '"' ∨ quote = '\''
  isValue : IsValue quote value

/-- The text of an attribute behind its name. -/
def Attr.assignment (attr : Attr) : List Char :=
  attr.beforeEquals ++ '=' :: (attr.afterEquals ++ attr.quote :: (attr.value ++ [attr.quote]))

/-- The text of an attribute. -/
def Attr.render (attr : Attr) : List Char := attr.lead ++ (attr.name ++ attr.assignment)

/-- A start tag or the tag of an empty element, with the white space before its end. -/
structure Tag where
  name : List Char
  attrs : List Attr
  trail : List Char
  isName : IsName name
  nodup : (attrs.map Attr.name).Nodup
  trail_space : ∀ c ∈ trail, isSpace c = true

/-- The text of a tag between the brackets. -/
def Tag.body (tag : Tag) : List Char := tag.name ++ (tag.attrs.flatMap Attr.render ++ tag.trail)

/-! ## Documents -/

/-- Text between tags. -/
def IsText (raw : List Char) : Prop :=
  '<' ∉ raw ∧ ¬ "]]>".toList <:+: raw ∧ (∀ c ∈ raw, isXmlChar c = true) ∧ ReferencesOk raw

/-- The text of a comment. -/
def IsComment (body : List Char) : Prop :=
  ¬ "--".toList <:+: body ++ ['-'] ∧ ∀ c ∈ body, isXmlChar c = true

/-- The text of a CDATA section. -/
def IsCData (body : List Char) : Prop :=
  ¬ "]]>".toList <:+: body ∧ ∀ c ∈ body, isXmlChar c = true

/-- The text of an instruction, the declaration of XML included. -/
def IsInstruction (body : List Char) : Prop :=
  (∃ target rest, body = target ++ rest ∧ IsName target ∧ ∀ c ∈ rest.head?, isSpace c = true) ∧
    ¬ "?>".toList <:+: body ∧ ∀ c ∈ body, isXmlChar c = true

/-- A part of a document that stands between two others. -/
inductive Piece where
  | text (raw : List Char) (isText : IsText raw)
  | comment (body : List Char) (isComment : IsComment body)
  | cdata (body : List Char) (isCData : IsCData body)
  | instruction (body : List Char) (isInstruction : IsInstruction body)
  | doctype (body : List Char) (isXml : ∀ c ∈ body, isXmlChar c = true)
  | start (tag : Tag)
  | empty (tag : Tag)
  | close (name trail : List Char) (isName : IsName name) (isSpace : ∀ c ∈ trail, isSpace c = true)

/-- The text of a piece. -/
def Piece.render : Piece → List Char
  | text raw _ => raw
  | comment body _ => '<' :: '!' :: '-' :: '-' :: (body ++ ['-', '-', '>'])
  | cdata body _ => '<' :: '!' :: ("[CDATA[".toList ++ (body ++ [']', ']', '>']))
  | instruction body _ => '<' :: '?' :: (body ++ ['?', '>'])
  | doctype body _ => '<' :: '!' :: ("DOCTYPE".toList ++ (body ++ ['>']))
  | start tag => '<' :: (tag.body ++ ['>'])
  | empty tag => '<' :: (tag.body ++ ['/', '>'])
  | close name trail _ _ => '<' :: '/' :: (name ++ (trail ++ ['>']))

/-- The end of the tag of an empty element, or of a start tag. -/
def tagEnd (isEmpty : Bool) : List Char := if isEmpty then ['/', '>'] else ['>']

/-- The piece that a tag is. -/
def Piece.ofTag (isEmpty : Bool) (tag : Tag) : Piece := if isEmpty then .empty tag else .start tag

theorem Piece.render_ofTag (isEmpty : Bool) (tag : Tag) :
    (Piece.ofTag isEmpty tag).render = '<' :: (tag.body ++ tagEnd isEmpty) := by
  cases isEmpty <;> rfl

/-- The text of pieces. -/
def renderAll (pieces : List Piece) : List Char := pieces.flatMap Piece.render

@[simp] theorem renderAll_nil : renderAll [] = [] := rfl

@[simp] theorem renderAll_cons (piece : Piece) (pieces : List Piece) :
    renderAll (piece :: pieces) = piece.render ++ renderAll pieces := rfl

@[simp] theorem renderAll_append (first second : List Piece) :
    renderAll (first ++ second) = renderAll first ++ renderAll second :=
  List.flatMap_append

/-- Every end tag closes the element that was opened last. -/
def Balanced : (stack : List (List Char)) → List Piece → Prop
  | stack, [] => stack = []
  | stack, .start tag :: rest => Balanced (tag.name :: stack) rest
  | stack, .close name _ _ _ :: rest => stack.head? = some name ∧ Balanced stack.tail rest
  | _, .doctype _ _ :: _ => False
  | stack, _ :: rest => Balanced stack rest

/-- What may stand outside the document element. -/
def Piece.IsMisc : Piece → Prop
  | text raw _ => ∀ c ∈ raw, isSpace c = true
  | comment _ _ | instruction _ _ => True
  | doctype _ _ | cdata _ _ | start _ | empty _ | close _ _ _ _ => False

/-- A document.  The document element has content and an end tag, or it is one tag. -/
structure Document where
  prolog : List Piece
  root : Tag
  content : Option (List Piece × List Char)
  epilog : List Piece
  prolog_misc : ∀ piece ∈ prolog, piece.IsMisc ∨ ∃ body isXml, piece = .doctype body isXml
  epilog_misc : ∀ piece ∈ epilog, piece.IsMisc
  balanced : ∀ inside ∈ content, Balanced [] inside.1
  end_space : ∀ inside ∈ content, ∀ c ∈ inside.2, isSpace c = true

/-- The pieces of the document element. -/
def rootPieces (root : Tag) : (content : Option (List Piece × List Char)) →
    (∀ inside ∈ content, ∀ c ∈ inside.2, isSpace c = true) → List Piece
  | none, _ => [.empty root]
  | some (inside, trail), hspace =>
    .start root :: (inside ++ [.close root.name trail root.isName (hspace _ rfl)])

namespace Document

/-- The pieces of a document. -/
def pieces (doc : Document) : List Piece :=
  doc.prolog ++ rootPieces doc.root doc.content doc.end_space ++ doc.epilog

/-- The text of a document. -/
def render (doc : Document) : List Char := renderAll doc.pieces

end Document

/-! ### Other tags of the same names -/

/-- Put another tag of the same name in the place of every tag. -/
def Piece.mapTag (f : (tag : Tag) → {new : Tag // new.name = tag.name}) : Piece → Piece
  | start tag => .start (f tag)
  | empty tag => .empty (f tag)
  | piece => piece

variable {f : (tag : Tag) → {new : Tag // new.name = tag.name}}

theorem Piece.isMisc_mapTag {piece : Piece} (h : piece.IsMisc) : piece.mapTag f = piece := by
  cases piece with
  | start tag => exact h.elim
  | empty tag => exact h.elim
  | text | comment | cdata | instruction | doctype | close => rfl

theorem balanced_mapTag {stack : List (List Char)} {pieces : List Piece} :
    Balanced stack (pieces.map (Piece.mapTag f)) ↔ Balanced stack pieces := by
  induction pieces generalizing stack with
  | nil => exact Iff.rfl
  | cons piece pieces ih =>
    rw [List.map_cons]
    cases piece with
    | start tag =>
      show Balanced ((f tag).val.name :: stack) _ ↔ Balanced (tag.name :: stack) _
      rw [(f tag).property]
      exact ih
    | close name trail isName isSpace =>
      show _ ∧ Balanced stack.tail _ ↔ _ ∧ Balanced stack.tail _
      exact and_congr_right fun _ => ih
    | doctype body isXml => exact Iff.rfl
    | text raw isText => exact @ih stack
    | comment body isComment => exact @ih stack
    | cdata body isCData => exact @ih stack
    | instruction body isInstruction => exact @ih stack
    | empty tag => exact @ih stack

/-- The document with the other tags. -/
def Document.mapTags (f : (tag : Tag) → {new : Tag // new.name = tag.name}) (doc : Document) :
    Document where
  prolog := doc.prolog
  root := f doc.root
  content := doc.content.map fun inside => (inside.1.map (Piece.mapTag f), inside.2)
  epilog := doc.epilog
  prolog_misc := doc.prolog_misc
  epilog_misc := doc.epilog_misc
  balanced := by
    intro inside hinside
    obtain ⟨old, hold, rfl⟩ := Option.map_eq_some_iff.mp hinside
    exact balanced_mapTag.mpr (doc.balanced old hold)
  end_space := by
    intro inside hinside
    obtain ⟨old, hold, rfl⟩ := Option.map_eq_some_iff.mp hinside
    exact doc.end_space old hold

/-- It has the pieces of the document, one by one. -/
theorem Document.pieces_mapTags (doc : Document) :
    (doc.mapTags f).pieces = doc.pieces.map (Piece.mapTag f) := by
  obtain ⟨prolog, root, content, epilog, hprolog, hepilog, hbalanced, hspace⟩ := doc
  have hmisc : ∀ {pieces : List Piece}, (∀ piece ∈ pieces,
      piece.IsMisc ∨ ∃ body isXml, piece = .doctype body isXml) →
      pieces.map (Piece.mapTag f) = pieces := by
    intro pieces h
    refine (List.map_congr_left fun piece hpiece => ?_).trans (List.map_id pieces)
    rcases h piece hpiece with h | ⟨body, isXml, rfl⟩
    · exact Piece.isMisc_mapTag h
    · rfl
  rw [pieces, pieces, mapTags, List.map_append, List.map_append, hmisc hprolog,
    hmisc fun piece hpiece => Or.inl (hepilog piece hpiece)]
  cases content with
  | none => rfl
  | some inside =>
    obtain ⟨inside, trail⟩ := inside
    have hroot : ∀ {name name' : List Char} (heq : name' = name) (hname : IsName name)
        (hname' : IsName name'), (Piece.close name' trail hname' (hspace _ rfl)) =
          .close name trail hname (hspace _ rfl) := by
      intro name name' heq _ _
      subst heq
      rfl
    show prolog ++ .start (f root) :: (inside.map (Piece.mapTag f) ++ [_]) ++ epilog =
      prolog ++ .start (f root) :: (inside ++ [_]).map (Piece.mapTag f) ++ epilog
    rw [List.map_append]
    exact congrArg (fun close => prolog ++ .start (f root) ::
      (inside.map (Piece.mapTag f) ++ [close]) ++ epilog)
      (hroot (f root).property root.isName (f root).val.isName)

/-! ## Characters in a tag -/

theorem IsName.isNameChar {name : List Char} (h : IsName name) :
    ∀ c ∈ name, isNameChar c = true := by
  cases name with
  | nil => exact h.elim
  | cons first rest =>
    intro c hc
    rcases List.mem_cons.mp hc with rfl | hc
    · have hstart : isNameStart c = true := h.1
      simp [Markup.isNameChar, hstart]
    · exact h.2 c hc

theorem IsName.ne_nil {name : List Char} (h : IsName name) : name ≠ [] := by
  rintro rfl
  exact h

theorem ne_of_isNameChar {c d : Char} (hc : isNameChar c = true) (hd : isNameChar d = false) :
    c ≠ d := by
  intro heq
  rw [heq, hd] at hc
  exact absurd hc (by decide)

/-- A character that is in no name. -/
theorem IsName.not_mem {name : List Char} {d : Char} (h : IsName name)
    (hd : Markup.isNameChar d = false) : d ∉ name :=
  fun hmem => ne_of_isNameChar (h.isNameChar d hmem) hd rfl

theorem isSpace_not_isNameChar {c : Char} (h : isSpace c = true) : isNameChar c = false := by
  simp only [isSpace, Bool.or_eq_true, beq_iff_eq] at h
  rcases h with ((rfl | rfl) | rfl) | rfl <;> decide

theorem not_mem_of_isSpace {s : List Char} {d : Char} (h : ∀ c ∈ s, isSpace c = true)
    (hd : isSpace d = false) : d ∉ s := by
  intro hmem
  have hspace := h d hmem
  rw [hd] at hspace
  exact absurd hspace (by decide)

/-- A mark that is no white space and no `=` or quote is only in the value. -/
theorem Attr.mem_render {attr : Attr} {d : Char} (hspace : isSpace d = false)
    (hname : isNameChar d = false) (hequals : d ≠ '=') (hquote : d ≠ attr.quote) :
    d ∈ attr.render ↔ d ∈ attr.value := by
  have hlead := not_mem_of_isSpace attr.lead_space hspace
  have hbefore := not_mem_of_isSpace attr.beforeEquals_space hspace
  have hafter := not_mem_of_isSpace attr.afterEquals_space hspace
  have hnot := attr.isName.not_mem hname
  simp [Attr.render, Attr.assignment, hlead, hbefore, hafter, hnot, hequals, hquote]

theorem Attr.lt_not_mem_render (attr : Attr) : '<' ∉ attr.render := by
  have hquote : '<' ≠ attr.quote := by
    rcases attr.isQuote with h | h <;> rw [h] <;> decide
  rw [Attr.mem_render (by decide) (by decide) (by decide) hquote]
  exact attr.isValue.2.1

/-- A body does not end in a slash. -/
theorem Tag.getLast?_body_ne (tag : Tag) : tag.body.getLast? ≠ some '/' := by
  intro h
  rw [body, ← List.append_assoc, List.getLast?_append] at h
  cases htrail : tag.trail.getLast? with
  | some c =>
    rw [htrail] at h
    obtain rfl : c = '/' := by simpa using h
    exact not_mem_of_isSpace tag.trail_space (by decide) (List.mem_of_getLast? htrail)
  | none =>
    rw [htrail] at h
    have h : (tag.name ++ tag.attrs.flatMap Attr.render).getLast? = some '/' := by simpa using h
    rcases List.eq_nil_or_concat tag.attrs with hattrs | ⟨init, last, hattrs⟩
    · rw [hattrs, List.flatMap_nil, List.append_nil] at h
      exact tag.isName.not_mem (by decide) (List.mem_of_getLast? h)
    · have hrender : last.render = (last.lead ++ (last.name ++ (last.beforeEquals ++
          '=' :: (last.afterEquals ++ last.quote :: last.value)))) ++ [last.quote] := by
        simp [Attr.render, Attr.assignment]
      rw [hattrs, List.concat_eq_append, List.flatMap_append, List.flatMap_singleton, hrender,
        ← List.append_assoc, ← List.append_assoc, List.getLast?_concat] at h
      have hquote := (Option.some.inj h).symm
      rcases last.isQuote with hq | hq <;> rw [hq] at hquote <;> exact absurd hquote (by decide)

theorem Tag.lt_not_mem_body (tag : Tag) : '<' ∉ tag.body := by
  intro hmem
  rcases List.mem_append.mp hmem with h | h
  · exact tag.isName.not_mem (by decide) h
  · rcases List.mem_append.mp h with h | h
    · obtain ⟨attr, _, h⟩ := List.mem_flatMap.mp h
      exact attr.lt_not_mem_render h
    · exact not_mem_of_isSpace tag.trail_space (by decide) h

/-! ## Searches that go on behind a piece -/

/-- Every `<` has a `>` behind it. -/
def Sealed (raw : List Char) : Prop := ∀ rest, '<' :: rest <:+ raw → '>' ∈ rest

theorem sealed_of_not_mem {raw : List Char} (h : '<' ∉ raw) : Sealed raw :=
  fun _ hsuffix => absurd (hsuffix.mem List.mem_cons_self) h

theorem sealed_append_gt (lead : List Char) : Sealed (lead ++ ['>']) := by
  intro rest hsuffix
  rcases List.suffix_concat_iff.mp hsuffix with h | ⟨start, h, _⟩
  · exact nomatch h
  · cases start with
    | nil => exact absurd (List.cons.inj h).1 (by decide)
    | cons c start =>
      rw [(List.cons.inj h).2]
      simp

theorem Sealed.of_suffix {raw rest : List Char} (h : Sealed raw) (hsuffix : rest <:+ raw) :
    Sealed rest :=
  fun more hmore => h more (hmore.trans hsuffix)

theorem Piece.sealed (piece : Piece) : Sealed piece.render := by
  have hgt : (∃ lead, piece.render = lead ++ ['>']) → Sealed piece.render := by
    intro h
    obtain ⟨lead, hlead⟩ := h
    rw [hlead]
    exact sealed_append_gt lead
  cases piece with
  | text raw isText => exact sealed_of_not_mem isText.1
  | comment body isComment => exact hgt ⟨'<' :: '!' :: '-' :: '-' :: (body ++ ['-', '-']), by simp [render]⟩
  | cdata body isCData =>
    exact hgt ⟨'<' :: '!' :: ("[CDATA[".toList ++ (body ++ [']', ']'])), by simp [render]⟩
  | instruction body isInstruction => exact hgt ⟨'<' :: '?' :: (body ++ ['?']), by simp [render]⟩
  | doctype body isXml =>
    exact hgt ⟨'<' :: '!' :: ("DOCTYPE".toList ++ body), by simp [render]⟩
  | start tag => exact hgt ⟨'<' :: tag.body, by simp [render]⟩
  | empty tag => exact hgt ⟨'<' :: (tag.body ++ ['/']), by simp [render]⟩
  | close name trail isName isSpace => exact hgt ⟨'<' :: '/' :: (name ++ trail), by simp [render]⟩

/-! ## A tag is read in one way -/

/-- A run of characters ends where the first other character stands. -/
theorem run_append_inj {p : Char → Bool} {run run' rest rest' : List Char}
    (hrun : ∀ c ∈ run, p c = true) (hrun' : ∀ c ∈ run', p c = true)
    (hrest : ∀ c ∈ rest.head?, p c = false) (hrest' : ∀ c ∈ rest'.head?, p c = false)
    (h : run ++ rest = run' ++ rest') : run = run' ∧ rest = rest' := by
  have htake : ∀ {run rest : List Char}, (∀ c ∈ run, p c = true) →
      (∀ c ∈ rest.head?, p c = false) → (run ++ rest).takeWhile p = run := by
    intro run rest hrun hrest
    rw [List.takeWhile_append_of_pos hrun]
    cases rest with
    | nil => simp
    | cons c rest => rw [List.takeWhile_cons_of_neg (by simp [hrest c rfl]), List.append_nil]
  have hsame : run = run' := by rw [← htake hrun hrest, h, htake hrun' hrest']
  subst hsame
  exact ⟨rfl, List.append_cancel_left h⟩

/-- The text of an attribute up to its value. -/
def Attr.opening (attr : Attr) : List Char :=
  attr.lead ++ (attr.name ++ (attr.beforeEquals ++ '=' :: (attr.afterEquals ++ [attr.quote])))

theorem Attr.render_eq (attr : Attr) :
    attr.render = attr.opening ++ (attr.value ++ [attr.quote]) := by
  simp [render, opening, assignment]

theorem isSpace_not_quote {attr : Attr} : isSpace attr.quote = false := by
  rcases attr.isQuote with h | h <;> rw [h] <;> decide

/-- An attribute is read in one way, up to its value. -/
theorem Attr.opening_append_inj {a b : Attr} {x y : List Char}
    (h : a.opening ++ x = b.opening ++ y) : a.lead = b.lead ∧ a.name = b.name ∧
      a.beforeEquals = b.beforeEquals ∧ a.afterEquals = b.afterEquals ∧ a.quote = b.quote ∧
      x = y := by
  have hname : ∀ (c : Attr) {more : List Char}, ∀ d ∈ (c.name ++ more).head?, isSpace d = false := by
    intro c more d hd
    obtain ⟨first, rest, hfirst⟩ := List.exists_cons_of_ne_nil c.isName.ne_nil
    rw [hfirst, List.cons_append, List.head?_cons] at hd
    obtain rfl := Option.some.inj hd
    by_contra hspace
    have hnot := isSpace_not_isNameChar (by simpa using hspace : isSpace first = true)
    rw [c.isName.isNameChar first (by rw [hfirst]; exact List.mem_cons_self)] at hnot
    exact absurd hnot (by decide)
  have hequals : ∀ (c : Attr) {more : List Char}, ∀ d ∈ (c.beforeEquals ++ '=' :: more).head?,
      isNameChar d = false := by
    intro c more d hd
    cases hbefore : c.beforeEquals with
    | nil =>
      rw [hbefore] at hd
      obtain rfl := Option.some.inj hd
      decide
    | cons first rest =>
      rw [hbefore] at hd
      obtain rfl := Option.some.inj hd
      exact isSpace_not_isNameChar
        (c.beforeEquals_space _ (by rw [hbefore]; exact List.mem_cons_self))
  simp only [opening, List.append_assoc, List.cons_append, List.nil_append] at h
  obtain ⟨hlead, h⟩ := run_append_inj a.lead_space b.lead_space (hname a) (hname b) h
  obtain ⟨hnames, h⟩ := run_append_inj a.isName.isNameChar b.isName.isNameChar (hequals a)
    (hequals b) h
  obtain ⟨hbefore, h⟩ := run_append_inj a.beforeEquals_space b.beforeEquals_space
    (fun d hd => by obtain rfl := Option.some.inj hd; decide)
    (fun d hd => by obtain rfl := Option.some.inj hd; decide) h
  obtain ⟨hafter, h⟩ := run_append_inj a.afterEquals_space b.afterEquals_space
    (fun d hd => by obtain rfl := Option.some.inj hd; exact isSpace_not_quote)
    (fun d hd => by obtain rfl := Option.some.inj hd; exact isSpace_not_quote)
    (List.cons.inj h).2
  obtain ⟨hquote, h⟩ := List.cons.inj h
  exact ⟨hlead, hnames, hbefore, hafter, hquote, h⟩

/-- A value ends at its quote. -/
theorem Attr.value_append_inj {a b : Attr} {x y : List Char} (hquote : a.quote = b.quote)
    (h : a.value ++ a.quote :: x = b.value ++ b.quote :: y) : a.value = b.value ∧ x = y := by
  have hnot : ∀ c : Attr, ∀ d ∈ c.value, decide (d ≠ c.quote) = true :=
    fun c d hd => by simpa using ne_of_mem_of_not_mem hd c.isValue.1
  obtain ⟨hvalue, hrest⟩ := @run_append_inj (· ≠ a.quote) a.value b.value _ _ (hnot a)
    (by rw [hquote]; exact hnot b) (by simp) (by simp [hquote]) h
  exact ⟨hvalue, (List.cons.inj hrest).2⟩

theorem Attr.render_append_inj {a b : Attr} {x y : List Char} (h : a.render ++ x = b.render ++ y) :
    a = b ∧ x = y := by
  simp only [render_eq, List.append_assoc, List.singleton_append] at h
  obtain ⟨hlead, hname, hbefore, hafter, hquote, hvalues⟩ := opening_append_inj h
  obtain ⟨hvalue, hrest⟩ := value_append_inj hquote hvalues
  cases a
  cases b
  simp only at hlead hname hbefore hafter hquote hvalue
  subst hlead hname hbefore hafter hquote hvalue
  exact ⟨rfl, hrest⟩

/-- What stands behind the attributes is no attribute. -/
theorem Attr.render_append_ne {a : Attr} {trail x y : List Char} (isEmpty : Bool)
    (htrail : ∀ c ∈ trail, isSpace c = true) :
    a.render ++ x ≠ trail ++ (tagEnd isEmpty ++ y) := by
  intro h
  rw [render, List.append_assoc] at h
  have hend : ∀ c ∈ (tagEnd isEmpty ++ y).head?, isSpace c = false ∧ isNameChar c = false := by
    intro c hc
    cases isEmpty
    · obtain rfl := Option.some.inj hc
      decide
    · obtain rfl := Option.some.inj hc
      decide
  obtain ⟨first, rest, hfirst⟩ := List.exists_cons_of_ne_nil a.isName.ne_nil
  have hnameChar := a.isName.isNameChar first (by rw [hfirst]; exact List.mem_cons_self)
  have hnotSpace : isSpace first = false := by
    by_contra hspace
    rw [isSpace_not_isNameChar (by simpa using hspace)] at hnameChar
    exact absurd hnameChar (by decide)
  obtain ⟨_, h⟩ := run_append_inj a.lead_space htrail
    (fun c hc => by
      rw [hfirst] at hc
      obtain rfl := Option.some.inj hc
      exact hnotSpace) (fun c hc => (hend c hc).1) h
  have hhead := (hend first (by rw [← h, hfirst]; rfl)).2
  rw [hnameChar] at hhead
  exact absurd hhead (by decide)

private theorem attrs_append_inj {as bs : List Attr} {trail trail' x y : List Char} (isEmpty : Bool)
    (htrail : ∀ c ∈ trail, isSpace c = true) (htrail' : ∀ c ∈ trail', isSpace c = true)
    (h : as.flatMap Attr.render ++ (trail ++ (tagEnd isEmpty ++ x)) =
      bs.flatMap Attr.render ++ (trail' ++ (tagEnd isEmpty ++ y))) :
    as = bs ∧ trail = trail' ∧ x = y := by
  induction as generalizing bs with
  | nil =>
    cases bs with
    | nil =>
      have hend : ∀ {y : List Char}, ∀ c ∈ (tagEnd isEmpty ++ y).head?, isSpace c = false := by
        intro y c hc
        cases isEmpty
        · obtain rfl := Option.some.inj hc
          decide
        · obtain rfl := Option.some.inj hc
          decide
      obtain ⟨htrails, hrest⟩ := run_append_inj htrail htrail' hend hend h
      exact ⟨rfl, htrails, List.append_cancel_left hrest⟩
    | cons b bs =>
      rw [List.flatMap_cons, List.append_assoc] at h
      exact absurd h.symm (Attr.render_append_ne isEmpty htrail)
  | cons a as ih =>
    cases bs with
    | nil =>
      rw [List.flatMap_cons, List.append_assoc] at h
      exact absurd h (Attr.render_append_ne isEmpty htrail')
    | cons b bs =>
      rw [List.flatMap_cons, List.flatMap_cons, List.append_assoc, List.append_assoc] at h
      obtain ⟨rfl, hmore⟩ := Attr.render_append_inj h
      obtain ⟨rfl, hrest⟩ := ih hmore
      exact ⟨rfl, hrest⟩

/-- A tag is read in one way. -/
theorem Tag.render_append_inj {tag tag' : Tag} {x y : List Char} (isEmpty : Bool)
    (hname : tag'.name = tag.name)
    (h : (Piece.ofTag isEmpty tag).render ++ x = (Piece.ofTag isEmpty tag').render ++ y) :
    tag' = tag ∧ x = y := by
  simp only [Piece.render_ofTag, Tag.body, hname, List.cons_append, List.append_assoc,
    List.cons.injEq, true_and] at h
  obtain ⟨hattrs, htrail, hrest⟩ := attrs_append_inj isEmpty tag.trail_space tag'.trail_space
    (List.append_cancel_left h)
  refine ⟨?_, hrest⟩
  cases tag
  cases tag'
  simp only at hname hattrs htrail
  subst hname hattrs htrail
  rfl

/-! ## Values -/

private theorem parseValueFrom_skip (skipped rest : List Char) :
    parseValueFrom skipped.length (skipped ++ rest) = parseValue rest := by
  induction skipped with
  | nil => rfl
  | cons c skipped ih => exact ih

@[simp] theorem parseValue_nil : parseValue [] = some [] := rfl

theorem parseValue_cons {c : Char} {rest : List Char} (h : c ≠ '&') :
    parseValue (c :: rest) =
      (parseValue rest).map ((if isSpace c = true then ' ' else c) :: ·) := by
  rw [parseValue, parseValueFrom, if_neg h, parseValue]
  cases parseValueFrom 0 rest <;> rfl

theorem parseValue_reference {body rest : List Char} {d : Char} (hbody : ';' ∉ body)
    (h : resolve body = some d) :
    parseValue ('&' :: (body ++ ';' :: rest)) = (parseValue rest).map (d :: ·) := by
  have hskip := parseValueFrom_skip (body ++ [';']) rest
  rw [List.length_append, List.length_singleton, List.append_assoc, List.singleton_append] at hskip
  rw [parseValue, parseValueFrom, if_pos rfl, RustStr.splitOnce_eq_some.mpr ⟨rfl, hbody⟩]
  show (resolve body >>= fun d => parseValueFrom (body.length + 1) (body ++ ';' :: rest) >>=
    fun more => some (d :: more)) = _
  rw [h, hskip]
  cases parseValue rest <;> rfl

theorem referencesOk_of_not_mem {raw : List Char} (h : '&' ∉ raw) : ReferencesOk raw := by
  intro before after heq
  exact absurd (by rw [heq]; simp) h

theorem ReferencesOk.append {s t : List Char} (hs : ReferencesOk s) (ht : ReferencesOk t) :
    ReferencesOk (s ++ t) := by
  intro before after heq
  rcases List.append_eq_append_iff.mp heq with ⟨more, hbefore, hrest⟩ | ⟨more, hs', hrest⟩
  · exact ht more after hrest
  · cases more with
    | nil => exact ht [] after hrest.symm
    | cons c more =>
      obtain ⟨rfl, rfl⟩ := List.cons.inj hrest
      obtain ⟨body, rest, rfl, hbody⟩ := hs before more hs'
      exact ⟨body, rest ++ t, by simp, hbody⟩

theorem referencesOk_reference {body : List Char} (hbody : '&' ∉ body)
    (h : (resolve body).isSome = true) : ReferencesOk ('&' :: (body ++ [';'])) := by
  intro before after heq
  cases before with
  | nil => exact ⟨body, [], (List.cons.inj heq).2.symm, Or.inr h⟩
  | cons c before =>
    have hmem : '&' ∈ body ++ [';'] := by
      rw [(List.cons.inj heq).2]
      simp
    simp [hbody] at hmem

theorem isAlphanum_of_digitValue {base value : ℕ} {c : Char} (h : digitValue base c = some value) :
    c.isAlphanum = true := by
  have hrange : (0x30 ≤ c.toNat ∧ c.toNat ≤ 0x39) ∨ (0x41 ≤ c.toNat ∧ c.toNat ≤ 0x46) ∨
      (0x61 ≤ c.toNat ∧ c.toNat ≤ 0x66) := by
    by_contra hnot
    simp only [not_or] at hnot
    unfold digitValue at h
    dsimp only at h
    rw [if_neg hnot.1, if_neg hnot.2.1, if_neg hnot.2.2, if_neg (Nat.lt_irrefl _)] at h
    exact nomatch h
  simp only [Char.isAlphanum, Char.isAlpha, Char.isUpper, Char.isLower, Char.isDigit,
    Bool.or_eq_true, Bool.and_eq_true, decide_eq_true_eq, ge_iff_le, UInt32.le_iff_toNat_le,
    Char.reduceVal, UInt32.reduceToNat]
  have hval : c.val.toNat = c.toNat := rfl
  omega

/-- The text of a reference has no other marks. -/
theorem not_mem_of_resolve {body : List Char} {c d : Char} (h : resolve body = some c)
    (hd : d.isAlphanum = false) (hhash : d ≠ '#') : d ∉ body := by
  have hword : ∀ {word : List Char}, (∀ e ∈ word, e.isAlphanum = true) → d ∉ word := by
    intro word hword hmem
    have halnum := hword d hmem
    rw [hd] at halnum
    exact absurd halnum (by decide)
  have hdigits : ∀ {base : ℕ} {digits : List Char}, charOfDigits base digits = some c →
      d ∉ digits := by
    intro base digits h
    obtain ⟨values, hvalues, -⟩ := Option.bind_eq_some_iff.mp h
    refine hword fun e he => ?_
    clear h
    induction digits generalizing values with
    | nil => exact absurd he List.not_mem_nil
    | cons first digits ih =>
      rw [List.mapM_cons] at hvalues
      obtain ⟨value, hvalue, hvalues⟩ := Option.bind_eq_some_iff.mp hvalues
      obtain ⟨more, hmore, _⟩ := Option.bind_eq_some_iff.mp hvalues
      rcases List.mem_cons.mp he with rfl | he
      · exact isAlphanum_of_digitValue hvalue
      · exact ih more hmore he
  unfold resolve at h
  split at h
  · rename_i hbody
    rw [hbody]
    exact hword (by decide)
  · split at h
    · rename_i hbody
      rw [hbody]
      exact hword (by decide)
    · split at h
      · rename_i hbody
        rw [hbody]
        exact hword (by decide)
      · split at h
        · rename_i hbody
          rw [hbody]
          exact hword (by decide)
        · split at h
          · rename_i hbody
            rw [hbody]
            exact hword (by decide)
          · split at h
            · rename_i digits
              have hx : d ≠ 'x' := by
                rintro rfl
                exact absurd hd (by decide)
              simp [hhash, hx, hdigits h]
            · rename_i digits _
              simp [hhash, hdigits h]
            · exact nomatch h

/-- A mark in a raw value is a mark in the value. -/
theorem mem_of_parseValue {raw value : List Char} {d : Char} (hd : d.isAlphanum = false)
    (hhash : d ≠ '#') (hamp : d ≠ '&') (hsemi : d ≠ ';') (hspace : isSpace d = false)
    (h : parseValue raw = some value) (hmem : d ∈ raw) : d ∈ value := by
  induction hlength : raw.length using Nat.strongRecOn generalizing raw value with
  | ind n ih =>
    cases raw with
    | nil => exact absurd hmem List.not_mem_nil
    | cons c rest =>
      rw [List.length_cons] at hlength
      by_cases hc : c = '&'
      · subst hc
        have hrest : d ∈ rest := (List.mem_cons.mp hmem).resolve_left hamp
        rw [parseValue, parseValueFrom, if_pos rfl] at h
        obtain ⟨⟨body, after⟩, hsplit, hbind⟩ := Option.bind_eq_some_iff.mp h
        obtain ⟨e, hresolve, _⟩ := Option.bind_eq_some_iff.mp hbind
        obtain ⟨rfl, hbody⟩ := RustStr.splitOnce_eq_some.mp hsplit
        have hafter : d ∈ after := by
          rcases List.mem_append.mp hrest with hin | hin
          · exact absurd hin (not_mem_of_resolve hresolve hd hhash)
          · exact (List.mem_cons.mp hin).resolve_left hsemi
        have hvalue : parseValue ('&' :: (body ++ ';' :: after)) = some value := by
          rw [parseValue, parseValueFrom, if_pos rfl]
          exact h
        rw [parseValue_reference hbody hresolve] at hvalue
        obtain ⟨more, hmore, rfl⟩ := Option.map_eq_some_iff.mp hvalue
        refine List.mem_cons_of_mem _ (ih after.length ?_ hmore hafter rfl)
        rw [List.length_append, List.length_cons] at hlength
        omega
      · rw [parseValue_cons hc] at h
        obtain ⟨more, hmore, rfl⟩ := Option.map_eq_some_iff.mp h
        rcases List.mem_cons.mp hmem with rfl | hrest
        · rw [hspace]
          exact List.mem_cons_self
        · exact List.mem_cons_of_mem _ (ih rest.length (by omega) hmore hrest rfl)

end CodeLib.Markup
