import Psign.Trust.RevocationPolicy

/-!
# URIs of general names

`parse_http_uri_general_names` does not follow the structure of its input: it takes every octet
`0x86` for the tag of a URI.  `NameElement` is the structure, elements in elements, and `Piece`
its octets in a row, with the URIs kept whole.  `uriSpans` are the places that the scan takes for
URIs; they are the places of the URIs exactly where every other octet `0x86` announces more than
is left, and no URI needs more than three length octets (`uriSpans_eq_ok`).
-/

namespace Psign.Trust.Online

open CodeLib CodeLib.Der CodeLib.Unicode

/-! ## Structure -/

/-- A tag that is not the tag of a URI. -/
def OtherTag : Type := {tag : UInt8 // tag ≠ 0x86}

/-- A DER value: a `uniformResourceIdentifier`, another primitive element, or an element of
elements. -/
inductive NameElement where
  | uri (text : List Char)
  | primitive (tag : OtherTag) (content : List UInt8)
  | constructed (tag : OtherTag) (children : List NameElement)

/-- A part of an encoding: the text of a URI, or an octet that belongs to no URI. -/
inductive Piece where
  | uri (text : List Char)
  | octet (b : UInt8)
  deriving DecidableEq

/-- The octets of a part. -/
def Piece.bytes : Piece → List UInt8
  | uri text => encodeTlv 0x86 (utf8Encode text)
  | octet b => [b]

/-- The octets of parts. -/
def bytesOf (pieces : List Piece) : List UInt8 := pieces.flatMap Piece.bytes

mutual

/-- The encoding of an element. -/
def NameElement.encode : NameElement → List UInt8
  | .uri text => encodeTlv 0x86 (utf8Encode text)
  | .primitive tag content => encodeTlv tag.val content
  | .constructed tag children => encodeTlv tag.val (encodeAll children)

/-- The encoding of elements in a row. -/
def encodeAll : List NameElement → List UInt8
  | [] => []
  | e :: rest => e.encode ++ encodeAll rest

end

mutual

/-- The parts of an element. -/
def NameElement.pieces : NameElement → List Piece
  | .uri text => [.uri text]
  | .primitive tag content => (encodeTlv tag.val content).map .octet
  | .constructed tag children =>
    .octet tag.val :: ((encodeLength (encodeAll children).length).map .octet ++
      piecesAll children)

/-- The parts of elements in a row. -/
def piecesAll : List NameElement → List Piece
  | [] => []
  | e :: rest => e.pieces ++ piecesAll rest

end

/-- The URIs among the parts. -/
def urisOf : List Piece → List (List Char)
  | [] => []
  | .uri text :: rest => text :: urisOf rest
  | .octet _ :: rest => urisOf rest

variable {pieces rest more : List Piece}

theorem bytesOf_cons (p : Piece) (rest : List Piece) : bytesOf (p :: rest) = p.bytes ++ bytesOf rest :=
  List.flatMap_cons

theorem bytesOf_append : bytesOf (rest ++ more) = bytesOf rest ++ bytesOf more :=
  List.flatMap_append

theorem bytesOf_octets (bytes : List UInt8) : bytesOf (bytes.map .octet) = bytes := by
  induction bytes with
  | nil => rfl
  | cons b bytes ih => rw [List.map_cons, bytesOf_cons, ih]; rfl

mutual

theorem NameElement.bytesOf_pieces (e : NameElement) : bytesOf e.pieces = e.encode := by
  cases e with
  | uri text => exact List.append_nil _
  | primitive tag content => exact bytesOf_octets _
  | constructed tag children =>
    rw [NameElement.pieces, bytesOf_cons, bytesOf_append, bytesOf_octets,
      bytesOf_piecesAll children]
    rfl

theorem bytesOf_piecesAll (es : List NameElement) : bytesOf (piecesAll es) = encodeAll es := by
  cases es with
  | nil => rfl
  | cons e rest => rw [piecesAll, bytesOf_append, e.bytesOf_pieces, bytesOf_piecesAll rest]; rfl

end

/-! ## The places of URIs -/

/-- What the scan takes for URIs: how much is behind the tag, and the contents. -/
def uriSpans : ℕ → List UInt8 → Outcome (List (ℕ × List UInt8))
  | _, [] => .ok []
  | 0, _ :: _ => .error .outOfFuel
  | fuel + 1, tag :: rest =>
    if tag = 0x86 then do
      let (len, body) ← readLen rest
      if len ≤ body.length then do
        let spans ← uriSpans fuel (body.drop len)
        return (rest.length, body.take len) :: spans
      else uriSpans fuel rest
    else uriSpans fuel rest

/-- Where the URIs of the parts are. -/
def spansOf : List Piece → List (ℕ × List UInt8)
  | [] => []
  | .uri text :: rest =>
    ((Piece.uri text).bytes.length - 1 + (bytesOf rest).length, utf8Encode text) :: spansOf rest
  | .octet _ :: rest => spansOf rest

/-- An octet `0x86` in front of these bytes announces more than there is. -/
def Overruns (bytes : List UInt8) : Prop :=
  ∃ len body, readLen bytes = .ok (len, body) ∧ body.length < len

/-- No octet outside of the URIs can be taken for the tag of one, and three length octets are
enough for each URI. -/
def Unmistaken (pieces : List Piece) : Prop :=
  (∀ before after, pieces = before ++ .octet 0x86 :: after → Overruns (bytesOf after)) ∧
    ∀ text ∈ urisOf pieces, (utf8Encode text).length < 256 ^ 3

theorem readLen_eq_ok {bytes body : List UInt8} {len : ℕ} :
    readLen bytes = .ok (len, body) ↔
      ∃ hdr, readLength 3 bytes = some (len, hdr) ∧ body = bytes.drop hdr := by
  cases bytes with
  | nil => simp [readLen, readLength]
  | cons first rest =>
    rw [readLen, readLength]
    by_cases hshort : first.toNat < 128
    · rw [if_pos hshort, if_pos hshort]
      simp [eq_comm]
    · have hmod : first.toNat % 0x80 = first.toNat - 128 := by
        have := first.toNat_lt
        omega
      rw [if_neg hshort, if_neg hshort]
      dsimp only
      rw [hmod]
      by_cases hform : first.toNat - 128 = 0 ∨ 3 < first.toNat - 128
      · rw [if_pos hform, if_pos (by omega)]
        simp
      · rw [if_neg hform]
        by_cases hcut : rest.length < first.toNat - 128
        · rw [if_pos hcut, if_pos (by omega)]
          simp
        · rw [if_neg hcut, if_neg (by omega)]
          simp only [Except.ok.injEq, Prod.mk.injEq, Option.some.injEq]
          constructor
          · intro h
            obtain ⟨rfl, rfl⟩ := h
            refine ⟨1 + (first.toNat - 128), ⟨rfl, rfl⟩, ?_⟩
            rw [Nat.add_comm, List.drop_succ_cons]
          · intro h
            obtain ⟨hdr, ⟨hlen, hhdr⟩, hbody⟩ := h
            refine ⟨hlen, ?_⟩
            rw [hbody, ← hhdr, Nat.add_comm, List.drop_succ_cons]

/-- The length of a URI is read if it needs no more than three octets. -/
theorem readLen_uri {content rest body : List UInt8} {len : ℕ} :
    readLen (encodeLength content.length ++ (content ++ rest)) = .ok (len, body) ↔
      content.length < 256 ^ 3 ∧ len = content.length ∧ body = content ++ rest := by
  rw [readLen_eq_ok]
  by_cases hlen : content.length < 256 ^ 3
  · rw [readLength_encodeLength hlen (by decide)]
    constructor
    · intro h
      obtain ⟨hdr, heq, rfl⟩ := h
      obtain ⟨rfl, rfl⟩ := Prod.mk.inj (Option.some.inj heq)
      exact ⟨hlen, rfl, List.drop_left⟩
    · intro h
      obtain ⟨_, rfl, rfl⟩ := h
      exact ⟨_, rfl, List.drop_left.symm⟩
  · rw [readLength_encodeLength_eq_none (by decide) (by decide) (Nat.not_lt.mp hlen)]
    constructor
    · intro h
      obtain ⟨hdr, heq, _⟩ := h
      exact absurd heq.symm (Option.some_ne_none _)
    · intro h
      exact absurd h.1 hlen

theorem unmistaken_nil : Unmistaken [] := by
  refine ⟨?_, fun text htext => absurd htext List.not_mem_nil⟩
  intro before after h
  exact absurd h.symm (by simp)

theorem unmistaken_uri {text : List Char} :
    Unmistaken (.uri text :: rest) ↔ (utf8Encode text).length < 256 ^ 3 ∧ Unmistaken rest := by
  constructor
  · intro h
    refine ⟨h.2 text List.mem_cons_self, ?_, fun t ht => h.2 t (List.mem_cons_of_mem _ ht)⟩
    intro before after heq
    exact h.1 (.uri text :: before) after (by rw [heq]; rfl)
  · intro h
    refine ⟨?_, ?_⟩
    · intro before after heq
      cases before with
      | nil => exact absurd (List.cons.inj heq).1 (by simp)
      | cons p before => exact h.2.1 before after (List.cons.inj heq).2
    · intro t ht
      rcases List.mem_cons.mp ht with rfl | ht
      · exact h.1
      · exact h.2.2 t ht

theorem unmistaken_octet {b : UInt8} :
    Unmistaken (.octet b :: rest) ↔ (b = 0x86 → Overruns (bytesOf rest)) ∧ Unmistaken rest := by
  constructor
  · intro h
    refine ⟨fun hb => h.1 [] rest (by rw [hb]; rfl), ?_, h.2⟩
    intro before after heq
    exact h.1 (.octet b :: before) after (by rw [heq]; rfl)
  · intro h
    refine ⟨?_, h.2.2⟩
    intro before after heq
    cases before with
    | nil =>
      obtain ⟨hb, rfl⟩ := List.cons.inj heq
      exact h.1 (Piece.octet.inj hb)
    | cons p before => exact h.2.1 before after (List.cons.inj heq).2

/-- A URI behind a place has less behind it. -/
theorem lt_of_mem_spansOf {span : ℕ × List UInt8} (h : span ∈ spansOf rest) :
    span.1 < (bytesOf rest).length := by
  induction rest with
  | nil => exact absurd h List.not_mem_nil
  | cons p rest ih =>
    rw [bytesOf_cons, List.length_append]
    cases p with
    | uri text =>
      have hpos : 0 < (Piece.uri text).bytes.length := Nat.succ_pos _
      rcases List.mem_cons.mp h with rfl | h
      · dsimp only
        omega
      · have hlt := ih h
        omega
    | octet b =>
      have hlt := ih h
      omega

/-- The scan takes the URIs, and nothing else, exactly if nothing can be mistaken for one. -/
theorem uriSpans_eq_ok {fuel : ℕ} (hfuel : (bytesOf pieces).length ≤ fuel) :
    uriSpans fuel (bytesOf pieces) = .ok (spansOf pieces) ↔ Unmistaken pieces := by
  induction pieces generalizing fuel with
  | nil => exact iff_of_true (by cases fuel <;> rfl) unmistaken_nil
  | cons p rest ih =>
    rw [bytesOf_cons] at hfuel ⊢
    cases p with
    | octet b =>
      obtain ⟨fuel, rfl⟩ : ∃ n, fuel = n + 1 := by
        refine ⟨fuel - 1, ?_⟩
        rw [List.length_append] at hfuel
        have hone : (Piece.octet b).bytes.length = 1 := rfl
        omega
      have hrest : (bytesOf rest).length ≤ fuel := by
        rw [List.length_append] at hfuel
        have hone : (Piece.octet b).bytes.length = 1 := rfl
        omega
      rw [unmistaken_octet, ← ih hrest]
      show uriSpans (fuel + 1) (b :: bytesOf rest) = .ok (spansOf rest) ↔ _
      rw [uriSpans]
      by_cases hb : b = 0x86
      · rw [if_pos hb, Outcome.bind_eq_ok]
        constructor
        · intro h
          obtain ⟨⟨len, body⟩, hlen, h⟩ := h
          dsimp only at h
          split at h
          · -- the place of the octet is before the place of every URI
            obtain ⟨spans, _, h⟩ := Outcome.bind_eq_ok.mp h
            have hmem : ((bytesOf rest).length, body.take len) ∈ spansOf rest :=
              Except.ok.inj h ▸ List.mem_cons_self
            exact absurd (lt_of_mem_spansOf hmem) (Nat.lt_irrefl _)
          · rename_i hover
            exact ⟨fun _ => ⟨len, body, hlen, Nat.lt_of_not_le hover⟩, h⟩
        · intro h
          obtain ⟨len, body, hlen, hover⟩ := h.1 hb
          refine ⟨(len, body), hlen, ?_⟩
          dsimp only
          rw [if_neg (Nat.not_le.mpr hover)]
          exact h.2
      · rw [if_neg hb]
        exact (and_iff_right fun h => absurd h hb).symm
    | uri text =>
      have hbytes : (Piece.uri text).bytes ++ bytesOf rest =
          0x86 :: (encodeLength (utf8Encode text).length ++ (utf8Encode text ++ bytesOf rest)) := by
        show encodeTlv 0x86 (utf8Encode text) ++ bytesOf rest = _
        rw [encodeTlv, List.cons_append, List.append_assoc]
      have hplace : (encodeLength (utf8Encode text).length ++
          (utf8Encode text ++ bytesOf rest)).length =
            (Piece.uri text).bytes.length - 1 + (bytesOf rest).length := by
        have hlen := congrArg List.length hbytes
        rw [List.length_append, List.length_cons] at hlen
        have hpos : 0 < (Piece.uri text).bytes.length := Nat.succ_pos _
        omega
      obtain ⟨fuel, rfl⟩ : ∃ n, fuel = n + 1 := by
        refine ⟨fuel - 1, ?_⟩
        rw [hbytes, List.length_cons] at hfuel
        omega
      have hrest : (bytesOf rest).length ≤ fuel := by
        rw [hbytes, List.length_cons, hplace] at hfuel
        omega
      rw [unmistaken_uri, ← ih hrest, hbytes, uriSpans, if_pos rfl, Outcome.bind_eq_ok]
      constructor
      · intro h
        obtain ⟨⟨len, body⟩, hlen, h⟩ := h
        obtain ⟨hshort, rfl, rfl⟩ := readLen_uri.mp hlen
        dsimp only at h
        rw [if_pos (by rw [List.length_append]; omega), List.drop_left,
          Outcome.bind_eq_ok] at h
        obtain ⟨spans, hspans, h⟩ := h
        obtain ⟨_, rfl⟩ := List.cons.inj (Except.ok.inj h)
        exact ⟨hshort, hspans⟩
      · intro h
        refine ⟨_, readLen_uri.mpr ⟨h.1, rfl, rfl⟩, ?_⟩
        dsimp only
        rw [if_pos (by rw [List.length_append]; omega), List.drop_left, List.take_left,
          Outcome.bind_eq_ok]
        exact ⟨_, h.2, by rw [hplace]; rfl⟩

/-! ## The URLs -/

/-- The URIs that begin with `http://`. -/
def httpUrisOf (pieces : List Piece) : List String :=
  ((urisOf pieces).filter fun uri => "http://".toList.isPrefixOf uri).map String.ofList

/-- The parser decodes what the scan takes, and keeps the URIs that it can use. -/
theorem parseHttpUriGeneralNames_of_uriSpans {fuel : ℕ} {input : List UInt8}
    {texts : List (List Char)} {spans : List (ℕ × List UInt8)}
    (h : uriSpans fuel input = .ok spans) (htexts : spans.map Prod.snd = texts.map utf8Encode) :
    parseHttpUriGeneralNames fuel input =
      .ok ((texts.filter fun uri => "http://".toList.isPrefixOf uri).map String.ofList) := by
  induction fuel generalizing input spans texts with
  | zero =>
    cases input with
    | nil =>
      obtain rfl := Except.ok.inj h
      rw [List.map_eq_nil_iff.mp htexts.symm]
      rfl
    | cons b rest => exact nomatch h
  | succ fuel ih =>
    cases input with
    | nil =>
      obtain rfl := Except.ok.inj h
      rw [List.map_eq_nil_iff.mp htexts.symm]
      rfl
    | cons b rest =>
      rw [uriSpans] at h
      rw [parseHttpUriGeneralNames]
      by_cases hb : b = 0x86
      · rw [if_pos hb] at h ⊢
        obtain ⟨⟨len, body⟩, hlen, h⟩ := Outcome.bind_eq_ok.mp h
        rw [hlen, Outcome.ok_bind]
        dsimp only at h ⊢
        by_cases hfits : len ≤ body.length
        · rw [if_pos hfits] at h ⊢
          obtain ⟨more, hmore, h⟩ := Outcome.bind_eq_ok.mp h
          obtain rfl := Except.ok.inj h
          cases texts with
          | nil => exact absurd htexts (by simp)
          | cons text texts =>
            obtain ⟨htext, htexts⟩ := List.cons.inj htexts
            dsimp only at htext
            rw [htext, uriFromUtf8, fromUtf8_utf8Encode, ih hmore htexts]
            show Except.ok (keepHttp text _) = _
            rw [keepHttp, List.filter_cons]
            split <;> rfl
        · rw [if_neg hfits] at h ⊢
          exact ih h htexts
      · rw [if_neg hb] at h ⊢
        exact ih h htexts

theorem map_snd_spansOf : (spansOf pieces).map Prod.snd = (urisOf pieces).map utf8Encode := by
  induction pieces with
  | nil => rfl
  | cons p rest ih =>
    cases p with
    | uri text => rw [spansOf, urisOf, List.map_cons, List.map_cons, ih]
    | octet b => exact ih

/-- The length of the input is enough fuel, and the scan ends on every input. -/
theorem parseHttpUriGeneralNames_ne_outOfFuel {fuel : ℕ} {input : List UInt8}
    (hfuel : input.length ≤ fuel) :
    parseHttpUriGeneralNames fuel input ≠ .error .outOfFuel := by
  induction fuel generalizing input with
  | zero =>
    obtain rfl := List.length_eq_zero_iff.mp (Nat.le_zero.mp hfuel)
    exact nofun
  | succ fuel ih =>
    cases input with
    | nil => exact nofun
    | cons b rest =>
      rw [List.length_cons] at hfuel
      have hrest := ih (Nat.le_of_succ_le_succ hfuel)
      rw [parseHttpUriGeneralNames]
      split
      · intro h
        rcases bind_eq_error.mp h with h | ⟨⟨len, body⟩, hlen, h⟩
        · exact readLen_ne_outOfFuel rest h
        · dsimp only at h
          split at h
          · have hbody := length_of_readLen hlen
            rcases bind_eq_error.mp h with h | ⟨uri, _, h⟩
            · exact nomatch (ofOption_eq_error.mp h).2
            · rcases bind_eq_error.mp h with h | ⟨urls, _, h⟩
              · exact ih (by rw [List.length_drop]; omega) h
              · exact nomatch h
          · exact hrest h
      · exact hrest

set_option maxRecDepth 2000

/-- A URI of 131 octets in a SEQUENCE: the last length octet of the SEQUENCE is taken for the tag
of a URI. -/
theorem uri_of_131_octets :
    let url := "http://".toList ++ List.replicate 124 'a'
    let value := encodeAll [.constructed ⟨0x30, by decide⟩ [.uri url]]
    parseHttpUriGeneralNames value.length value ≠ .ok [String.ofList url] := by
  decide

/-- The scan ends on every input.  The URLs of a DER value are its `http://` URIs, and the scan
takes nothing else for a URI and leaves out none, exactly if nothing in it can be mistaken for a
URI. -/
theorem parse_http_uri_general_names (input : List UInt8) (names : List NameElement) :
    parseHttpUriGeneralNames input.length input ≠ .error .outOfFuel ∧
      ((uriSpans (encodeAll names).length (encodeAll names) = .ok (spansOf (piecesAll names)) ∧
        parseHttpUriGeneralNames (encodeAll names).length (encodeAll names) =
          .ok (httpUrisOf (piecesAll names))) ↔
        Unmistaken (piecesAll names)) := by
  refine ⟨parseHttpUriGeneralNames_ne_outOfFuel (Nat.le_refl _), ?_⟩
  have hbytes := bytesOf_piecesAll names
  have hspans := @uriSpans_eq_ok (piecesAll names) (encodeAll names).length
    (Nat.le_of_eq (congrArg List.length hbytes))
  rw [hbytes] at hspans
  constructor
  · intro h
    exact hspans.mp h.1
  · intro h
    have hok := hspans.mpr h
    exact ⟨hok, parseHttpUriGeneralNames_of_uriSpans hok map_snd_spansOf⟩

end Psign.Trust.Online
