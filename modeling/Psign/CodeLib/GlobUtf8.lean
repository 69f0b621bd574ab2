import Psign.CodeLib.Glob
import Psign.CodeLib.RustStr
import Psign.CodeLib.Utf8

/-!
# Glob patterns in UTF-8

A matcher may work on the octets of a pattern and a text.  A character past the ASCII range is
then several literals in a pattern and several symbols in a text.  When `?` takes the octets of
one character of some kind, the octets are matched exactly when the characters are
(`mem_wholeLanguage_iff`): a star may end inside a character, but nothing except another star can
go on from there.  When `?` takes one octet, this is so where the pattern has no `?` or the text
is ASCII (`mem_utf8Encode_iff`).
-/

namespace CodeLib.Glob

open CodeLib.RustStr CodeLib.Unicode

def charSymbols : Symbols Char := ⟨'*', '?', '/'⟩

def byteSymbols : Symbols UInt8 := ⟨asciiByte '*', asciiByte '?', asciiByte '/'⟩

/-- The characters are the same up to ASCII case. -/
def SameChar (c d : Char) : Prop := c.toLower = d.toLower

/-- `u8::to_ascii_lowercase`. -/
def asciiLower (b : UInt8) : UInt8 :=
  if 65 ≤ b.toNat ∧ b.toNat ≤ 90 then b + 32 else b

/-- `u8::eq_ignore_ascii_case`. -/
def SameByte (a b : UInt8) : Prop := asciiLower a = asciiLower b

instance (a b : UInt8) : Decidable (SameByte a b) :=
  inferInstanceAs (Decidable (asciiLower a = asciiLower b))

/-- A token of characters in octets. -/
def Token.utf8 : Token Char → List (Token UInt8)
  | star => [star]
  | one => [one]
  | dirs => [dirs]
  | anyRun => [anyRun]
  | lit c => (String.utf8EncodeChar c).map lit

/-! ## Octets of a character -/

/-- An octet that is not the first of its character. -/
def Continuation (b : UInt8) : Prop := 0x80 ≤ b.toNat ∧ b.toNat < 0xC0

theorem asciiByte_inj {c d : Char} (hc : IsAscii c) (hd : IsAscii d) :
    asciiByte c = asciiByte d ↔ c = d := by
  rw [← UInt8.toNat_inj, toNat_asciiByte hc, toNat_asciiByte hd, Char.toNat_inj]

theorem utf8EncodeChar_of_isAscii {c : Char} (h : IsAscii c) :
    String.utf8EncodeChar c = [asciiByte c] := by
  have := @utf8Encode_of_isAscii [c] (by simpa using h)
  simpa [utf8Encode] using this

theorem utf8EncodeChar_of_not_isAscii {c : Char} (h : ¬ IsAscii c) :
    ∃ b rest, String.utf8EncodeChar c = b :: rest ∧ 0xC0 ≤ b.toNat ∧
      ∀ d ∈ rest, Continuation d := by
  have hvalid := toNat_valid c
  have hnum : c.val.toNat = c.toNat := rfl
  unfold IsAscii at h
  rw [String.utf8EncodeChar]
  simp only [hnum]
  rw [if_neg (by omega)]
  split
  · refine ⟨_, _, rfl, ?_, ?_⟩
    · rw [toNat_byte]
      omega
    · intro d hd
      rw [List.mem_singleton.mp hd, Continuation, toNat_byte]
      omega
  · split
    · refine ⟨_, _, rfl, ?_, ?_⟩
      · rw [toNat_byte]
        omega
      · intro d hd
        simp only [List.mem_cons, List.not_mem_nil, or_false] at hd
        rcases hd with rfl | rfl <;> rw [Continuation, toNat_byte] <;> omega
    · refine ⟨_, _, rfl, ?_, ?_⟩
      · rw [toNat_byte]
        omega
      · intro d hd
        simp only [List.mem_cons, List.not_mem_nil, or_false] at hd
        rcases hd with rfl | rfl | rfl <;> rw [Continuation, toNat_byte] <;> omega

theorem utf8Encode_cons (c : Char) (text : List Char) :
    utf8Encode (c :: text) = String.utf8EncodeChar c ++ utf8Encode text :=
  List.flatMap_cons

theorem utf8EncodeChar_ne_nil (c : Char) : String.utf8EncodeChar c ≠ [] := by
  by_cases h : IsAscii c
  · rw [utf8EncodeChar_of_isAscii h]
    exact List.cons_ne_nil _ _
  · obtain ⟨b, rest, hb, _⟩ := utf8EncodeChar_of_not_isAscii h
    rw [hb]
    exact List.cons_ne_nil _ _

/-- Octets past the ASCII range are the same as themselves only. -/
theorem eq_of_sameByte {a b : UInt8} (h : SameByte a b) (ha : 0x80 ≤ a.toNat ∨ 0x80 ≤ b.toNat) :
    a = b := by
  have hlow : ∀ b : UInt8, 0x80 ≤ (asciiLower b).toNat ∨ 0x80 ≤ b.toNat → asciiLower b = b := by
    intro b hb
    unfold asciiLower at hb ⊢
    split
    · rename_i hupper
      rw [if_pos hupper, UInt8.toNat_add] at hb
      have hnum : (32 : UInt8).toNat = 32 := rfl
      rw [hnum] at hb
      omega
    · rfl
  unfold SameByte at h
  rcases ha with ha | ha
  · have hself := hlow a (Or.inr ha)
    rw [← hself, h]
    exact hlow b (Or.inl (by rw [← h, hself]; exact ha))
  · have hself := hlow b (Or.inr ha)
    rw [← hself, ← h]
    exact (hlow a (Or.inl (by rw [h, hself]; exact ha))).symm

theorem sameByte_asciiByte {c d : Char} (hc : IsAscii c) (hd : IsAscii d) :
    SameByte (asciiByte c) (asciiByte d) ↔ SameChar c d := by
  have hlow : ∀ {c : Char}, IsAscii c → (asciiLower (asciiByte c)).toNat = c.toLower.toNat := by
    intro c hc
    have hnum := toNat_asciiByte hc
    unfold IsAscii at hc
    rw [toNat_toLower, asciiLower, hnum]
    split
    · rw [UInt8.toNat_add, hnum]
      show (c.toNat + 32) % 256 = _
      omega
    · exact hnum
  unfold SameByte SameChar
  rw [← UInt8.toNat_inj, hlow hc, hlow hd]
  exact ⟨fun h => Char.toNat_inj.mp h, fun h => congrArg Char.toNat h⟩

/-- Characters past the ASCII range are the same as themselves only. -/
theorem eq_of_sameChar {c d : Char} (h : SameChar c d) (hc : ¬ IsAscii c) : d = c := by
  have hnum := congrArg Char.toNat h
  rw [toNat_toLower, toNat_toLower] at hnum
  unfold IsAscii at hc
  apply Char.toNat_inj.mp
  split at hnum <;> split at hnum <;> omega

theorem isAscii_of_sameChar {c d : Char} (h : SameChar c d) (hc : IsAscii c) : IsAscii d := by
  have hnum := congrArg Char.toNat h
  rw [toNat_toLower, toNat_toLower] at hnum
  unfold IsAscii at hc ⊢
  split at hnum <;> split at hnum <;> omega

/-- Where octets of a text are cut in two, a character may be cut. -/
theorem utf8Encode_eq_append {t : List Char} {a b : List UInt8} (h : utf8Encode t = a ++ b) :
    (∃ t₁ t₂, t = t₁ ++ t₂ ∧ a = utf8Encode t₁ ∧ b = utf8Encode t₂) ∨
      ∃ t₁ c t₂ front back, t = t₁ ++ c :: t₂ ∧ ¬ IsAscii c ∧ back ≠ [] ∧
        (∀ d ∈ back, Continuation d) ∧ a = utf8Encode t₁ ++ front ∧ b = back ++ utf8Encode t₂ := by
  induction t generalizing a with
  | nil =>
    obtain ⟨rfl, rfl⟩ := List.append_eq_nil_iff.mp h.symm
    exact Or.inl ⟨[], [], rfl, rfl, rfl⟩
  | cons c t ih =>
    rw [utf8Encode_cons] at h
    rcases List.append_eq_append_iff.mp h with ⟨a', rfl, hrest⟩ | ⟨back, hchar, rfl⟩
    · rcases ih hrest with ⟨t₁, t₂, rfl, rfl, rfl⟩ |
        ⟨t₁, d, t₂, front, back, rfl, hd, hback, hcont, rfl, rfl⟩
      · exact Or.inl ⟨c :: t₁, t₂, rfl, (utf8Encode_cons c t₁).symm, rfl⟩
      · refine Or.inr ⟨c :: t₁, d, t₂, front, back, rfl, hd, hback, hcont, ?_, rfl⟩
        rw [utf8Encode_cons, List.append_assoc]
    · -- the cut is in the octets of `c`
      by_cases hnil : back = []
      · subst hnil
        rw [List.append_nil] at hchar
        refine Or.inl ⟨[c], t, rfl, ?_, rfl⟩
        rw [← hchar]
        simp [utf8Encode]
      · by_cases ha : a = []
        · subst ha
          rw [List.nil_append] at hchar
          exact Or.inl ⟨[], c :: t, rfl, rfl, by rw [utf8Encode_cons, hchar]⟩
        · obtain ⟨x, a, rfl⟩ := List.exists_cons_of_ne_nil ha
          have hascii : ¬ IsAscii c := by
            intro hascii
            rw [utf8EncodeChar_of_isAscii hascii] at hchar
            have hempty := (List.cons.inj hchar).2
            exact hnil (List.append_eq_nil_iff.mp hempty.symm).2
          obtain ⟨y, rest, hy, _, hcont⟩ := utf8EncodeChar_of_not_isAscii hascii
          rw [hy] at hchar
          have hrest := (List.cons.inj hchar).2
          refine Or.inr ⟨[], c, t, x :: a, back, rfl, hascii, hnil, ?_, rfl, rfl⟩
          intro d hd
          exact hcont d (hrest ▸ List.mem_append_right _ hd)

/-! ## Tokens in octets -/

theorem getElem?_utf8Encode_zero {a : Char} (ha : IsAscii a) (text : List Char) :
    (utf8Encode text)[0]? = some (asciiByte a) ↔ text[0]? = some a := by
  cases text with
  | nil => simp [utf8Encode]
  | cons c text =>
    rw [utf8Encode_cons]
    by_cases hc : IsAscii c
    · rw [utf8EncodeChar_of_isAscii hc]
      simp only [List.singleton_append, List.getElem?_cons_zero, Option.some.injEq]
      exact asciiByte_inj hc ha
    · obtain ⟨b, rest, hb, hlow, _⟩ := utf8EncodeChar_of_not_isAscii hc
      rw [hb]
      simp only [List.cons_append, List.getElem?_cons_zero, Option.some.injEq]
      constructor
      · intro h
        rw [h, toNat_asciiByte ha] at hlow
        unfold IsAscii at ha
        omega
      · intro h
        exact absurd (h ▸ ha) hc

theorem ne_symbols_of_mem {c : Char} (hstar : c ≠ '*') (hquestion : c ≠ '?') :
    ∀ b ∈ String.utf8EncodeChar c, b ≠ byteSymbols.star ∧ b ≠ byteSymbols.question := by
  intro b hb
  by_cases hc : IsAscii c
  · rw [utf8EncodeChar_of_isAscii hc] at hb
    rw [List.mem_singleton.mp hb]
    exact ⟨mt (asciiByte_inj hc (by decide)).mp hstar,
      mt (asciiByte_inj hc (by decide)).mp hquestion⟩
  · obtain ⟨first, rest, hbytes, hfirst, hrest⟩ := utf8EncodeChar_of_not_isAscii hc
    have hlow : 0x80 ≤ b.toNat := by
      rw [hbytes] at hb
      rcases List.mem_cons.mp hb with rfl | hb
      · omega
      · exact (hrest b hb).1
    constructor
    · rintro rfl
      exact absurd hlow (by decide)
    · rintro rfl
      exact absurd hlow (by decide)

/-- The octets of a pattern have the tokens of the pattern, in octets. -/
theorem tokens_utf8Encode (pattern : List Char) :
    tokens byteSymbols (utf8Encode pattern) = (tokens charSymbols pattern).flatMap Token.utf8 := by
  induction hn : pattern.length using Nat.strong_induction_on generalizing pattern with
  | _ n ih =>
    cases pattern with
    | nil => rfl
    | cons c rest =>
      have hrest := ih rest.length (by rw [← hn, List.length_cons]; omega) rest rfl
      have hascii : ∀ {a : Char} (_ : IsAscii a) (text : List Char),
          utf8Encode (a :: text) = asciiByte a :: utf8Encode text := by
        intro a ha text
        rw [utf8Encode_cons, utf8EncodeChar_of_isAscii ha]
        rfl
      by_cases hstar : c = '*'
      · subst hstar
        rw [hascii (by decide)]
        by_cases hsecond : rest[0]? = some '*'
        · obtain ⟨rest, rfl⟩ : ∃ rest', rest = '*' :: rest' := by
            cases rest with
            | nil => simp at hsecond
            | cons d rest' => exact ⟨rest', by simpa using hsecond⟩
          rw [hascii (by decide)]
          by_cases hsep : rest[0]? = some '/'
          · obtain ⟨rest, rfl⟩ : ∃ rest', rest = '/' :: rest' := by
              cases rest with
              | nil => simp at hsep
              | cons d rest' => exact ⟨rest', by simpa using hsep⟩
            have hshort := ih rest.length
              (by rw [← hn]; simp only [List.length_cons]; omega) rest rfl
            have hchars : tokens charSymbols ('*' :: '*' :: '/' :: rest) =
              .dirs :: tokens charSymbols rest := tokens_dirs
            have hbytes : tokens byteSymbols (asciiByte '*' :: asciiByte '*' :: asciiByte '/' ::
              utf8Encode rest) = .dirs :: tokens byteSymbols (utf8Encode rest) := tokens_dirs
            rw [hascii (by decide), hchars, hbytes, hshort, List.flatMap_cons]
            rfl
          · have hshort := ih rest.length
              (by rw [← hn]; simp only [List.length_cons]; omega) rest rfl
            have hchars : tokens charSymbols ('*' :: '*' :: rest) =
              .anyRun :: tokens charSymbols rest := tokens_anyRun hsep
            have hbytes : tokens byteSymbols (asciiByte '*' :: asciiByte '*' :: utf8Encode rest) =
                .anyRun :: tokens byteSymbols (utf8Encode rest) :=
              tokens_anyRun (mt (getElem?_utf8Encode_zero (by decide) rest).mp hsep)
            rw [hchars, hbytes, hshort, List.flatMap_cons]
            rfl
        · have hchars : tokens charSymbols ('*' :: rest) = .star :: tokens charSymbols rest :=
            tokens_star hsecond
          have hbytes : tokens byteSymbols (asciiByte '*' :: utf8Encode rest) =
              .star :: tokens byteSymbols (utf8Encode rest) :=
            tokens_star (mt (getElem?_utf8Encode_zero (by decide) rest).mp hsecond)
          rw [hchars, hbytes, hrest, List.flatMap_cons]
          rfl
      · by_cases hquestion : c = '?'
        · subst hquestion
          have hchars : tokens charSymbols ('?' :: rest) = .one :: tokens charSymbols rest :=
            tokens_question (by decide)
          have hbytes : tokens byteSymbols (asciiByte '?' :: utf8Encode rest) =
              .one :: tokens byteSymbols (utf8Encode rest) :=
            tokens_question (by decide)
          rw [hascii (by decide), hchars, hbytes, hrest, List.flatMap_cons]
          rfl
        · rw [utf8Encode_cons, tokens_map_lit (ne_symbols_of_mem hstar hquestion), hrest,
            @tokens_lit _ _ charSymbols _ _ hstar hquestion, List.flatMap_cons]
          rfl

/-! ## What octets match -/

/-- The language of characters. -/
def charLanguage (ts : List (Token Char)) : Language Char :=
  language '/' SameChar ts

/-- The language of octets. -/
def byteLanguage (ts : List (Token UInt8)) : Language UInt8 :=
  language (asciiByte '/') SameByte ts

/-- Octets that match a character past the ASCII range are its octets. -/
theorem eq_of_forall₂_sameByte {bytes m : List UInt8} (h : List.Forall₂ SameByte bytes m)
    (hlow : ∀ b ∈ bytes, 0x80 ≤ b.toNat) : m = bytes := by
  induction h with
  | nil => rfl
  | cons hfirst _ ih =>
    rw [ih fun b hb => hlow b (List.mem_cons_of_mem _ hb),
      eq_of_sameByte hfirst (Or.inl (hlow _ List.mem_cons_self))]

theorem utf8EncodeChar_low {c : Char} (h : ¬ IsAscii c) :
    ∀ b ∈ String.utf8EncodeChar c, 0x80 ≤ b.toNat := by
  obtain ⟨first, rest, hbytes, hfirst, hrest⟩ := utf8EncodeChar_of_not_isAscii h
  intro b hb
  rw [hbytes] at hb
  rcases List.mem_cons.mp hb with rfl | hb
  · omega
  · exact (hrest b hb).1

/-- The octets of a text that begin with a character are those of a text that does. -/
theorem exists_of_utf8Encode_eq {c : Char} {t : List Char} {rest : List UInt8}
    (ht : utf8Encode t = String.utf8EncodeChar c ++ rest) :
    ∃ t', t = c :: t' ∧ rest = utf8Encode t' := by
  cases t with
  | nil => exact absurd (List.append_eq_nil_iff.mp ht.symm).1 (utf8EncodeChar_ne_nil c)
  | cons d t' =>
    rw [utf8Encode_cons] at ht
    have htext := congrArg utf8Lossy ht
    rw [utf8Lossy_char, utf8Lossy_char] at htext
    obtain rfl : d = c := (List.cons.inj htext).1
    exact ⟨t', rfl, (List.append_cancel_left ht).symm⟩

/-- The octets of a text that begin with octets matched by a literal begin with a character
that the literal matches. -/
theorem exists_of_forall₂_sameByte {c : Char} {t : List Char} {m rest : List UInt8}
    (hm : List.Forall₂ SameByte (String.utf8EncodeChar c) m) (ht : utf8Encode t = m ++ rest) :
    ∃ d t', t = d :: t' ∧ SameChar c d ∧ rest = utf8Encode t' := by
  cases t with
  | nil =>
    have hnil := (List.append_eq_nil_iff.mp ht.symm).1
    rw [hnil] at hm
    exact absurd (List.forall₂_nil_right_iff.mp hm) (utf8EncodeChar_ne_nil c)
  | cons d t' =>
    rw [utf8Encode_cons] at ht
    by_cases hc : IsAscii c
    · rw [utf8EncodeChar_of_isAscii hc] at hm
      obtain ⟨x, hx, rfl⟩ : ∃ x, SameByte (asciiByte c) x ∧ m = [x] := by
        cases hm with
        | cons hx hnil =>
          cases hnil
          exact ⟨_, hx, rfl⟩
      by_cases hd : IsAscii d
      · rw [utf8EncodeChar_of_isAscii hd] at ht
        obtain ⟨rfl, rfl⟩ := List.cons.inj ht
        exact ⟨d, t', rfl, (sameByte_asciiByte hc hd).mp hx, rfl⟩
      · obtain ⟨y, more, hy, hlow, _⟩ := utf8EncodeChar_of_not_isAscii hd
        rw [hy] at ht
        obtain ⟨rfl, -⟩ := List.cons.inj ht
        have heq := eq_of_sameByte hx (Or.inr (by omega))
        rw [← heq, toNat_asciiByte hc] at hlow
        unfold IsAscii at hc
        omega
    · obtain rfl := eq_of_forall₂_sameByte hm (utf8EncodeChar_low hc)
      rw [← utf8Encode_cons] at ht
      obtain ⟨t'', hsame, hrest⟩ := exists_of_utf8Encode_eq ht
      obtain ⟨rfl, rfl⟩ := List.cons.inj hsame
      exact ⟨d, t', rfl, rfl, hrest⟩

/-- The octets of a text with a separator in the text have it, and no other have. -/
theorem sep_mem_utf8Encode {t : List Char} : asciiByte '/' ∈ utf8Encode t ↔ '/' ∈ t := by
  induction t with
  | nil => simp [utf8Encode]
  | cons c t ih =>
    rw [utf8Encode_cons, List.mem_append, ih, List.mem_cons]
    refine or_congr ?_ Iff.rfl
    constructor
    · intro h
      by_contra hne
      have hsymbols : ∀ b ∈ String.utf8EncodeChar c, b ≠ asciiByte '/' := by
        intro b hb
        by_cases hc : IsAscii c
        · rw [utf8EncodeChar_of_isAscii hc] at hb
          rw [List.mem_singleton.mp hb]
          exact mt (asciiByte_inj hc (by decide)).mp fun h => hne h.symm
        · obtain ⟨first, rest, hbytes, hfirst, hrest⟩ := utf8EncodeChar_of_not_isAscii hc
          rw [hbytes] at hb
          rintro rfl
          rcases List.mem_cons.mp hb with hb | hb
          · rw [← hb] at hfirst
            exact absurd hfirst (by decide)
          · exact absurd (hrest _ hb).1 (by decide)
      exact hsymbols _ h rfl
    · intro h
      subst h
      decide

/-- A separator in the octets of a text is one in the text. -/
theorem exists_of_utf8Encode_sep {t : List Char} {a b : List UInt8}
    (h : utf8Encode t = a ++ asciiByte '/' :: b) :
    ∃ t₁ t₂, t = t₁ ++ '/' :: t₂ ∧ b = utf8Encode t₂ := by
  rcases utf8Encode_eq_append h with ⟨t₁, t₂, rfl, -, hrest⟩ |
    ⟨t₁, c, t₂, front, back, -, -, hback, hcont, -, hrest⟩
  · have hsep : utf8Encode t₂ = String.utf8EncodeChar '/' ++ b := by
      rw [utf8EncodeChar_of_isAscii (show IsAscii '/' by decide)]
      exact hrest.symm
    obtain ⟨t₃, rfl, hb⟩ := exists_of_utf8Encode_eq hsep
    exact ⟨t₁, t₃, rfl, hb⟩
  · obtain ⟨d, back, rfl⟩ := List.exists_cons_of_ne_nil hback
    have hd := hcont d List.mem_cons_self
    rw [← (List.cons.inj hrest).1] at hd
    exact absurd hd.1 (by decide)

/-! ## Whole characters -/

section kinds

variable (kind : Char → Prop)

/-- The texts that a token matches when a `?` is a character of the kind. -/
def Token.chars : Token Char → Language Char
  | one => {s | ∃ c, kind c ∧ s = [c]}
  | tok => tok.language '/' SameChar

/-- The language of characters in which a `?` is a character of the kind. -/
def kindLanguage (ts : List (Token Char)) : Language Char :=
  (ts.map (Token.chars kind)).prod

/-- The octets that a token matches when a `?` is a character of the kind. -/
def Token.octets : Token UInt8 → Language UInt8
  | one => {s | ∃ c, kind c ∧ s = String.utf8EncodeChar c}
  | tok => tok.language (asciiByte '/') SameByte

/-- The language of octets in which a `?` takes a whole character of the kind. -/
def wholeLanguage (ts : List (Token UInt8)) : Language UInt8 :=
  (ts.map (Token.octets kind)).prod

theorem charLanguage_eq (ts : List (Token Char)) :
    charLanguage ts = kindLanguage (· ≠ '/') ts := by
  unfold charLanguage language kindLanguage
  congr 1
  refine List.map_congr_left fun tok _ => ?_
  cases tok <;> rfl

variable {kind}

theorem mem_kindLanguage_nil {s : List Char} : s ∈ kindLanguage kind [] ↔ s = [] := Iff.rfl

theorem mem_kindLanguage_cons {tok : Token Char} {ts : List (Token Char)} {s : List Char} :
    s ∈ kindLanguage kind (tok :: ts) ↔
      ∃ a ∈ tok.chars kind, ∃ b ∈ kindLanguage kind ts, a ++ b = s := by
  rw [kindLanguage, List.map_cons, List.prod_cons, Language.mem_mul]
  rfl

theorem mem_wholeLanguage_nil {s : List UInt8} : s ∈ wholeLanguage kind [] ↔ s = [] := Iff.rfl

theorem mem_wholeLanguage_cons {tok : Token UInt8} {ts : List (Token UInt8)} {s : List UInt8} :
    s ∈ wholeLanguage kind (tok :: ts) ↔
      ∃ a ∈ tok.octets kind, ∃ b ∈ wholeLanguage kind ts, a ++ b = s := by
  rw [wholeLanguage, List.map_cons, List.prod_cons, Language.mem_mul]
  rfl

theorem mem_wholeLanguage_lit {b : UInt8} {ts : List (Token UInt8)} {s : List UInt8} :
    s ∈ wholeLanguage kind (.lit b :: ts) ↔
      ∃ d s', s = d :: s' ∧ SameByte b d ∧ s' ∈ wholeLanguage kind ts := by
  rw [mem_wholeLanguage_cons]
  constructor
  · intro h
    obtain ⟨_, ⟨d, hd, rfl⟩, b, hb, rfl⟩ := h
    exact ⟨d, b, rfl, hd, hb⟩
  · intro h
    obtain ⟨d, s', rfl, hd, hs'⟩ := h
    exact ⟨[d], ⟨d, hd, rfl⟩, s', hs', rfl⟩

theorem mem_wholeLanguage_map_lit {w : List UInt8} {ts : List (Token UInt8)} {s : List UInt8} :
    s ∈ wholeLanguage kind (w.map Token.lit ++ ts) ↔
      ∃ m rest, s = m ++ rest ∧ List.Forall₂ SameByte w m ∧ rest ∈ wholeLanguage kind ts := by
  induction w generalizing s with
  | nil =>
    constructor
    · intro h
      exact ⟨[], s, rfl, List.Forall₂.nil, h⟩
    · intro h
      obtain ⟨m, rest, rfl, hm, hrest⟩ := h
      cases hm
      exact hrest
  | cons c w ih =>
    rw [List.map_cons, List.cons_append, mem_wholeLanguage_lit]
    constructor
    · intro h
      obtain ⟨d, s', rfl, hd, hs'⟩ := h
      obtain ⟨m, rest, rfl, hm, hrest⟩ := ih.mp hs'
      exact ⟨d :: m, rest, rfl, List.Forall₂.cons hd hm, hrest⟩
    · intro h
      obtain ⟨m, rest, rfl, hm, hrest⟩ := h
      cases hm with
      | cons hd hm => exact ⟨_, _, rfl, hd, ih.mpr ⟨_, rest, rfl, hm, hrest⟩⟩

/-- Neither a character nor a literal begins inside a character. -/
theorem eq_nil_of_continuation {c : Char} {m rest back more : List UInt8}
    (hm : List.Forall₂ SameByte (String.utf8EncodeChar c) m) (h : m ++ rest = back ++ more)
    (hback : ∀ d ∈ back, Continuation d) : back = [] := by
  by_contra hne
  obtain ⟨d, back, rfl⟩ := List.exists_cons_of_ne_nil hne
  obtain ⟨b, bytes, hb⟩ := List.exists_cons_of_ne_nil (utf8EncodeChar_ne_nil c)
  rw [hb] at hm
  cases hm with
  | cons hbd hmore =>
    obtain ⟨hd, hd'⟩ := hback d List.mem_cons_self
    rw [(List.cons.inj h).1] at hbd
    have heq := eq_of_sameByte hbd (Or.inr hd)
    rw [← heq] at hd hd'
    by_cases hc : IsAscii c
    · rw [utf8EncodeChar_of_isAscii hc] at hb
      rw [← (List.cons.inj hb).1, toNat_asciiByte hc] at hd
      unfold IsAscii at hc
      omega
    · obtain ⟨first, _, hbytes, hfirst, _⟩ := utf8EncodeChar_of_not_isAscii hc
      rw [hbytes] at hb
      rw [← (List.cons.inj hb).1] at hd'
      omega

/-- A separator behind octets inside a character is in the text after them. -/
theorem exists_sep_of_continuation {back lead b : List UInt8} {t : List Char}
    (hback : ∀ d ∈ back, Continuation d)
    (h : lead ++ asciiByte '/' :: b = back ++ utf8Encode t) :
    ∃ lead', utf8Encode t = lead' ++ asciiByte '/' :: b := by
  rcases List.append_eq_append_iff.mp h with ⟨back', rfl, hrest⟩ | ⟨lead', -, hrest⟩
  · cases back' with
    | nil => exact ⟨[], hrest.symm⟩
    | cons d back' =>
      have hd := hback d (List.mem_append_right _ List.mem_cons_self)
      rw [← (List.cons.inj hrest).1] at hd
      exact absurd hd.1 (by decide)
  · exact ⟨lead', hrest⟩

/-- What a run leaves is matched by the rest of the pattern, from a character on. -/
theorem exists_of_run {ts : List (Token Char)} {a b back : List UInt8} {t : List Char}
    (hts : ∀ {back : List UInt8} {t : List Char}, (∀ d ∈ back, Continuation d) →
      back ++ utf8Encode t ∈ wholeLanguage kind (ts.flatMap Token.utf8) →
      t ∈ kindLanguage kind ts ∧ (back ≠ [] → ∀ x, x ≠ '/' → x :: t ∈ kindLanguage kind ts))
    (hback : ∀ d ∈ back, Continuation d) (hab : a ++ b = back ++ utf8Encode t)
    (hb : b ∈ wholeLanguage kind (ts.flatMap Token.utf8)) :
    ∃ t₁ t₂, t = t₁ ++ t₂ ∧ t₂ ∈ kindLanguage kind ts ∧ (asciiByte '/' ∉ a → '/' ∉ t₁) := by
  rcases List.append_eq_append_iff.mp hab with ⟨back', rfl, rfl⟩ | ⟨a', rfl, ht⟩
  · -- the run ends before the text begins
    have hcont : ∀ d ∈ back', Continuation d := fun d hd =>
      hback d (List.mem_append_right _ hd)
    exact ⟨[], t, rfl, (hts hcont hb).1, fun _ => List.not_mem_nil⟩
  · rcases utf8Encode_eq_append ht with ⟨t₁, t₂, rfl, rfl, rfl⟩ |
      ⟨t₁, c, t₂, front, back', rfl, hc, _, hcont, rfl, rfl⟩
    · have hrest := @hts [] _ (by simp) hb
      refine ⟨t₁, t₂, rfl, hrest.1, fun hsep hmem => hsep ?_⟩
      exact List.mem_append_right _ (sep_mem_utf8Encode.mpr hmem)
    · -- the run ends inside `c` and takes the whole of it
      have hrest := hts hcont hb
      refine ⟨t₁ ++ [c], t₂, by simp, hrest.1, fun hsep hmem => ?_⟩
      rcases List.mem_append.mp hmem with hmem | hmem
      · apply hsep
        apply List.mem_append_right
        exact List.mem_append_left _ (sep_mem_utf8Encode.mpr hmem)
      · exact hc (by rw [← List.mem_singleton.mp hmem]; decide)

/-- Matched octets that begin inside a character begin with a run; the run can take the
character. -/
theorem mem_kindLanguage {ts : List (Token Char)} :
    ∀ {back : List UInt8} {t : List Char}, (∀ d ∈ back, Continuation d) →
      back ++ utf8Encode t ∈ wholeLanguage kind (ts.flatMap Token.utf8) →
      t ∈ kindLanguage kind ts ∧ (back ≠ [] → ∀ x, x ≠ '/' → x :: t ∈ kindLanguage kind ts) := by
  induction ts with
  | nil =>
    intro back t _ h
    obtain ⟨rfl, hnil⟩ := List.append_eq_nil_iff.mp (mem_wholeLanguage_nil.mp h)
    have ht : t = [] := by
      cases t with
      | nil => rfl
      | cons c t =>
        rw [utf8Encode_cons] at hnil
        exact absurd (List.append_eq_nil_iff.mp hnil).1 (utf8EncodeChar_ne_nil c)
    exact ⟨mem_kindLanguage_nil.mpr ht, fun hne => absurd rfl hne⟩
  | cons tok ts ih =>
    intro back t hback h
    rw [List.flatMap_cons] at h
    cases tok with
    | dirs =>
      obtain ⟨a, ha, b, hb, hab⟩ := mem_wholeLanguage_cons.mp h
      rcases mem_directories.mp ha with rfl | ⟨lead, rfl⟩
      · -- no directories: the rest of the pattern matches everything
        rw [List.nil_append] at hab
        obtain ⟨ht, hfront⟩ := ih hback (hab ▸ hb)
        have hnone : ∀ {s}, s ∈ kindLanguage kind ts → s ∈ kindLanguage kind (.dirs :: ts) :=
          fun {s} hs => mem_kindLanguage_cons.mpr ⟨[], nil_mem_directories, s, hs, rfl⟩
        exact ⟨hnone ht, fun hne x hx => hnone (hfront hne x hx)⟩
      · rw [List.append_assoc] at hab
        obtain ⟨lead', hlead⟩ := exists_sep_of_continuation hback hab
        obtain ⟨t₁, t₂, rfl, rfl⟩ := exists_of_utf8Encode_sep hlead
        have hrest := (@ih [] t₂ (by simp) hb).1
        have hwhole : ∀ front, front ++ '/' :: t₂ ∈ kindLanguage kind (.dirs :: ts) := by
          intro front
          have hdirs : front ++ ['/'] ∈ (directories '/' : Language Char) :=
            mem_directories.mpr (Or.inr (List.suffix_append _ _))
          exact mem_kindLanguage_cons.mpr
            ⟨front ++ ['/'], hdirs, t₂, hrest, by rw [List.append_assoc]; rfl⟩
        exact ⟨hwhole t₁, fun _ x _ => hwhole (x :: t₁)⟩
    | star =>
      obtain ⟨a, ha, b, hb, hab⟩ := mem_wholeLanguage_cons.mp h
      obtain ⟨t₁, t₂, rfl, ht₂, hsep⟩ := exists_of_run @ih hback hab hb
      have ht₁ : '/' ∉ t₁ := hsep ha
      refine ⟨mem_kindLanguage_cons.mpr ⟨t₁, ht₁, t₂, ht₂, rfl⟩, fun _ x hx =>
        mem_kindLanguage_cons.mpr ⟨x :: t₁, ?_, t₂, ht₂, rfl⟩⟩
      intro hmem
      exact (List.mem_cons.mp hmem).elim (fun heq => hx heq.symm) ht₁
    | anyRun =>
      obtain ⟨a, _, b, hb, hab⟩ := mem_wholeLanguage_cons.mp h
      obtain ⟨t₁, t₂, rfl, ht₂, _⟩ := exists_of_run @ih hback hab hb
      exact ⟨mem_kindLanguage_cons.mpr ⟨t₁, trivial, t₂, ht₂, rfl⟩, fun _ x _ =>
        mem_kindLanguage_cons.mpr ⟨x :: t₁, trivial, t₂, ht₂, rfl⟩⟩
    | one =>
      obtain ⟨_, ⟨c, hc, rfl⟩, b, hb, hab⟩ := mem_wholeLanguage_cons.mp h
      obtain rfl := eq_nil_of_continuation (List.forall₂_same.mpr fun _ _ => rfl) hab hback
      obtain ⟨t', rfl, rfl⟩ := exists_of_utf8Encode_eq hab.symm
      exact ⟨mem_kindLanguage_cons.mpr ⟨[c], ⟨c, hc, rfl⟩, t', (@ih [] t' (by simp) hb).1, rfl⟩,
        fun hne => absurd rfl hne⟩
    | lit c =>
      obtain ⟨m, rest, hs, hm, hrest⟩ := mem_wholeLanguage_map_lit.mp h
      obtain rfl := eq_nil_of_continuation hm hs.symm hback
      obtain ⟨d, t', rfl, hsame, rfl⟩ := exists_of_forall₂_sameByte hm hs
      exact ⟨mem_kindLanguage_cons.mpr
        ⟨[d], ⟨d, hsame, rfl⟩, t', (@ih [] t' (by simp) hrest).1, rfl⟩, fun hne => absurd rfl hne⟩

/-- What matches in characters matches in octets. -/
theorem utf8Encode_mem_wholeLanguage {ts : List (Token Char)} {t : List Char}
    (h : t ∈ kindLanguage kind ts) : utf8Encode t ∈ wholeLanguage kind (ts.flatMap Token.utf8) := by
  induction ts generalizing t with
  | nil =>
    obtain rfl := mem_kindLanguage_nil.mp h
    exact mem_wholeLanguage_nil.mpr rfl
  | cons tok ts ih =>
    obtain ⟨a, ha, b, hb, rfl⟩ := mem_kindLanguage_cons.mp h
    have hrest := ih hb
    have hone : ∀ d : Char, utf8Encode [d] = String.utf8EncodeChar d := by
      intro d
      rw [utf8Encode_cons]
      exact List.append_nil _
    rw [utf8Encode_append, List.flatMap_cons]
    cases tok with
    | dirs =>
      refine mem_wholeLanguage_cons.mpr ⟨_, mem_directories.mpr ?_, _, hrest, rfl⟩
      rcases mem_directories.mp ha with rfl | ⟨lead, rfl⟩
      · exact Or.inl rfl
      · rw [utf8Encode_append, hone, utf8EncodeChar_of_isAscii (show IsAscii '/' by decide)]
        exact Or.inr (List.suffix_append _ _)
    | star => exact mem_wholeLanguage_cons.mpr ⟨_, mt sep_mem_utf8Encode.mp ha, _, hrest, rfl⟩
    | anyRun => exact mem_wholeLanguage_cons.mpr ⟨_, trivial, _, hrest, rfl⟩
    | one =>
      obtain ⟨c, hc, rfl⟩ := ha
      exact mem_wholeLanguage_cons.mpr ⟨_, ⟨c, hc, hone c⟩, _, hrest, rfl⟩
    | lit c =>
      obtain ⟨d, hsame, rfl⟩ := ha
      refine mem_wholeLanguage_map_lit.mpr ⟨utf8Encode [d], _, rfl, ?_, hrest⟩
      rw [hone]
      by_cases hc : IsAscii c
      · have hd := isAscii_of_sameChar hsame hc
        rw [utf8EncodeChar_of_isAscii hc, utf8EncodeChar_of_isAscii hd]
        exact List.Forall₂.cons ((sameByte_asciiByte hc hd).mpr hsame) List.Forall₂.nil
      · rw [eq_of_sameChar hsame hc]
        exact List.forall₂_same.mpr fun _ _ => rfl

/-- With whole characters, octets match exactly as characters do. -/
theorem mem_wholeLanguage_iff {ts : List (Token Char)} {t : List Char} :
    utf8Encode t ∈ wholeLanguage kind (ts.flatMap Token.utf8) ↔ t ∈ kindLanguage kind ts :=
  ⟨fun h => (@mem_kindLanguage kind ts [] t (by simp) h).1, utf8Encode_mem_wholeLanguage⟩

end kinds

/-! ## Single octets -/

/-- An octet of the ASCII range is a whole character. -/
theorem exists_utf8EncodeChar {b : UInt8} (hb : b.toNat < 0x80) :
    ∃ c : Char, IsAscii c ∧ b = asciiByte c := by
  have hc : IsAscii (Char.ofNat b.toNat) := by
    unfold IsAscii
    rw [Char.toNat_ofNat, if_pos (Or.inl (by omega))]
    exact hb
  refine ⟨Char.ofNat b.toNat, hc, ?_⟩
  rw [← UInt8.toNat_inj, toNat_asciiByte hc, Char.toNat_ofNat, if_pos (Or.inl (by omega))]

/-- The octets of a character that is one octet long. -/
theorem utf8EncodeChar_eq_singleton {c : Char} {b : UInt8} (h : String.utf8EncodeChar c = [b]) :
    IsAscii c := by
  by_contra hc
  have hlen := congrArg List.length h
  have hsize : c.utf8Size = 1 := by simpa using hlen
  exact hc (Nat.lt_succ_of_le (UInt32.le_iff_toNat_le.mp (Char.utf8Size_eq_one_iff.mp hsize)))

/-- On octets of the ASCII range, a `?` takes one octet exactly if it takes a whole character. -/
theorem mem_octets_iff {tok : Token UInt8} {a : List UInt8}
    (hone : tok = .one → ∀ b ∈ a, b.toNat < 0x80) :
    a ∈ tok.language (asciiByte '/') SameByte ↔ a ∈ tok.octets (· ≠ '/') := by
  cases tok with
  | one =>
    have hascii := hone rfl
    constructor
    · intro h
      obtain ⟨d, hd, rfl⟩ := h
      obtain ⟨c, hc, rfl⟩ := exists_utf8EncodeChar (hascii d List.mem_cons_self)
      exact ⟨c, fun heq => hd (heq ▸ rfl), (utf8EncodeChar_of_isAscii hc).symm⟩
    · intro h
      obtain ⟨c, hne, rfl⟩ := h
      have hc : IsAscii c := by
        by_contra hc
        obtain ⟨d, hd⟩ := List.exists_mem_of_ne_nil _ (utf8EncodeChar_ne_nil c)
        have hlow := hascii d hd
        have := utf8EncodeChar_low hc d hd
        omega
      rw [utf8EncodeChar_of_isAscii hc]
      exact ⟨asciiByte c, mt (asciiByte_inj hc (by decide)).mp hne, rfl⟩
  | star => exact Iff.rfl
  | dirs => exact Iff.rfl
  | anyRun => exact Iff.rfl
  | lit c => exact Iff.rfl

/-- Without a `?`, or on octets of the ASCII range, a `?` may take one octet. -/
theorem mem_byteLanguage_iff {ts : List (Token UInt8)} {s : List UInt8}
    (hone : .one ∉ ts ∨ ∀ b ∈ s, b.toNat < 0x80) :
    s ∈ byteLanguage ts ↔ s ∈ wholeLanguage (· ≠ '/') ts := by
  induction ts generalizing s with
  | nil => exact Iff.rfl
  | cons tok ts ih =>
    rw [byteLanguage, mem_cons, mem_wholeLanguage_cons]
    have hrest : ∀ {a b}, a ++ b = s → (b ∈ byteLanguage ts ↔ b ∈ wholeLanguage (· ≠ '/') ts) := by
      intro a b hab
      refine ih (hone.imp (fun hnot hmem => hnot (List.mem_cons_of_mem _ hmem)) ?_)
      exact fun hascii d hd => hascii d (hab ▸ List.mem_append_right _ hd)
    have hfirst : ∀ {a b}, a ++ b = s →
        (a ∈ tok.language (asciiByte '/') SameByte ↔ a ∈ tok.octets (· ≠ '/')) := by
      intro a b hab
      apply mem_octets_iff
      rintro rfl d hd
      have hascii := hone.resolve_left (fun hnot => hnot List.mem_cons_self)
      exact hascii d (hab ▸ List.mem_append_left _ hd)
    constructor
    · intro h
      obtain ⟨a, ha, b, hb, hab⟩ := h
      exact ⟨a, (hfirst hab).mp ha, b, (hrest hab).mp hb, hab⟩
    · intro h
      obtain ⟨a, ha, b, hb, hab⟩ := h
      exact ⟨a, (hfirst hab).mpr ha, b, (hrest hab).mpr hb, hab⟩

theorem one_mem_flatMap_utf8 {ts : List (Token Char)} (h : .one ∈ ts.flatMap Token.utf8) :
    .one ∈ ts := by
  obtain ⟨tok, htok, hmem⟩ := List.mem_flatMap.mp h
  cases tok with
  | one => exact htok
  | star => simp [Token.utf8] at hmem
  | dirs => simp [Token.utf8] at hmem
  | anyRun => simp [Token.utf8] at hmem
  | lit c => simp [Token.utf8] at hmem

/-- Octets match as characters do, where no `?` meets a character past the ASCII range. -/
theorem mem_utf8Encode_iff {ts : List (Token Char)} {t : List Char}
    (hone : .one ∉ ts ∨ ∀ c ∈ t, IsAscii c) :
    utf8Encode t ∈ byteLanguage (ts.flatMap Token.utf8) ↔ t ∈ charLanguage ts := by
  rw [mem_byteLanguage_iff, mem_wholeLanguage_iff, charLanguage_eq]
  refine hone.imp (mt one_mem_flatMap_utf8) ?_
  intro hascii b hb
  obtain ⟨c, hc, hmem⟩ := List.mem_flatMap.mp hb
  rw [utf8EncodeChar_of_isAscii (hascii c hc)] at hmem
  rw [List.mem_singleton.mp hmem, toNat_asciiByte (hascii c hc)]
  exact hascii c hc

end CodeLib.Glob
