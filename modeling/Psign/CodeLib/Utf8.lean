import Psign.CodeLib.Subslice
import Psign.CodeLib.Unicode

/-!
# What the lossy UTF-8 decoder keeps

A text without a replacement character is the text of one byte string only: the decoder
went through its bytes character by character (`utf8Encode_utf8Lossy`).  Where there is a
replacement character, other bytes have the same text (`exists_other_utf8Lossy`).

The state of the decoder has no bytes.  `Spells` says which bytes an unfinished sequence
consists of: those that the character they become is encoded by.
-/

namespace CodeLib.Unicode

open CodeLib CodeLib.Subslice

/-! ## Unfinished sequences -/

/-- The sequence has these bytes so far: with the missing ones it is the encoding of a
character past the ASCII range. -/
def Spells : (missing lo hi bits : Nat) → List UInt8 → Prop
  | 0, _, _, _, _ => False
  | 1, lo, hi, bits, seen => ∀ b : UInt8, lo ≤ b.toNat → b.toNat ≤ hi →
      ¬ IsAscii (Char.ofNat (bits * 64 + (b.toNat - 0x80))) ∧
        String.utf8EncodeChar (Char.ofNat (bits * 64 + (b.toNat - 0x80))) = seen ++ [b]
  | missing + 2, lo, hi, bits, seen => ∀ b : UInt8, lo ≤ b.toNat → b.toNat ≤ hi →
      Spells (missing + 1) 0x80 0xBF (bits * 64 + (b.toNat - 0x80)) (seen ++ [b])

/-- The bytes of the unfinished sequence of a state. -/
def Seen (state : Utf8State) (seen : List UInt8) : Prop :=
  match state with
  | .start => seen = []
  | .pending missing lo hi bits _ => Spells missing lo hi bits seen

theorem eq_ofNat_of_toNat {b : UInt8} {n : Nat} (h : n = b.toNat) : UInt8.ofNat n = b := by
  rw [h, UInt8.ofNat_toNat]

/-- The encoding of a number that takes two bytes. -/
theorem utf8EncodeChar_two {n : Nat} (hlo : 0x80 ≤ n) (hhi : n < 0x800) :
    ¬ IsAscii (Char.ofNat n) ∧ String.utf8EncodeChar (Char.ofNat n) =
      [UInt8.ofNat (n / 64 + 192), UInt8.ofNat (n % 64 + 128)] := by
  have hn : (Char.ofNat n).toNat = n := toNat_ofNat (by unfold Nat.isValidChar; omega)
  refine ⟨by unfold IsAscii; omega, ?_⟩
  rw [String.utf8EncodeChar]
  simp only [show (Char.ofNat n).val.toNat = (Char.ofNat n).toNat from rfl, hn]
  rw [if_neg (by omega), if_pos (by omega), show n / 64 % 32 = n / 64 by omega]

/-- The encoding of a number that takes three bytes. -/
theorem utf8EncodeChar_three {n : Nat} (hlo : 0x800 ≤ n) (hhi : n < 0x10000)
    (hvalid : n < 0xD800 ∨ 0xDFFF < n) :
    ¬ IsAscii (Char.ofNat n) ∧ String.utf8EncodeChar (Char.ofNat n) =
      [UInt8.ofNat (n / 4096 + 224), UInt8.ofNat (n / 64 % 64 + 128),
        UInt8.ofNat (n % 64 + 128)] := by
  have hn : (Char.ofNat n).toNat = n := toNat_ofNat (by unfold Nat.isValidChar; omega)
  refine ⟨by unfold IsAscii; omega, ?_⟩
  rw [String.utf8EncodeChar]
  simp only [show (Char.ofNat n).val.toNat = (Char.ofNat n).toNat from rfl, hn]
  rw [if_neg (by omega), if_neg (by omega), if_pos (by omega), show n / 4096 % 16 = n / 4096 by omega]

/-- The encoding of a number that takes four bytes. -/
theorem utf8EncodeChar_four {n : Nat} (hlo : 0x10000 ≤ n) (hhi : n < 0x110000) :
    ¬ IsAscii (Char.ofNat n) ∧ String.utf8EncodeChar (Char.ofNat n) =
      [UInt8.ofNat (n / 262144 + 240), UInt8.ofNat (n / 4096 % 64 + 128),
        UInt8.ofNat (n / 64 % 64 + 128), UInt8.ofNat (n % 64 + 128)] := by
  have hn : (Char.ofNat n).toNat = n := toNat_ofNat (by unfold Nat.isValidChar; omega)
  refine ⟨by unfold IsAscii; omega, ?_⟩
  rw [String.utf8EncodeChar]
  simp only [show (Char.ofNat n).val.toNat = (Char.ofNat n).toNat from rfl, hn]
  rw [if_neg (by omega), if_neg (by omega), if_neg (by omega),
    show n / 262144 % 8 = n / 262144 by omega]

theorem spells_two {b : UInt8} (hlo : 0xC2 ≤ b.toNat) (hhi : b.toNat ≤ 0xDF) :
    Spells 1 0x80 0xBF (b.toNat - 0xC0) [b] := by
  intro d hdlo hdhi
  obtain ⟨hascii, hencode⟩ := utf8EncodeChar_two (n := (b.toNat - 0xC0) * 64 + (d.toNat - 0x80))
    (by omega) (by omega)
  refine ⟨hascii, hencode.trans ?_⟩
  rw [eq_ofNat_of_toNat (b := b) (by omega), eq_ofNat_of_toNat (b := d) (by omega)]
  rfl

theorem spells_three {b : UInt8} (lo hi : Nat) (hb : 0xE0 ≤ b.toNat) (hb' : b.toNat ≤ 0xEF)
    (hlo : 0x80 ≤ lo) (hhi : hi ≤ 0xBF) (hshort : b.toNat = 0xE0 → 0xA0 ≤ lo)
    (hsurrogate : b.toNat = 0xED → hi ≤ 0x9F) :
    Spells 2 lo hi (b.toNat - 0xE0) [b] := by
  intro d hdlo hdhi e helo hehi
  obtain ⟨hascii, hencode⟩ := utf8EncodeChar_three
    (n := ((b.toNat - 0xE0) * 64 + (d.toNat - 0x80)) * 64 + (e.toNat - 0x80))
    (by omega) (by omega) (by omega)
  refine ⟨hascii, hencode.trans ?_⟩
  rw [eq_ofNat_of_toNat (b := b) (by omega), eq_ofNat_of_toNat (b := d) (by omega),
    eq_ofNat_of_toNat (b := e) (by omega)]
  rfl

theorem spells_four {b : UInt8} (lo hi : Nat) (hb : 0xF0 ≤ b.toNat) (hb' : b.toNat ≤ 0xF4)
    (hlo : 0x80 ≤ lo) (hhi : hi ≤ 0xBF) (hshort : b.toNat = 0xF0 → 0x90 ≤ lo)
    (hlast : b.toNat = 0xF4 → hi ≤ 0x8F) :
    Spells 3 lo hi (b.toNat - 0xF0) [b] := by
  intro d hdlo hdhi e helo hehi f hflo hfhi
  obtain ⟨hascii, hencode⟩ := utf8EncodeChar_four
    (n := (((b.toNat - 0xF0) * 64 + (d.toNat - 0x80)) * 64 + (e.toNat - 0x80)) * 64 +
      (f.toNat - 0x80)) (by omega) (by omega)
  refine ⟨hascii, hencode.trans ?_⟩
  rw [eq_ofNat_of_toNat (b := b) (by omega), eq_ofNat_of_toNat (b := d) (by omega),
    eq_ofNat_of_toNat (b := e) (by omega), eq_ofNat_of_toNat (b := f) (by omega)]
  rfl

/-! ## The steps of the decoder -/

/-- The first byte of a sequence is a character, opens a sequence, or is malformed. -/
theorem utf8Start_cases (b : UInt8) :
    (∃ c, IsAscii c ∧ b = asciiByte c ∧ utf8Start b = ([c], .start)) ∨
      ((utf8Start b).1 = [] ∧ Seen (utf8Start b).2 [b]) ∨
      utf8Start b = ([replacement], .start) := by
  simp only [utf8Start]
  by_cases hascii : b.toNat < 0x80
  · have hn : (Char.ofNat b.toNat).toNat = b.toNat := toNat_ofNat (by unfold Nat.isValidChar; omega)
    refine Or.inl ⟨Char.ofNat b.toNat, by unfold IsAscii; omega, ?_, if_pos hascii⟩
    rw [asciiByte, hn, UInt8.ofNat_toNat]
  rw [if_neg hascii]
  by_cases htwo : 0xC2 ≤ b.toNat ∧ b.toNat ≤ 0xDF
  · rw [if_pos htwo]
    exact Or.inr (Or.inl ⟨rfl, spells_two htwo.1 htwo.2⟩)
  rw [if_neg htwo]
  by_cases hE0 : b.toNat = 0xE0
  · rw [if_pos hE0]
    have hspells := @spells_three b 0xA0 0xBF (by omega) (by omega) (by decide)
      (by decide) (fun _ => by decide) (by omega)
    rw [hE0] at hspells
    exact Or.inr (Or.inl ⟨rfl, hspells⟩)
  rw [if_neg hE0]
  by_cases hED : b.toNat = 0xED
  · rw [if_pos hED]
    have hspells := @spells_three b 0x80 0x9F (by omega) (by omega) (by decide)
      (by decide) (by omega) (fun _ => by decide)
    rw [hED] at hspells
    exact Or.inr (Or.inl ⟨rfl, hspells⟩)
  rw [if_neg hED]
  by_cases hthree : 0xE1 ≤ b.toNat ∧ b.toNat ≤ 0xEF
  · rw [if_pos hthree]
    exact Or.inr (Or.inl ⟨rfl, spells_three _ _ (by omega) hthree.2 (by decide) (by decide) (by omega)
      (by omega)⟩)
  rw [if_neg hthree]
  by_cases hF0 : b.toNat = 0xF0
  · rw [if_pos hF0]
    have hspells := @spells_four b 0x90 0xBF (by omega) (by omega) (by decide)
      (by decide) (fun _ => by decide) (by omega)
    rw [hF0] at hspells
    exact Or.inr (Or.inl ⟨rfl, hspells⟩)
  rw [if_neg hF0]
  by_cases hfour : 0xF1 ≤ b.toNat ∧ b.toNat ≤ 0xF3
  · rw [if_pos hfour]
    exact Or.inr (Or.inl ⟨rfl, spells_four _ _ (by omega) (by omega) (by decide) (by decide) (by omega)
      (by omega)⟩)
  rw [if_neg hfour]
  by_cases hF4 : b.toNat = 0xF4
  · rw [if_pos hF4]
    have hspells := @spells_four b 0x80 0x8F (by omega) (by omega) (by decide)
      (by decide) (by omega) (fun _ => by decide)
    rw [hF4] at hspells
    exact Or.inr (Or.inl ⟨rfl, hspells⟩)
  · rw [if_neg hF4]
    exact Or.inr (Or.inr rfl)

theorem exists_seen_utf8Start (b : UInt8) : ∃ seen, Seen (utf8Start b).2 seen := by
  rcases utf8Start_cases b with ⟨_, _, _, h⟩ | ⟨_, h⟩ | h
  · exact ⟨[], by rw [h]; rfl⟩
  · exact ⟨[b], h⟩
  · exact ⟨[], by rw [h]; rfl⟩

theorem eq_asciiByte_of_mem_utf8Start {b : UInt8} {c : Char} (hc : IsAscii c)
    (h : c ∈ (utf8Start b).1) : b = asciiByte c := by
  rcases utf8Start_cases b with ⟨_, _, hb, hstart⟩ | ⟨hstart, _⟩ | hstart
  · rw [hstart] at h
    rw [List.mem_singleton.mp h]
    exact hb
  · rw [hstart] at h
    exact absurd h List.not_mem_nil
  · rw [hstart] at h
    exact absurd (List.mem_singleton.mp h) (ne_replacement_of_isAscii hc)

/-- A step completes the character of the bytes so far, or goes on with them, or leaves a
replacement character for them. -/
theorem utf8Step_cases {state : Utf8State} {seen : List UInt8} (h : Seen state seen) (b : UInt8) :
    (∃ c, utf8Step state b = ([c], .start) ∧ String.utf8EncodeChar c = seen ++ [b] ∧
        (IsAscii c → b = asciiByte c)) ∨
      (∃ state', utf8Step state b = ([], state') ∧ Seen state' (seen ++ [b])) ∨
      (replacement ∈ (utf8Step state b).1 ∧ (∃ seen', Seen (utf8Step state b).2 seen') ∧
        ∀ c ∈ (utf8Step state b).1, IsAscii c → b = asciiByte c) := by
  cases state with
  | start =>
    obtain rfl : seen = [] := h
    rcases utf8Start_cases b with ⟨c, hc, hb, hstart⟩ | ⟨hstart, hseen⟩ | hstart
    · refine Or.inl ⟨c, hstart, ?_, fun _ => hb⟩
      have hencode : utf8Encode [c] = [c].map asciiByte := utf8Encode_of_isAscii (by simpa using hc)
      rw [utf8Encode, List.flatMap_singleton] at hencode
      rw [hencode, hb]
      rfl
    · exact Or.inr (Or.inl ⟨(utf8Start b).2, Prod.ext hstart rfl, hseen⟩)
    · refine Or.inr (Or.inr ?_)
      show replacement ∈ (utf8Start b).1 ∧ (∃ seen', Seen (utf8Start b).2 seen') ∧
        ∀ c ∈ (utf8Start b).1, IsAscii c → b = asciiByte c
      refine ⟨by rw [hstart]; exact List.mem_singleton_self _, exists_seen_utf8Start b, ?_⟩
      exact fun c hmem hc => eq_asciiByte_of_mem_utf8Start hc hmem
  | pending missing lo hi bits hlo =>
    by_cases hrange : lo ≤ b.toNat ∧ b.toNat ≤ hi
    · rcases missing with _ | _ | missing
      · exact h.elim
      · obtain ⟨hascii, hencode⟩ := h b hrange.1 hrange.2
        exact Or.inl ⟨_, utf8Step_last hrange, hencode, fun hc => absurd hc hascii⟩
      · exact Or.inr (Or.inl ⟨_, utf8Step_more _ _ hlo hrange (by omega), h b hrange.1 hrange.2⟩)
    · have hstep : utf8Step (.pending missing lo hi bits hlo) b =
          (replacement :: (utf8Start b).1, (utf8Start b).2) := by
        simp only [utf8Step, if_neg hrange]
      refine Or.inr (Or.inr ?_)
      rw [hstep]
      refine ⟨List.mem_cons_self, exists_seen_utf8Start b, ?_⟩
      intro c hmem hc
      rcases List.mem_cons.mp hmem with hreplacement | hmem
      · exact absurd hreplacement (ne_replacement_of_isAscii hc)
      · exact eq_asciiByte_of_mem_utf8Start hc hmem

/-- An ASCII character comes from its byte. -/
theorem utf8Decoder_onlyFrom_ascii {c : Char} (h : IsAscii c) :
    utf8Decoder.OnlyFromOn (fun state => ∃ seen, Seen state seen) c (asciiByte c) where
  synchronizing := utf8Decoder_synchronizing h
  step_initial := utf8Start_asciiByte h
  inv_initial := ⟨[], rfl⟩
  inv_step state b hstate := by
    obtain ⟨seen, hseen⟩ := hstate
    show ∃ seen', Seen (utf8Step state b).2 seen'
    rcases utf8Step_cases hseen b with ⟨_, hstep, _⟩ | ⟨_, hstep, hseen'⟩ | ⟨_, hseen', _⟩
    · exact ⟨[], by rw [hstep]; rfl⟩
    · exact ⟨_, by rw [hstep]; exact hseen'⟩
    · exact hseen'
  symbol_of_mem_step state b hstate hmem := by
    obtain ⟨seen, hseen⟩ := hstate
    have hmem : c ∈ (utf8Step state b).1 := hmem
    rcases utf8Step_cases hseen b with ⟨_, hstep, _, hascii⟩ | ⟨_, hstep, _⟩ | ⟨_, _, hascii⟩
    · rw [hstep] at hmem
      obtain rfl := List.mem_singleton.mp hmem
      exact hascii h
    · rw [hstep] at hmem
      exact absurd hmem List.not_mem_nil
    · exact hascii c hmem h
  not_mem_finish state _ := by
    cases state with
    | start => exact List.not_mem_nil
    | pending missing lo hi bits hlo =>
      intro hmem
      exact ne_replacement_of_isAscii h (List.mem_singleton.mp hmem)

/-! ## Texts without a replacement character -/

private theorem utf8Encode_runFrom {bytes : List UInt8} :
    ∀ {state : Utf8State} {seen : List UInt8}, Seen state seen →
      replacement ∉ utf8Decoder.runFrom state bytes →
      utf8Encode (utf8Decoder.runFrom state bytes) = seen ++ bytes := by
  induction bytes with
  | nil =>
    intro state seen hseen hnone
    cases state with
    | start =>
      obtain rfl : seen = [] := hseen
      rfl
    | pending missing lo hi bits hlo => exact absurd (List.mem_singleton_self _) hnone
  | cons b bytes ih =>
    intro state seen hseen hnone
    rw [Transducer.runFrom] at hnone ⊢
    rw [List.mem_append, not_or] at hnone
    show utf8Encode ((utf8Step state b).1 ++ utf8Decoder.runFrom (utf8Step state b).2 bytes) = _
    have hrest : replacement ∉ utf8Decoder.runFrom (utf8Step state b).2 bytes := hnone.2
    rcases utf8Step_cases hseen b with ⟨c, hstep, hencode, _⟩ | ⟨state', hstep, hseen'⟩ | ⟨hmem, _⟩
    · rw [hstep] at hrest ⊢
      have htail := ih (show Seen .start [] from rfl) hrest
      rw [List.singleton_append, utf8Encode, List.flatMap_cons, ← utf8Encode, hencode, htail,
        List.append_assoc]
      rfl
    · rw [hstep] at hrest ⊢
      rw [List.nil_append, ih hseen' hrest, List.append_assoc]
      rfl
    · exact absurd hmem hnone.1

/-- Bytes whose text has no replacement character are the encoding of the text. -/
theorem utf8Encode_utf8Lossy {bytes : List UInt8} (h : replacement ∉ utf8Lossy bytes) :
    utf8Encode (utf8Lossy bytes) = bytes :=
  utf8Encode_runFrom (show Seen .start [] from rfl) h

/-! ## ASCII in the code units of a text -/

theorem encodeUtf16_append (text more : List Char) :
    encodeUtf16 (text ++ more) = encodeUtf16 text ++ encodeUtf16 more :=
  List.flatMap_append

/-- An ASCII code unit of a text comes from its character. -/
theorem exists_split_of_encodeUtf16 {c : Char} (hc : IsAscii c) {text : List Char} :
    ∀ (pre : List UInt16) {post : List UInt16}, encodeUtf16 text = pre ++ unit c :: post →
      ∃ before after, text = before ++ c :: after ∧ encodeUtf16 before = pre ∧
        encodeUtf16 after = post := by
  have hn := toNat_unit (c := c) (by unfold IsAscii at hc; omega)
  unfold IsAscii at hc
  induction text with
  | nil =>
    intro pre post h
    cases pre with
    | nil => cases h
    | cons u pre => cases h
  | cons d text ih =>
    intro pre post h
    rw [encodeUtf16, List.flatMap_cons, ← encodeUtf16] at h
    by_cases hbmp : d.toNat < 0x10000
    · rw [utf16Units, if_pos hbmp, List.singleton_append] at h
      cases pre with
      | nil =>
        obtain ⟨hunit, rfl⟩ := List.cons.inj h
        have hnumber := congrArg UInt16.toNat hunit
        rw [toNat_unit hbmp, hn] at hnumber
        obtain rfl : d = c := by rw [← Char.ofNat_toNat d, hnumber, Char.ofNat_toNat]
        exact ⟨[], text, rfl, rfl, rfl⟩
      | cons u pre =>
        obtain ⟨rfl, hrest⟩ := List.cons.inj h
        obtain ⟨before, after, rfl, rfl, rfl⟩ := ih pre hrest
        refine ⟨d :: before, after, rfl, ?_, rfl⟩
        rw [encodeUtf16, List.flatMap_cons, ← encodeUtf16, utf16Units, if_pos hbmp]
        rfl
    · obtain ⟨high, low, hlow, hunits, _⟩ := exists_pair_of_supplementary (Nat.le_of_not_lt hbmp)
      have hhigh := high.property
      unfold IsHighSurrogate at hhigh
      unfold IsLowSurrogate at hlow
      rw [hunits, List.cons_append, List.singleton_append] at h
      rcases pre with _ | ⟨u, _ | ⟨v, pre⟩⟩
      · have hnumber := congrArg UInt16.toNat (List.cons.inj h).1
        omega
      · have hnumber := congrArg UInt16.toNat (List.cons.inj (List.cons.inj h).2).1
        omega
      · obtain ⟨hu, h⟩ := List.cons.inj h
        obtain ⟨hv, hrest⟩ := List.cons.inj h
        obtain ⟨before, after, rfl, rfl, rfl⟩ := ih pre hrest
        refine ⟨d :: before, after, rfl, ?_, rfl⟩
        rw [encodeUtf16, List.flatMap_cons, ← encodeUtf16, hunits, hu, hv]
        rfl

/-- ASCII text at the start of a text is at the start of its code units. -/
theorem prefix_encodeUtf16 {pattern : List Char} (hpattern : ∀ c ∈ pattern, IsAscii c)
    (text : List Char) : pattern.map unit <+: encodeUtf16 text ↔ pattern <+: text := by
  induction pattern generalizing text with
  | nil => simp
  | cons c pattern ih =>
    have hc : c.toNat < 0x80 := hpattern c List.mem_cons_self
    have hn := toNat_unit (c := c) (by omega)
    cases text with
    | nil => simp [encodeUtf16]
    | cons d text =>
      have ih := ih (fun e he => hpattern e (List.mem_cons_of_mem _ he)) text
      rw [encodeUtf16, List.flatMap_cons, ← encodeUtf16, List.map_cons]
      by_cases hbmp : d.toNat < 0x10000
      · have hsame : unit c = unit d ↔ c = d := by
          constructor
          · intro h
            have hnumber := congrArg UInt16.toNat h
            rw [hn, toNat_unit hbmp] at hnumber
            rw [← Char.ofNat_toNat c, hnumber, Char.ofNat_toNat]
          · intro h
            rw [h]
        rw [utf16Units, if_pos hbmp, List.singleton_append, List.cons_prefix_cons,
          List.cons_prefix_cons, hsame, ih]
      · obtain ⟨high, low, -, hunits, -⟩ := exists_pair_of_supplementary (Nat.le_of_not_lt hbmp)
        have hhigh := high.property
        unfold IsHighSurrogate at hhigh
        rw [hunits, List.cons_append, List.cons_prefix_cons, List.cons_prefix_cons]
        constructor
        · intro h
          have hnumber := congrArg UInt16.toNat h.1
          omega
        · intro h
          rw [h.1] at hc
          omega

/-- The first occurrence of ASCII text in the code units of a text. -/
theorem firstAt?_encodeUtf16 {pattern : List Char} (hpattern : ∀ c ∈ pattern, IsAscii c)
    (hne : pattern ≠ []) (text : List Char) :
    firstAt? (pattern.map unit) (encodeUtf16 text) =
      (firstAt? pattern text).map fun i => (encodeUtf16 (text.take i)).length := by
  induction text with
  | nil =>
    have hunits : pattern.map unit ≠ [] := by rwa [ne_eq, List.map_eq_nil_iff]
    rw [encodeUtf16, List.flatMap_nil, firstAt?, firstAt?, if_neg hunits, if_neg hne]
    rfl
  | cons d text ih =>
    have hat := prefix_encodeUtf16 hpattern (d :: text)
    have hcons : encodeUtf16 (d :: text) = utf16Units d ++ encodeUtf16 text := by
      rw [encodeUtf16, List.flatMap_cons]
      rfl
    have hshift : ∀ i, (encodeUtf16 ((d :: text).take (i + 1))).length =
        (encodeUtf16 (text.take i)).length + (utf16Units d).length := by
      intro i
      rw [List.take_succ_cons, encodeUtf16, List.flatMap_cons, List.length_append, ← encodeUtf16]
      omega
    by_cases hhere : pattern <+: d :: text
    · have hunits := hat.mpr hhere
      rw [firstAt?, if_pos hhere]
      exact firstAt?_eq_some_iff.mpr ⟨Nat.zero_le _, hunits, fun j hj => absurd hj (Nat.not_lt_zero j)⟩
    · have hlead : ∀ j < (utf16Units d).length,
          ¬ pattern.map unit <+: (utf16Units d).drop j ++ encodeUtf16 text := by
        intro j hj
        cases j with
        | zero =>
          rw [List.drop_zero, ← hcons]
          exact mt hat.mp hhere
        | succ j =>
          -- the second unit of a pair is no ASCII
          by_cases hbmp : d.toNat < 0x10000
          · rw [utf16Units, if_pos hbmp, List.length_singleton] at hj
            omega
          · obtain ⟨high, low, hlow, hunits, -⟩ :=
              exists_pair_of_supplementary (Nat.le_of_not_lt hbmp)
            rw [hunits] at hj ⊢
            have hj0 : j = 0 := by
              rw [List.length_cons, List.length_singleton] at hj
              omega
            subst hj0
            obtain ⟨c, rest, rfl⟩ := List.exists_cons_of_ne_nil hne
            intro h
            have hc : c.toNat < 0x80 := hpattern c List.mem_cons_self
            have hn := toNat_unit (c := c) (by omega)
            have hnumber := congrArg UInt16.toNat (List.cons_prefix_cons.mp h).1
            unfold IsLowSurrogate at hlow
            omega
      rw [hcons, firstAt?_append_of_not hlead, ih, firstAt?, if_neg hhere, Option.map_map,
        Option.map_map]
      congr 1
      funext i
      exact (hshift i).symm

/-- An ASCII code unit of the text of bytes comes from its byte, and the two sides of it
are read on their own. -/
theorem exists_split_of_units {c : Char} (hc : IsAscii c) {bytes : List UInt8} {pre post : List UInt16}
    (h : encodeUtf16 (utf8Lossy bytes) = pre ++ unit c :: post) :
    ∃ before after, bytes = before ++ asciiByte c :: after ∧ encodeUtf16 (utf8Lossy before) = pre ∧
      encodeUtf16 (utf8Lossy after) = post := by
  obtain ⟨text, more, htext, rfl, rfl⟩ := exists_split_of_encodeUtf16 hc pre h
  obtain ⟨before, after, rfl, rfl, rfl⟩ :=
    Transducer.exists_split_of_run_eq_on (utf8Decoder_onlyFrom_ascii hc) text htext
  exact ⟨before, after, rfl, rfl, rfl⟩

/-- What stands on the two sides of an ASCII byte is read on its own. -/
theorem utf8Lossy_append_asciiByte {c : Char} (hc : IsAscii c) (before after : List UInt8) :
    utf8Lossy (before ++ asciiByte c :: after) = utf8Lossy before ++ c :: utf8Lossy after := by
  rw [utf8Lossy, Transducer.run_append_of_synchronizing (utf8Decoder_synchronizing hc),
    Transducer.run_cons_of_step (utf8Start_asciiByte hc)]
  rfl

/-! ## Texts with a replacement character -/

theorem utf8Encode_append (text more : List Char) :
    utf8Encode (text ++ more) = utf8Encode text ++ utf8Encode more :=
  List.flatMap_append

theorem utf8Lossy_utf8Encode_append (text : List Char) (rest : List UInt8) :
    utf8Lossy (utf8Encode text ++ rest) = text ++ utf8Lossy rest := by
  induction text with
  | nil => rfl
  | cons c text ih =>
    rw [utf8Encode, List.flatMap_cons, List.append_assoc, utf8Lossy_char, ← utf8Encode, ih]
    rfl

/-- No encoding starts with one of the last eight bytes. -/
theorem toNat_head_utf8Encode (text : List Char) :
    ∀ b ∈ (utf8Encode text).head?, b.toNat < 0xF8 := by
  intro b hb
  cases text with
  | nil => exact absurd hb (by simp [utf8Encode])
  | cons c text =>
    have hvalid := toNat_valid c
    rw [utf8Encode, List.flatMap_cons, String.utf8EncodeChar] at hb
    simp only [show c.val.toNat = c.toNat from rfl] at hb
    split at hb
    · obtain rfl := Option.some.inj hb
      rw [toNat_byte]
      omega
    · split at hb
      · obtain rfl := Option.some.inj hb
        rw [toNat_byte]
        omega
      · split at hb
        · obtain rfl := Option.some.inj hb
          rw [toNat_byte]
          omega
        · obtain rfl := Option.some.inj hb
          rw [toNat_byte]
          omega

/-- Where a replacement character is in the text, other bytes have the same text. -/
theorem exists_other_utf8Lossy {bytes : List UInt8} (h : replacement ∈ utf8Lossy bytes) :
    ∃ bytes', bytes' ≠ bytes ∧ utf8Lossy bytes' = utf8Lossy bytes ∧
      ∀ b ∈ bytes'.head?, b.toNat < 0xF8 := by
  by_cases hvalid : utf8Encode (utf8Lossy bytes) = bytes
  · -- the character was encoded: a byte that is malformed by itself takes its place
    obtain ⟨before, after, hsplit⟩ := List.append_of_mem h
    refine ⟨utf8Encode before ++ 0xC0 :: utf8Encode after, ?_, ?_, ?_⟩
    · intro hsame
      have hlength := congrArg List.length hsame
      have hthree : (String.utf8EncodeChar replacement).length = 3 := by decide
      have hcons : utf8Encode (replacement :: after) =
          String.utf8EncodeChar replacement ++ utf8Encode after := List.flatMap_cons
      rw [← hvalid, hsplit, utf8Encode_append, hcons, List.length_append, List.length_append,
        List.length_append, List.length_cons, hthree] at hlength
      omega
    · rw [utf8Lossy_utf8Encode_append, hsplit]
      have hmalformed : utf8Lossy (0xC0 :: utf8Encode after) = replacement :: utf8Lossy (utf8Encode after) :=
        Transducer.run_cons_of_step rfl _
      rw [hmalformed, utf8Lossy_utf8Encode]
    · intro b hb
      have hhead := toNat_head_utf8Encode before
      cases hbefore : utf8Encode before with
      | nil =>
        rw [hbefore] at hb
        obtain rfl := Option.some.inj hb
        decide
      | cons first rest =>
        rw [hbefore] at hb hhead
        exact hhead b hb
  · exact ⟨utf8Encode (utf8Lossy bytes), hvalid, utf8Lossy_utf8Encode _, toNat_head_utf8Encode _⟩

/-- The octet of an ASCII character comes from that character only. -/
theorem mem_of_asciiByte_mem_utf8Encode {c : Char} (hc : IsAscii c) {text : List Char}
    (h : asciiByte c ∈ utf8Encode text) : c ∈ text := by
  obtain ⟨before, after, hsplit⟩ := List.append_of_mem h
  have hread := congrArg utf8Lossy hsplit
  rw [utf8Lossy_utf8Encode, utf8Lossy_append_asciiByte hc] at hread
  rw [hread]
  exact List.mem_append_right _ List.mem_cons_self

end CodeLib.Unicode
