import Mathlib.Data.List.Basic
import Mathlib.Data.List.DropRight
import Mathlib.Data.List.Infix
import Psign.CodeLib.Members

/-!
# String operations

The string methods of the Rust standard library that the programs here use, on
lists of characters: white space (`trim`), lines (`linesInclusive`, `lines`),
affixes (`stripPrefix`, `stripSuffix`) and ASCII case.

The lemmas say how a string is put back together from what these methods
return (`exists_trim`, `flatten_linesInclusive`) and what they return on a
string put together in the expected way (`trim_append`,
`linesInclusive_flatten`).
-/

namespace CodeLib.RustStr

/-! ## Definitions -/

/-- The Unicode property `White_Space`. -/
def isWhitespace (c : Char) : Bool :=
  let n := c.toNat
  (9 ≤ n && n ≤ 13) || n == 0x20 || n == 0x85 || n == 0xA0 || n == 0x1680 ||
    (0x2000 ≤ n && n ≤ 0x200A) || n == 0x2028 || n == 0x2029 || n == 0x202F || n == 0x205F ||
    n == 0x3000

/-- `str::trim`. -/
def trim (s : List Char) : List Char :=
  (s.dropWhile isWhitespace).rdropWhile isWhitespace

/-- `str::strip_prefix`. -/
def stripPrefix (pre s : List Char) : Option (List Char) :=
  if pre <+: s then some (s.drop pre.length) else none

/-- `str::strip_suffix`. -/
def stripSuffix (suf s : List Char) : Option (List Char) :=
  if suf <:+ s then some (s.take (s.length - suf.length)) else none

/-- `str::split_inclusive('\n')`: the lines with their line feeds. -/
def linesInclusive : List Char → List (List Char)
  | [] => []
  | c :: cs =>
      if c = '\n' then [c] :: linesInclusive cs
      else
        match linesInclusive cs with
        | [] => [[c]]
        | line :: rest => (c :: line) :: rest

/-- A line without its line feed and the carriage return before it. -/
def stripEol (line : List Char) : List Char :=
  match stripSuffix ['\n'] line with
  | none => line
  | some line => (stripSuffix ['\r'] line).getD line

/-- `str::lines`. -/
def lines (s : List Char) : List (List Char) :=
  (linesInclusive s).map stripEol

/-- `str::to_ascii_lowercase`. -/
def toAsciiLowercase (s : List Char) : List Char :=
  s.map Char.toLower

/-- `str::eq_ignore_ascii_case`. -/
def EqIgnoreAsciiCase (s t : List Char) : Prop :=
  toAsciiLowercase s = toAsciiLowercase t

instance (s t : List Char) : Decidable (EqIgnoreAsciiCase s t) :=
  inferInstanceAs (Decidable (toAsciiLowercase s = toAsciiLowercase t))

/-- `str::split_once` at a character. -/
def splitOnce (sep : Char) : List Char → Option (List Char × List Char)
  | [] => none
  | c :: cs =>
    if c = sep then some ([], cs) else (splitOnce sep cs).map fun (before, after) => (c :: before, after)

/-- `str::rsplit_once` at a character. -/
def rsplitOnce (sep : Char) (s : List Char) : Option (List Char × List Char) :=
  (splitOnce sep s.reverse).map fun (after, before) => (before.reverse, after.reverse)

/-- `str::split` at a character. -/
def split (sep : Char) : List Char → List (List Char)
  | [] => [[]]
  | c :: cs =>
    if c = sep then [] :: split sep cs
    else
      match split sep cs with
      | [] => [[c]]
      | part :: parts => (c :: part) :: parts

/-- The loop of `str::replace`, behind a match that is still to be skipped. -/
def replaceFrom (pattern rep : List Char) : Nat → List Char → List Char
  | _, [] => []
  | skip + 1, _ :: cs => replaceFrom pattern rep skip cs
  | 0, c :: cs =>
    if pattern <+: c :: cs then rep ++ replaceFrom pattern rep (pattern.length - 1) cs
    else c :: replaceFrom pattern rep 0 cs

/-- `str::replace` of a pattern that is not empty. -/
def replace (pattern rep s : List Char) : List Char :=
  replaceFrom pattern rep 0 s

/-! ## Replacing -/

theorem replace_cons {pattern rep s : List Char} {c : Char} (h : ¬ pattern <+: c :: s) :
    replace pattern rep (c :: s) = c :: replace pattern rep s := by
  rw [replace, replaceFrom, if_neg h, replace]

private theorem replaceFrom_skip (pattern rep skipped s : List Char) :
    replaceFrom pattern rep skipped.length (skipped ++ s) = replace pattern rep s := by
  induction skipped with
  | nil => rfl
  | cons c skipped ih => exact ih

theorem replace_append {pattern : List Char} (hne : pattern ≠ []) (rep s : List Char) :
    replace pattern rep (pattern ++ s) = rep ++ replace pattern rep s := by
  obtain ⟨c, pattern, rfl⟩ := List.exists_cons_of_ne_nil hne
  rw [List.cons_append, replace, replaceFrom, if_pos (by simp), List.length_cons,
    Nat.add_sub_cancel, replaceFrom_skip]

theorem replace_eq_self {c : Char} (rep : List Char) {s : List Char} (h : c ∉ s) :
    replace [c] rep s = s := by
  induction s with
  | nil => rfl
  | cons d s ih =>
    rw [List.mem_cons, not_or] at h
    have hne : ¬ [c] <+: d :: s := by
      intro hpre
      obtain ⟨t, ht⟩ := hpre
      exact h.1 (List.cons.inj ht).1
    rw [replace_cons hne, ih h.2]

/-- A character that is replaced does not occur any more. -/
theorem not_mem_replace {c : Char} {rep : List Char} (h : c ∉ rep) (s : List Char) :
    c ∉ replace [c] rep s := by
  induction s with
  | nil => exact List.not_mem_nil
  | cons d s ih =>
    by_cases hd : c = d
    · subst hd
      show c ∉ replace [c] rep ([c] ++ s)
      rw [replace_append (List.cons_ne_nil c []), List.mem_append, not_or]
      exact ⟨h, ih⟩
    · have hne : ¬ [c] <+: d :: s := by
        intro hpre
        obtain ⟨t, ht⟩ := hpre
        exact hd (List.cons.inj ht).1
      rw [replace_cons hne, List.mem_cons, not_or]
      exact ⟨hd, ih⟩

theorem mem_of_mem_replace {c d : Char} {rep s : List Char} (hrep : d ∉ rep)
    (h : d ∈ replace [c] rep s) : d ∈ s := by
  induction s with
  | nil => exact h
  | cons e s ih =>
    by_cases he : c = e
    · subst he
      rw [show c :: s = [c] ++ s from rfl, replace_append (List.cons_ne_nil c []),
        List.mem_append] at h
      exact List.mem_cons_of_mem _ (ih (h.resolve_left hrep))
    · have hne : ¬ [c] <+: e :: s := by
        intro hpre
        obtain ⟨t, ht⟩ := hpre
        exact he (List.cons.inj ht).1
      rw [replace_cons hne, List.mem_cons] at h
      rcases h with rfl | h
      · exact List.mem_cons_self
      · exact List.mem_cons_of_mem _ (ih h)

/-- A character that was doubled, undone. -/
theorem replace_replace_doubled (c : Char) (s : List Char) :
    replace [c, c] [c] (replace [c] [c, c] s) = s := by
  induction s with
  | nil => rfl
  | cons d s ih =>
    by_cases hd : c = d
    · subst hd
      have hdouble : replace [c] [c, c] (c :: s) = [c, c] ++ replace [c] [c, c] s :=
        replace_append (List.cons_ne_nil c []) [c, c] s
      rw [hdouble, replace_append (List.cons_ne_nil c [c]), ih]
      rfl
    · have hne : ∀ rest t, ¬ c :: rest <+: d :: t := by
        intro rest t hpre
        obtain ⟨u, hu⟩ := hpre
        exact hd (List.cons.inj hu).1
      rw [replace_cons (hne [] s), replace_cons (hne [c] _), ih]

/-! ## Splitting -/

theorem splitOnce_eq_some {sep : Char} {s before after : List Char} :
    splitOnce sep s = some (before, after) ↔ s = before ++ sep :: after ∧ sep ∉ before := by
  induction s generalizing before with
  | nil => simp [splitOnce]
  | cons c s ih =>
    rw [splitOnce]
    by_cases hsep : c = sep
    · subst hsep
      rw [if_pos rfl]
      cases before with
      | nil => simp [eq_comm]
      | cons d before =>
        constructor
        · simp
        · intro h
          obtain ⟨rfl, -⟩ := List.cons.inj h.1
          exact absurd List.mem_cons_self h.2
    · rw [if_neg hsep]
      cases before with
      | nil =>
        constructor
        · simp
        · intro h
          exact absurd (List.cons.inj h.1).1 hsep
      | cons d before =>
        simp only [Option.map_eq_some_iff, Prod.mk.injEq, List.cons.injEq, Prod.exists,
          List.cons_append, List.mem_cons, not_or]
        constructor
        · intro h
          obtain ⟨before, after, hrest, ⟨rfl, rfl⟩, rfl⟩ := h
          obtain ⟨hs, hnot⟩ := ih.mp hrest
          exact ⟨⟨rfl, hs⟩, fun h => hsep h.symm, hnot⟩
        · intro h
          obtain ⟨⟨rfl, hs⟩, -, hnot⟩ := h
          exact ⟨before, after, ih.mpr ⟨hs, hnot⟩, ⟨rfl, rfl⟩, rfl⟩

theorem rsplitOnce_eq_some {sep : Char} {s before after : List Char} :
    rsplitOnce sep s = some (before, after) ↔ s = before ++ sep :: after ∧ sep ∉ after := by
  simp only [rsplitOnce, Option.map_eq_some_iff, Prod.exists, Prod.mk.injEq, splitOnce_eq_some]
  constructor
  · intro h
    obtain ⟨a, b, ⟨hs, hnot⟩, rfl, rfl⟩ := h
    refine ⟨?_, by simpa using hnot⟩
    rw [← List.reverse_reverse s, hs]
    simp
  · intro h
    obtain ⟨rfl, hnot⟩ := h
    exact ⟨after.reverse, before.reverse, ⟨by simp, by simpa using hnot⟩, by simp, by simp⟩

theorem split_of_not_mem {sep : Char} {s : List Char} (h : sep ∉ s) : split sep s = [s] := by
  induction s with
  | nil => rfl
  | cons c s ih =>
    simp only [List.mem_cons, not_or] at h
    rw [split, if_neg fun heq => h.1 heq.symm, ih h.2]

theorem split_append {sep : Char} {part : List Char} (h : sep ∉ part) (rest : List Char) :
    split sep (part ++ sep :: rest) = part :: split sep rest := by
  induction part with
  | nil => rw [List.nil_append, split, if_pos rfl]
  | cons c part ih =>
    simp only [List.mem_cons, not_or] at h
    rw [List.cons_append, split, if_neg fun heq => h.1 heq.symm, ih h.2]

/-- The last part of a text and the first part of what follows it become one. -/
theorem split_append_eq (sep : Char) (s t : List Char) :
    ∃ init last first rest, split sep s = init ++ [last] ∧ split sep t = first :: rest ∧
      split sep (s ++ t) = init ++ (last ++ first) :: rest := by
  have hcons : ∀ t : List Char, ∃ first rest, split sep t = first :: rest := by
    intro t
    cases ht : split sep t with
    | nil =>
      cases t with
      | nil => cases ht
      | cons c t =>
        rw [split] at ht
        by_cases hc : c = sep
        · rw [if_pos hc] at ht
          cases ht
        · rw [if_neg hc] at ht
          cases hrest : split sep t <;> simp [hrest] at ht
    | cons first rest => exact ⟨first, rest, rfl⟩
  obtain ⟨first, rest, ht⟩ := hcons t
  induction s with
  | nil => exact ⟨[], [], first, rest, rfl, ht, ht⟩
  | cons c s ih =>
    obtain ⟨init, last, first', rest', hs, ht', hst⟩ := ih
    obtain ⟨rfl, rfl⟩ := List.cons.inj (ht.symm.trans ht')
    by_cases hc : c = sep
    · refine ⟨[] :: init, last, first, rest, ?_, ht, ?_⟩
      · rw [split, if_pos hc, hs, List.cons_append]
      · rw [List.cons_append, split, if_pos hc, hst, List.cons_append]
    · cases init with
      | nil =>
        refine ⟨[], c :: last, first, rest, ?_, ht, ?_⟩
        · rw [split, if_neg hc, hs]
          rfl
        · rw [List.cons_append, split, if_neg hc, hst]
          rfl
      | cons part init =>
        refine ⟨(c :: part) :: init, last, first, rest, ?_, ht, ?_⟩
        · rw [split, if_neg hc, hs]
          rfl
        · rw [List.cons_append, split, if_neg hc, hst]
          rfl

theorem intercalate_cons_cons (sep : Char) (part next : List Char) (parts : List (List Char)) :
    [sep].intercalate (part :: next :: parts) = part ++ sep :: [sep].intercalate (next :: parts) := by
  simp [List.intercalate, List.intersperse]

theorem mem_intercalate {sep c : Char} {parts : List (List Char)}
    (h : c ∈ [sep].intercalate parts) : c = sep ∨ ∃ part ∈ parts, c ∈ part := by
  induction parts with
  | nil => exact absurd h List.not_mem_nil
  | cons part parts ih =>
    cases parts with
    | nil =>
      have hc : c ∈ part := by simpa [List.intercalate] using h
      exact Or.inr ⟨part, List.mem_cons_self, hc⟩
    | cons next parts =>
      rw [intercalate_cons_cons, List.mem_append, List.mem_cons] at h
      rcases h with hc | hc | hc
      · exact Or.inr ⟨part, List.mem_cons_self, hc⟩
      · exact Or.inl hc
      · refine (ih hc).imp_right fun hex => ?_
        obtain ⟨other, hother, hc⟩ := hex
        exact ⟨other, List.mem_cons_of_mem _ hother, hc⟩

theorem head?_intercalate {sep : Char} {part : List Char} {parts : List (List Char)}
    (hne : part ≠ []) : ([sep].intercalate (part :: parts)).head? = part.head? := by
  cases parts with
  | nil => simp [List.intercalate]
  | cons next parts => rw [intercalate_cons_cons, List.head?_append_of_ne_nil _ hne]

/-- Parts that were joined are split again. -/
theorem split_intercalate {sep : Char} {parts : List (List Char)} (hne : parts ≠ [])
    (h : ∀ part ∈ parts, sep ∉ part) : split sep ([sep].intercalate parts) = parts := by
  induction parts with
  | nil => exact absurd rfl hne
  | cons part parts ih =>
    cases parts with
    | nil => simpa [List.intercalate] using split_of_not_mem (h part List.mem_cons_self)
    | cons next parts =>
      have hrest := ih (by simp) fun other hother => h other (List.mem_cons_of_mem _ hother)
      rw [intercalate_cons_cons, split_append (h part List.mem_cons_self), hrest]

/-! ## Affixes -/

theorem stripPrefix_eq_some {pre s rest : List Char} :
    stripPrefix pre s = some rest ↔ s = pre ++ rest := by
  unfold stripPrefix
  split
  · rename_i hprefix
    obtain ⟨t, rfl⟩ := hprefix
    simp
  · rename_i hprefix
    simp only [reduceCtorEq, false_iff]
    rintro rfl
    exact hprefix (List.prefix_append _ _)

theorem stripSuffix_eq_some {suf s rest : List Char} :
    stripSuffix suf s = some rest ↔ s = rest ++ suf := by
  unfold stripSuffix
  split
  · rename_i hsuffix
    obtain ⟨t, rfl⟩ := hsuffix
    simp
  · rename_i hsuffix
    simp only [reduceCtorEq, false_iff]
    rintro rfl
    exact hsuffix (List.suffix_append _ _)

/-! ## Case -/

@[simp] theorem toAsciiLowercase_toAsciiLowercase (s : List Char) :
    toAsciiLowercase (toAsciiLowercase s) = toAsciiLowercase s := by
  simp [toAsciiLowercase, Function.comp_def]

/-! ## The ends of a string -/

theorem head?_dropWhile_not {p : Char → Bool} (s : List Char) :
    ∀ c ∈ (s.dropWhile p).head?, p c = false := by
  induction s with
  | nil => simp
  | cons d s ih =>
    rw [List.dropWhile_cons]
    by_cases h : p d = true
    · rwa [if_pos h]
    · rw [if_neg h]
      simpa using h

theorem getLast?_rdropWhile_not {p : Char → Bool} (s : List Char) :
    ∀ c ∈ (s.rdropWhile p).getLast?, p c = false := by
  intro c hc
  rw [List.rdropWhile, List.getLast?_reverse] at hc
  exact head?_dropWhile_not _ c hc

theorem dropWhile_of_head {p : Char → Bool} {s : List Char} (h : ∀ c ∈ s.head?, p c = false) :
    s.dropWhile p = s := by
  cases s with
  | nil => rfl
  | cons c s => rw [List.dropWhile_cons_of_neg (by simp [h c rfl])]

theorem rdropWhile_of_getLast {p : Char → Bool} {s : List Char}
    (h : ∀ c ∈ s.getLast?, p c = false) : s.rdropWhile p = s := by
  rw [List.rdropWhile, dropWhile_of_head, List.reverse_reverse]
  rwa [List.head?_reverse]

/-- The first character of what is left of a string that loses its end. -/
theorem head?_rdropWhile {p q : Char → Bool} {s : List Char} (h : ∀ c ∈ s.head?, q c = false) :
    ∀ c ∈ (s.rdropWhile p).head?, q c = false := by
  intro c hc
  obtain ⟨rest, hrest⟩ := List.rdropWhile_prefix p s
  cases hleft : s.rdropWhile p with
  | nil => simp [hleft] at hc
  | cons d left =>
    rw [hleft] at hc hrest
    refine h c ?_
    rw [← hrest]
    exact hc

/-! ## White space -/

/-- Nothing but white space. -/
def Blank (s : List Char) : Prop :=
  ∀ c ∈ s, isWhitespace c = true

theorem exists_trim (s : List Char) :
    ∃ lead trail, s = lead ++ trim s ++ trail ∧ Blank lead ∧ Blank trail := by
  refine ⟨s.takeWhile isWhitespace, (s.dropWhile isWhitespace).rtakeWhile isWhitespace, ?_, ?_, ?_⟩
  · rw [trim, List.append_assoc, List.rdropWhile_append_rtakeWhile,
      List.takeWhile_append_dropWhile]
  · exact fun c hc => List.mem_takeWhile_imp hc
  · exact fun c hc => List.mem_rtakeWhile_imp hc

theorem dropWhile_append_of_blank {lead s : List Char} (hlead : Blank lead) :
    (lead ++ s).dropWhile isWhitespace = s.dropWhile isWhitespace := by
  rw [List.dropWhile_append_of_pos hlead]

/-- A string that starts and ends with other characters is what `trim` leaves
of it, whatever white space stands around it. -/
theorem trim_append {lead s trail : List Char} (hlead : Blank lead) (htrail : Blank trail)
    (hhead : ∀ c ∈ s.head?, isWhitespace c = false) (hlast : ∀ c ∈ s.getLast?, isWhitespace c = false)
    (hne : s ≠ []) : trim (lead ++ s ++ trail) = s := by
  obtain ⟨c, cs, rfl⟩ := List.exists_cons_of_ne_nil hne
  have hc : isWhitespace c = false := hhead c rfl
  have hdrop : (lead ++ (c :: cs) ++ trail).dropWhile isWhitespace = (c :: cs) ++ trail := by
    rw [List.append_assoc, dropWhile_append_of_blank hlead, List.cons_append,
      List.dropWhile_cons_of_neg (by simp [hc])]
  rw [trim, hdrop, List.rdropWhile, List.reverse_append,
    List.dropWhile_append_of_pos fun d hd => htrail d (List.mem_reverse.mp hd)]
  have hrev : (c :: cs).reverse ≠ [] := by simp
  obtain ⟨d, ds, hds⟩ := List.exists_cons_of_ne_nil hrev
  have hd : isWhitespace d = false := by
    refine hlast d ?_
    rw [List.getLast?_eq_head?_reverse, hds]
    rfl
  rw [hds, List.dropWhile_cons_of_neg (by simp [hd]), ← hds, List.reverse_reverse]

theorem trim_of_black {s : List Char} (h : ∀ c ∈ s, isWhitespace c = false) : trim s = s := by
  rw [trim, dropWhile_of_head fun c hc => h c (List.mem_of_mem_head? hc),
    rdropWhile_of_getLast fun c hc => h c (List.mem_of_getLast? hc)]

/-- Lower case is 32 above upper case; other characters stay. -/
theorem toNat_toLower (c : Char) :
    c.toLower.toNat = if 65 ≤ c.toNat ∧ c.toNat ≤ 90 then c.toNat + 32 else c.toNat := by
  have hupper : (c.val ≥ 'A'.val ∧ c.val ≤ 'Z'.val) ↔ 65 ≤ c.toNat ∧ c.toNat ≤ 90 := by
    simp only [ge_iff_le, UInt32.le_iff_toNat_le, Char.reduceVal, UInt32.reduceToNat]
    exact Iff.rfl
  by_cases h : c.val ≥ 'A'.val ∧ c.val ≤ 'Z'.val
  · rw [Char.toLower, dif_pos h, if_pos (hupper.mp h)]
    simp only [ge_iff_le, UInt32.le_iff_toNat_le, Char.reduceVal, UInt32.reduceToNat] at h
    simp only [Char.toNat, UInt32.reduceSub, UInt32.toNat_add, Char.reduceVal, UInt32.reduceToNat]
    omega
  · rw [Char.toLower, dif_neg h, if_neg fun hc => h (hupper.mpr hc)]

/-- A character that is no letter is not changed by lower case, nor made by it. -/
theorem toLower_eq_iff {c : Char} (hupper : ¬ (65 ≤ c.toNat ∧ c.toNat ≤ 90))
    (hlower : ¬ (97 ≤ c.toNat ∧ c.toNat ≤ 122)) (d : Char) : d.toLower = c ↔ d = c := by
  have hnum := toNat_toLower d
  constructor
  · intro h
    rw [h] at hnum
    apply Char.toNat_inj.mp
    by_cases hd : 65 ≤ d.toNat ∧ d.toNat ≤ 90
    · rw [if_pos hd] at hnum
      omega
    · rw [if_neg hd] at hnum
      exact hnum.symm
  · intro h
    subst h
    rw [if_neg hupper] at hnum
    exact Char.toNat_inj.mp hnum

theorem mem_toAsciiLowercase {s : List Char} {c : Char}
    (hupper : ¬ (65 ≤ c.toNat ∧ c.toNat ≤ 90)) (hlower : ¬ (97 ≤ c.toNat ∧ c.toNat ≤ 122)) :
    c ∈ toAsciiLowercase s ↔ c ∈ s := by
  simp only [toAsciiLowercase, List.mem_map, toLower_eq_iff hupper hlower, exists_eq_right]

/-- Lower case leaves a separator that is no letter where it is. -/
theorem rsplitOnce_toAsciiLowercase {sep : Char} (hsep : ∀ c : Char, c.toLower = sep ↔ c = sep)
    (s : List Char) :
    rsplitOnce sep (toAsciiLowercase s) =
      (rsplitOnce sep s).map fun (before, after) =>
        (toAsciiLowercase before, toAsciiLowercase after) := by
  have hsplit : ∀ s : List Char, splitOnce sep (s.map Char.toLower) =
      (splitOnce sep s).map fun (before, after) =>
        (before.map Char.toLower, after.map Char.toLower) := by
    intro s
    induction s with
    | nil => rfl
    | cons c s ih =>
      rw [List.map_cons, splitOnce, splitOnce, ih]
      by_cases hc : c = sep
      · rw [if_pos hc, if_pos ((hsep c).mpr hc)]
        rfl
      · rw [if_neg hc, if_neg fun h => hc ((hsep c).mp h), Option.map_map, Option.map_map]
        rfl
  simp only [rsplitOnce, toAsciiLowercase, ← List.map_reverse, hsplit, Option.map_map]
  congr 1
  funext parts
  simp only [Function.comp_apply, List.map_reverse]

/-- Case does not tell white space from other characters. -/
theorem isWhitespace_toLower (c : Char) : isWhitespace c.toLower = isWhitespace c := by
  have hnum := toNat_toLower c
  rw [Bool.eq_iff_iff]
  simp only [isWhitespace, Bool.or_eq_true, Bool.and_eq_true, decide_eq_true_eq, beq_iff_eq]
  split at hnum <;> omega

theorem trim_toAsciiLowercase (s : List Char) :
    trim (toAsciiLowercase s) = toAsciiLowercase (trim s) := by
  have hsame : isWhitespace ∘ Char.toLower = isWhitespace := funext isWhitespace_toLower
  simp only [trim, toAsciiLowercase, List.rdropWhile, List.dropWhile_map, ← List.map_reverse, hsame]

theorem EqIgnoreAsciiCase.trim {s t : List Char} (h : EqIgnoreAsciiCase s t) :
    EqIgnoreAsciiCase (trim s) (trim t) := by
  rw [EqIgnoreAsciiCase, ← trim_toAsciiLowercase, h, trim_toAsciiLowercase]

/-! ## Lines -/

theorem flatten_linesInclusive (s : List Char) : (linesInclusive s).flatten = s := by
  induction s with
  | nil => rfl
  | cons c cs ih =>
    unfold linesInclusive
    split
    · rw [List.flatten_cons, ih]
      rfl
    · split
      · rename_i hnil
        rw [hnil] at ih
        simp [← ih]
      · rename_i line rest hcons
        rw [hcons] at ih
        simp [← ih]

/-- A complete line: one line feed, at its end. -/
def IsLine (line : List Char) : Prop :=
  ∃ content, line = content ++ ['\n'] ∧ '\n' ∉ content

theorem linesInclusive_append_line (content : List Char) (hcontent : '\n' ∉ content)
    (rest : List Char) :
    linesInclusive (content ++ '\n' :: rest) = (content ++ ['\n']) :: linesInclusive rest := by
  induction content with
  | nil => simp [linesInclusive]
  | cons c content ih =>
    have hc : c ≠ '\n' := fun h => hcontent (h ▸ List.mem_cons_self)
    have htail : '\n' ∉ content := fun h => hcontent (List.mem_cons_of_mem _ h)
    simp only [List.cons_append, linesInclusive, if_neg hc, ih htail]

/-- Text that ends a line is split by itself. -/
theorem lines_append_lf (before rest : List Char) :
    lines (before ++ '\n' :: rest) = lines (before ++ ['\n']) ++ lines rest := by
  have hpieces : linesInclusive (before ++ '\n' :: rest) =
      linesInclusive (before ++ ['\n']) ++ linesInclusive rest := by
    induction before with
    | nil => rfl
    | cons c before ih =>
      rw [List.cons_append, List.cons_append, linesInclusive, linesInclusive, ih]
      split
      · rfl
      · cases hfirst : linesInclusive (before ++ ['\n']) with
        | nil =>
          have hflat := flatten_linesInclusive (before ++ ['\n'])
          rw [hfirst] at hflat
          exact absurd hflat.symm (by simp)
        | cons line more => rfl
  rw [lines, hpieces, List.map_append, ← lines, ← lines]

theorem linesInclusive_of_not_mem {s : List Char} (hs : '\n' ∉ s) (hne : s ≠ []) :
    linesInclusive s = [s] := by
  induction s with
  | nil => exact absurd rfl hne
  | cons c s ih =>
    have hc : c ≠ '\n' := fun h => hs (h ▸ List.mem_cons_self)
    cases s with
    | nil => simp [linesInclusive, hc]
    | cons d s =>
      rw [linesInclusive, if_neg hc, ih (fun h => hs (List.mem_cons_of_mem _ h)) (by simp)]

/-- Complete lines followed by anything are the first lines of the whole. -/
theorem linesInclusive_flatten (ls : List (List Char)) (hls : ∀ line ∈ ls, IsLine line)
    (rest : List Char) : linesInclusive (ls.flatten ++ rest) = ls ++ linesInclusive rest := by
  induction ls with
  | nil => rfl
  | cons line ls ih =>
    obtain ⟨content, rfl, hcontent⟩ := hls _ List.mem_cons_self
    have ih := ih fun l hl => hls l (List.mem_cons_of_mem _ hl)
    rw [List.flatten_cons, List.append_assoc, List.append_assoc, List.singleton_append,
      linesInclusive_append_line _ hcontent, ih, List.cons_append]

/-- All lines but the last are complete. -/
theorem isLine_of_mem_dropLast {s line : List Char} (hline : line ∈ (linesInclusive s).dropLast) :
    IsLine line := by
  induction s generalizing line with
  | nil => simp [linesInclusive] at hline
  | cons c s ih =>
    rw [linesInclusive] at hline
    split at hline
    · rename_i hc
      cases hrest : linesInclusive s with
      | nil => simp [hrest] at hline
      | cons first rest =>
        rw [hrest, List.dropLast_cons_of_ne_nil (by simp), ← hrest] at hline
        rcases List.mem_cons.mp hline with rfl | hmem
        · exact ⟨[], by simp [hc], by simp⟩
        · exact ih hmem
    · rename_i hc
      split at hline
      · simp at hline
      · rename_i first rest hcons
        cases rest with
        | nil => simp at hline
        | cons second rest =>
          rw [List.dropLast_cons_of_ne_nil (by simp)] at hline
          rw [hcons, List.dropLast_cons_of_ne_nil (by simp)] at ih
          rcases List.mem_cons.mp hline with rfl | hmem
          · obtain ⟨content, rfl, hcontent⟩ := ih List.mem_cons_self
            refine ⟨c :: content, rfl, ?_⟩
            intro hmem
            rcases List.mem_cons.mp hmem with h | h
            · exact hc h.symm
            · exact hcontent h
          · exact ih (List.mem_cons_of_mem _ hmem)

theorem stripEol_lf {content : List Char} (h : content.getLast? ≠ some '\r') :
    stripEol (content ++ ['\n']) = content := by
  have hlf : stripSuffix ['\n'] (content ++ ['\n']) = some content := stripSuffix_eq_some.mpr rfl
  have hcr : stripSuffix ['\r'] content = none := by
    rw [stripSuffix, if_neg]
    rintro ⟨t, rfl⟩
    simp at h
  rw [stripEol, hlf]
  simp [hcr]

theorem stripEol_crlf (content : List Char) : stripEol (content ++ ['\r', '\n']) = content := by
  have hlf : stripSuffix ['\n'] (content ++ ['\r', '\n']) = some (content ++ ['\r']) :=
    stripSuffix_eq_some.mpr (by simp)
  have hcr : stripSuffix ['\r'] (content ++ ['\r']) = some content := stripSuffix_eq_some.mpr rfl
  rw [stripEol, hlf]
  simp [hcr]

theorem stripEol_of_not_mem {s : List Char} (h : '\n' ∉ s) : stripEol s = s := by
  have hlf : stripSuffix ['\n'] s = none := by
    rw [stripSuffix, if_neg]
    rintro ⟨t, rfl⟩
    simp at h
  rw [stripEol, hlf]

theorem isLine_or_not_mem {s piece : List Char} (hpiece : piece ∈ linesInclusive s) :
    IsLine piece ∨ '\n' ∉ piece := by
  induction s generalizing piece with
  | nil => exact absurd hpiece List.not_mem_nil
  | cons c cs ih =>
    rw [linesInclusive] at hpiece
    by_cases hlf : c = '\n'
    · subst hlf
      rw [if_pos rfl] at hpiece
      rcases List.mem_cons.mp hpiece with rfl | hpiece
      · exact Or.inl ⟨[], rfl, List.not_mem_nil⟩
      · exact ih hpiece
    · rw [if_neg hlf] at hpiece
      split at hpiece
      · rw [List.mem_singleton.mp hpiece]
        exact Or.inr (by simpa using fun heq => hlf heq.symm)
      · rename_i line rest hrest
        rw [hrest] at ih
        rcases List.mem_cons.mp hpiece with rfl | hpiece
        · rcases ih List.mem_cons_self with ⟨content, rfl, hcontent⟩ | hnot
          · exact Or.inl ⟨c :: content, rfl, by simpa using ⟨fun heq => hlf heq.symm, hcontent⟩⟩
          · exact Or.inr (by simpa using ⟨fun heq => hlf heq.symm, hnot⟩)
        · exact ih (List.mem_cons_of_mem _ hpiece)

/-- No line has a line feed in it. -/
theorem not_mem_of_mem_lines {s line : List Char} (hline : line ∈ lines s) : '\n' ∉ line := by
  obtain ⟨piece, hpiece, rfl⟩ := List.mem_map.mp hline
  rcases isLine_or_not_mem hpiece with ⟨content, rfl, hcontent⟩ | hnot
  · have hlf : stripSuffix ['\n'] (content ++ ['\n']) = some content :=
      stripSuffix_eq_some.mpr rfl
    have hstrip : stripEol (content ++ ['\n']) = (stripSuffix ['\r'] content).getD content := by
      rw [stripEol, hlf]
    rw [hstrip]
    cases hcr : stripSuffix ['\r'] content with
    | none => exact hcontent
    | some rest =>
      intro hmem
      exact hcontent (stripSuffix_eq_some.mp hcr ▸ List.mem_append_left _ hmem)
  · rw [stripEol_of_not_mem hnot]
    exact hnot

/-- Lines written with CR LF are read back. -/
theorem lines_of_crlf {ls : List (List Char)} (hls : ∀ line ∈ ls, '\n' ∉ line) :
    lines (ls.map (· ++ ['\r', '\n'])).flatten = ls := by
  have hlines : ∀ line ∈ ls.map (· ++ ['\r', '\n']), IsLine line := by
    intro line hline
    obtain ⟨content, hcontent, rfl⟩ := List.mem_map.mp hline
    exact ⟨content ++ ['\r'], by simp, by simpa using hls content hcontent⟩
  have hall := linesInclusive_flatten _ hlines []
  rw [List.append_nil] at hall
  rw [lines, hall, List.map_append, List.map_map]
  refine (List.append_nil _).trans ?_
  refine (List.map_congr_left fun line _ => ?_).trans (List.map_id _)
  exact stripEol_crlf line

/-- Lines written with CR LF are read back, and what follows them is the last
line. -/
theorem lines_crlf {ls : List (List Char)} (hls : ∀ line ∈ ls, '\n' ∉ line) {last : List Char}
    (hlast : '\n' ∉ last) (hne : last ≠ []) :
    lines ((ls.map (· ++ ['\r', '\n'])).flatten ++ last) = ls ++ [last] := by
  have hlines : ∀ line ∈ ls.map (· ++ ['\r', '\n']), IsLine line := by
    intro line hline
    obtain ⟨content, hcontent, rfl⟩ := List.mem_map.mp hline
    exact ⟨content ++ ['\r'], by simp, by simpa using hls content hcontent⟩
  rw [lines, linesInclusive_flatten _ hlines, linesInclusive_of_not_mem hlast hne, List.map_append,
    List.map_map, List.map_singleton, stripEol_of_not_mem hlast]
  congr 1
  refine (List.map_congr_left fun line _ => ?_).trans (List.map_id _)
  exact stripEol_crlf line

end CodeLib.RustStr
