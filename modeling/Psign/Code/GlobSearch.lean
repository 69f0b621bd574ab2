import Psign.Code.Glob

/-!
# Where glob matching goes wrong

`glob_match_inner` is a search: at a star it tries to stop, and takes one more octet when the rest
of the pattern does not match.  `Tries` are the positions that the search comes to, until it finds
a match.

The search takes a wrong turn where the rest of a pattern matches behind a `**/` that has taken
part of a name, or behind a `?` that has taken an octet of a longer character (`TakesPart`).  A
match without a wrong turn keeps to the rules, with an ASCII character for each `?`
(`mem_strict_of_tries`), and every such match is found.  So the answer is wrong in two cases
(`followsRules_iff`): a wrong turn leads to a match that the rules do not have, or none does and
the rules match with a longer character for a `?` only.
-/

namespace Psign.Code

open CodeLib CodeLib.Glob CodeLib.RustStr CodeLib.Unicode

/-! ## An ASCII character for each `?` -/

/-- The characters for a `?` that are one octet. -/
def ShortKind (c : Char) : Prop := c ≠ '/' ∧ IsAscii c

/-- The paths that a pattern matches with an ASCII character for each `?`. -/
def shortLanguage (pattern : List Char) : Language Char :=
  kindLanguage ShortKind (tokens charSymbols pattern)

/-- The octets that a pattern of octets matches in this way. -/
def strictLanguage (p : List UInt8) : Language UInt8 :=
  wholeLanguage ShortKind (tokens byteSymbols p)

theorem mem_strictLanguage_iff {pattern path : List Char} :
    utf8Encode path ∈ strictLanguage (utf8Encode pattern) ↔ path ∈ shortLanguage pattern := by
  rw [strictLanguage, tokens_utf8Encode, mem_wholeLanguage_iff]
  rfl

/-- An ASCII character for each `?` is a character. -/
theorem mem_globLanguage_of_short {pattern path : List Char} (h : path ∈ shortLanguage pattern) :
    path ∈ globLanguage pattern := by
  unfold globLanguage
  unfold shortLanguage at h
  rw [charLanguage_eq]
  generalize tokens charSymbols pattern = ts at *
  induction ts generalizing path with
  | nil => exact h
  | cons tok ts ih =>
    obtain ⟨a, ha, b, hb, hab⟩ := mem_kindLanguage_cons.mp h
    refine mem_kindLanguage_cons.mpr ⟨a, ?_, b, ih hb, hab⟩
    cases tok with
    | one =>
      obtain ⟨c, hc, hac⟩ := ha
      exact ⟨c, hc.1, hac⟩
    | star => exact ha
    | dirs => exact ha
    | anyRun => exact ha
    | lit c => exact ha

/-- What matches in this way is found: whole directories are a run, and an ASCII character is an
octet. -/
theorem mem_loose_of_strict {p t : List UInt8} (h : t ∈ strictLanguage p) : t ∈ looseLanguage p := by
  unfold strictLanguage at h
  unfold looseLanguage
  generalize tokens byteSymbols p = ts at *
  induction ts generalizing t with
  | nil => exact h
  | cons tok ts ih =>
    obtain ⟨a, ha, b, hb, hab⟩ := mem_wholeLanguage_cons.mp h
    refine mem_cons.mpr ⟨a, ?_, b, ih hb, hab⟩
    cases tok with
    | one =>
      obtain ⟨c, ⟨hne, hc⟩, rfl⟩ := ha
      exact ⟨asciiByte c, mt (asciiByte_inj hc (by decide)).mp hne, utf8EncodeChar_of_isAscii hc⟩
    | dirs => exact trivial
    | star => exact ha
    | anyRun => exact ha
    | lit c => exact ha

variable {p t rest : List UInt8}

theorem mem_strict_dirs :
    t ∈ strictLanguage (byteSymbols.star :: byteSymbols.star :: byteSymbols.sep :: rest) ↔
      ∃ a b, a ++ b = t ∧ (a = [] ∨ [byteSymbols.sep] <:+ a) ∧ b ∈ strictLanguage rest := by
  rw [strictLanguage, tokens_dirs, mem_wholeLanguage_cons]
  constructor
  · intro h
    obtain ⟨a, ha, b, hb, hab⟩ := h
    exact ⟨a, b, hab, mem_directories.mp ha, hb⟩
  · intro h
    obtain ⟨a, b, hab, ha, hb⟩ := h
    exact ⟨a, mem_directories.mpr ha, b, hb, hab⟩

theorem mem_strict_anyRun (h : rest[0]? ≠ some byteSymbols.sep) :
    t ∈ strictLanguage (byteSymbols.star :: byteSymbols.star :: rest) ↔
      ∃ a b, a ++ b = t ∧ b ∈ strictLanguage rest := by
  rw [strictLanguage, tokens_anyRun h, mem_wholeLanguage_cons]
  constructor
  · intro h
    obtain ⟨a, _, b, hb, hab⟩ := h
    exact ⟨a, b, hab, hb⟩
  · intro h
    obtain ⟨a, b, hab, hb⟩ := h
    exact ⟨a, trivial, b, hb, hab⟩

theorem mem_strict_star (h : rest[0]? ≠ some byteSymbols.star) :
    t ∈ strictLanguage (byteSymbols.star :: rest) ↔
      ∃ a b, a ++ b = t ∧ (∀ c ∈ a, c ≠ byteSymbols.sep) ∧ b ∈ strictLanguage rest := by
  rw [strictLanguage, tokens_star h, mem_wholeLanguage_cons]
  constructor
  · intro h
    obtain ⟨a, ha, b, hb, hab⟩ := h
    refine ⟨a, b, hab, ?_, hb⟩
    rintro c hc rfl
    exact ha hc
  · intro h
    obtain ⟨a, b, hab, ha, hb⟩ := h
    exact ⟨a, fun hmem => ha _ hmem rfl, b, hb, hab⟩

theorem mem_strict_question :
    t ∈ strictLanguage (byteSymbols.question :: rest) ↔
      ∃ c b, String.utf8EncodeChar c ++ b = t ∧ ShortKind c ∧ b ∈ strictLanguage rest := by
  rw [strictLanguage, tokens_question (by decide), mem_wholeLanguage_cons]
  constructor
  · intro h
    obtain ⟨_, ⟨c, hc, rfl⟩, b, hb, hab⟩ := h
    exact ⟨c, b, hab, hc, hb⟩
  · intro h
    obtain ⟨c, b, hab, hc, hb⟩ := h
    exact ⟨_, ⟨c, hc, rfl⟩, b, hb, hab⟩

theorem mem_strict_lit {a : UInt8} (hstar : a ≠ byteSymbols.star)
    (hquestion : a ≠ byteSymbols.question) :
    t ∈ strictLanguage (a :: rest) ↔
      ∃ c t', t = c :: t' ∧ SameByte a c ∧ t' ∈ strictLanguage rest := by
  rw [strictLanguage, tokens_lit hstar hquestion]
  exact mem_wholeLanguage_lit

/-! ## The search -/

/-- One of the two ways past a doubled star leads to a match. -/
def StopsRun (rest t : List UInt8) : Prop :=
  (rest[0]? = some byteSymbols.sep ∧ t ∈ looseLanguage (rest.drop 1)) ∨ t ∈ looseLanguage rest

/-- The search for a match of `T` with `P` comes to the question whether `t` matches `p`: no
question before it has led to a match. -/
inductive Tries (P T : List UInt8) : List UInt8 → List UInt8 → Prop
  | start : Tries P T P T
  | noDirs {rest t : List UInt8}
      (h : Tries P T (byteSymbols.star :: byteSymbols.star :: byteSymbols.sep :: rest) t) :
      Tries P T rest t
  | stop {rest t : List UInt8}
      (h : Tries P T (byteSymbols.star :: byteSymbols.star :: rest) t)
      (hfirst : ¬ (rest[0]? = some byteSymbols.sep ∧ t ∈ looseLanguage (rest.drop 1))) :
      Tries P T rest t
  | goOn {rest : List UInt8} {c : UInt8} {t : List UInt8}
      (h : Tries P T (byteSymbols.star :: byteSymbols.star :: rest) (c :: t))
      (hstops : ¬ StopsRun rest (c :: t)) :
      Tries P T (byteSymbols.star :: byteSymbols.star :: rest) t
  | stopName {rest t : List UInt8}
      (hsingle : rest[0]? ≠ some byteSymbols.star)
      (h : Tries P T (byteSymbols.star :: rest) t) : Tries P T rest t
  | goOnName {rest : List UInt8} {c : UInt8} {t : List UInt8}
      (hsingle : rest[0]? ≠ some byteSymbols.star)
      (h : Tries P T (byteSymbols.star :: rest) (c :: t)) (hstops : c :: t ∉ looseLanguage rest)
      (hsep : c ≠ byteSymbols.sep) : Tries P T (byteSymbols.star :: rest) t
  | question {rest : List UInt8} {c : UInt8} {t : List UInt8}
      (h : Tries P T (byteSymbols.question :: rest) (c :: t))
      (hsep : c ≠ byteSymbols.sep) : Tries P T rest t
  | lit {a : UInt8} {rest : List UInt8} {c : UInt8} {t : List UInt8}
      (hstar : a ≠ byteSymbols.star) (hquestion : a ≠ byteSymbols.question)
      (h : Tries P T (a :: rest) (c :: t)) (hsame : SameByte a c) : Tries P T rest t

/-- A wrong turn leads to a match: behind a `**/` that has taken part of a name, or behind a `?`
that has taken an octet of a longer character. -/
def TakesPart (P T : List UInt8) : Prop :=
  (∃ (rest : List UInt8) (c : UInt8) (t : List UInt8),
    Tries P T (byteSymbols.star :: byteSymbols.star :: byteSymbols.sep :: rest) (c :: t) ∧
      ¬ StopsRun (byteSymbols.sep :: rest) (c :: t) ∧ c ≠ byteSymbols.sep ∧
      t ∈ looseLanguage rest) ∨
    ∃ (rest : List UInt8) (c : UInt8) (t : List UInt8),
      Tries P T (byteSymbols.question :: rest) (c :: t) ∧ 0x80 ≤ c.toNat ∧
      t ∈ looseLanguage rest

variable {P T : List UInt8}

theorem sep_ne_star : byteSymbols.sep ≠ byteSymbols.star := by decide

theorem sep_ne_question : byteSymbols.sep ≠ byteSymbols.question := by decide

/-- An octet that is a `/` up to case is a `/`. -/
theorem eq_sep_of_sameByte {c : UInt8} (h : SameByte byteSymbols.sep c) : c = byteSymbols.sep := by
  have hlow : Glob.asciiLower c = byteSymbols.sep := h.symm
  unfold Glob.asciiLower at hlow
  split at hlow
  · rename_i hupper
    have hnum := congrArg UInt8.toNat hlow
    rw [UInt8.toNat_add, show (32 : UInt8).toNat = 32 from rfl,
      show byteSymbols.sep.toNat = 47 from rfl] at hnum
    omega
  · exact hlow

theorem mem_loose_run : t ∈ looseLanguage (byteSymbols.star :: byteSymbols.star :: rest) ↔
    StopsRun rest t ∨ ∃ c t', t = c :: t' ∧ True ∧
      t' ∈ looseLanguage (byteSymbols.star :: byteSymbols.star :: rest) := by
  rw [mem_loose_starStar]
  simp only [true_and]
  exact Iff.rfl

/-- A match that the search finds makes the pattern match. -/
theorem mem_loose_of_tries (h : Tries P T p t) (ht : t ∈ looseLanguage p) : T ∈ looseLanguage P := by
  induction h with
  | start => exact ht
  | noDirs _ ih => exact ih (mem_loose_run.mpr (Or.inl (Or.inl ⟨rfl, ht⟩)))
  | stop _ _ ih => exact ih (mem_loose_run.mpr (Or.inl (Or.inr ht)))
  | goOn _ _ ih => exact ih (mem_loose_run.mpr (Or.inr ⟨_, _, rfl, trivial, ht⟩))
  | stopName hsingle _ ih => exact ih ((mem_loose_star hsingle).mpr (Or.inl ht))
  | goOnName hsingle _ _ hsep ih =>
    exact ih ((mem_loose_star hsingle).mpr (Or.inr ⟨_, _, rfl, hsep, ht⟩))
  | question _ hsep ih => exact ih (mem_loose_question.mpr ⟨_, _, rfl, hsep, ht⟩)
  | lit hstar hquestion _ hsame ih =>
    exact ih ((mem_loose_lit hstar hquestion).mpr ⟨_, _, rfl, hsame, ht⟩)

/-- A wrong turn leads to an answer. -/
theorem mem_loose_of_takesPart (h : TakesPart P T) : T ∈ looseLanguage P := by
  rcases h with ⟨rest, c, t, htries, hstops, -, ht⟩ | ⟨rest, c, t, htries, hlow, ht⟩
  · exact mem_loose_of_tries (.noDirs (.goOn htries hstops)) ht
  · have hsep : c ≠ byteSymbols.sep := by
      rintro rfl
      exact absurd hlow (by decide)
    exact mem_loose_of_tries (.question htries hsep) ht

/-- The search for the end of any run. -/
theorem exists_end_of_run
    (h : Tries P T (byteSymbols.star :: byteSymbols.star :: rest) t)
    (ht : t ∈ looseLanguage (byteSymbols.star :: byteSymbols.star :: rest)) :
    ∃ a b, t = a ++ b ∧ Tries P T (byteSymbols.star :: byteSymbols.star :: rest) b ∧
      StopsRun rest b ∧ ∀ a' c, a = a' ++ [c] →
        Tries P T (byteSymbols.star :: byteSymbols.star :: rest) (c :: b) ∧
          ¬ StopsRun rest (c :: b) := by
  obtain ⟨a, b, hab, -, hb⟩ := @exists_first_end _ (StopsRun rest)
    (· ∈ looseLanguage (byteSymbols.star :: byteSymbols.star :: rest))
    (Tries P T (byteSymbols.star :: byteSymbols.star :: rest)) (fun _ => True)
    (fun _ => mem_loose_run) (fun _ _ hc hstops _ => .goOn hc hstops) t h ht
  exact ⟨a, b, hab, hb⟩

/-- The search for the end of a name. -/
theorem exists_end_of_name (hsingle : rest[0]? ≠ some byteSymbols.star)
    (h : Tries P T (byteSymbols.star :: rest) t)
    (ht : t ∈ looseLanguage (byteSymbols.star :: rest)) :
    ∃ a b, t = a ++ b ∧ (∀ c ∈ a, c ≠ byteSymbols.sep) ∧
      Tries P T (byteSymbols.star :: rest) b ∧ b ∈ looseLanguage rest := by
  obtain ⟨a, b, hab, ha, hb, hstops, -⟩ := @exists_first_end _ (· ∈ looseLanguage rest)
    (· ∈ looseLanguage (byteSymbols.star :: rest)) (Tries P T (byteSymbols.star :: rest))
    (· ≠ byteSymbols.sep) (fun _ => mem_loose_star hsingle)
    (fun _ _ hc hstops hsep => .goOnName hsingle hc hstops hsep) t h ht
  exact ⟨a, b, hab, ha, hb, hstops⟩

/-! ## What is found keeps to the rules -/

/-- Behind a `**/`, the search stops at the beginning, behind a `/` or in front of one. -/
theorem exists_dirs (hpart : ¬ TakesPart P T)
    (h : Tries P T (byteSymbols.star :: byteSymbols.star :: byteSymbols.sep :: rest) t)
    (ht : t ∈ looseLanguage (byteSymbols.star :: byteSymbols.star :: byteSymbols.sep :: rest)) :
    ∃ a b, a ++ b = t ∧ (a = [] ∨ [byteSymbols.sep] <:+ a) ∧ Tries P T rest b ∧
      b ∈ looseLanguage rest := by
  obtain ⟨a, b, rfl, hb, hstops, hlast⟩ := exists_end_of_run h ht
  by_cases hnow : b ∈ looseLanguage rest
  · refine ⟨a, b, rfl, ?_, .noDirs hb, hnow⟩
    rcases List.eq_nil_or_concat a with rfl | ⟨a', c, rfl⟩
    · exact Or.inl rfl
    · obtain ⟨hc, hnot⟩ := hlast a' c (List.concat_eq_append ..)
      -- otherwise the run has taken part of a name
      have hsep : c = byteSymbols.sep := by
        by_contra hne
        exact hpart (Or.inl ⟨rest, c, b, hc, hnot, hne, hnow⟩)
      rw [hsep, List.concat_eq_append]
      exact Or.inr (List.suffix_append _ _)
  · have hsep := hstops.resolve_left fun hdirs => hnow hdirs.2
    obtain ⟨c, b', rfl, hsame, hb'⟩ := (mem_loose_lit sep_ne_star sep_ne_question).mp hsep
    obtain rfl := eq_sep_of_sameByte hsame
    refine ⟨a ++ [byteSymbols.sep], b', by simp, Or.inr (List.suffix_append _ _), ?_, hb'⟩
    exact .lit sep_ne_star sep_ne_question (.stop hb fun hdirs => hnow hdirs.2) hsame

theorem mem_strict_of_tries (hpart : ¬ TakesPart P T) (p : List UInt8) :
    ∀ {t}, Tries P T p t → t ∈ looseLanguage p → t ∈ strictLanguage p := by
  induction p using @pattern_induction _ _ byteSymbols with
  | hnil =>
    intro t _ ht
    exact ht
  | hdirs rest ih =>
    intro t h ht
    obtain ⟨a, b, hab, ha, hb, hmatch⟩ := exists_dirs hpart h ht
    exact mem_strict_dirs.mpr ⟨a, b, hab, ha, ih hb hmatch⟩
  | hrun rest hsep ih =>
    intro t h ht
    obtain ⟨a, b, rfl, hb, hstops, -⟩ := exists_end_of_run h ht
    have hfirst : ¬ (rest[0]? = some byteSymbols.sep ∧ b ∈ looseLanguage (rest.drop 1)) :=
      fun h => hsep h.1
    exact (mem_strict_anyRun hsep).mpr
      ⟨a, b, rfl, ih (.stop hb hfirst) (hstops.resolve_left hfirst)⟩
  | hstar rest hsingle ih =>
    intro t h ht
    obtain ⟨a, b, rfl, ha, hb, hstops⟩ := exists_end_of_name hsingle h ht
    exact (mem_strict_star hsingle).mpr ⟨a, b, rfl, ha, ih (.stopName hsingle hb) hstops⟩
  | hquestion rest ih =>
    intro t h ht
    obtain ⟨c, t, rfl, hsep, hrest⟩ := mem_loose_question.mp ht
    have hlow : c.toNat < 0x80 := by
      by_contra hhigh
      exact hpart (Or.inr ⟨rest, c, t, h, Nat.le_of_not_lt hhigh, hrest⟩)
    obtain ⟨d, hd, rfl⟩ := exists_utf8EncodeChar hlow
    refine mem_strict_question.mpr ⟨d, t, ?_, ⟨?_, hd⟩, ih (.question h hsep) hrest⟩
    · rw [utf8EncodeChar_of_isAscii hd]
      rfl
    · rintro rfl
      exact hsep rfl
  | hlit a rest hstar hquestion ih =>
    intro t h ht
    obtain ⟨c, t, rfl, hsame, hrest⟩ := (mem_loose_lit hstar hquestion).mp ht
    exact (mem_strict_lit hstar hquestion).mpr
      ⟨c, t, rfl, hsame, ih (.lit hstar hquestion h hsame) hrest⟩

/-! ## Where the answer is right -/

variable {pattern path : List Char}

/-- The matcher follows the rules exactly if they have each match that a wrong turn leads to, and
need no longer character for a `?` where no wrong turn leads to a match. -/
theorem followsRules_iff :
    FollowsRules pattern path ↔
      (TakesPart (utf8Encode pattern) (utf8Encode path) → path ∈ globLanguage pattern) ∧
      (¬ TakesPart (utf8Encode pattern) (utf8Encode path) → path ∈ globLanguage pattern →
        path ∈ shortLanguage pattern) := by
  unfold FollowsRules
  rw [globMatchMemo_iff_octets]
  have hfound : ¬ TakesPart (utf8Encode pattern) (utf8Encode path) →
      (utf8Encode path ∈ looseLanguage (utf8Encode pattern) ↔ path ∈ shortLanguage pattern) := by
    intro hpart
    rw [← mem_strictLanguage_iff]
    exact ⟨mem_strict_of_tries hpart _ .start, mem_loose_of_strict⟩
  by_cases hpart : TakesPart (utf8Encode pattern) (utf8Encode path)
  · have hmatch := mem_loose_of_takesPart hpart
    constructor
    · intro h
      exact ⟨fun _ => h.mp hmatch, fun hnot => absurd hpart hnot⟩
    · intro h
      exact iff_of_true hmatch (h.1 hpart)
  · rw [hfound hpart]
    constructor
    · intro h
      exact ⟨fun hyes => absurd hyes hpart, fun _ => h.mpr⟩
    · intro h
      exact ⟨mem_globLanguage_of_short, h.2 hpart⟩

/-- The matcher terminates, the table changes no answer, and the answer is a language of octets.
It follows the rules exactly where they have each match of a wrong turn and need no longer
character for a `?` without one; so it does where every `**/` is in front of a star and no `?`
meets a character past the ASCII range.  Between literals, `**/` follows the rules exactly where
it leaves whole directories; a `?` exactly for one ASCII character. -/
theorem glob_match (pattern path : List Char) :
    globMatchMemo pattern path = globMatchUntabled pattern path ∧
    (globMatchMemo pattern path = true ↔
      utf8Encode path ∈ looseLanguage (utf8Encode pattern)) ∧
    (FollowsRules pattern path ↔
      (TakesPart (utf8Encode pattern) (utf8Encode path) → path ∈ globLanguage pattern) ∧
      (¬ TakesPart (utf8Encode pattern) (utf8Encode path) → path ∈ globLanguage pattern →
        path ∈ shortLanguage pattern)) ∧
    (dirsBeforeStar (tokens charSymbols pattern) = true →
      ('?' ∉ pattern ∨ ∀ c ∈ path, IsAscii c) → FollowsRules pattern path) ∧
    (∀ u w, (∀ c ∈ u, c ≠ '*' ∧ c ≠ '?') → (∀ c ∈ w, c ≠ '*' ∧ c ≠ '?') →
      pattern = u ++ '*' :: '*' :: '/' :: w →
      (FollowsRules pattern path ↔
        ∀ u' lead w', path = u' ++ (lead ++ w') → List.Forall₂ SameChar u u' →
          List.Forall₂ SameChar w w' → lead = [] ∨ ['/'] <:+ lead)) ∧
    (∀ c, pattern = ['?'] → path = [c] → (FollowsRules pattern path ↔ c = '/' ∨ IsAscii c)) := by
  refine ⟨globMatchMemo_eq_untabled pattern path, globMatchMemo_iff_octets, followsRules_iff,
    globMatchMemo_iff_globLanguage, ?_, ?_⟩
  · intro u w hu hw heq
    subst heq
    exact followsRules_dirs_lit hu hw
  · intro c heq heq'
    subst heq heq'
    exact followsRules_question

/-- A pattern of files below a directory, and a name past the ASCII range. -/
theorem glob_match_below :
    FollowsRules ['b', '/', '*', '*', '/', '*', '.', 'd'] ['B', '/', 'x', '/', 'é', '.', 'd'] :=
  (glob_match ['b', '/', '*', '*', '/', '*', '.', 'd']
    ['B', '/', 'x', '/', 'é', '.', 'd']).2.2.2.1 (by decide) (Or.inl (by decide))

end Psign.Code
