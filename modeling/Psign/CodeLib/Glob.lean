import Mathlib

/-!
# Glob patterns

A pattern is a list of tokens, and `language` is the language of a pattern: the product of the
languages of its tokens.  A star matches a run without a separator, a doubled star any run, and a
doubled star with a separator behind it whole directories, none or more.  The alphabet, its
special symbols and the relation between a literal and what it matches are parameters.

The equations `mem_star`, `mem_anyRun`, `mem_one` and `mem_lit` follow the first symbol of a
text, as a matcher does, and `pattern_induction` follows the pattern.  `exists_first_end` is
about the search for the end of a run, which goes on until what follows the run matches.
`loosen` is the pattern in which whole directories are any run;
`language_loosen` says where this makes no difference: directories in front of a star are any
run.
-/

namespace CodeLib.Glob

variable {α : Type}

/-- The special symbols of an alphabet. -/
structure Symbols (α : Type) where
  star : α
  question : α
  sep : α

/-- A piece of a pattern: `*`, `?`, `**` and a separator, another `**`, or a literal. -/
inductive Token (α : Type) where
  | star
  | one
  | dirs
  | anyRun
  | lit (c : α)
  deriving DecidableEq, Repr

section Tokens

variable [DecidableEq α] (sym : Symbols α)

/-- The tokens of a pattern behind `skip` symbols that are read already. -/
def tokensFrom : (skip : ℕ) → List α → List (Token α)
  | _, [] => []
  | skip + 1, _ :: rest => tokensFrom skip rest
  | 0, a :: rest =>
    if a = sym.star then
      if rest[0]? = some sym.star then
        if rest[1]? = some sym.sep then .dirs :: tokensFrom 2 rest
        else .anyRun :: tokensFrom 1 rest
      else .star :: tokensFrom 0 rest
    else if a = sym.question then .one :: tokensFrom 0 rest
    else .lit a :: tokensFrom 0 rest

/-- The tokens of a pattern. -/
def tokens (pattern : List α) : List (Token α) :=
  tokensFrom sym 0 pattern

variable {sym} {rest : List α} {a : α}

@[simp] theorem tokens_nil : tokens sym [] = [] := rfl

theorem tokens_dirs :
    tokens sym (sym.star :: sym.star :: sym.sep :: rest) = .dirs :: tokens sym rest := by
  simp [tokens, tokensFrom]

theorem tokens_anyRun (h : rest[0]? ≠ some sym.sep) :
    tokens sym (sym.star :: sym.star :: rest) = .anyRun :: tokens sym rest := by
  simp [tokens, tokensFrom, h]

theorem tokens_star (h : rest[0]? ≠ some sym.star) :
    tokens sym (sym.star :: rest) = .star :: tokens sym rest := by
  simp [tokens, tokensFrom, h]

theorem tokens_question (hne : sym.question ≠ sym.star) :
    tokens sym (sym.question :: rest) = .one :: tokens sym rest := by
  simp [tokens, tokensFrom, hne]

theorem tokens_lit (hstar : a ≠ sym.star) (hquestion : a ≠ sym.question) :
    tokens sym (a :: rest) = .lit a :: tokens sym rest := by
  simp [tokens, tokensFrom, hstar, hquestion]

/-- Symbols other than the special ones are literals. -/
theorem tokens_map_lit {w : List α} (h : ∀ a ∈ w, a ≠ sym.star ∧ a ≠ sym.question) :
    tokens sym (w ++ rest) = w.map Token.lit ++ tokens sym rest := by
  induction w with
  | nil => rfl
  | cons a w ih =>
    obtain ⟨hstar, hquestion⟩ := h a List.mem_cons_self
    rw [List.cons_append, tokens_lit hstar hquestion, ih fun d hd => h d (List.mem_cons_of_mem _ hd)]
    rfl

theorem one_mem_tokensFrom {skip : ℕ} {w : List α} (h : .one ∈ tokensFrom sym skip w) :
    sym.question ∈ w := by
  induction w generalizing skip with
  | nil => cases skip <;> exact absurd h List.not_mem_nil
  | cons a w ih =>
    cases skip with
    | succ skip => exact List.mem_cons_of_mem _ (ih h)
    | zero =>
      by_cases hquestion : a = sym.question
      · exact hquestion ▸ List.mem_cons_self
      · refine List.mem_cons_of_mem _ ?_
        unfold tokensFrom at h
        split at h
        · split at h
          · split at h
            · exact ih (List.mem_of_ne_of_mem (by simp) h)
            · exact ih (List.mem_of_ne_of_mem (by simp) h)
          · exact ih (List.mem_of_ne_of_mem (by simp) h)
        · exact ih (List.mem_of_ne_of_mem (by simp) h)

/-- The induction of `tokens`: one case for each token at the beginning of a pattern. -/
theorem pattern_induction {motive : List α → Prop} (hnil : motive [])
    (hdirs : ∀ rest, motive rest → motive (sym.star :: sym.star :: sym.sep :: rest))
    (hrun : ∀ rest, rest[0]? ≠ some sym.sep → motive rest →
      motive (sym.star :: sym.star :: rest))
    (hstar : ∀ rest, rest[0]? ≠ some sym.star → motive rest → motive (sym.star :: rest))
    (hquestion : ∀ rest, motive rest → motive (sym.question :: rest))
    (hlit : ∀ a rest, a ≠ sym.star → a ≠ sym.question → motive rest → motive (a :: rest))
    (pattern : List α) : motive pattern := by
  induction hn : pattern.length using Nat.strong_induction_on generalizing pattern with
  | _ n ih =>
    have ih : ∀ rest : List α, rest.length < n → motive rest := fun rest hlt => ih _ hlt rest rfl
    cases pattern with
    | nil => exact hnil
    | cons a rest =>
      rw [List.length_cons] at hn
      by_cases ha : a = sym.star
      · subst ha
        by_cases hsecond : rest[0]? = some sym.star
        · obtain ⟨rest, rfl⟩ : ∃ rest', rest = sym.star :: rest' := by
            cases rest with
            | nil => simp at hsecond
            | cons d rest' => exact ⟨rest', by simpa using hsecond⟩
          rw [List.length_cons] at hn
          by_cases hsep : rest[0]? = some sym.sep
          · obtain ⟨rest, rfl⟩ : ∃ rest', rest = sym.sep :: rest' := by
              cases rest with
              | nil => simp at hsep
              | cons d rest' => exact ⟨rest', by simpa using hsep⟩
            rw [List.length_cons] at hn
            exact hdirs rest (ih rest (by omega))
          · exact hrun rest hsep (ih rest (by omega))
        · exact hstar rest hsecond (ih rest (by omega))
      · by_cases ha' : a = sym.question
        · subst ha'
          exact hquestion rest (ih rest (by omega))
        · exact hlit a rest ha ha' (ih rest (by omega))

end Tokens

/-! ## Languages -/

variable (sep : α) (same : α → α → Prop)

/-- The runs of symbols other than the separator. -/
def name : Language α := {s | sep ∉ s}

/-- Whole directories: names with a separator behind each. -/
def directories : Language α := KStar.kstar (name sep * {[sep]})

/-- The texts that a token matches. -/
def Token.language : Token α → Language α
  | star => name sep
  | one => {s | ∃ c, c ≠ sep ∧ s = [c]}
  | dirs => directories sep
  | anyRun => ⊤
  | lit c => {s | ∃ d, same c d ∧ s = [d]}

/-- The texts that a pattern matches. -/
def language (ts : List (Token α)) : Language α :=
  (ts.map (Token.language sep same)).prod

variable {sep same} {ts more : List (Token α)} {s : List α}

theorem mem_nil : s ∈ language sep same [] ↔ s = [] := Iff.rfl

theorem language_cons (t : Token α) :
    language sep same (t :: ts) = t.language sep same * language sep same ts :=
  List.prod_cons

theorem mem_cons {t : Token α} :
    s ∈ language sep same (t :: ts) ↔
      ∃ a ∈ t.language sep same, ∃ b ∈ language sep same ts, a ++ b = s := by
  rw [language_cons, Language.mem_mul]

/-! ## The first symbol -/

/-- A run is empty or has a first symbol. -/
private theorem mem_run {P : α → Prop} {L : Language α} :
    (∃ a : List α, (∀ c ∈ a, P c) ∧ ∃ b ∈ L, a ++ b = s) ↔
      s ∈ L ∨ ∃ c s', s = c :: s' ∧ P c ∧ ∃ a : List α, (∀ c ∈ a, P c) ∧ ∃ b ∈ L, a ++ b = s' := by
  constructor
  · intro h
    obtain ⟨a, ha, b, hb, rfl⟩ := h
    cases a with
    | nil => exact Or.inl hb
    | cons c a =>
      exact Or.inr ⟨c, a ++ b, rfl, ha c List.mem_cons_self, a,
        fun d hd => ha d (List.mem_cons_of_mem _ hd), b, hb, rfl⟩
  · intro h
    rcases h with h | ⟨c, s', rfl, hc, a, ha, b, hb, rfl⟩
    · exact ⟨[], fun c hc => absurd hc List.not_mem_nil, s, h, rfl⟩
    · refine ⟨c :: a, ?_, b, hb, rfl⟩
      intro d hd
      rcases List.mem_cons.mp hd with rfl | hd
      · exact hc
      · exact ha d hd

theorem mem_star_cons : s ∈ language sep same (.star :: ts) ↔
    ∃ a : List α, (∀ c ∈ a, c ≠ sep) ∧ ∃ b ∈ language sep same ts, a ++ b = s := by
  rw [mem_cons]
  refine exists_congr fun a => and_congr ?_ Iff.rfl
  show sep ∉ a ↔ _
  exact ⟨fun h c hc hsep => h (hsep ▸ hc), fun h hmem => h sep hmem rfl⟩

theorem mem_anyRun_cons : s ∈ language sep same (.anyRun :: ts) ↔
    ∃ a : List α, (∀ c ∈ a, True) ∧ ∃ b ∈ language sep same ts, a ++ b = s := by
  rw [mem_cons]
  exact exists_congr fun a => and_congr ⟨fun _ _ _ => trivial, fun _ => trivial⟩ Iff.rfl

/-- A star matches nothing, or one more symbol that is no separator. -/
theorem mem_star : s ∈ language sep same (.star :: ts) ↔
    s ∈ language sep same ts ∨
      ∃ c s', s = c :: s' ∧ c ≠ sep ∧ s' ∈ language sep same (.star :: ts) := by
  simp only [mem_star_cons]
  exact mem_run

/-- A doubled star matches nothing, or one more symbol. -/
theorem mem_anyRun : s ∈ language sep same (.anyRun :: ts) ↔
    s ∈ language sep same ts ∨ ∃ c s', s = c :: s' ∧ s' ∈ language sep same (.anyRun :: ts) := by
  simp only [mem_anyRun_cons]
  refine mem_run.trans (or_congr Iff.rfl ?_)
  simp only [true_and]

theorem mem_one : s ∈ language sep same (.one :: ts) ↔
    ∃ c s', s = c :: s' ∧ c ≠ sep ∧ s' ∈ language sep same ts := by
  rw [mem_cons]
  constructor
  · intro h
    obtain ⟨_, ⟨c, hc, rfl⟩, b, hb, rfl⟩ := h
    exact ⟨c, b, rfl, hc, hb⟩
  · intro h
    obtain ⟨c, s', rfl, hc, hs'⟩ := h
    exact ⟨[c], ⟨c, hc, rfl⟩, s', hs', rfl⟩

theorem mem_lit {c : α} : s ∈ language sep same (.lit c :: ts) ↔
    ∃ d s', s = d :: s' ∧ same c d ∧ s' ∈ language sep same ts := by
  rw [mem_cons]
  constructor
  · intro h
    obtain ⟨_, ⟨d, hd, rfl⟩, b, hb, rfl⟩ := h
    exact ⟨d, b, rfl, hd, hb⟩
  · intro h
    obtain ⟨d, s', rfl, hd, hs'⟩ := h
    exact ⟨[d], ⟨d, hd, rfl⟩, s', hs', rfl⟩

/-- Literals match symbol by symbol. -/
theorem mem_map_lit {w : List α} :
    s ∈ language sep same (w.map Token.lit ++ ts) ↔
      ∃ m rest, s = m ++ rest ∧ List.Forall₂ same w m ∧ rest ∈ language sep same ts := by
  induction w generalizing s with
  | nil =>
    constructor
    · intro h
      exact ⟨[], s, rfl, List.Forall₂.nil, h⟩
    · intro h
      obtain ⟨m, rest, rfl, hm, hrest⟩ := h
      cases hm
      exact hrest
  | cons c w ih =>
    constructor
    · intro h
      obtain ⟨d, s', rfl, hd, hs'⟩ := mem_lit.mp h
      obtain ⟨m, rest, rfl, hm, hrest⟩ := ih.mp hs'
      exact ⟨d :: m, rest, rfl, List.Forall₂.cons hd hm, hrest⟩
    · intro h
      obtain ⟨m, rest, rfl, hm, hrest⟩ := h
      cases hm with
      | cons hd hm => exact mem_lit.mpr ⟨_, _, rfl, hd, ih.mpr ⟨_, rest, rfl, hm, hrest⟩⟩

/-! ## The end of a run -/

section runs

variable {stops matched tried : List α → Prop} {takes : α → Prop}
  (hmatches : ∀ s, matched s ↔ stops s ∨ ∃ c s', s = c :: s' ∧ takes c ∧ matched s')
  (htried : ∀ c s, tried (c :: s) → ¬ stops (c :: s) → takes c → tried s)

include hmatches htried

/-- A run that is tried ends at the first place where it can stop; it did not stop one symbol
before. -/
theorem exists_first_end {s : List α} (hs : tried s) (h : matched s) :
    ∃ a b, s = a ++ b ∧ (∀ c ∈ a, takes c) ∧ tried b ∧ stops b ∧
      ∀ a' c, a = a' ++ [c] → tried (c :: b) ∧ ¬ stops (c :: b) := by
  induction s with
  | nil =>
    have hstops : stops [] := by
      rcases (hmatches []).mp h with hstops | ⟨c, s', hcons, -⟩
      · exact hstops
      · exact absurd hcons.symm (List.cons_ne_nil c s')
    exact ⟨[], [], rfl, by simp, hs, hstops, by simp⟩
  | cons c s ih =>
    by_cases hstops : stops (c :: s)
    · exact ⟨[], c :: s, rfl, by simp, hs, hstops, by simp⟩
    · obtain ⟨d, s', hcons, htakes, hrest⟩ := ((hmatches (c :: s)).mp h).resolve_left hstops
      obtain ⟨rfl, rfl⟩ := List.cons.inj hcons
      obtain ⟨a, b, rfl, ha, hb, hend, hlast⟩ := ih (htried c s hs hstops htakes) hrest
      refine ⟨c :: a, b, rfl, List.forall_mem_cons.mpr ⟨htakes, ha⟩, hb, hend, ?_⟩
      intro a' d heq
      cases a' with
      | nil =>
        obtain ⟨rfl, rfl⟩ := List.cons.inj heq
        exact ⟨hs, hstops⟩
      | cons x a' => exact hlast a' d (List.cons.inj heq).2

end runs

/-! ## Directories and runs -/

/-- Whole directories end in a separator, if there are any; all texts that do are some. -/
theorem mem_directories : s ∈ directories sep ↔ s = [] ∨ [sep] <:+ s := by
  constructor
  · intro h
    obtain ⟨parts, rfl, hparts⟩ := h
    induction parts using List.reverseRecOn with
    | nil => exact Or.inl rfl
    | append_singleton parts last _ =>
      have hlast := hparts last (List.mem_append_right _ List.mem_cons_self)
      obtain ⟨a, _, b, hb, hab⟩ := Language.mem_mul.mp hlast
      obtain rfl : b = [sep] := hb
      refine Or.inr ⟨parts.flatten ++ a, ?_⟩
      rw [List.flatten_append, ← hab]
      simp
  · intro h
    rcases h with rfl | ⟨lead, rfl⟩
    · exact Language.nil_mem_kstar _
    · -- the last name is what follows the last separator
      induction hn : lead.length using Nat.strong_induction_on generalizing lead with
      | _ n ih =>
        by_cases hsep : sep ∈ lead
        · obtain ⟨before, after, rfl, hafter⟩ : ∃ before after, lead = before ++ sep :: after ∧
              sep ∉ after := by
            classical
            obtain ⟨a, b, hab, ha⟩ := List.eq_append_cons_of_mem (List.mem_reverse.mpr hsep)
            refine ⟨b.reverse, a.reverse, ?_, fun h => ha (List.mem_reverse.mp h)⟩
            have hrev := congrArg List.reverse hab
            rw [List.reverse_reverse] at hrev
            rw [hrev]
            simp
          obtain ⟨parts, hparts, hall⟩ := ih before.length (by
            rw [← hn, List.length_append, List.length_cons]
            omega) before rfl
          refine ⟨parts ++ [after ++ [sep]], ?_, ?_⟩
          · rw [List.flatten_append, ← hparts]
            simp
          · intro y hy
            rcases List.mem_append.mp hy with hy | hy
            · exact hall y hy
            · rw [List.mem_singleton.mp hy]
              exact Language.append_mem_mul hafter rfl
        · refine ⟨[lead ++ [sep]], by simp, ?_⟩
          intro y hy
          rw [List.mem_singleton.mp hy]
          exact Language.append_mem_mul hsep rfl

theorem nil_mem_directories : [] ∈ directories sep := Language.nil_mem_kstar _

/-- Directories and a name are any text. -/
theorem directories_mul_name : directories sep * name sep = ⊤ := by
  refine Language.ext fun s => iff_of_true ?_ trivial
  classical
  by_cases hsep : sep ∈ s
  · obtain ⟨a, b, hab, ha⟩ := List.eq_append_cons_of_mem (List.mem_reverse.mpr hsep)
    have hrev := congrArg List.reverse hab
    rw [List.reverse_reverse, List.reverse_append, List.reverse_cons] at hrev
    rw [hrev]
    exact Language.append_mem_mul (mem_directories.mpr (Or.inr ⟨b.reverse, rfl⟩))
      fun h => ha (List.mem_reverse.mp h)
  · exact Language.append_mem_mul (a := []) nil_mem_directories hsep

theorem top_mul_top : (⊤ : Language α) * ⊤ = ⊤ :=
  Language.ext fun s => iff_of_true (Language.append_mem_mul (a := []) (b := s) trivial trivial)
    trivial

theorem top_mul_name : ⊤ * name sep = ⊤ := by
  refine Language.ext fun s => iff_of_true ?_ trivial
  have h := Language.append_mem_mul (l := ⊤) (m := name sep) (a := s) (b := []) trivial
    (show sep ∉ [] from List.not_mem_nil)
  rwa [List.append_nil] at h

theorem directories_mul_top : directories sep * ⊤ = ⊤ :=
  Language.ext fun s => iff_of_true
    (Language.append_mem_mul (a := []) (b := s) nil_mem_directories trivial) trivial

/-! ## Directories as runs -/

/-- Any run in place of directories. -/
def Token.loosen : Token α → Token α
  | dirs => anyRun
  | t => t

/-- Directories stand in front of a star or of more directories. -/
def dirsBeforeStar : List (Token α) → Bool
  | [] => true
  | .dirs :: ts =>
    (match ts with
      | .star :: _ => true
      | .anyRun :: _ => true
      | .dirs :: _ => true
      | _ => false) && dirsBeforeStar ts
  | _ :: ts => dirsBeforeStar ts

/-- In front of a star, directories are any run. -/
theorem language_loosen (h : dirsBeforeStar ts = true) :
    language sep same (ts.map Token.loosen) = language sep same ts := by
  induction ts with
  | nil => rfl
  | cons t ts ih =>
    cases t with
    | dirs =>
      simp only [dirsBeforeStar, Bool.and_eq_true] at h
      have ih := ih h.2
      rw [List.map_cons, language_cons, ih, language_cons]
      show ⊤ * language sep same ts = directories sep * language sep same ts
      match ts, h.1 with
      | .star :: ts, _ =>
        rw [language_cons, ← mul_assoc, ← mul_assoc]
        show ⊤ * name sep * _ = directories sep * name sep * _
        rw [top_mul_name, directories_mul_name]
      | .anyRun :: ts, _ =>
        rw [language_cons, ← mul_assoc, ← mul_assoc]
        show ⊤ * ⊤ * _ = directories sep * ⊤ * _
        rw [top_mul_top, directories_mul_top]
      | .dirs :: ts, _ =>
        rw [← ih, List.map_cons, language_cons, ← mul_assoc, ← mul_assoc]
        show ⊤ * ⊤ * _ = directories sep * ⊤ * _
        rw [top_mul_top, directories_mul_top]
    | star => rw [List.map_cons, language_cons, language_cons, ih h]; rfl
    | one => rw [List.map_cons, language_cons, language_cons, ih h]; rfl
    | anyRun => rw [List.map_cons, language_cons, language_cons, ih h]; rfl
    | lit c => rw [List.map_cons, language_cons, language_cons, ih h]; rfl

end CodeLib.Glob
