import Mathlib.Data.List.Basic
import Mathlib.Data.List.Infix
import Psign.CodeLib.Members

/-!
# Occurrences of a pattern

`firstAt? pattern text` is the position of the first occurrence of a pattern in
a list, `none` when there is none.  Slice and string searches are this function
at their element type.  `lastAt?` is the position of the last one.

The lemmas say what the result means (`firstAt?_eq_some_iff`,
`firstAt?_eq_none_iff`) and where the first occurrence is in a text put together
from parts.  An occurrence could start in one part and end in the next; it
cannot when a separator between the parts is not in the pattern
(`firstAt?_append_cons`).  A pattern that does hold the separator is found
through the piece of it that does not (`firstAt?_append_pattern`,
`firstAt?_pattern_append`).
-/

namespace CodeLib.Subslice

variable {α : Type} [DecidableEq α]

/-- Position of the first occurrence of `pattern`. -/
def firstAt? (pattern : List α) : List α → Option Nat
  | [] => if pattern = [] then some 0 else none
  | x :: xs =>
      if pattern <+: x :: xs then some 0 else (firstAt? pattern xs).map (· + 1)

/-- Position of the last occurrence of `pattern`. -/
def lastAt? (pattern : List α) : List α → Option Nat
  | [] => if pattern = [] then some 0 else none
  | x :: xs =>
      match lastAt? pattern xs with
      | some i => some (i + 1)
      | none => if pattern <+: x :: xs then some 0 else none

/-- The text holds the pattern somewhere. -/
def Contains (text pattern : List α) : Prop :=
  pattern <:+: text

instance (text pattern : List α) : Decidable (Contains text pattern) :=
  inferInstanceAs (Decidable (pattern <:+: text))

/-! ## Specification -/

theorem firstAt?_eq_some_iff {pattern text : List α} {i : Nat} :
    firstAt? pattern text = some i ↔
      i ≤ text.length ∧ pattern <+: text.drop i ∧ ∀ j < i, ¬ pattern <+: text.drop j := by
  induction text generalizing i with
  | nil =>
    by_cases hnil : pattern = []
    · simp only [firstAt?, hnil, if_true, Option.some.injEq, List.length_nil]
      constructor
      · rintro rfl
        simp
      · rintro ⟨hi, -, -⟩
        omega
    · simp [firstAt?, hnil]
  | cons x xs ih =>
    by_cases hprefix : pattern <+: x :: xs
    · simp only [firstAt?, hprefix, if_true, Option.some.injEq]
      constructor
      · rintro rfl
        simpa using hprefix
      · rintro ⟨-, -, hfirst⟩
        by_contra hne
        exact hfirst 0 (by omega) (by simpa using hprefix)
    · simp only [firstAt?, hprefix, if_false, Option.map_eq_some_iff]
      constructor
      · rintro ⟨k, hk, rfl⟩
        obtain ⟨hle, hat, hfirst⟩ := ih.mp hk
        refine ⟨by simpa using hle, by simpa using hat, ?_⟩
        intro j hj
        cases j with
        | zero => simpa using hprefix
        | succ j => simpa using hfirst j (by omega)
      · rintro ⟨hle, hat, hfirst⟩
        cases i with
        | zero => exact absurd (by simpa using hat) hprefix
        | succ k =>
          refine ⟨k, ih.mpr ⟨by simpa using hle, by simpa using hat, ?_⟩, rfl⟩
          intro j hj
          simpa using hfirst (j + 1) (by omega)

theorem firstAt?_eq_none_iff {pattern text : List α} :
    firstAt? pattern text = none ↔ ¬ Contains text pattern := by
  unfold Contains
  induction text with
  | nil => simp [firstAt?]
  | cons x xs ih =>
    rw [List.infix_cons_iff]
    by_cases hprefix : pattern <+: x :: xs
    · simp [firstAt?, hprefix]
    · simp [firstAt?, hprefix, ih]

theorem lastAt?_eq_none {pattern text : List α} (h : lastAt? pattern text = none) (j : Nat) :
    ¬ pattern <+: text.drop j := by
  induction text generalizing j with
  | nil =>
    intro hat
    rw [List.drop_nil, List.prefix_nil] at hat
    simp [lastAt?, hat] at h
  | cons x xs ih =>
    unfold lastAt? at h
    split at h
    · cases h
    · rename_i hrest
      split at h
      · cases h
      · rename_i hhere
        cases j with
        | zero => exact hhere
        | succ j => exact ih hrest j

/-- The last occurrence is one, and none starts after it. -/
theorem lastAt?_eq_some {pattern text : List α} {i : Nat} (h : lastAt? pattern text = some i) :
    pattern <+: text.drop i ∧ ∀ j, i < j → j < text.length → ¬ pattern <+: text.drop j := by
  induction text generalizing i with
  | nil =>
    unfold lastAt? at h
    split at h
    · rename_i hnil
      subst hnil
      exact ⟨List.nil_prefix, fun j _ hj => absurd hj (Nat.not_lt_zero j)⟩
    · cases h
  | cons x xs ih =>
    unfold lastAt? at h
    split at h
    · rename_i k hk
      obtain rfl := Option.some.inj h
      obtain ⟨hat, hlast⟩ := ih hk
      refine ⟨hat, fun j hj hlen => ?_⟩
      cases j with
      | zero => omega
      | succ j => exact hlast j (by omega) (by simpa using hlen)
    · rename_i hrest
      split at h
      · rename_i hhere
        obtain rfl := Option.some.inj h
        refine ⟨hhere, fun j hj _ => ?_⟩
        cases j with
        | zero => omega
        | succ j => exact lastAt?_eq_none hrest j
      · cases h

theorem lastAt?_append {pattern text : List α} {i : Nat} (h : lastAt? pattern text = some i)
    (lead : List α) : lastAt? pattern (lead ++ text) = some (lead.length + i) := by
  induction lead with
  | nil => simpa using h
  | cons c lead ih =>
    rw [List.cons_append, lastAt?, ih, List.length_cons]
    exact congrArg some (by omega)

theorem lastAt?_eq_none_of_firstAt? {pattern text : List α} (h : firstAt? pattern text = none) :
    lastAt? pattern text = none := by
  induction text with
  | nil => exact h
  | cons x xs ih =>
    unfold firstAt? at h
    split at h
    · cases h
    · rename_i hhere
      rw [lastAt?, ih (Option.map_eq_none_iff.mp h)]
      exact if_neg hhere

/-- An occurrence behind which no other one starts is the last. -/
theorem lastAt?_append_pattern {c : α} {pattern rest : List α} (before : List α)
    (hrest : firstAt? (c :: pattern) (pattern ++ rest) = none) :
    lastAt? (c :: pattern) (before ++ (c :: pattern ++ rest)) = some before.length := by
  have hhere : lastAt? (c :: pattern) (c :: pattern ++ rest) = some 0 := by
    rw [List.cons_append, lastAt?, lastAt?_eq_none_of_firstAt? hrest]
    exact if_pos (List.prefix_append _ _)
  exact lastAt?_append hhere before

/-- A found pattern splits the text: nothing before it starts an occurrence. -/
theorem exists_split_of_firstAt? {pattern text : List α} {i : Nat}
    (h : firstAt? pattern text = some i) :
    ∃ post, text = text.take i ++ pattern ++ post ∧ (text.take i).length = i := by
  obtain ⟨hle, ⟨post, hpost⟩, -⟩ := firstAt?_eq_some_iff.mp h
  refine ⟨post, ?_, List.length_take_of_le hle⟩
  rw [List.append_assoc, hpost, List.take_append_drop]

theorem firstAt?_add_length_le {pattern text : List α} {i : Nat}
    (h : firstAt? pattern text = some i) : i + pattern.length ≤ text.length := by
  obtain ⟨post, hsplit, hlen⟩ := exists_split_of_firstAt? h
  have hlength := congrArg List.length hsplit
  simp only [List.length_append, hlen] at hlength
  omega

/-- The first occurrence depends on the text up to its end only. -/
theorem firstAt?_of_take_eq {pattern text text' : List α} {i n : Nat}
    (h : firstAt? pattern text = some i) (hn : i + pattern.length ≤ n)
    (hsame : text.take n = text'.take n) : firstAt? pattern text' = some i := by
  have hcut : ∀ (l : List α) {j : Nat}, j ≤ i → (pattern <+: l.drop j ↔ pattern <+: (l.take n).drop j) := by
    intro l j hj
    rw [List.drop_take, List.prefix_take_iff]
    exact (and_iff_left (by omega)).symm
  have hlen := firstAt?_add_length_le h
  obtain ⟨_, hat, hmin⟩ := firstAt?_eq_some_iff.mp h
  have hlength := congrArg List.length hsame
  rw [List.length_take, List.length_take] at hlength
  refine firstAt?_eq_some_iff.mpr ⟨by omega, ?_, ?_⟩
  · rw [hcut text' (Nat.le_refl i), ← hsame, ← hcut text (Nat.le_refl i)]
    exact hat
  · intro j hj
    rw [hcut text' (Nat.le_of_lt hj), ← hsame, ← hcut text (Nat.le_of_lt hj)]
    exact hmin j hj

/-! ## Searching a text put together from parts -/

omit [DecidableEq α] in
/-- A pattern without the separator does not run over it. -/
theorem prefix_of_prefix_append_cons {pattern rest : List α} {sep : α} (before : List α)
    (hsep : sep ∉ pattern) (h : pattern <+: before ++ sep :: rest) : pattern <+: before := by
  refine List.prefix_of_prefix_length_le h (List.prefix_append _ _) ?_
  by_contra hlong
  have hget : pattern[before.length]? = some sep := by
    obtain ⟨tail, htail⟩ := h
    have hat := congrArg (fun l => l[before.length]?) htail
    simpa [List.getElem?_append_left (show before.length < pattern.length by omega)] using hat
  exact hsep (List.mem_of_getElem? hget)

/-- What stands before a separator that the pattern does not have, and does not
hold the pattern, only shifts the search. -/
theorem firstAt?_append_cons {pattern before : List α} {sep : α} (hsep : sep ∉ pattern)
    (hbefore : ¬ Contains before pattern) (rest : List α) :
    firstAt? pattern (before ++ sep :: rest) =
      (firstAt? pattern rest).map (· + (before.length + 1)) := by
  have hne : pattern ≠ [] := by
    rintro rfl
    exact hbefore List.nil_infix
  induction before with
  | nil =>
    have hsephead : ¬ pattern <+: sep :: rest := by
      intro hprefix
      exact hne (List.prefix_nil.mp (prefix_of_prefix_append_cons [] hsep hprefix))
    simp [firstAt?, hsephead]
  | cons x before ih =>
    have hhead : ¬ pattern <+: x :: (before ++ sep :: rest) := fun hprefix =>
      hbefore (prefix_of_prefix_append_cons (x :: before) hsep hprefix).isInfix
    have htail : ¬ Contains before pattern := fun h => hbefore (h.trans (List.suffix_cons _ _).isInfix)
    rw [List.cons_append, firstAt?, if_neg hhead, ih htail, Option.map_map]
    rfl

/-- The pattern is found where it starts the text. -/
theorem firstAt?_append_self (pattern rest : List α) :
    firstAt? pattern (pattern ++ rest) = some 0 :=
  firstAt?_eq_some_iff.mpr ⟨Nat.zero_le _, List.prefix_append _ _, by simp⟩

/-- Lines that do not hold the pattern only shift the search, when the pattern
has no line end. -/
theorem firstAt?_lines {pattern : List α} {cr lf : α} (hcr : cr ∉ pattern) (hlf : lf ∉ pattern)
    (ls : List (List α)) (hls : ∀ line ∈ ls, ¬ Contains line pattern) (rest : List α) :
    firstAt? pattern ((ls.map (· ++ [cr, lf])).flatten ++ (pattern ++ rest)) =
      some (ls.map (· ++ [cr, lf])).flatten.length := by
  induction ls with
  | nil => exact firstAt?_append_self pattern rest
  | cons line ls ih =>
    have ih := ih fun l hl => hls l (List.mem_cons_of_mem _ hl)
    have hline := hls line List.mem_cons_self
    have hnil : ¬ Contains [] pattern := by
      rintro h
      exact hline ((List.infix_nil.mp h) ▸ List.nil_infix)
    have hshape : ((line :: ls).map (· ++ [cr, lf])).flatten ++ (pattern ++ rest) =
        line ++ cr :: ([] ++ lf :: ((ls.map (· ++ [cr, lf])).flatten ++ (pattern ++ rest))) := by
      simp
    rw [hshape, firstAt?_append_cons hcr hline, firstAt?_append_cons hlf hnil, ih]
    simp only [Option.map_some, List.map_cons, List.flatten_cons, List.length_append,
      List.length_cons, List.length_nil, Option.some.injEq]
    omega

/-- Text in front of which no occurrence starts moves the first one. -/
theorem firstAt?_append_of_not {pattern lead text : List α}
    (hlead : ∀ j < lead.length, ¬ pattern <+: lead.drop j ++ text) :
    firstAt? pattern (lead ++ text) = (firstAt? pattern text).map (· + lead.length) := by
  induction lead with
  | nil => simp
  | cons c lead ih =>
    have hhere : ¬ pattern <+: c :: (lead ++ text) := hlead 0 (by simp)
    have hrest : ∀ j < lead.length, ¬ pattern <+: lead.drop j ++ text := by
      intro j hj
      exact hlead (j + 1) (by simpa using hj)
    rw [List.cons_append, firstAt?, if_neg hhere, ih hrest, Option.map_map]
    rfl

/-- A longer pattern that starts at the first occurrence of its beginning has
its first occurrence there too. -/
theorem firstAt?_append_pattern {pattern more text : List α} {i : Nat}
    (hfirst : firstAt? pattern text = some i) (hat : pattern ++ more <+: text.drop i) :
    firstAt? (pattern ++ more) text = some i := by
  obtain ⟨hle, -, hmin⟩ := firstAt?_eq_some_iff.mp hfirst
  refine firstAt?_eq_some_iff.mpr ⟨hle, hat, fun j hj h => hmin j hj ?_⟩
  exact (List.prefix_append _ _).trans h

/-- A pattern with a beginning of its own in front, found right before the
first occurrence of the rest. -/
theorem firstAt?_pattern_append {pattern lead text : List α} {i : Nat}
    (hfirst : firstAt? pattern text = some (i + lead.length))
    (hat : lead ++ pattern <+: text.drop i) :
    firstAt? (lead ++ pattern) text = some i := by
  obtain ⟨hle, -, hmin⟩ := firstAt?_eq_some_iff.mp hfirst
  refine firstAt?_eq_some_iff.mpr ⟨by omega, hat, fun j hj h => hmin (j + lead.length) (by omega) ?_⟩
  obtain ⟨rest, hrest⟩ := h
  refine ⟨rest, ?_⟩
  rw [← List.drop_drop, ← hrest, List.append_assoc, List.drop_left]

/-- A translation of symbols that keeps those of the pattern apart from all
others keeps its first occurrence. -/
theorem firstAt?_map {β : Type} [DecidableEq β] {f : α → β} {pattern text : List α}
    (hinj : ∀ x ∈ pattern, ∀ y ∈ text, f x = f y → x = y) :
    firstAt? (pattern.map f) (text.map f) = firstAt? pattern text := by
  have hprefix : ∀ {pattern : List α} (text : List α),
      (∀ x ∈ pattern, ∀ y ∈ text, f x = f y → x = y) →
      (pattern.map f <+: text.map f ↔ pattern <+: text) := by
    intro pattern
    induction pattern with
    | nil => simp
    | cons x pattern ih =>
      intro text hinj
      cases text with
      | nil => simp
      | cons y text =>
        have ih := ih text fun a ha b hb =>
          hinj a (List.mem_cons_of_mem _ ha) b (List.mem_cons_of_mem _ hb)
        have hxy : f x = f y ↔ x = y :=
          ⟨hinj x List.mem_cons_self y List.mem_cons_self, congrArg f⟩
        simp [List.cons_prefix_cons, ih, hxy]
  induction text with
  | nil => simp [firstAt?]
  | cons y text ih =>
    have ih := ih fun a ha b hb => hinj a ha b (List.mem_cons_of_mem _ hb)
    have hhere := hprefix _ hinj
    rw [List.map_cons] at hhere ⊢
    simp only [firstAt?, hhere, ih]

end CodeLib.Subslice
