import Psign.Code.Patterns

/-!
# Symbols of selection patterns

The meaning of an input is read off its symbols: `symbols` tells the characters that a backslash
makes literal from the others, and `Expands braceGrammar` lists the texts of the symbols.

The search for braces reads the backslashes of the unescaped text again, and the loop over the body
of a group knows of none.  `SearchReads` compares what the search takes for escaped with what is
quoted, as far as the search goes; there it finds the first group of the symbols
(`firstBraceFrom_outside`).  `LoopReads` compares the parts that the loop makes with the
alternatives; there it finds the choices of the group (`braceChoices_eq_ok`).
-/

namespace Psign.Code

open CodeLib CodeLib.Braces CodeLib.RustStr

/-! ## Symbols -/

/-- A character of an input, and whether a backslash makes it literal. -/
structure Symbol where
  char : Char
  quoted : Bool
  deriving DecidableEq, Repr

/-- The characters of symbols. -/
def chars (w : List Symbol) : List Char := w.map Symbol.char

/-- The symbols of an input; there are none if it ends in a backslash that escapes nothing. -/
def symbols : List Char → Option (List Symbol)
  | [] => some []
  | c :: rest =>
    if c = '\\' then
      match rest with
      | [] => none
      | next :: rest =>
        (symbols rest).map fun w =>
          if isSpecial next then ⟨next, true⟩ :: w else ⟨'\\', false⟩ :: ⟨next, false⟩ :: w
    else (symbols rest).map fun w => ⟨c, false⟩ :: w

/-- Braces are the braces that are not quoted; a body may be a range. -/
def braceGrammar : Grammar Symbol Char where
  opens s := s.char = '{' && !s.quoted
  closes s := s.char = '}' && !s.quoted
  separates s := s.char = ','
  letter := Symbol.char
  values body := rangeValues (chars body)
  opens_not_closes := by
    intro s h
    simp only [Bool.and_eq_true, decide_eq_true_eq] at h
    simp [h.1]

/-- Text that stands for itself. -/
def literals (text : List Char) : List Symbol := text.map fun c => ⟨c, true⟩

/-- The unescaped text is the text of the symbols. -/
theorem unescapePattern_eq_ok {input out : List Char} :
    unescapePattern input = .ok out ↔ ∃ w, symbols input = some w ∧ out = chars w := by
  induction hn : input.length using Nat.strong_induction_on generalizing input out with
  | _ n ih =>
    cases input with
    | nil =>
      rw [unescapePattern, symbols]
      simp [chars, eq_comm]
    | cons c rest =>
      rw [List.length_cons] at hn
      unfold unescapePattern symbols
      by_cases hc : c = '\\'
      · rw [if_pos hc, if_pos hc]
        cases rest with
        | nil => simp
        | cons next rest =>
          rw [List.length_cons] at hn
          have ih := @ih rest.length (by omega) rest
          dsimp only
          rw [Outcome.bind_eq_ok]
          simp only [ih rfl, Option.map_eq_some_iff, Outcome.pure_eq_ok, Except.ok.injEq]
          constructor
          · intro h
            obtain ⟨_, ⟨w, hw, rfl⟩, rfl⟩ := h
            refine ⟨_, ⟨w, hw, rfl⟩, ?_⟩
            split <;> rfl
          · intro h
            obtain ⟨_, ⟨w, hw, rfl⟩, rfl⟩ := h
            refine ⟨_, ⟨w, hw, rfl⟩, ?_⟩
            split <;> rfl
      · have ih := @ih rest.length (by omega) rest
        rw [if_neg hc, if_neg hc, Outcome.bind_eq_ok]
        simp only [ih rfl, Option.map_eq_some_iff, Outcome.pure_eq_ok, Except.ok.injEq]
        constructor
        · intro h
          obtain ⟨_, ⟨w, hw, rfl⟩, rfl⟩ := h
          exact ⟨_, ⟨w, hw, rfl⟩, rfl⟩
        · intro h
          obtain ⟨_, ⟨w, hw, rfl⟩, rfl⟩ := h
          exact ⟨_, ⟨w, hw, rfl⟩, rfl⟩

/-! ## Two readings of a backslash -/

/-- One symbol, behind a backslash that the search for braces takes for an escape or not: a brace
is read right if it is quoted exactly behind such a backslash. -/
def readStep (escaped : Bool) (s : Symbol) : Option Bool :=
  if (s.char = '{' ∨ s.char = '}') ∧ s.quoted ≠ escaped then none
  else some (!escaped && s.char = '\\')

/-- The symbols, as long as each brace is read right. -/
def readSymbols (escaped : Bool) (w : List Symbol) : Option Bool := w.foldlM readStep escaped

/-- What the search for braces comes to in so many groups: the text to the end of the first group,
or to a brace that closes nothing. -/
def searched : ℕ → List Symbol → List Symbol
  | _, [] => []
  | k, s :: w =>
    if braceGrammar.opens s then s :: searched (k + 1) w
    else if braceGrammar.closes s then if k ≤ 1 then [s] else s :: searched (k - 1) w
    else s :: searched k w

/-- The search takes a brace for escaped exactly if it is quoted. -/
def SearchReads (w : List Symbol) : Prop := (readSymbols false (searched 0 w)).isSome

instance (w : List Symbol) : Decidable (SearchReads w) :=
  inferInstanceAs (Decidable (_ = true))

variable {w : List Symbol} {s : Symbol}

theorem readSymbols_cons {escaped : Bool} :
    readSymbols escaped (s :: w) = (readStep escaped s).bind fun next => readSymbols next w :=
  rfl

/-- What a step says of its symbol. -/
inductive Stepped : Bool → Symbol → Bool → Prop
  | escaped {s : Symbol} (hopens : braceGrammar.opens s = false)
      (hcloses : braceGrammar.closes s = false) : Stepped true s false
  | backslash {s : Symbol} (hc : s.char = '\\') : Stepped false s true
  | opened {s : Symbol} (hc : s.char = '{') (hquoted : s.quoted = false) : Stepped false s false
  | closed {s : Symbol} (hc : s.char = '}') (hquoted : s.quoted = false) : Stepped false s false
  | other {s : Symbol} (hc : s.char ≠ '\\' ∧ s.char ≠ '{' ∧ s.char ≠ '}') :
      Stepped false s false

theorem opens_eq_true : braceGrammar.opens s = true ↔ s.char = '{' ∧ s.quoted = false := by
  simp [braceGrammar]

theorem closes_eq_true : braceGrammar.closes s = true ↔ s.char = '}' ∧ s.quoted = false := by
  simp [braceGrammar]

theorem not_brace_of_char (h : s.char ≠ '{' ∧ s.char ≠ '}') :
    braceGrammar.opens s = false ∧ braceGrammar.closes s = false := by
  simp [braceGrammar, h.1, h.2]

theorem readStep_eq_some {escaped next : Bool} :
    readStep escaped s = some next ↔ Stepped escaped s next := by
  unfold readStep
  rw [Option.ite_none_left_eq_some, Option.some.injEq]
  constructor
  · intro h
    obtain ⟨hread, rfl⟩ := h
    cases escaped with
    | true =>
      refine .escaped ?_ ?_
      · rw [← Bool.not_eq_true, opens_eq_true]
        exact fun h => hread ⟨Or.inl h.1, by simp [h.2]⟩
      · rw [← Bool.not_eq_true, closes_eq_true]
        exact fun h => hread ⟨Or.inr h.1, by simp [h.2]⟩
    | false =>
      have hlive : s.char = '{' ∨ s.char = '}' → s.quoted = false := by
        intro hbrace
        by_contra hquoted
        exact hread ⟨hbrace, hquoted⟩
      by_cases hb : s.char = '\\'
      · rw [hb]
        exact .backslash hb
      · rw [decide_eq_false hb]
        by_cases ho : s.char = '{'
        · exact .opened ho (hlive (Or.inl ho))
        · by_cases hc : s.char = '}'
          · exact .closed hc (hlive (Or.inr hc))
          · exact .other ⟨hb, ho, hc⟩
  · intro h
    cases h with
    | escaped hopens hcloses =>
      refine ⟨?_, rfl⟩
      rintro ⟨hbrace, hquoted⟩
      rw [Ne, Bool.not_eq_true] at hquoted
      rcases hbrace with hc | hc
      · exact absurd (opens_eq_true.mpr ⟨hc, hquoted⟩) (by simp [hopens])
      · exact absurd (closes_eq_true.mpr ⟨hc, hquoted⟩) (by simp [hcloses])
    | backslash hc => simp [hc]
    | opened hc hquoted => simp [hc, hquoted]
    | closed hc hquoted => simp [hc, hquoted]
    | other hc => simp [hc.1, hc.2.1, hc.2.2]

theorem readSymbols_cons_eq_some {escaped final : Bool} :
    readSymbols escaped (s :: w) = some final ↔
      ∃ next, Stepped escaped s next ∧ readSymbols next w = some final := by
  rw [readSymbols_cons, Option.bind_eq_some_iff]
  exact exists_congr fun next => and_congr readStep_eq_some Iff.rfl

/-- A step in the grammar's terms: the level changes at braces only. -/
theorem level_cons {k : ℕ} :
    level braceGrammar k (s :: w) =
      if braceGrammar.opens s then level braceGrammar (k + 1) w
      else if braceGrammar.closes s then
        if k = 0 then none else level braceGrammar (k - 1) w
      else level braceGrammar k w := by
  rw [level]

/-- The search steps over a symbol, and goes on behind it. -/
theorem stepped_of_searched {k : ℕ} {escaped final : Bool}
    (h : readSymbols escaped (searched k (s :: w)) = some final) :
    ∃ next, Stepped escaped s next ∧
      (braceGrammar.opens s = true → readSymbols next (searched (k + 1) w) = some final) ∧
      (braceGrammar.closes s = true → 1 < k → readSymbols next (searched (k - 1) w) = some final) ∧
      (braceGrammar.opens s = false → braceGrammar.closes s = false →
        readSymbols next (searched k w) = some final) := by
  rw [searched] at h
  by_cases hopens : braceGrammar.opens s = true
  · rw [if_pos hopens] at h
    obtain ⟨next, hstep, hw⟩ := readSymbols_cons_eq_some.mp h
    refine ⟨next, hstep, fun _ => hw, fun hcloses => ?_, fun hnot => by simp [hopens] at hnot⟩
    exact absurd hcloses (by simp [braceGrammar.opens_not_closes s hopens])
  · rw [if_neg hopens] at h
    by_cases hcloses : braceGrammar.closes s = true
    · rw [if_pos hcloses] at h
      by_cases hk : k ≤ 1
      · rw [if_pos hk] at h
        obtain ⟨next, hstep, _⟩ := readSymbols_cons_eq_some.mp h
        exact ⟨next, hstep, fun h => absurd h hopens, fun _ _ => by omega,
          fun _ hnot => by simp [hcloses] at hnot⟩
      · rw [if_neg hk] at h
        obtain ⟨next, hstep, hw⟩ := readSymbols_cons_eq_some.mp h
        exact ⟨next, hstep, fun h => absurd h hopens, fun _ _ => hw,
          fun _ hnot => by simp [hcloses] at hnot⟩
    · rw [if_neg hcloses] at h
      obtain ⟨next, hstep, hw⟩ := readSymbols_cons_eq_some.mp h
      exact ⟨next, hstep, fun h => absurd h hopens, fun h => absurd h hcloses, fun _ _ => hw⟩

/-! ## The search for braces -/

variable {pattern : List Char} {escaped : Bool} {idx : ℕ}

/-- Behind a symbol that does not end the group, the group ends where it ends from the next
symbol on. -/
theorem exists_end_cons {k k' s₀ : ℕ} {r : Option (ℕ × ℕ)}
    (hlevel : ∀ body, level braceGrammar k (s :: body) = level braceGrammar k' body)
    (hend : ¬ (k = 0 ∧ braceGrammar.closes s = true)) :
    (∃ body c rest, w = body ++ c :: rest ∧ level braceGrammar k' body = some 0 ∧
      braceGrammar.closes c = true ∧ r = some (s₀, idx + 1 + body.length)) ↔
    ∃ body c rest, s :: w = body ++ c :: rest ∧ level braceGrammar k body = some 0 ∧
      braceGrammar.closes c = true ∧ r = some (s₀, idx + body.length) := by
  constructor
  · intro h
    obtain ⟨body, c, rest, rfl, hbody, hc, rfl⟩ := h
    refine ⟨s :: body, c, rest, rfl, (hlevel body).trans hbody, hc, ?_⟩
    rw [List.length_cons, Nat.add_assoc, Nat.add_comm 1]
  · intro h
    obtain ⟨body, c, rest, hcons, hbody, hc, rfl⟩ := h
    cases body with
    | nil =>
      obtain ⟨rfl, rfl⟩ := List.cons.inj hcons
      exact absurd ⟨Option.some.inj hbody, hc⟩ hend
    | cons t body =>
      obtain ⟨rfl, rfl⟩ := List.cons.inj hcons
      refine ⟨body, c, rest, rfl, (hlevel body).symm.trans hbody, hc, ?_⟩
      rw [List.length_cons, Nat.add_assoc, Nat.add_comm 1]

/-- A closing brace ends the group if no other is open. -/
theorem exists_end_close (hs : braceGrammar.closes s = true) {s₀ : ℕ} {r : Option (ℕ × ℕ)} :
    (∃ body c rest, s :: w = body ++ c :: rest ∧ level braceGrammar 0 body = some 0 ∧
      braceGrammar.closes c = true ∧ r = some (s₀, idx + body.length)) ↔ r = some (s₀, idx) := by
  constructor
  · intro h
    obtain ⟨body, c, rest, hcons, hbody, _, rfl⟩ := h
    cases body with
    | nil => rfl
    | cons t body =>
      obtain ⟨rfl, -⟩ := List.cons.inj hcons
      have hopens : ¬ braceGrammar.opens s = true := by
        intro hopens
        exact absurd hs (by simp [braceGrammar.opens_not_closes _ hopens])
      rw [level_cons, if_neg hopens, if_pos hs, if_pos rfl] at hbody
      exact absurd hbody.symm (Option.some_ne_none 0)
  · intro h
    exact ⟨[], s, w, rfl, rfl, hs, h⟩

/-- In a group, the search finds its end. -/
theorem firstBraceFrom_inside {k s₀ : ℕ} {final : Bool}
    (h : readSymbols escaped (searched (k + 1) w) = some final) {r : Option (ℕ × ℕ)} :
    firstBraceFrom pattern (some s₀) (k + 1) escaped idx (chars w) = .ok r ↔
      ∃ body c rest, w = body ++ c :: rest ∧ level braceGrammar k body = some 0 ∧
        braceGrammar.closes c = true ∧ r = some (s₀, idx + body.length) := by
  induction w generalizing k escaped idx with
  | nil =>
    constructor
    · intro h
      exact absurd h (by simp [chars, firstBraceFrom])
    · intro h
      obtain ⟨body, c, rest, hnil, _⟩ := h
      exact absurd hnil.symm (by simp)
  | cons s w ih =>
    obtain ⟨next, hstep, hopened, hclosed, hother⟩ := stepped_of_searched h
    have hletter : braceGrammar.opens s = false → braceGrammar.closes s = false →
        ∀ body, level braceGrammar k (s :: body) = level braceGrammar k body := by
      intro hopens hcloses body
      rw [level_cons, if_neg (by simp [hopens]), if_neg (by simp [hcloses])]
    rw [chars, List.map_cons, ← chars]
    cases hstep with
    | escaped hopens hcloses =>
      rw [← exists_end_cons (hletter hopens hcloses) (by simp [hcloses]),
        ← ih (hother hopens hcloses), firstBraceFrom, if_pos rfl]
    | backslash hc =>
      obtain ⟨hopens, hcloses⟩ := not_brace_of_char (s := s) (by rw [hc]; decide)
      rw [← exists_end_cons (hletter hopens hcloses) (by simp [hcloses]),
        ← ih (hother hopens hcloses), firstBraceFrom, if_neg Bool.false_ne_true, if_pos hc]
    | other hc =>
      obtain ⟨hopens, hcloses⟩ := not_brace_of_char hc.2
      rw [← exists_end_cons (hletter hopens hcloses) (by simp [hcloses]),
        ← ih (hother hopens hcloses), firstBraceFrom, if_neg Bool.false_ne_true, if_neg hc.1,
        if_neg hc.2.1, if_neg hc.2.2]
    | opened hc hquoted =>
      have hopens := opens_eq_true.mpr ⟨hc, hquoted⟩
      have hlevel : ∀ body, level braceGrammar k (s :: body) = level braceGrammar (k + 1) body := by
        intro body
        rw [level_cons, if_pos hopens]
      rw [← exists_end_cons hlevel (by simp [braceGrammar, hc]), ← ih (hopened hopens),
        firstBraceFrom, if_neg Bool.false_ne_true, if_neg (by rw [hc]; decide), if_pos hc,
        if_neg (Nat.succ_ne_zero k)]
    | closed hc hquoted =>
      have hcloses := closes_eq_true.mpr ⟨hc, hquoted⟩
      have hopens : ¬ braceGrammar.opens s = true := by simp [braceGrammar, hc]
      rw [firstBraceFrom, if_neg Bool.false_ne_true, if_neg (by rw [hc]; decide),
        if_neg (by rw [hc]; decide), if_pos hc, if_neg (Nat.succ_ne_zero k)]
      by_cases hk : k = 0
      · subst hk
        rw [if_pos rfl, exists_end_close hcloses]
        exact ⟨fun h => (Except.ok.inj h).symm, fun h => congrArg Except.ok h.symm⟩
      · have hlevel : ∀ body, level braceGrammar k (s :: body) =
            level braceGrammar (k - 1) body := by
          intro body
          rw [level_cons, if_neg hopens, if_pos hcloses, if_neg hk]
        have hw := hclosed hcloses (by omega)
        rw [show k + 1 - 1 = k - 1 + 1 by omega] at hw
        rw [← exists_end_cons hlevel (fun h => hk h.1), ← ih hw, if_neg (by omega),
          show k + 1 - 1 = k - 1 + 1 by omega]

/-- The symbols are no braces. -/
def Letters (w : List Symbol) : Prop :=
  ∀ s ∈ w, braceGrammar.opens s = false ∧ braceGrammar.closes s = false

/-- The places of the braces of the first group, counted from `idx` on; there may be no brace. -/
def FirstGroup (w : List Symbol) (idx : ℕ) (r : Option (ℕ × ℕ)) : Prop :=
  (r = none ∧ Letters w) ∨
    ∃ front o body c rest, w = front ++ o :: (body ++ c :: rest) ∧ Letters front ∧
      braceGrammar.opens o = true ∧ Balanced braceGrammar body ∧ braceGrammar.closes c = true ∧
      r = some (idx + front.length, idx + front.length + 1 + body.length)

theorem letters_cons : Letters (s :: w) ↔
    (braceGrammar.opens s = false ∧ braceGrammar.closes s = false) ∧ Letters w :=
  List.forall_mem_cons

theorem firstGroup_cons_letter (hs : braceGrammar.opens s = false ∧ braceGrammar.closes s = false)
    {r : Option (ℕ × ℕ)} : FirstGroup (s :: w) idx r ↔ FirstGroup w (idx + 1) r := by
  have hlen : ∀ front : List Symbol, idx + (s :: front).length = idx + 1 + front.length := by
    intro front
    rw [List.length_cons, Nat.add_assoc, Nat.add_comm 1]
  refine or_congr (and_congr Iff.rfl (letters_cons.trans (and_iff_right hs))) ?_
  constructor
  · intro h
    obtain ⟨front, o, body, c, rest, hcons, hfront, ho, hbody, hc, rfl⟩ := h
    cases front with
    | nil =>
      obtain ⟨rfl, -⟩ := List.cons.inj hcons
      exact absurd ho (by simp [hs.1])
    | cons t front =>
      obtain ⟨rfl, rfl⟩ := List.cons.inj hcons
      exact ⟨front, o, body, c, rest, rfl, (letters_cons.mp hfront).2, ho, hbody, hc,
        by rw [hlen]⟩
  · intro h
    obtain ⟨front, o, body, c, rest, rfl, hfront, ho, hbody, hc, rfl⟩ := h
    exact ⟨s :: front, o, body, c, rest, rfl, letters_cons.mpr ⟨hs, hfront⟩, ho, hbody, hc,
      by rw [hlen]⟩

/-- Behind an open brace, the first group ends where the group ends that the brace opens. -/
theorem firstGroup_cons_open (hs : braceGrammar.opens s = true) {r : Option (ℕ × ℕ)} :
    FirstGroup (s :: w) idx r ↔
      ∃ body c rest, w = body ++ c :: rest ∧ level braceGrammar 0 body = some 0 ∧
        braceGrammar.closes c = true ∧ r = some (idx, idx + 1 + body.length) := by
  constructor
  · intro h
    rcases h with ⟨_, hletters⟩ | ⟨front, o, body, c, rest, hcons, hfront, _, hbody, hc, rfl⟩
    · exact absurd hs (by simp [(letters_cons.mp hletters).1.1])
    · cases front with
      | nil =>
        obtain ⟨rfl, rfl⟩ := List.cons.inj hcons
        exact ⟨body, c, rest, rfl, hbody, hc, rfl⟩
      | cons t front =>
        obtain ⟨rfl, -⟩ := List.cons.inj hcons
        exact absurd hs (by simp [(letters_cons.mp hfront).1.1])
  · intro h
    obtain ⟨body, c, rest, rfl, hbody, hc, rfl⟩ := h
    right
    exact ⟨[], s, body, c, rest, rfl, fun t ht => absurd ht List.not_mem_nil, hs, hbody, hc, rfl⟩

/-- A text that begins with a closing brace has no first group. -/
theorem not_firstGroup_cons_close (hs : braceGrammar.closes s = true) {r : Option (ℕ × ℕ)} :
    ¬ FirstGroup (s :: w) idx r := by
  intro h
  rcases h with ⟨_, hletters⟩ | ⟨front, o, body, c, rest, hcons, hfront, ho, _⟩
  · exact absurd hs (by simp [(letters_cons.mp hletters).1.2])
  · cases front with
    | nil =>
      obtain ⟨rfl, -⟩ := List.cons.inj hcons
      exact absurd hs (by simp [braceGrammar.opens_not_closes _ ho])
    | cons t front =>
      obtain ⟨rfl, -⟩ := List.cons.inj hcons
      exact absurd hs (by simp [(letters_cons.mp hfront).1.2])

/-- Outside of groups, the search finds the first group, if there is a brace. -/
theorem firstBraceFrom_outside {final : Bool}
    (h : readSymbols escaped (searched 0 w) = some final) {r : Option (ℕ × ℕ)} :
    firstBraceFrom pattern none 0 escaped idx (chars w) = .ok r ↔ FirstGroup w idx r := by
  induction w generalizing escaped idx with
  | nil =>
    constructor
    · intro h
      exact Or.inl ⟨(Except.ok.inj h).symm, fun s hs => absurd hs List.not_mem_nil⟩
    · intro h
      rcases h with ⟨rfl, _⟩ | ⟨front, o, body, c, rest, hnil, _⟩
      · rfl
      · exact absurd hnil.symm (by simp)
  | cons s w ih =>
    obtain ⟨next, hstep, hopened, _, hother⟩ := stepped_of_searched h
    rw [chars, List.map_cons, ← chars]
    cases hstep with
    | escaped hopens hcloses =>
      rw [firstGroup_cons_letter ⟨hopens, hcloses⟩, ← ih (hother hopens hcloses), firstBraceFrom,
        if_pos rfl]
    | backslash hc =>
      have hletter := not_brace_of_char (s := s) (by rw [hc]; decide)
      rw [firstGroup_cons_letter hletter, ← ih (hother hletter.1 hletter.2), firstBraceFrom,
        if_neg Bool.false_ne_true, if_pos hc]
    | other hc =>
      have hletter := not_brace_of_char hc.2
      rw [firstGroup_cons_letter hletter, ← ih (hother hletter.1 hletter.2), firstBraceFrom,
        if_neg Bool.false_ne_true, if_neg hc.1, if_neg hc.2.1, if_neg hc.2.2]
    | opened hc hquoted =>
      have hopens := opens_eq_true.mpr ⟨hc, hquoted⟩
      rw [firstBraceFrom, if_neg Bool.false_ne_true, if_neg (by rw [hc]; decide), if_pos hc,
        if_pos rfl, firstBraceFrom_inside (hopened hopens), firstGroup_cons_open hopens]
    | closed hc hquoted =>
      have hcloses := closes_eq_true.mpr ⟨hc, hquoted⟩
      rw [firstBraceFrom, if_neg Bool.false_ne_true, if_neg (by rw [hc]; decide),
        if_neg (by rw [hc]; decide), if_pos hc, if_pos rfl]
      exact iff_of_false Outcome.bail_ne_ok (not_firstGroup_cons_close hcloses)

/-- A balanced text has no brace or a first group. -/
theorem exists_firstGroup (h : Balanced braceGrammar w) (idx : ℕ) : ∃ r, FirstGroup w idx r := by
  induction w generalizing idx with
  | nil => exact ⟨none, Or.inl ⟨rfl, fun s hs => absurd hs List.not_mem_nil⟩⟩
  | cons s w ih =>
    by_cases hopens : braceGrammar.opens s = true
    · obtain ⟨body, c, rest, rfl, hbody, hc, _⟩ := exists_close hopens h
      exact ⟨_, (firstGroup_cons_open hopens).mpr ⟨body, c, rest, rfl, hbody, hc, rfl⟩⟩
    · by_cases hcloses : braceGrammar.closes s = true
      · rw [Braces.Balanced, level_cons, if_neg hopens, if_pos hcloses, if_pos rfl] at h
        exact absurd h.symm (Option.some_ne_none 0)
      · rw [Braces.Balanced, level_cons, if_neg hopens, if_neg hcloses] at h
        obtain ⟨r, hr⟩ := ih h (idx + 1)
        exact ⟨r, (firstGroup_cons_letter ⟨by simpa using hopens, by simpa using hcloses⟩).mpr hr⟩

/-! ## The choices of a group -/

/-- The braces of the loop over the body of a group, which knows of no escapes. -/
def bareGrammar : Grammar Symbol Char :=
  { braceGrammar with
    opens := fun s => s.char = '{'
    closes := fun s => s.char = '}'
    opens_not_closes := by
      intro s h
      simp only [decide_eq_true_eq] at h
      simp [h] }

/-- The loop over the body of a group splits it where it is to be split: it is a range, or its
quoted braces hide no separator, make none, and close nothing. -/
def LoopReads (body : List Symbol) : Prop :=
  rangeValues (chars body) ≠ none ∨
    (level bareGrammar 0 body).isSome ∧
      alternatives bareGrammar body = alternatives braceGrammar body

instance (body : List Symbol) : Decidable (LoopReads body) :=
  inferInstanceAs (Decidable (_ ∨ _))

/-- Where no brace closes what is not open, the loop over the body splits at the separators
outside of all braces. -/
theorem braceChoicesFrom_eq_ok {body current : List Char} {choices : List (List Char)} {k : ℕ}
    (h : (level bareGrammar k w).isSome) :
    ∃ part parts, alternativesFrom bareGrammar k w = part :: parts ∧
      braceChoicesFrom body choices current k (chars w) =
        .ok (choices ++ (current ++ chars part) :: parts.map chars) := by
  induction w generalizing k choices current with
  | nil => exact ⟨[], [], rfl, by rw [chars, List.map_nil, List.append_nil]; rfl⟩
  | cons s w ih =>
    rw [level] at h
    rw [chars, List.map_cons, ← chars]
    -- a symbol that stays in its part
    have hkeep : ∀ {k' : ℕ}, (level bareGrammar k' w).isSome →
        alternativesFrom bareGrammar k (s :: w) = consHead s (alternativesFrom bareGrammar k' w) →
        braceChoicesFrom body choices current k (s.char :: chars w) =
          braceChoicesFrom body choices (current ++ [s.char]) k' (chars w) →
        ∃ part parts, alternativesFrom bareGrammar k (s :: w) = part :: parts ∧
          braceChoicesFrom body choices current k (s.char :: chars w) =
            .ok (choices ++ (current ++ chars part) :: parts.map chars) := by
      intro k' hlevel halts hloop
      obtain ⟨part, parts, heq, hok⟩ := @ih _ _ k' hlevel
      refine ⟨s :: part, parts, by rw [halts, heq]; rfl, ?_⟩
      rw [hloop, hok, List.append_assoc]
      rfl
    by_cases ho : s.char = '{'
    · have hopens : bareGrammar.opens s = true := decide_eq_true ho
      rw [if_pos hopens] at h
      refine hkeep h ?_ ?_
      · rw [alternativesFrom, if_pos hopens]
      · rw [braceChoicesFrom, if_pos ho]
    · have hopens : ¬ bareGrammar.opens s = true := fun h => ho (of_decide_eq_true h)
      rw [if_neg hopens] at h
      by_cases hc : s.char = '}'
      · have hcloses : bareGrammar.closes s = true := decide_eq_true hc
        rw [if_pos hcloses] at h
        by_cases hk : k = 0
        · rw [if_pos hk] at h
          exact absurd h (by simp)
        · rw [if_neg hk] at h
          refine hkeep h ?_ ?_
          · rw [alternativesFrom, if_neg hopens, if_pos hcloses]
          · rw [braceChoicesFrom, if_neg ho, if_pos hc, if_neg hk]
      · have hcloses : ¬ bareGrammar.closes s = true := fun h => hc (of_decide_eq_true h)
        rw [if_neg hcloses] at h
        by_cases hcomma : s.char = ',' ∧ k = 0
        · obtain ⟨hchar, rfl⟩ := hcomma
          obtain ⟨part, parts, heq, hok⟩ := @ih [] (choices ++ [current]) 0 h
          refine ⟨[], part :: parts, ?_, ?_⟩
          · rw [alternativesFrom, if_neg hopens, if_neg hcloses,
              if_pos ⟨decide_eq_true hchar, rfl⟩, heq]
          · rw [braceChoicesFrom, if_neg ho, if_neg hc, if_pos ⟨hchar, rfl⟩, hok]
            simp [chars]
        · refine hkeep h ?_ ?_
          · rw [alternativesFrom, if_neg hopens, if_neg hcloses,
              if_neg fun h => hcomma ⟨of_decide_eq_true h.1, h.2⟩]
          · rw [braceChoicesFrom, if_neg ho, if_neg hc, if_neg hcomma]

theorem chars_literals (text : List Char) : chars (literals text) = text := by
  rw [chars, literals, List.map_map]
  exact List.map_id text

theorem spells_literals : Spells braceGrammar literals := by
  intro v
  refine ⟨?_, chars_literals v⟩
  intro s hs
  obtain ⟨c, _, rfl⟩ := List.mem_map.mp hs
  simp [braceGrammar]

variable {front body rest : List Symbol} {o c : Symbol}

/-- The loop finds the choices of the group. -/
theorem braceChoices_eq_ok (h : LoopReads body) :
    braceChoices (chars body) = .ok ((choices braceGrammar literals body).map chars) := by
  have hvalues : braceGrammar.values body = rangeValues (chars body) := rfl
  unfold braceChoices choices
  unfold LoopReads at h
  rw [hvalues]
  cases hrange : rangeValues (chars body) with
  | some vs =>
    dsimp only
    rw [List.map_map]
    simp [Function.comp_def, chars_literals]
  | none =>
    obtain ⟨hlevel, heq⟩ := h.resolve_left fun h => h hrange
    obtain ⟨part, parts, halts, hok⟩ := @braceChoicesFrom_eq_ok _ (chars body) [] [] 0 hlevel
    dsimp only
    rw [hok, ← heq, alternatives, halts]
    rfl

theorem choices_ne_nil (body : List Symbol) : choices braceGrammar literals body ≠ [] := by
  unfold choices
  split
  · rename_i vs hvs
    rw [Ne, List.map_eq_nil_iff]
    exact rangeValues_ne_nil hvs
  · exact alternativesFrom_ne_nil 0 body

end Psign.Code
