import Psign.Code.Format
import Psign.CodeLib.GlobUtf8

/-!
# Glob matching

`glob_match` of `code.rs`: a pattern and a path are matched octet by octet, with a table of the
pairs of positions that were tried.  The table never changes an answer (`Consistent`), and an
answer is membership in the language of the pattern in which `**/` is any run
(`globMatchMemo_iff_octets`).

The reading of the rules is `globLanguage`: `**/` is whole directories.  The matcher tries what
follows `**/` at every position of the path, not only behind a `/`, so `**/a` matches `ba`
(`followsRules_dirs_lit`); and its `?` is one octet of a character (`followsRules_question`).
`globMatchMemo_iff_globLanguage` says where neither makes a difference.
-/

namespace Psign.Code

open CodeLib CodeLib.Glob CodeLib.RustStr CodeLib.Unicode

/-! ## The code -/

/-- The table `memo`, by what is left of the pattern and of the path. -/
abbrev Memo := ℕ × ℕ → Option Bool

/-- Take the answer from the table, or find it and put it there. -/
def memoized (key : ℕ × ℕ) (result : StateM Memo Bool) : StateM Memo Bool := fun memo =>
  match memo key with
  | some value => (value, memo)
  | none =>
    let r := result memo
    (r.1, fun k => if k = key then some r.1 else r.2 k)

/-- `||`. -/
def orElse (first second : StateM Memo Bool) : StateM Memo Bool := fun memo =>
  match first memo with
  | (true, memo) => (true, memo)
  | (false, memo) => second memo

/-- `glob_match_inner`, at the positions where `p` and `t` are left, with the use of the table as
an argument. -/
def globMatchInnerWith (table : ℕ × ℕ → StateM Memo Bool → StateM Memo Bool) (p t : List UInt8) :
    StateM Memo Bool :=
  table (p.length, t.length) <|
    match p, t with
    | [], t => pure (decide (t = []))
    | a :: p', t =>
      if a = byteSymbols.star then
        if p'[0]? = some byteSymbols.star then
          orElse
            (orElse
              (if p'[1]? = some byteSymbols.sep then globMatchInnerWith table (p'.drop 2) t
                else pure false)
              (globMatchInnerWith table (p'.drop 1) t))
            (match t with
              | [] => pure false
              | _ :: t' => globMatchInnerWith table (a :: p') t')
        else
          orElse (globMatchInnerWith table p' t)
            (match t with
              | [] => pure false
              | c :: t' =>
                if c ≠ byteSymbols.sep then globMatchInnerWith table (a :: p') t' else pure false)
      else if a = byteSymbols.question then
        match t with
        | [] => pure false
        | c :: t' => if c ≠ byteSymbols.sep then globMatchInnerWith table p' t' else pure false
      else
        match t with
        | [] => pure false
        | c :: t' => if SameByte a c then globMatchInnerWith table p' t' else pure false
termination_by p.length + t.length
decreasing_by
  all_goals simp only [List.length_cons, List.length_drop]
  all_goals omega

/-- `glob_match`. -/
def globMatchMemo (pattern text : List Char) : Bool :=
  (globMatchInnerWith memoized (utf8Encode pattern) (utf8Encode text) fun _ => none).1

/-- `glob_match` without the table. -/
def globMatchUntabled (pattern text : List Char) : Bool :=
  (globMatchInnerWith (fun _ result => result) (utf8Encode pattern) (utf8Encode text) fun _ => none).1

/-! ## What the rules say -/

/-- The paths that a pattern is to match: `*` is a run without `/`, `?` one character other than
`/`, `**/` whole directories, another `**` any run, and other characters are themselves up to
ASCII case. -/
def globLanguage (pattern : List Char) : Language Char :=
  charLanguage (tokens charSymbols pattern)

/-- The octets that a pattern of octets matches when `**/` is any run. -/
def looseLanguage (p : List UInt8) : Language UInt8 :=
  byteLanguage ((tokens byteSymbols p).map Token.loosen)

variable {p t rest : List UInt8}

theorem mem_loose_nil : t ∈ looseLanguage [] ↔ t = [] := Iff.rfl

/-- A doubled star takes one more octet, or leaves the path to what follows it, which may be what
follows a `/` as well. -/
theorem mem_loose_starStar :
    t ∈ looseLanguage (byteSymbols.star :: byteSymbols.star :: rest) ↔
      ((rest[0]? = some byteSymbols.sep ∧ t ∈ looseLanguage (rest.drop 1)) ∨
        t ∈ looseLanguage rest) ∨
      ∃ c t', t = c :: t' ∧ t' ∈ looseLanguage (byteSymbols.star :: byteSymbols.star :: rest) := by
  by_cases hsep : rest[0]? = some byteSymbols.sep
  · obtain ⟨rest, rfl⟩ : ∃ rest', rest = byteSymbols.sep :: rest' := by
      cases rest with
      | nil => simp at hsep
      | cons d rest' => exact ⟨rest', by simpa using hsep⟩
    have hloose : looseLanguage (byteSymbols.star :: byteSymbols.star :: byteSymbols.sep :: rest) =
        byteLanguage (.anyRun :: (tokens byteSymbols rest).map Token.loosen) := by
      rw [looseLanguage, tokens_dirs]
      rfl
    have hlit : looseLanguage (byteSymbols.sep :: rest) =
        byteLanguage (.lit byteSymbols.sep :: (tokens byteSymbols rest).map Token.loosen) := by
      rw [looseLanguage, tokens_lit (by decide) (by decide)]
      rfl
    rw [hloose, hlit, byteLanguage, mem_anyRun]
    constructor
    · intro h
      rcases h with h | h
      · exact Or.inl (Or.inl ⟨rfl, h⟩)
      · exact Or.inr h
    · intro h
      rcases h with (⟨_, h⟩ | h) | h
      · exact Or.inl h
      · -- a run may take the `/` too
        obtain ⟨d, t', rfl, _, h⟩ := mem_lit.mp h
        exact Or.inr ⟨d, t', rfl, mem_anyRun.mpr (Or.inl h)⟩
      · exact Or.inr h
  · have hloose : looseLanguage (byteSymbols.star :: byteSymbols.star :: rest) =
        byteLanguage (.anyRun :: (tokens byteSymbols rest).map Token.loosen) := by
      rw [looseLanguage, tokens_anyRun hsep]
      rfl
    rw [hloose, byteLanguage, mem_anyRun]
    simp only [hsep, false_and, false_or]
    rfl

theorem mem_loose_star (h : rest[0]? ≠ some byteSymbols.star) :
    t ∈ looseLanguage (byteSymbols.star :: rest) ↔
      t ∈ looseLanguage rest ∨
        ∃ c t', t = c :: t' ∧ c ≠ byteSymbols.sep ∧
          t' ∈ looseLanguage (byteSymbols.star :: rest) := by
  rw [looseLanguage, tokens_star h]
  exact mem_star

theorem mem_loose_question :
    t ∈ looseLanguage (byteSymbols.question :: rest) ↔
      ∃ c t', t = c :: t' ∧ c ≠ byteSymbols.sep ∧ t' ∈ looseLanguage rest := by
  rw [looseLanguage, tokens_question (by decide)]
  exact mem_one

theorem mem_loose_lit {a : UInt8} (hstar : a ≠ byteSymbols.star)
    (hquestion : a ≠ byteSymbols.question) :
    t ∈ looseLanguage (a :: rest) ↔
      ∃ c t', t = c :: t' ∧ SameByte a c ∧ t' ∈ looseLanguage rest := by
  rw [looseLanguage, tokens_lit hstar hquestion]
  exact mem_lit

/-! ## The table -/

/-- The answers in the table are right, for what is left of a pattern `P` and a path `T`. -/
def Consistent (P T : List UInt8) (memo : Memo) : Prop :=
  ∀ p t value, p <:+ P → t <:+ T → memo (p.length, t.length) = some value →
    (value = true ↔ t ∈ looseLanguage p)

/-- The computation answers a question, and leaves a table with right answers. -/
def Answers (P T : List UInt8) (m : StateM Memo Bool) (φ : Prop) : Prop :=
  ∀ memo, Consistent P T memo → ((m memo).1 = true ↔ φ) ∧ Consistent P T (m memo).2

variable {P T : List UInt8} {first second : StateM Memo Bool} {φ ψ : Prop}

theorem answers_pure {b : Bool} (h : b = true ↔ φ) : Answers P T (pure b) φ :=
  fun _ hmemo => ⟨h, hmemo⟩

theorem answers_false (h : ¬ φ) : Answers P T (pure false) φ :=
  answers_pure (iff_of_false (by decide) h)

theorem answers_orElse (hfirst : Answers P T first φ) (hsecond : Answers P T second ψ) :
    Answers P T (orElse first second) (φ ∨ ψ) := by
  intro memo hmemo
  obtain ⟨hvalue, hmemo'⟩ := hfirst memo hmemo
  unfold orElse
  split
  · rename_i memo' heq
    rw [heq] at hvalue hmemo'
    exact ⟨iff_of_true rfl (Or.inl (hvalue.mp rfl)), hmemo'⟩
  · rename_i memo' heq
    rw [heq] at hvalue hmemo'
    obtain ⟨hvalue', hmemo''⟩ := hsecond memo' hmemo'
    refine ⟨hvalue'.trans ?_, hmemo''⟩
    exact (or_iff_right (mt hvalue.mpr Bool.false_ne_true)).symm

theorem answers_ite {c : Prop} [Decidable c] {m : StateM Memo Bool} (h : c → Answers P T m φ) :
    Answers P T (if c then m else pure false) (c ∧ φ) := by
  split
  · rename_i hc
    intro memo hmemo
    obtain ⟨hvalue, hmemo'⟩ := h hc memo hmemo
    exact ⟨hvalue.trans (and_iff_right hc).symm, hmemo'⟩
  · rename_i hc
    exact answers_false fun h => hc h.1

theorem Answers.congr {m : StateM Memo Bool} (h : Answers P T m φ) (hiff : φ ↔ ψ) :
    Answers P T m ψ := by
  intro memo hmemo
  obtain ⟨hvalue, hmemo'⟩ := h memo hmemo
  exact ⟨hvalue.trans hiff, hmemo'⟩

/-- The use of the table keeps answers. -/
def KeepsAnswers (P T : List UInt8) (table : ℕ × ℕ → StateM Memo Bool → StateM Memo Bool) : Prop :=
  ∀ {p t m}, p <:+ P → t <:+ T → Answers P T m (t ∈ looseLanguage p) →
    Answers P T (table (p.length, t.length) m) (t ∈ looseLanguage p)

theorem keepsAnswers_memoized : KeepsAnswers P T memoized := by
  intro p t m hp ht h memo hmemo
  unfold memoized
  split
  · rename_i value hvalue
    exact ⟨hmemo p t value hp ht hvalue, hmemo⟩
  · obtain ⟨hvalue, hmemo'⟩ := h memo hmemo
    refine ⟨hvalue, ?_⟩
    intro p' t' value hp' ht' hget
    dsimp only at hget
    split at hget
    · rename_i hkey
      -- a suffix is told by its length
      obtain ⟨hplen, htlen⟩ := Prod.mk.inj hkey
      have hsame : ∀ {a b l : List UInt8}, a <:+ l → b <:+ l → a.length = b.length → a = b :=
        fun ha hb hlen =>
          (List.suffix_of_suffix_length_le ha hb (Nat.le_of_eq hlen)).eq_of_length hlen
      obtain rfl := hsame hp' hp hplen
      obtain rfl := hsame ht' ht htlen
      rw [← Option.some.inj hget]
      exact hvalue
    · exact hmemo' p' t' value hp' ht' hget

/-- A matched octet and the rest, at the beginning of what is left of the path. -/
theorem answers_head (c : UInt8 → Prop) [DecidablePred c] {q : List UInt8}
    {next : List UInt8 → StateM Memo Bool} :
    (∀ d t', t = d :: t' → Answers P T (next t') (t' ∈ looseLanguage q)) →
    Answers P T
      (match t with
        | [] => pure false
        | d :: t' => if c d then next t' else pure false)
      (∃ d t', t = d :: t' ∧ c d ∧ t' ∈ looseLanguage q) := by
  intro hnext
  cases t with
  | nil =>
    refine answers_false fun h => ?_
    obtain ⟨d, t', heq, _⟩ := h
    exact absurd heq.symm (List.cons_ne_nil d t')
  | cons d t' =>
    refine (answers_ite fun _ => hnext d t' rfl).congr ?_
    constructor
    · intro h
      exact ⟨d, t', rfl, h⟩
    · intro h
      obtain ⟨_, _, heq, h⟩ := h
      obtain ⟨rfl, rfl⟩ := List.cons.inj heq
      exact h

theorem answers_tail {q : List UInt8} {next : List UInt8 → StateM Memo Bool} :
    (∀ d t', t = d :: t' → Answers P T (next t') (t' ∈ looseLanguage q)) →
    Answers P T
      (match t with
        | [] => pure false
        | _ :: t' => next t')
      (∃ d t', t = d :: t' ∧ t' ∈ looseLanguage q) := by
  intro hnext
  cases t with
  | nil =>
    refine answers_false fun h => ?_
    obtain ⟨d, t', heq, _⟩ := h
    exact absurd heq.symm (List.cons_ne_nil d t')
  | cons d t' =>
    refine (hnext d t' rfl).congr ?_
    constructor
    · intro h
      exact ⟨d, t', rfl, h⟩
    · intro h
      obtain ⟨_, _, heq, h⟩ := h
      exact (List.cons.inj heq).2 ▸ h

/-- The matcher answers whether the octets that are left are in the language of the pattern that
is left. -/
theorem answers_globMatchInnerWith {table : ℕ × ℕ → StateM Memo Bool → StateM Memo Bool}
    (htable : KeepsAnswers P T table) (p t : List UInt8) (hp : p <:+ P) (ht : t <:+ T) :
    Answers P T (globMatchInnerWith table p t) (t ∈ looseLanguage p) := by
  unfold globMatchInnerWith
  refine htable hp ht ?_
  cases p with
  | nil =>
    refine answers_pure ?_
    rw [decide_eq_true_eq]
    exact mem_loose_nil.symm
  | cons a rest =>
    have hrest : rest <:+ P := (List.suffix_cons a rest).trans hp
    have hdrop : ∀ k, rest.drop k <:+ P := fun k => (List.drop_suffix k rest).trans hrest
    have htail : ∀ {d t'}, t = d :: t' → t' <:+ T := by
      intro d t' heq
      exact (heq ▸ List.suffix_cons d t').trans ht
    dsimp only
    by_cases hstar : a = byteSymbols.star
    · subst hstar
      rw [if_pos rfl]
      by_cases hsecond : rest[0]? = some byteSymbols.star
      · obtain ⟨rest, rfl⟩ : ∃ rest', rest = byteSymbols.star :: rest' := by
          cases rest with
          | nil => simp at hsecond
          | cons d rest' => exact ⟨rest', by simpa using hsecond⟩
        rw [if_pos hsecond]
        have hskip := answers_ite (P := P) (T := T) (c := rest[0]? = some byteSymbols.sep)
          fun _ => answers_globMatchInnerWith htable (rest.drop 1) t (hdrop 2) ht
        exact (answers_orElse
          (answers_orElse hskip (answers_globMatchInnerWith htable rest t (hdrop 1) ht))
          (answers_tail fun d t' heq =>
            answers_globMatchInnerWith htable _ t' hp (htail heq))).congr mem_loose_starStar.symm
      · rw [if_neg hsecond]
        refine (answers_orElse (answers_globMatchInnerWith htable rest t hrest ht)
          (answers_head (fun d => d ≠ byteSymbols.sep) fun d t' heq =>
            answers_globMatchInnerWith htable (byteSymbols.star :: rest) t' hp (htail heq))).congr ?_
        exact (mem_loose_star hsecond).symm
    · rw [if_neg hstar]
      by_cases hquestion : a = byteSymbols.question
      · subst hquestion
        rw [if_pos rfl]
        exact (answers_head (fun d => d ≠ byteSymbols.sep) fun d t' heq =>
          answers_globMatchInnerWith htable rest t' hrest (htail heq)).congr mem_loose_question.symm
      · rw [if_neg hquestion]
        exact (answers_head (SameByte a) fun d t' heq =>
          answers_globMatchInnerWith htable rest t' hrest (htail heq)).congr
            (mem_loose_lit hstar hquestion).symm
termination_by p.length + t.length
decreasing_by
  all_goals subst_vars
  all_goals simp only [List.length_cons, List.length_drop]
  all_goals omega

theorem consistent_empty : Consistent P T fun _ => none :=
  fun _ _ _ _ _ h => absurd h (Option.some_ne_none _).symm

/-- The answer of the matcher, in octets. -/
theorem globMatchMemo_iff_octets {pattern path : List Char} :
    globMatchMemo pattern path = true ↔ utf8Encode path ∈ looseLanguage (utf8Encode pattern) :=
  (answers_globMatchInnerWith keepsAnswers_memoized _ _ List.suffix_rfl List.suffix_rfl _
    consistent_empty).1

theorem globMatchUntabled_iff_octets {pattern path : List Char} :
    globMatchUntabled pattern path = true ↔
      utf8Encode path ∈ looseLanguage (utf8Encode pattern) :=
  (answers_globMatchInnerWith (fun _ _ h => h) _ _ List.suffix_rfl List.suffix_rfl _
    consistent_empty).1

/-- The table never changes an answer. -/
theorem globMatchMemo_eq_untabled (pattern path : List Char) :
    globMatchMemo pattern path = globMatchUntabled pattern path :=
  Bool.eq_iff_iff.mpr (globMatchMemo_iff_octets.trans globMatchUntabled_iff_octets.symm)

/-! ## The matcher without a table -/

theorem anySuffix_iff {test : List UInt8 → Bool} {R : List UInt8 → Prop}
    (h : ∀ t, R t ↔ test t = true ∨ ∃ c t', t = c :: t' ∧ R t') :
    anySuffix test t = true ↔ R t := by
  induction t with
  | nil =>
    rw [h, anySuffix]
    simp
  | cons c t ih =>
    rw [h, anySuffix, Bool.or_eq_true, ih]
    simp

theorem anySuffixWithin_iff {test : List UInt8 → Bool} {R : List UInt8 → Prop}
    (h : ∀ t, R t ↔ test t = true ∨ ∃ c t', t = c :: t' ∧ c ≠ byteSymbols.sep ∧ R t') :
    anySuffixWithin test t = true ↔ R t := by
  induction t with
  | nil =>
    rw [h, anySuffixWithin]
    simp
  | cons c t ih =>
    have hsep : byteSymbols.sep = 0x2F := rfl
    rw [h, anySuffixWithin, Bool.or_eq_true, Bool.and_eq_true, ih, hsep]
    simp

theorem sameByte_iff {a b : UInt8} : SameByte a b ↔ asciiLower a = asciiLower b := by
  have hlow : ∀ b : UInt8, Glob.asciiLower b = asciiLower b := by
    intro b
    unfold Glob.asciiLower asciiLower
    simp only [UInt8.le_iff_toNat_le]
    rfl
  rw [SameByte, hlow, hlow]

/-- `globMatchInner` answers the same. -/
theorem globMatchInner_iff {p t : List UInt8} :
    globMatchInner p t = true ↔ t ∈ looseLanguage p := by
  have hstar : byteSymbols.star = 0x2A := rfl
  have hquestion : byteSymbols.question = 0x3F := rfl
  have hsep : byteSymbols.sep = 0x2F := rfl
  induction hn : p.length using Nat.strong_induction_on generalizing p t with
  | _ n ih =>
    have ih : ∀ {q t : List UInt8}, q.length < n →
        (globMatchInner q t = true ↔ t ∈ looseLanguage q) := fun hq => ih _ hq rfl
    cases p with
    | nil =>
      rw [globMatchInner, mem_loose_nil, List.isEmpty_iff]
    | cons a rest =>
      rw [List.length_cons] at hn
      by_cases ha : a = 0x2A
      · subst ha
        rw [← hstar]
        cases rest with
        | nil =>
          refine anySuffixWithin_iff fun t => ?_
          rw [ih (by simp [← hn])]
          exact mem_loose_star (by simp)
        | cons b behind =>
          rw [List.length_cons] at hn
          by_cases hb : b = 0x2A
          · subst hb
            rw [← hstar]
            cases behind with
            | nil =>
              refine anySuffix_iff fun t => ?_
              rw [ih (by simp [← hn])]
              simpa using @mem_loose_starStar t []
            | cons d behind =>
              rw [List.length_cons] at hn
              by_cases hd : d = 0x2F
              · subst hd
                refine anySuffix_iff fun t => ?_
                rw [Bool.or_eq_true, ih (by omega), ih (by rw [List.length_cons]; omega),
                  mem_loose_starStar]
                simp [hsep]
              · rw [globMatchInner.eq_def]
                simp only [hstar, if_true, if_neg hd]
                refine anySuffix_iff fun t => ?_
                rw [ih (by rw [List.length_cons]; omega), ← hstar, mem_loose_starStar]
                simp [hsep, hd]
          · rw [globMatchInner.eq_def]
            simp only [hstar, if_true, if_neg hb]
            refine anySuffixWithin_iff fun t => ?_
            rw [ih (by rw [List.length_cons]; omega)]
            exact mem_loose_star (by simpa [hstar] using hb)
      · rw [globMatchInner.eq_def]
        simp only [if_neg ha]
        by_cases ha' : a = 0x3F
        · subst ha'
          rw [← hquestion, mem_loose_question]
          cases t with
          | nil => simp
          | cons c t =>
            simp only [if_true, Bool.and_eq_true, decide_eq_true_eq,
              ih (show rest.length < n by omega)]
            simp [hsep]
        · rw [mem_loose_lit (hstar ▸ ha) (hquestion ▸ ha')]
          cases t with
          | nil => simp
          | cons c t =>
            simp only [if_neg ha', Bool.and_eq_true, decide_eq_true_eq,
              ih (show rest.length < n by omega)]
            simp [sameByte_iff]

/-- The matcher that plans and runs use is the one with the table. -/
theorem globMatch_eq_globMatchMemo (pattern text : List Char) :
    globMatch pattern text = globMatchMemo pattern text :=
  Bool.eq_iff_iff.mpr (globMatchInner_iff.trans globMatchMemo_iff_octets.symm)

/-! ## In characters -/

variable {pattern path : List Char}

theorem map_loosen_utf8 (tok : Token Char) :
    tok.utf8.map Token.loosen = tok.loosen.utf8 := by
  cases tok with
  | lit c =>
    show ((String.utf8EncodeChar c).map Token.lit).map Token.loosen = _
    rw [List.map_map]
    rfl
  | star => rfl
  | one => rfl
  | dirs => rfl
  | anyRun => rfl

/-- The octets of a pattern mean what its tokens mean in octets, with any run for `**/`. -/
theorem looseLanguage_utf8Encode (pattern : List Char) :
    looseLanguage (utf8Encode pattern) =
      byteLanguage (((tokens charSymbols pattern).map Token.loosen).flatMap Token.utf8) := by
  rw [looseLanguage, tokens_utf8Encode, List.map_flatMap, List.flatMap_map]
  simp only [map_loosen_utf8]

theorem one_notMem_loosen (h : '?' ∉ pattern) :
    .one ∉ (tokens charSymbols pattern).map Token.loosen := by
  intro hmem
  obtain ⟨tok, htok, heq⟩ := List.mem_map.mp hmem
  cases tok with
  | one => exact h (one_mem_tokensFrom htok)
  | star => simp [Token.loosen] at heq
  | dirs => simp [Token.loosen] at heq
  | anyRun => simp [Token.loosen] at heq
  | lit c => simp [Token.loosen] at heq

/-- The answer of the matcher in characters, where no `?` can take part of one. -/
theorem globMatchMemo_iff (hone : '?' ∉ pattern ∨ ∀ c ∈ path, IsAscii c) :
    globMatchMemo pattern path = true ↔
      path ∈ charLanguage ((tokens charSymbols pattern).map Token.loosen) := by
  rw [globMatchMemo_iff_octets, looseLanguage_utf8Encode]
  exact mem_utf8Encode_iff (hone.imp_left one_notMem_loosen)

/-- Where every `**/` is in front of a star, the matcher follows the rules. -/
theorem globMatchMemo_iff_globLanguage (hdirs : dirsBeforeStar (tokens charSymbols pattern) = true)
    (hone : '?' ∉ pattern ∨ ∀ c ∈ path, IsAscii c) :
    globMatchMemo pattern path = true ↔ path ∈ globLanguage pattern := by
  rw [globMatchMemo_iff hone, charLanguage, language_loosen hdirs]
  rfl

/-! ## Where the rules are missed -/

/-- The matcher answers as the rules say. -/
def FollowsRules (pattern path : List Char) : Prop :=
  globMatchMemo pattern path = true ↔ path ∈ globLanguage pattern

theorem mem_literal {w s : List Char} :
    s ∈ charLanguage (w.map Token.lit) ↔ List.Forall₂ SameChar w s := by
  have h := @mem_map_lit _ '/' SameChar [] s w
  rw [List.append_nil] at h
  refine h.trans ?_
  constructor
  · intro h
    obtain ⟨m, rest, rfl, hm, hrest⟩ := h
    obtain rfl := mem_nil.mp hrest
    rwa [List.append_nil]
  · intro h
    exact ⟨s, [], (List.append_nil s).symm, h, mem_nil.mpr rfl⟩

/-- One token between literals. -/
theorem mem_lit_token_lit {u w : List Char} {tok : Token Char} :
    path ∈ charLanguage (u.map Token.lit ++ tok :: w.map Token.lit) ↔
      ∃ u' lead w', path = u' ++ (lead ++ w') ∧ List.Forall₂ SameChar u u' ∧
        List.Forall₂ SameChar w w' ∧ lead ∈ tok.language '/' SameChar := by
  constructor
  · intro h
    obtain ⟨u', s, rfl, hu, hs⟩ := mem_map_lit.mp h
    obtain ⟨lead, hlead, w', hw, rfl⟩ := mem_cons.mp hs
    exact ⟨u', lead, w', rfl, hu, mem_literal.mp hw, hlead⟩
  · intro h
    obtain ⟨u', lead, w', rfl, hu, hw, hlead⟩ := h
    exact mem_map_lit.mpr ⟨u', _, rfl, hu, mem_cons.mpr ⟨lead, hlead, w', mem_literal.mpr hw, rfl⟩⟩

/-- `**/` between literals: the matcher takes anything, the rules whole directories. -/
theorem followsRules_dirs_lit {u w : List Char} (hu : ∀ c ∈ u, c ≠ '*' ∧ c ≠ '?')
    (hw : ∀ c ∈ w, c ≠ '*' ∧ c ≠ '?') :
    FollowsRules (u ++ '*' :: '*' :: '/' :: w) path ↔
      ∀ u' lead w', path = u' ++ (lead ++ w') → List.Forall₂ SameChar u u' →
        List.Forall₂ SameChar w w' → lead = [] ∨ ['/'] <:+ lead := by
  have hrest : tokens charSymbols ('*' :: '*' :: '/' :: w) = .dirs :: w.map Token.lit := by
    have hlit := @tokens_map_lit _ _ charSymbols [] w hw
    rw [List.append_nil, tokens_nil, List.append_nil] at hlit
    exact tokens_dirs.trans (congrArg _ hlit)
  have htokens : tokens charSymbols (u ++ '*' :: '*' :: '/' :: w) =
      u.map Token.lit ++ .dirs :: w.map Token.lit := by
    rw [tokens_map_lit hu, hrest]
  have hloosen : (tokens charSymbols (u ++ '*' :: '*' :: '/' :: w)).map Token.loosen =
      u.map Token.lit ++ .anyRun :: w.map Token.lit := by
    rw [htokens, List.map_append, List.map_cons, List.map_map, List.map_map]
    rfl
  have hone : '?' ∉ u ++ '*' :: '*' :: '/' :: w := by
    intro h
    rcases List.mem_append.mp h with h | h
    · exact (hu _ h).2 rfl
    · have hmem : '?' ∈ w := by simpa using h
      exact (hw _ hmem).2 rfl
  rw [FollowsRules, globMatchMemo_iff (Or.inl hone), hloosen, globLanguage, htokens,
    mem_lit_token_lit, mem_lit_token_lit]
  constructor
  · intro h u' lead w' hpath hu' hw'
    obtain ⟨v, lead₁, w₁, hpath₁, hv, hw₁, hlead⟩ := h.mp ⟨u', lead, w', hpath, hu', hw', trivial⟩
    -- the literals are told by their lengths
    have hlen : u'.length = v.length := hu'.length_eq.symm.trans hv.length_eq
    have hlen' : w'.length = w₁.length := hw'.length_eq.symm.trans hw₁.length_eq
    have hsame := (List.append_inj (hpath.symm.trans hpath₁) hlen).2
    obtain ⟨rfl, _⟩ := List.append_inj' hsame hlen'
    exact mem_directories.mp hlead
  · intro h
    constructor
    · intro hmem
      obtain ⟨u', lead, w', hpath, hu', hw', _⟩ := hmem
      exact ⟨u', lead, w', hpath, hu', hw', mem_directories.mpr (h u' lead w' hpath hu' hw')⟩
    · intro hmem
      obtain ⟨u', lead, w', hpath, hu', hw', _⟩ := hmem
      exact ⟨u', lead, w', hpath, hu', hw', trivial⟩

/-- One `?` and one character: the matcher takes an ASCII character only. -/
theorem globMatchMemo_question {c : Char} :
    (globMatchMemo ['?'] [c] = true ↔ c ≠ '/' ∧ IsAscii c) ∧
      ([c] ∈ globLanguage ['?'] ↔ c ≠ '/') := by
  have hquestion : utf8Encode ['?'] = [byteSymbols.question] := by decide
  constructor
  · rw [globMatchMemo_iff_octets, hquestion, mem_loose_question, utf8Encode_cons]
    by_cases hc : IsAscii c
    · rw [utf8EncodeChar_of_isAscii hc]
      constructor
      · intro h
        obtain ⟨d, t', heq, hsep, _⟩ := h
        refine ⟨?_, hc⟩
        rintro rfl
        exact hsep (List.cons.inj heq).1.symm
      · intro h
        refine ⟨asciiByte c, [], rfl, ?_, mem_loose_nil.mpr rfl⟩
        exact mt (asciiByte_inj hc (by decide)).mp h.1
    · constructor
      · intro h
        obtain ⟨d, t', heq, _, hnil⟩ := h
        obtain rfl := mem_loose_nil.mp hnil
        rw [utf8Encode, List.flatMap_nil, List.append_nil] at heq
        exact absurd (utf8EncodeChar_eq_singleton heq) hc
      · intro h
        exact absurd h.2 hc
  · have htokens : tokens charSymbols ['?'] = [.one] := by decide
    rw [globLanguage, htokens]
    constructor
    · intro h
      obtain ⟨d, s', heq, hd, _⟩ := mem_one.mp h
      exact (List.cons.inj heq).1 ▸ hd
    · intro h
      exact mem_one.mpr ⟨c, [], rfl, h, mem_nil.mpr rfl⟩

theorem followsRules_question {c : Char} : FollowsRules ['?'] [c] ↔ c = '/' ∨ IsAscii c := by
  rw [FollowsRules, globMatchMemo_question.1, globMatchMemo_question.2]
  constructor
  · intro h
    by_cases hc : c = '/'
    · exact Or.inl hc
    · exact Or.inr (h.mpr hc).2
  · intro h
    constructor
    · intro hmatch
      exact hmatch.1
    · intro hc
      exact ⟨hc, h.resolve_left hc⟩

/-- `**/b` matches `ab`, where no whole directory is in front of `b`. -/
theorem dirs_match_part_of_name : ¬ FollowsRules ['*', '*', '/', 'b'] ['a', 'b'] := by
  have h := @followsRules_dirs_lit ['a', 'b'] [] ['b'] (by decide) (by decide)
  intro hrules
  have hlead := h.mp hrules [] ['a'] ['b'] rfl List.Forall₂.nil
    (List.Forall₂.cons rfl List.Forall₂.nil)
  exact absurd hlead (by decide)

end Psign.Code
