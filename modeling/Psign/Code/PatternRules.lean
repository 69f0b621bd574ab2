import Psign.Code.PatternSymbols

/-!
# What selection patterns stand for

The first group of a text is replaced by its choices, and what is left is shorter.  `ComesTo` are
the texts that come up, and where the code reads each of them right (`ReadsRight`), the expansion of
the unescaped text lists the texts that an input stands for (`expandBraces_eq_ok`).

The condition is exact for inputs without a group (`searchReads_of_expandBraces`), so for quoted
names (`patternRules_quote`), and for inputs whose text has no backslash: no brace is left in their
rules (`not_brace_of_expandBraces`), while a quoted brace would have to be in one
(`plain_of_expandBraces`).
-/

namespace Psign.Code

open CodeLib CodeLib.Braces CodeLib.RustStr

variable {w front body rest : List Symbol} {o c : Symbol} {pattern : List Char} {escaped : Bool}
  {idx : ℕ}

/-! ## The expansion -/

theorem groupBody_chars : groupBody (chars (front ++ o :: (body ++ c :: rest))) front.length
    (front.length + 1 + body.length) = chars body := by
  have hsplit : chars (front ++ o :: (body ++ c :: rest)) =
      (chars front ++ [o.char]) ++ (chars body ++ c.char :: chars rest) := by
    simp [chars]
  have hlen : (chars front ++ [o.char]).length = front.length + 1 := by
    simp [chars]
  rw [groupBody, hsplit, List.drop_take, ← hlen, List.drop_left, hlen,
    show front.length + 1 + body.length - (front.length + 1) = (chars body).length by
      rw [chars, List.length_map]; omega, List.take_left]

theorem substituted_chars (p : List Symbol) :
    substituted (chars (front ++ o :: (body ++ c :: rest))) front.length
      (front.length + 1 + body.length) (chars p) = chars (front ++ (p ++ rest)) := by
  have hfront : chars (front ++ o :: (body ++ c :: rest)) =
      chars front ++ (o.char :: (chars body ++ c.char :: chars rest)) := by
    simp [chars]
  have hrest : chars (front ++ o :: (body ++ c :: rest)) =
      (chars front ++ o.char :: (chars body ++ [c.char])) ++ chars rest := by
    simp [chars]
  have hlen : (chars front ++ o.char :: (chars body ++ [c.char])).length =
      front.length + 1 + body.length + 1 := by
    simp [chars]
    omega
  have hlen' : (chars front).length = front.length := List.length_map _
  rw [substituted, ← hlen, hrest, List.drop_left, ← hrest, hfront, ← hlen', List.take_left]
  simp [chars]

/-- The texts that the expansion comes to: a choice is in the place of the first group.  Where what
is behind the group stands for nothing, the first choice is the only one that is tried. -/
inductive ComesTo : List Symbol → List Symbol → Prop
  | self {w : List Symbol} : ComesTo w w
  | choice {front body rest p v : List Symbol} {o c : Symbol} (hfront : Letters front)
      (ho : braceGrammar.opens o = true) (hbody : Balanced braceGrammar body)
      (hc : braceGrammar.closes c = true) (hp : p ∈ choices braceGrammar literals body)
      (htried : Balanced braceGrammar rest ∨ (choices braceGrammar literals body).head? = some p)
      (hv : ComesTo (front ++ (p ++ rest)) v) : ComesTo (front ++ o :: (body ++ c :: rest)) v

/-- The code reads the first group of a text right: the search for its braces does, and the loop
over its body. -/
def ReadsRight (w : List Symbol) : Prop :=
  SearchReads w ∧ ∀ front o body c rest, w = front ++ o :: (body ++ c :: rest) → Letters front →
    braceGrammar.opens o = true → Balanced braceGrammar body → braceGrammar.closes c = true →
    LoopReads body

/-- The first group of a text is determined. -/
theorem group_unique {front' body' rest' : List Symbol} {o' c' : Symbol} (hfront : Letters front)
    (ho : braceGrammar.opens o = true) (hbody : Balanced braceGrammar body)
    (hc : braceGrammar.closes c = true) (hfront' : Letters front')
    (ho' : braceGrammar.opens o' = true) (hbody' : Balanced braceGrammar body')
    (hc' : braceGrammar.closes c' = true)
    (h : front ++ o :: (body ++ c :: rest) = front' ++ o' :: (body' ++ c' :: rest')) :
    front = front' ∧ o = o' ∧ body = body' ∧ c = c' ∧ rest = rest' := by
  induction front generalizing front' with
  | nil =>
    cases front' with
    | nil =>
      obtain ⟨rfl, htail⟩ := List.cons.inj h
      obtain ⟨rfl, rfl, rfl⟩ := close_unique hbody hbody' hc hc' htail
      exact ⟨rfl, rfl, rfl, rfl, rfl⟩
    | cons t front' =>
      obtain ⟨rfl, -⟩ := List.cons.inj h
      exact absurd ho (by simp [(letters_cons.mp hfront').1.1])
  | cons s front ih =>
    cases front' with
    | nil =>
      obtain ⟨rfl, -⟩ := List.cons.inj h
      exact absurd ho' (by simp [(letters_cons.mp hfront).1.1])
    | cons t front' =>
      obtain ⟨rfl, htail⟩ := List.cons.inj h
      obtain ⟨rfl, hrest⟩ := ih (letters_cons.mp hfront).2 (letters_cons.mp hfront').2 htail
      exact ⟨rfl, hrest⟩

/-- A group that is read right, and what its choices come to. -/
theorem reads_of_group (hfront : Letters front) (ho : braceGrammar.opens o = true)
    (hbody : Balanced braceGrammar body) (hc : braceGrammar.closes c = true)
    (hsearch : SearchReads (front ++ o :: (body ++ c :: rest))) (hloop : LoopReads body)
    (h : ∀ p ∈ choices braceGrammar literals body, ∀ v, ComesTo (front ++ (p ++ rest)) v →
      ReadsRight v) :
    ∀ v, ComesTo (front ++ o :: (body ++ c :: rest)) v → ReadsRight v := by
  intro v hv
  generalize hw : front ++ o :: (body ++ c :: rest) = w at hv
  cases hv with
  | self =>
    subst hw
    refine ⟨hsearch, ?_⟩
    intro front' o' body' c' rest' heq hfront' ho' hbody' hc'
    obtain ⟨-, -, rfl, -, -⟩ := group_unique hfront ho hbody hc hfront' ho' hbody' hc' heq
    exact hloop
  | choice hfront' ho' hbody' hc' hp _ hv =>
    obtain ⟨rfl, -, rfl, -, rfl⟩ := group_unique hfront ho hbody hc hfront' ho' hbody' hc' hw
    exact h _ hp v hv

theorem balanced_rest {p : List Symbol} {xs : List (List Char)} (hfront : Letters front)
    (hp : Balanced braceGrammar p) (h : Expands braceGrammar (front ++ (p ++ rest)) xs) :
    Balanced braceGrammar rest := by
  obtain ⟨_, _, _, h, _⟩ := exists_of_expands_append (balanced_of_letters hfront) h
  obtain ⟨_, _, _, h, _⟩ := exists_of_expands_append hp h
  exact h.balanced

/-- A group is expanded to what its choices are expanded to.  The later choices are only tried
where the first one has come to something, so that the rest is balanced. -/
theorem expandBraces_group {xs : List (List Char)}
    (hbrace : firstBrace (chars (front ++ o :: (body ++ c :: rest))) =
      .ok (some (front.length, front.length + 1 + body.length)))
    (hok : braceChoices (chars body) = .ok ((choices braceGrammar literals body).map chars))
    (hfront : Letters front) (ho : braceGrammar.opens o = true)
    (hbody : Balanced braceGrammar body) (hc : braceGrammar.closes c = true)
    (hchoice : ∀ p ∈ choices braceGrammar literals body,
      Balanced braceGrammar rest ∨ (choices braceGrammar literals body).head? = some p →
      ∀ {ys : List (List Char)},
        expandBraces (substituted (chars (front ++ o :: (body ++ c :: rest))) front.length
            (front.length + 1 + body.length) (chars p)) = .ok ys ↔
          Expands braceGrammar (front ++ (p ++ rest)) ys) :
    expandBraces (chars (front ++ o :: (body ++ c :: rest))) = .ok xs ↔
      Expands braceGrammar (front ++ o :: (body ++ c :: rest)) xs := by
  obtain ⟨first, others, hcons⟩ := List.exists_cons_of_ne_nil (choices_ne_nil body)
  have hmem : first ∈ choices braceGrammar literals body := hcons ▸ List.mem_cons_self
  have hhead : (choices braceGrammar literals body).head? = some first := by
    rw [hcons, List.head?_cons]
  have hbalanced := balanced_of_mem_choices spells_literals hbody
  rw [expandBraces_of_group hbrace, groupBody_chars, hok,
    expands_group spells_literals (choices_ne_nil body) hfront ho hbody hc]
  constructor
  · intro h
    obtain ⟨_, out, heq, hout, rfl⟩ := h
    obtain rfl := Except.ok.inj heq
    rw [List.mapM_map, Outcome.mapM_eq_ok_iff] at hout
    obtain ⟨ys, _, hys⟩ := exists_mem_zip hout.1 hmem
    have hrest := balanced_rest hfront (hbalanced first hmem)
      ((hchoice first hmem (Or.inr hhead)).mp (hout.2 _ hys))
    refine ⟨out, hout.1, fun p hp => ?_, rfl⟩
    exact (hchoice p.1 (List.of_mem_zip hp).1 (Or.inl hrest)).mp (hout.2 p hp)
  · intro h
    obtain ⟨zss, hlen, halts, rfl⟩ := h
    obtain ⟨ys, _, hys⟩ := exists_mem_zip hlen hmem
    have hrest := balanced_rest hfront (hbalanced first hmem) (halts _ hys)
    refine ⟨_, zss, rfl, ?_, rfl⟩
    rw [List.mapM_map, Outcome.mapM_eq_ok_iff]
    refine ⟨hlen, fun p hp => ?_⟩
    exact (hchoice p.1 (List.of_mem_zip hp).1 (Or.inl hrest)).mpr (halts p hp)

/-- The expansion of the unescaped text lists the texts that the input stands for, where each text
that it comes to is read right. -/
theorem expandBraces_eq_ok (h : ∀ v, ComesTo w v → ReadsRight v) {xs : List (List Char)} :
    expandBraces (chars w) = .ok xs ↔ Expands braceGrammar w xs := by
  induction hn : w.length using Nat.strong_induction_on generalizing w xs with
  | _ n ih =>
    obtain ⟨hsearch, hloop⟩ := h w .self
    obtain ⟨final, hfinal⟩ := Option.isSome_iff_exists.mp hsearch
    have hfirst : ∀ {r}, firstBrace (chars w) = .ok r ↔ FirstGroup w 0 r :=
      firstBraceFrom_outside hfinal
    cases hbrace : firstBrace (chars w) with
    | error failure =>
      rw [expandBraces_of_error hbrace]
      constructor
      · intro h
        exact absurd h (by simp)
      · intro hxs
        obtain ⟨r, hr⟩ := exists_firstGroup hxs.balanced 0
        exact absurd (hbrace.symm.trans (hfirst.mpr hr)) (by simp)
    | ok r =>
      rcases hfirst.mp hbrace with ⟨rfl, hletters⟩ |
        ⟨front, o, body, c, rest, rfl, hfront, ho, hbody, hc, rfl⟩
      · have hself := expands_letters hletters
        rw [expandBraces_of_none hbrace, Except.ok.injEq]
        constructor
        · intro heq
          exact heq ▸ hself
        · intro hxs
          exact hself.unique hxs
      · rw [Nat.zero_add] at hbrace
        have hok := braceChoices_eq_ok (hloop front o body c rest rfl hfront ho hbody hc)
        apply expandBraces_group hbrace hok hfront ho hbody hc
        intro p hp htried ys
        have hshort := length_substituted_lt hbrace (groupBody_chars.symm ▸ hok)
          (List.mem_map_of_mem hp)
        rw [substituted_chars, chars, chars, List.length_map, List.length_map, hn] at hshort
        rw [substituted_chars]
        exact ih _ hshort (fun v hv => h v (.choice hfront ho hbody hc hp htried hv)) rfl

/-! ## The rules of an input -/

/-- Whether an input includes, and what it says of the pattern. -/
def inputOf : List Char → Bool × List Char
  | '!' :: rest => (false, rest)
  | input => (true, input)

theorem inputOf_of_head {input : List Char} (h : ¬ ['!'] <+: input) : inputOf input = (true, input) := by
  unfold inputOf
  split
  · rename_i rest
    exact absurd (List.prefix_append ['!'] rest) h
  · rfl

theorem symbols_escape {next : Char} (rest : List Char) (h : isSpecial next = true) :
    symbols ('\\' :: next :: rest) = (symbols rest).map (⟨next, true⟩ :: ·) := by
  rw [symbols, if_pos rfl]
  simp [h]

theorem unescapedInput_eq_ok {input : List Char} {r : Bool × List Char} :
    unescapedInput input = .ok r ↔
      ∃ w, symbols (inputOf input).2 = some w ∧ r = ((inputOf input).1, chars w) := by
  unfold unescapedInput
  split
  · rename_i rest hrest
    obtain rfl := stripPrefix_eq_some.mp hrest
    have hinput : inputOf (['\\', '!'] ++ rest) = (true, ['\\', '!'] ++ rest) := rfl
    rw [hinput, List.cons_append, List.singleton_append, symbols_escape rest (by decide),
      Outcome.bind_eq_ok]
    simp only [unescapePattern_eq_ok, Outcome.pure_eq_ok, Except.ok.injEq,
      Option.map_eq_some_iff]
    constructor
    · intro h
      obtain ⟨_, ⟨w, hw, rfl⟩, rfl⟩ := h
      exact ⟨_, ⟨w, hw, rfl⟩, rfl⟩
    · intro h
      obtain ⟨_, ⟨w, hw, rfl⟩, rfl⟩ := h
      exact ⟨_, ⟨w, hw, rfl⟩, rfl⟩
  · split
    · rename_i rest hrest
      obtain rfl := stripPrefix_eq_some.mp hrest
      have hinput : inputOf (['!'] ++ rest) = (false, rest) := rfl
      rw [hinput, Outcome.bind_eq_ok]
      simp only [unescapePattern_eq_ok, Outcome.pure_eq_ok, Except.ok.injEq]
      constructor
      · intro h
        obtain ⟨_, ⟨w, hw, rfl⟩, rfl⟩ := h
        exact ⟨w, hw, rfl⟩
      · intro h
        obtain ⟨w, hw, rfl⟩ := h
        exact ⟨_, ⟨w, hw, rfl⟩, rfl⟩
    · rename_i hnone
      have hhead : ¬ ['!'] <+: input := by
        intro h
        obtain ⟨rest, rfl⟩ := h
        exact absurd (hnone.symm.trans (stripPrefix_eq_some.mpr rfl)) (Option.some_ne_none _).symm
      rw [inputOf_of_head hhead, Outcome.bind_eq_ok]
      simp only [unescapePattern_eq_ok, Outcome.pure_eq_ok, Except.ok.injEq]
      constructor
      · intro h
        obtain ⟨_, ⟨w, hw, rfl⟩, rfl⟩ := h
        exact ⟨w, hw, rfl⟩
      · intro h
        obtain ⟨w, hw, rfl⟩ := h
        exact ⟨_, ⟨w, hw, rfl⟩, rfl⟩

/-- Rules are the expansion of the unescaped text of an input. -/
theorem patternRules_eq_ok_iff {paths : NativePaths} {input : List Char}
    {rules : List PatternRule} :
    patternRules paths input = .ok rules ↔
      ∃ w, symbols (inputOf input).2 = some w ∧ chars w ≠ [] ∧
        validateRelativePattern paths (chars w) = .ok () ∧
        ∃ xs, expandBraces (chars w) = .ok xs ∧
          rules = xs.map fun pattern => ⟨(inputOf input).1, pattern⟩ := by
  unfold patternRules
  rw [Outcome.bind_eq_ok]
  constructor
  · intro h
    obtain ⟨r, hr, h⟩ := h
    obtain ⟨w, hw, rfl⟩ := unescapedInput_eq_ok.mp hr
    obtain ⟨hne, h⟩ := Outcome.guardThat_bind_eq_ok.mp h
    obtain ⟨_, hvalid, h⟩ := Outcome.bind_eq_ok.mp h
    obtain ⟨xs, hxs, h⟩ := Outcome.bind_eq_ok.mp h
    exact ⟨w, hw, hne, hvalid, xs, hxs, (Except.ok.inj h).symm⟩
  · intro h
    obtain ⟨w, hw, hne, hvalid, xs, hxs, rfl⟩ := h
    refine ⟨_, unescapedInput_eq_ok.mpr ⟨w, hw, rfl⟩, Outcome.guardThat_bind_eq_ok.mpr ⟨hne, ?_⟩⟩
    exact Outcome.bind_eq_ok.mpr ⟨(), hvalid, Outcome.bind_eq_ok.mpr ⟨xs, hxs, rfl⟩⟩

/-- An input stands for rules. -/
def StandsFor (paths : NativePaths) (input : List Char) (rules : List PatternRule) : Prop :=
  ∃ w, symbols (inputOf input).2 = some w ∧ w ≠ [] ∧
    validateRelativePattern paths (chars w) = .ok () ∧
    ∃ xs, Expands braceGrammar w xs ∧
      rules = xs.map fun pattern => ⟨(inputOf input).1, pattern⟩

/-- The rules of an input are those that it stands for, and it has none if it stands for none. -/
def FollowsGrammar (paths : NativePaths) (input : List Char) : Prop :=
  ∀ rules, patternRules paths input = .ok rules ↔ StandsFor paths input rules

/-- If an input has a pattern that is not refused before, each text that the expansion comes to is
read right. -/
def InputReads (paths : NativePaths) (input : List Char) : Prop :=
  ∀ w, symbols (inputOf input).2 = some w → w ≠ [] →
    validateRelativePattern paths (chars w) = .ok () → ∀ v, ComesTo w v → ReadsRight v

theorem StandsFor.unique {paths : NativePaths} {input : List Char} {rules rules' : List PatternRule}
    (h : StandsFor paths input rules) (h' : StandsFor paths input rules') : rules = rules' := by
  obtain ⟨w, hw, _, _, xs, hxs, rfl⟩ := h
  obtain ⟨w', hw', _, _, ys, hys, rfl⟩ := h'
  obtain rfl := Option.some.inj (hw.symm.trans hw')
  rw [hxs.unique hys]

theorem chars_ne_nil : chars w ≠ [] ↔ w ≠ [] := not_congr List.map_eq_nil_iff

theorem followsGrammar_of_reads {paths : NativePaths} {input : List Char}
    (h : InputReads paths input) : FollowsGrammar paths input := by
  intro rules
  rw [patternRules_eq_ok_iff]
  refine exists_congr fun w => and_congr_right fun hw => ?_
  rw [chars_ne_nil]
  refine and_congr_right fun hne => and_congr_right fun hvalid => ?_
  exact exists_congr fun xs => and_congr (expandBraces_eq_ok (h w hw hne hvalid)) Iff.rfl

/-! ## Names -/

/-- A name with a backslash in front of each special character. -/
def quote (name : List Char) : List Char :=
  name.flatMap fun c => if isSpecial c then ['\\', c] else [c]

/-- The symbols of a quoted name. -/
def quotedSymbols (name : List Char) : List Symbol := name.map fun c => ⟨c, isSpecial c⟩

theorem chars_quotedSymbols (name : List Char) : chars (quotedSymbols name) = name := by
  rw [chars, quotedSymbols, List.map_map]
  exact List.map_id name

theorem symbols_quote (name : List Char) : symbols (quote name) = some (quotedSymbols name) := by
  induction name with
  | nil => rfl
  | cons c name ih =>
    rw [quote, List.flatMap_cons, ← quote, quotedSymbols, List.map_cons, ← quotedSymbols]
    by_cases hc : isSpecial c = true
    · rw [if_pos hc]
      show symbols ('\\' :: c :: quote name) = _
      rw [symbols_escape _ hc, ih, hc]
      rfl
    · rw [if_neg hc]
      have hbackslash : c ≠ '\\' := by
        rintro rfl
        exact hc rfl
      show symbols (c :: quote name) = _
      rw [symbols.eq_def]
      simp only [if_neg hbackslash, ih, Option.map_some]
      rw [Bool.not_eq_true] at hc
      rw [hc]

theorem inputOf_quote (name : List Char) : inputOf (quote name) = (true, quote name) := by
  refine inputOf_of_head ?_
  cases name with
  | nil => decide
  | cons c name =>
    rw [quote, List.flatMap_cons]
    intro h
    by_cases hc : isSpecial c = true
    · rw [if_pos hc] at h
      exact absurd (List.cons_prefix_cons.mp h).1 (by decide)
    · rw [if_neg hc] at h
      exact hc ((List.cons_prefix_cons.mp h).1 ▸ rfl)

theorem letters_quotedSymbols (name : List Char) : Letters (quotedSymbols name) := by
  intro s hs
  obtain ⟨c, _, rfl⟩ := List.mem_map.mp hs
  have hopen : ¬ (c = '{' ∧ isSpecial c = false) := by
    rintro ⟨rfl, h⟩
    exact absurd h (by decide)
  have hclose : ¬ (c = '}' ∧ isSpecial c = false) := by
    rintro ⟨rfl, h⟩
    exact absurd h (by decide)
  constructor
  · rw [← Bool.not_eq_true, opens_eq_true]
    exact hopen
  · rw [← Bool.not_eq_true, closes_eq_true]
    exact hclose

/-! ## Texts without a group -/

/-- In a group, the search does not end without one. -/
theorem firstBraceFrom_ne_none {start : Option ℕ} {k : ℕ} (text : List Char) :
    firstBraceFrom pattern start (k + 1) escaped idx text ≠ .ok none := by
  induction text generalizing start k escaped idx with
  | nil =>
    rw [firstBraceFrom, if_pos (Nat.succ_ne_zero k)]
    exact Outcome.bail_ne_ok
  | cons c text ih =>
    rw [firstBraceFrom.eq_def]
    dsimp only
    split
    · exact ih
    · split
      · exact ih
      · split
        · exact ih
        · split
          · rw [if_neg (Nat.succ_ne_zero k)]
            split
            · split
              · exact fun h => absurd (Except.ok.inj h) (Option.some_ne_none _)
              · exact Outcome.bail_ne_ok
            · rename_i hk
              obtain ⟨k, rfl⟩ := Nat.exists_eq_succ_of_ne_zero (show k ≠ 0 by omega)
              exact ih
          · exact ih

/-- In letters in which the search finds no brace, each brace is behind a backslash that the search
takes for an escape. -/
theorem readSymbols_of_firstBraceFrom {start : Option ℕ} (hletters : Letters w)
    (h : firstBraceFrom pattern start 0 escaped idx (chars w) = .ok none) :
    (readSymbols escaped w).isSome := by
  induction w generalizing start escaped idx with
  | nil => rfl
  | cons s w ih =>
    obtain ⟨hs, hw⟩ := letters_cons.mp hletters
    have hnext : ∀ {next : Bool}, Stepped escaped s next → (readSymbols next w).isSome →
        (readSymbols escaped (s :: w)).isSome := by
      intro next hstep hrest
      obtain ⟨final, hfinal⟩ := Option.isSome_iff_exists.mp hrest
      exact Option.isSome_iff_exists.mpr
        ⟨final, readSymbols_cons_eq_some.mpr ⟨next, hstep, hfinal⟩⟩
    rw [chars, List.map_cons, ← chars, firstBraceFrom.eq_def] at h
    dsimp only at h
    cases escaped with
    | true =>
      rw [if_pos rfl] at h
      exact hnext (.escaped hs.1 hs.2) (ih hw h)
    | false =>
      rw [if_neg Bool.false_ne_true] at h
      split at h
      · rename_i hc
        exact hnext (.backslash hc) (ih hw h)
      · rename_i hbackslash
        split at h
        · exact absurd h (firstBraceFrom_ne_none (chars w))
        · rename_i hopen
          split at h
          · rw [if_pos rfl] at h
            exact absurd h Outcome.bail_ne_ok
          · rename_i hclose
            exact hnext (.other ⟨hbackslash, hopen, hclose⟩) (ih hw h)

theorem searched_of_letters {k : ℕ} (h : Letters w) : searched k w = w := by
  induction w with
  | nil => rfl
  | cons s w ih =>
    obtain ⟨hs, hw⟩ := letters_cons.mp h
    rw [searched, if_neg (by simp [hs.1]), if_neg (by simp [hs.2]), ih hw]

/-- Letters have no first group. -/
theorem not_letters_of_group (ho : braceGrammar.opens o = true) :
    ¬ Letters (front ++ o :: (body ++ c :: rest)) := by
  intro h
  have hletter := (h o (List.mem_append_right front List.mem_cons_self)).1
  exact absurd ho (by simp [hletter])

theorem reads_of_letters (h : Letters w) (hsearch : SearchReads w) :
    ∀ v, ComesTo w v → ReadsRight v := by
  intro v hv
  cases hv with
  | self =>
    refine ⟨hsearch, ?_⟩
    rintro front o body c rest rfl _ ho
    exact absurd h (not_letters_of_group ho)
  | choice _ ho => exact absurd h (not_letters_of_group ho)

/-- Letters expand to themselves only where the search reads them right. -/
theorem searchReads_of_expandBraces (hletters : Letters w)
    (h : expandBraces (chars w) = .ok [chars w]) : SearchReads w := by
  have hkeeps := @expandBraces_keeps (fun _ => True) (fun _ _ _ _ => trivial) _ _ trivial h
  unfold SearchReads
  rw [searched_of_letters hletters]
  exact readSymbols_of_firstBraceFrom hletters (hkeeps _ List.mem_cons_self).2

theorem map_rules_inj {b : Bool} {xs ys : List (List Char)}
    (h : (xs.map fun pattern => PatternRule.mk b pattern) = ys.map fun pattern => ⟨b, pattern⟩) :
    xs = ys :=
  List.map_injective_iff.mpr (fun _ _ h => (PatternRule.mk.inj h).2) h

/-- A name that is quoted gives itself exactly where the search for braces takes a backslash in
front of each of its braces for an escape. -/
theorem patternRules_quote {paths : NativePaths} {name : List Char} :
    patternRules paths (quote name) = .ok [⟨true, name⟩] ↔
      name ≠ [] ∧ validateRelativePattern paths name = .ok () ∧
        SearchReads (quotedSymbols name) := by
  have hsymbols : symbols (inputOf (quote name)).2 = some (quotedSymbols name) := by
    rw [inputOf_quote]
    exact symbols_quote name
  have hletters := letters_quotedSymbols name
  have hself := expands_letters hletters
  rw [show (quotedSymbols name).map braceGrammar.letter = name from chars_quotedSymbols name]
    at hself
  rw [patternRules_eq_ok_iff]
  constructor
  · intro h
    obtain ⟨w, hw, hne, hvalid, xs, hxs, heq⟩ := h
    obtain rfl := Option.some.inj (hsymbols.symm.trans hw)
    rw [inputOf_quote] at heq
    obtain rfl := @map_rules_inj true [name] xs heq
    have hsearch := searchReads_of_expandBraces hletters (by rwa [chars_quotedSymbols] at hxs ⊢)
    rw [chars_quotedSymbols] at hne hvalid
    exact ⟨hne, hvalid, hsearch⟩
  · intro h
    obtain ⟨hne, hvalid, hsearch⟩ := h
    refine ⟨_, hsymbols, by rwa [chars_quotedSymbols], by rwa [chars_quotedSymbols], [name], ?_, ?_⟩
    · exact (expandBraces_eq_ok (reads_of_letters hletters hsearch)).mpr hself
    · rw [inputOf_quote]
      rfl

/-! ## Texts without a backslash -/

/-- The symbols have no backslash and no quoted brace. -/
def Plain (w : List Symbol) : Prop :=
  ∀ s ∈ w, s.char ≠ '\\' ∧ (s.char = '{' ∨ s.char = '}' → s.quoted = false)

theorem readSymbols_of_plain (h : Plain w) : readSymbols false w = some false := by
  induction w with
  | nil => rfl
  | cons s w ih =>
    obtain ⟨hs, hw⟩ := List.forall_mem_cons.mp h
    refine readSymbols_cons_eq_some.mpr ⟨false, ?_, ih hw⟩
    by_cases ho : s.char = '{'
    · exact .opened ho (hs.2 (Or.inl ho))
    · by_cases hc : s.char = '}'
      · exact .closed hc (hs.2 (Or.inr hc))
      · exact .other ⟨hs.1, ho, hc⟩

theorem mem_of_mem_searched {k : ℕ} {s : Symbol} (h : s ∈ searched k w) : s ∈ w := by
  induction w generalizing k with
  | nil => exact h
  | cons t w ih =>
    have hcons : ∀ {k : ℕ}, s ∈ t :: searched k w → s ∈ t :: w := by
      intro k h
      rcases List.mem_cons.mp h with rfl | h
      · exact List.mem_cons_self
      · exact List.mem_cons_of_mem t (ih h)
    unfold searched at h
    split at h
    · exact hcons h
    · split at h
      · split at h
        · rw [List.mem_singleton.mp h]
          exact List.mem_cons_self
        · exact hcons h
      · exact hcons h

/-- Where no brace is quoted, both grammars know the same braces. -/
theorem bareGrammar_of_plain {k : ℕ} (h : Plain w) :
    level bareGrammar k w = level braceGrammar k w ∧
      alternativesFrom bareGrammar k w = alternativesFrom braceGrammar k w := by
  induction w generalizing k with
  | nil => exact ⟨rfl, rfl⟩
  | cons s w ih =>
    obtain ⟨hs, hw⟩ := List.forall_mem_cons.mp h
    have hopens : bareGrammar.opens s = braceGrammar.opens s := by
      rw [Bool.eq_iff_iff, opens_eq_true]
      exact ⟨fun h => ⟨of_decide_eq_true h, hs.2 (Or.inl (of_decide_eq_true h))⟩,
        fun h => decide_eq_true h.1⟩
    have hcloses : bareGrammar.closes s = braceGrammar.closes s := by
      rw [Bool.eq_iff_iff, closes_eq_true]
      exact ⟨fun h => ⟨of_decide_eq_true h, hs.2 (Or.inr (of_decide_eq_true h))⟩,
        fun h => decide_eq_true h.1⟩
    have hseparates : bareGrammar.separates s = braceGrammar.separates s := rfl
    unfold level alternativesFrom
    rw [hopens, hcloses, hseparates, (ih hw).1, (ih hw).1, (ih hw).1, (ih hw).2, (ih hw).2,
      (ih hw).2, (ih hw).2]
    exact ⟨rfl, rfl⟩

theorem readsRight_of_plain (h : Plain w) : ReadsRight w := by
  constructor
  · unfold SearchReads
    rw [readSymbols_of_plain fun s hs => h s (mem_of_mem_searched hs)]
    rfl
  · rintro front o body c rest rfl _ _ hbody _
    have hplain : Plain body := fun s hs =>
      h s (List.mem_append_right front (List.mem_cons_of_mem o (List.mem_append_left _ hs)))
    refine Or.inr ⟨?_, (bareGrammar_of_plain hplain).2⟩
    rw [(bareGrammar_of_plain hplain).1, hbody]
    rfl

theorem plain_of_mem_choices (h : Plain body) :
    ∀ p ∈ choices braceGrammar literals body, Plain p := by
  intro p hp
  unfold choices at hp
  split at hp
  · rename_i vs hvs
    obtain ⟨v, hv, rfl⟩ := List.mem_map.mp hp
    intro s hs
    obtain ⟨c, hc, rfl⟩ := List.mem_map.mp hs
    rcases (of_mem_rangeValues hvs v hv).2 c hc with rfl | hdigit
    · decide
    · refine ⟨?_, ?_⟩
      · rintro rfl
        exact absurd hdigit (by decide)
      · rintro (rfl | rfl) <;> exact absurd hdigit (by decide)
  · exact fun s hs => h s ((sublist_of_mem_alternativesFrom braceGrammar p hp).subset hs)

/-- A text without backslashes and quoted braces is read right to the end. -/
theorem reads_of_plain (h : Plain w) : ∀ v, ComesTo w v → ReadsRight v := by
  intro v hv
  induction hv with
  | self => exact readsRight_of_plain h
  | @choice front body rest p v o c _ _ _ _ hp _ _ ih =>
    refine ih fun s hs => ?_
    rcases List.mem_append.mp hs with hs | hs
    · exact h s (List.mem_append_left _ hs)
    · rcases List.mem_append.mp hs with hs | hs
      · refine plain_of_mem_choices (fun t ht => ?_) p hp s hs
        exact h t (List.mem_append_right front (List.mem_cons_of_mem o (List.mem_append_left _ ht)))
      · refine h s (List.mem_append_right front (List.mem_cons_of_mem o ?_))
        exact List.mem_append_right body (List.mem_cons_of_mem c hs)

/-- Without backslashes, the search for braces misses none. -/
theorem not_brace_of_firstBraceFrom {text : List Char} (hbackslash : '\\' ∉ text)
    (h : firstBraceFrom pattern none 0 false idx text = .ok none) :
    ∀ c ∈ text, c ≠ '{' ∧ c ≠ '}' := by
  induction text generalizing idx with
  | nil => exact fun c hc => absurd hc List.not_mem_nil
  | cons c text ih =>
    rw [List.mem_cons, not_or] at hbackslash
    rw [firstBraceFrom.eq_def] at h
    dsimp only at h
    rw [if_neg Bool.false_ne_true, if_neg fun h => hbackslash.1 h.symm] at h
    split at h
    · exact absurd h (firstBraceFrom_ne_none text)
    · rename_i hopen
      split at h
      · rw [if_pos rfl] at h
        exact absurd h Outcome.bail_ne_ok
      · rename_i hclose
        exact List.forall_mem_cons.mpr ⟨⟨hopen, hclose⟩, ih hbackslash.2 h⟩

/-- Without backslashes, no brace is left in the patterns. -/
theorem not_brace_of_expandBraces {xs : List (List Char)} (hbackslash : '\\' ∉ pattern)
    (h : expandBraces pattern = .ok xs) : ∀ x ∈ xs, ∀ c ∈ x, c ≠ '{' ∧ c ≠ '}' := by
  have hkeeps := @expandBraces_keeps (fun pattern => '\\' ∉ pattern) ?_ _ _ hbackslash h
  · intro x hx
    exact not_brace_of_firstBraceFrom (hkeeps x hx).1 (hkeeps x hx).2
  · intro pattern choice start stop choices _ hchoices hchoice hpattern hmem
    rcases List.mem_append.mp hmem with hmem | hmem
    · rcases List.mem_append.mp hmem with hmem | hmem
      · exact hpattern (List.mem_of_mem_take hmem)
      · rcases mem_of_mem_braceChoices hchoices choice hchoice _ hmem with h | h | h
        · exact hpattern (List.mem_of_mem_take (List.mem_of_mem_drop h))
        · exact absurd h (by decide)
        · exact absurd h (by decide)
    · exact hpattern (List.mem_of_mem_drop hmem)

/-- Where a text without backslashes has a quoted brace, one of the texts that it stands for has it
too. -/
theorem plain_of_expandBraces {xs : List (List Char)} (hbackslash : ∀ s ∈ w, s.char ≠ '\\')
    (hw : Expands braceGrammar w xs) (h : expandBraces (chars w) = .ok xs) : Plain w := by
  have hpattern : '\\' ∉ chars w := by
    intro hmem
    obtain ⟨s, hs, hchar⟩ := List.mem_map.mp hmem
    exact hbackslash s hs hchar
  intro s hs
  refine ⟨hbackslash s hs, fun hbrace => ?_⟩
  by_contra hquoted
  rw [Bool.not_eq_false] at hquoted
  have hletter : braceGrammar.opens s = false ∧ braceGrammar.closes s = false := by
    simp [braceGrammar, hquoted]
  have hsep : braceGrammar.separates s = false := by
    rcases hbrace with hc | hc <;> simp [braceGrammar, hc]
  have hvalues : ∀ body vs, braceGrammar.values body = some vs → vs ≠ [] ∧ s ∉ body := by
    intro body vs hvs
    refine ⟨rangeValues_ne_nil hvs, fun hmem => ?_⟩
    have hnot := not_brace_of_rangeValues hvs
    have hchar : s.char ∈ chars body := List.mem_map_of_mem hmem
    rcases hbrace with hc | hc
    · exact hnot.1 (hc ▸ hchar)
    · exact hnot.2 (hc ▸ hchar)
  obtain ⟨x, hx, hmem⟩ := hw.exists_mem hletter hsep hvalues hs
  have hnot := not_brace_of_expandBraces hpattern h x hx s.char hmem
  rcases hbrace with hc | hc
  · exact hnot.1 hc
  · exact hnot.2 hc

/-- Where an input has no group, or its text no backslash, the rules are those that it stands for
only if each text is read right. -/
theorem reads_of_followsGrammar {paths : NativePaths} {input : List Char}
    (hw : symbols (inputOf input).2 = some w) (hbalanced : Balanced braceGrammar w)
    (hkind : Letters w ∨ ∀ s ∈ w, s.char ≠ '\\') (h : FollowsGrammar paths input) :
    InputReads paths input := by
  intro w' hw' hne hvalid
  obtain rfl := Option.some.inj (hw.symm.trans hw')
  obtain ⟨xs, hxs⟩ := hbalanced.exists_expands
  obtain ⟨w', hw', _, _, ys, hys, heq⟩ :=
    patternRules_eq_ok_iff.mp ((h _).mpr ⟨w, hw, hne, hvalid, xs, hxs, rfl⟩)
  obtain rfl := Option.some.inj (hw.symm.trans hw')
  obtain rfl := map_rules_inj heq
  rcases hkind with hletters | hbackslash
  · obtain rfl := hxs.unique (expands_letters hletters)
    exact reads_of_letters hletters (searchReads_of_expandBraces hletters hys)
  · exact reads_of_plain (plain_of_expandBraces hbackslash hxs hys)

/-- The input `\{a,b\}`: the braces are literal, but there is a rule for each part. -/
theorem quoted_group_expands :
    patternRules unixPaths (quote ['{', 'a', ',', 'b', '}']) = .ok [⟨true, ['a']⟩, ⟨true, ['b']⟩] ∧
    symbols (inputOf (quote ['{', 'a', ',', 'b', '}'])).2 =
      some (quotedSymbols ['{', 'a', ',', 'b', '}']) ∧
    Expands braceGrammar (quotedSymbols ['{', 'a', ',', 'b', '}'])
      [['{', 'a', ',', 'b', '}']] := by
  refine ⟨?_, rfl, expands_letters (letters_quotedSymbols _)⟩
  have hletter : ∀ c : Char, firstBrace [c] = .ok none → expandBraces [c] = .ok [[c]] :=
    fun c h => expandBraces_of_none h
  have hexpand : expandBraces ['{', 'a', ',', 'b', '}'] = .ok [['a'], ['b']] := by
    have hgroup : firstBrace ['{', 'a', ',', 'b', '}'] = .ok (some (0, 4)) := by decide
    refine (expandBraces_of_group hgroup).mpr ⟨[['a'], ['b']], [[['a']], [['b']]], by decide, ?_, rfl⟩
    rw [Outcome.mapM_eq_ok_iff]
    refine ⟨rfl, ?_⟩
    intro p hp
    simp only [List.zip_cons_cons, List.zip_nil_right, List.mem_cons, List.not_mem_nil,
      or_false] at hp
    rcases hp with rfl | rfl
    · exact hletter 'a' (by decide)
    · exact hletter 'b' (by decide)
  exact patternRules_eq_ok_iff.mpr ⟨_, rfl, by decide, by decide, _, hexpand, rfl⟩

/-- The rules of an input are those that it stands for, in order, if each text that the expansion
comes to is read right, and where there is no group or no backslash only then; and a quoted name
gives itself exactly where the search takes each of its braces for escaped. -/
theorem pattern_rules (paths : NativePaths) :
    (∀ input, InputReads paths input → FollowsGrammar paths input) ∧
    (∀ input w, symbols (inputOf input).2 = some w → Balanced braceGrammar w →
      (Letters w ∨ ∀ s ∈ w, s.char ≠ '\\') →
        (FollowsGrammar paths input ↔ InputReads paths input)) ∧
    (∀ input rules rules', StandsFor paths input rules → StandsFor paths input rules' →
      rules = rules') ∧
    ∀ name, patternRules paths (quote name) = .ok [⟨true, name⟩] ↔
      name ≠ [] ∧ validateRelativePattern paths name = .ok () ∧
        SearchReads (quotedSymbols name) := by
  refine ⟨fun input => followsGrammar_of_reads, ?_, fun input rules rules' => StandsFor.unique,
    fun name => patternRules_quote⟩
  intro input w hw hbalanced hkind
  exact ⟨reads_of_followsGrammar hw hbalanced hkind, followsGrammar_of_reads⟩

/-- A letter in front of a group: a choice that ends in a backslash, and a group in the group. -/
theorem pattern_rules_group :
    patternRules unixPaths ['x', '{', 'a', '\\', ',', '{', 'b', ',', 'c', '}', '}'] =
      .ok [⟨true, ['x', 'a', '\\']⟩, ⟨true, ['x', 'b']⟩, ⟨true, ['x', 'c']⟩] := by
  have hletters : ∀ text : List Char, (∀ c ∈ text, c ≠ '{' ∧ c ≠ '}') →
      Letters (text.map fun c => ⟨c, false⟩) := by
    intro text h s hs
    obtain ⟨c, hc, rfl⟩ := List.mem_map.mp hs
    exact not_brace_of_char (h c hc)
  have hone : ∀ text : List Char, (∀ c ∈ text, c ≠ '{' ∧ c ≠ '}') →
      Expands braceGrammar (text.map fun c => ⟨c, false⟩) [text] := by
    intro text h
    have hself := expands_letters (hletters text h)
    rwa [List.map_map, show (braceGrammar.letter ∘ fun c => ⟨c, false⟩) = id from rfl,
      List.map_id] at hself
  have hinner : Expands braceGrammar
      (⟨'{', false⟩ :: ([⟨'b', false⟩, ⟨',', false⟩, ⟨'c', false⟩] ++ [⟨'}', false⟩]))
      (product [[['b']], [['c']]].flatten [[]]) := by
    refine .choice rfl rfl rfl (by decide) rfl ?_ .nil
    intro p hp
    rcases List.mem_cons.mp hp with rfl | hp
    · exact hone ['b'] (by decide)
    · rw [List.mem_singleton.mp hp]
      exact hone ['c'] (by decide)
  have houter : Expands braceGrammar
      (⟨'{', false⟩ :: (([⟨'a', false⟩, ⟨'\\', false⟩, ⟨',', false⟩, ⟨'{', false⟩, ⟨'b', false⟩,
        ⟨',', false⟩, ⟨'c', false⟩, ⟨'}', false⟩]) ++ [⟨'}', false⟩]))
      (product [[['a', '\\']], [['b'], ['c']]].flatten [[]]) := by
    refine .choice rfl rfl rfl (by decide) rfl ?_ .nil
    intro p hp
    rcases List.mem_cons.mp hp with rfl | hp
    · exact hone ['a', '\\'] (by decide)
    · rw [List.mem_singleton.mp hp]
      exact hinner
  refine ((pattern_rules unixPaths).1 _ ?_ _).mpr
    ⟨_, rfl, by decide, by decide, _, .letter rfl rfl houter, rfl⟩
  intro w hw _ _
  obtain rfl := Option.some.inj hw
  refine @reads_of_group [⟨'x', false⟩] [⟨'a', false⟩, ⟨'\\', false⟩, ⟨',', false⟩, ⟨'{', false⟩,
    ⟨'b', false⟩, ⟨',', false⟩, ⟨'c', false⟩, ⟨'}', false⟩] [] ⟨'{', false⟩ ⟨'}', false⟩
    (hletters ['x'] (by decide)) rfl rfl rfl (by decide) (by decide) ?_
  intro p hp
  rcases List.mem_cons.mp hp with rfl | hp
  · exact reads_of_letters (hletters ['x', 'a', '\\'] (by decide)) (by decide)
  · rw [List.mem_singleton.mp hp]
    exact reads_of_plain (by unfold Plain; decide)

end Psign.Code
