import Psign.CodeLib.Braces
import Psign.CodeLib.Decimal
import Psign.CodeLib.Outcome
import Psign.CodeLib.RustStr
import Psign.CodeLib.Subslice

/-!
# Selection patterns

`pattern_rules` of `code.rs`: an input is unescaped, checked, and its brace groups are expanded by
replacing the first one by each of its choices until none is left.

A backslash is to make `!`, a brace or a backslash literal.  But it is taken away before the braces
are looked for, and the search for braces reads the backslashes that are left as escapes a second
time.

A choice is not longer than the body of its group (`length_le_of_mem_braceChoices`), so a
pattern is shorter when a choice is in the place of a group, and the expansion ends.
-/

namespace Psign.Code

open CodeLib CodeLib.Braces CodeLib.Decimal CodeLib.RustStr CodeLib.Subslice

/-! ## The code -/

/-- `PatternRule`. -/
structure PatternRule where
  includes : Bool
  pattern : List Char
  deriving DecidableEq, Repr

/-- `std::path::Component`. -/
inductive PathComponent where
  | pathPrefix
  | rootDir
  | curDir
  | parentDir
  | normal
  deriving DecidableEq, Repr

/-- What the platform says of the path that is collected from parts. -/
structure NativePaths where
  isAbsolute : List (List Char) → Bool
  components : List (List Char) → List PathComponent

/-- Paths of Unix: no part of a pattern has a `/`, and empty parts vanish. -/
def unixPaths : NativePaths where
  isAbsolute _ := false
  components parts :=
    let kind := fun part : List Char =>
      if part = ['.'] then PathComponent.curDir
      else if part = ['.', '.'] then .parentDir else .normal
    match parts.filter fun part => part ≠ [] with
    | [] => []
    | first :: rest => kind first :: (rest.filter fun part => part ≠ ['.']).map kind

/-- `validate_relative_pattern`. -/
def validateRelativePattern (paths : NativePaths) (pattern : List Char) : Outcome Unit := do
  let path := RustStr.split '/' pattern
  Outcome.guardThat (paths.isAbsolute path = false)
    ("absolute patterns are not supported: " ++ String.ofList pattern)
  Outcome.guardThat
    (∀ component ∈ paths.components path, component ≠ .parentDir ∧ component ≠ .rootDir ∧
      component ≠ .pathPrefix)
    ("pattern may not traverse outside the base directory: " ++ String.ofList pattern)

/-- The characters that a backslash makes literal. -/
def isSpecial (c : Char) : Bool := c = '!' || c = '{' || c = '}' || c = '\\'

/-- `unescape_pattern`. -/
def unescapePattern : List Char → Outcome (List Char)
  | [] => .ok []
  | c :: rest =>
    if c = '\\' then
      match rest with
      | [] => .bail "trailing escape"
      | next :: rest => do
        let out ← unescapePattern rest
        return if isSpecial next then next :: out else '\\' :: next :: out
    else do
      let out ← unescapePattern rest
      return c :: out

/-- The loop of `first_brace`. -/
def firstBraceFrom (pattern : List Char) :
    (start : Option ℕ) → (depth : ℕ) → (escaped : Bool) → (idx : ℕ) → List Char →
      Outcome (Option (ℕ × ℕ))
  | _, depth, _, _, [] =>
    if depth ≠ 0 then
      .bail ("unmatched opening brace in pattern: " ++ String.ofList pattern)
    else .ok none
  | start, depth, escaped, idx, c :: rest =>
    if escaped then firstBraceFrom pattern start depth false (idx + 1) rest
    else if c = '\\' then firstBraceFrom pattern start depth true (idx + 1) rest
    else if c = '{' then
      firstBraceFrom pattern (if depth = 0 then some idx else start) (depth + 1) false (idx + 1)
        rest
    else if c = '}' then
      if depth = 0 then
        .bail ("unmatched closing brace in pattern: " ++ String.ofList pattern)
      else if depth = 1 then
        match start with
        | some start => .ok (some (start, idx))
        | none => .bail "brace start"
      else firstBraceFrom pattern start (depth - 1) false (idx + 1) rest
    else firstBraceFrom pattern start depth false (idx + 1) rest

/-- `first_brace`. -/
def firstBrace (pattern : List Char) : Outcome (Option (ℕ × ℕ)) :=
  firstBraceFrom pattern none 0 false 0 pattern

/-- `first..=last`, or the other way round. -/
def i64Range (first last : ℤ) : List ℤ :=
  if first ≤ last then (List.range (last - first + 1).toNat).map fun k : ℕ => first + k
  else ((List.range (first - last + 1).toNat).map fun k : ℕ => last + k).reverse

/-- The values of a body that is a range. -/
def rangeValues (body : List Char) : Option (List (List Char)) := do
  let index ← firstAt? ['.', '.'] body
  let start := body.take index
  let stop := body.drop (index + 2)
  let first ← parseI64 start
  let last ← parseI64 stop
  let width := max start.length stop.length
  return (i64Range first last).map fun n =>
    if width > 1 then formatPadded width n else format n

/-- The loop of `brace_choices`. -/
def braceChoicesFrom (body : List Char) :
    (choices : List (List Char)) → (current : List Char) → (depth : ℕ) → List Char →
      Outcome (List (List Char))
  | choices, current, _, [] => .ok (choices ++ [current])
  | choices, current, depth, c :: rest =>
    if c = '{' then braceChoicesFrom body choices (current ++ [c]) (depth + 1) rest
    else if c = '}' then
      if depth = 0 then .bail ("unmatched closing brace in " ++ String.ofList body)
      else braceChoicesFrom body choices (current ++ [c]) (depth - 1) rest
    else if c = ',' ∧ depth = 0 then braceChoicesFrom body (choices ++ [current]) [] depth rest
    else braceChoicesFrom body choices (current ++ [c]) depth rest

/-- `brace_choices`. -/
def braceChoices (body : List Char) : Outcome (List (List Char)) :=
  match rangeValues body with
  | some values => .ok values
  | none => braceChoicesFrom body [] [] 0 body

/-! ## Choices are shorter than groups -/

/-- The braces that are found lie behind one another in the text. -/
private theorem lt_of_firstBraceFrom {pattern w : List Char} {start : Option ℕ} {depth idx s t : ℕ}
    {escaped : Bool} (hstart : depth ≠ 0 → ∃ s₀, start = some s₀ ∧ s₀ < idx)
    (h : firstBraceFrom pattern start depth escaped idx w = .ok (some (s, t))) :
    s < t ∧ t < idx + w.length := by
  induction w generalizing start depth idx escaped with
  | nil =>
    unfold firstBraceFrom at h
    split at h
    · exact absurd h Outcome.bail_ne_ok
    · exact absurd (Except.ok.inj h) (Option.some_ne_none _).symm
  | cons c rest ih =>
    have hlater : ∀ {start : Option ℕ} {depth : ℕ} {escaped : Bool},
        (depth ≠ 0 → ∃ s₀, start = some s₀ ∧ s₀ < idx + 1) →
        firstBraceFrom pattern start depth escaped (idx + 1) rest = .ok (some (s, t)) →
        s < t ∧ t < idx + (c :: rest).length := by
      intro start depth escaped hstart h
      obtain ⟨hst, ht⟩ := ih hstart h
      exact ⟨hst, by rw [List.length_cons]; omega⟩
    have hkeep : ∀ {depth' : ℕ}, (depth' ≠ 0 → depth ≠ 0) →
        depth' ≠ 0 → ∃ s₀, start = some s₀ ∧ s₀ < idx + 1 := by
      intro depth' himp hdepth
      obtain ⟨s₀, hs₀, hlt⟩ := hstart (himp hdepth)
      exact ⟨s₀, hs₀, by omega⟩
    unfold firstBraceFrom at h
    split at h
    · exact hlater (hkeep id) h
    · split at h
      · exact hlater (hkeep id) h
      · split at h
        · refine hlater (fun _ => ?_) h
          by_cases hdepth : depth = 0
          · exact ⟨idx, by rw [if_pos hdepth], by omega⟩
          · obtain ⟨s₀, hs₀, hlt⟩ := hstart hdepth
            exact ⟨s₀, by rw [if_neg hdepth, hs₀], by omega⟩
        · split at h
          · split at h
            · exact absurd h Outcome.bail_ne_ok
            · rename_i hdepth
              split at h
              · split at h
                · rename_i start₀ _
                  obtain ⟨s₀, hs₀, hlt⟩ := hstart hdepth
                  obtain ⟨rfl, rfl⟩ := Prod.mk.inj (Option.some.inj (Except.ok.inj h))
                  rw [Option.some.inj hs₀]
                  exact ⟨hlt, by rw [List.length_cons]; omega⟩
                · exact absurd h Outcome.bail_ne_ok
              · exact hlater (hkeep fun _ => hdepth) h
          · exact hlater (hkeep id) h

theorem lt_of_firstBrace {pattern : List Char} {s t : ℕ}
    (h : firstBrace pattern = .ok (some (s, t))) : s < t ∧ t < pattern.length := by
  have hlt := lt_of_firstBraceFrom (fun h => absurd rfl h) h
  rwa [Nat.zero_add] at hlt

theorem mem_i64Range {first last n : ℤ} (h : n ∈ i64Range first last) :
    min first last ≤ n ∧ n ≤ max first last := by
  unfold i64Range at h
  split at h
  · obtain ⟨k, hk, rfl⟩ := List.mem_map.mp h
    rw [List.mem_range] at hk
    omega
  · obtain ⟨k, hk, rfl⟩ := List.mem_map.mp (List.mem_reverse.mp h)
    rw [List.mem_range] at hk
    omega

theorem i64Range_ne_nil (first last : ℤ) : i64Range first last ≠ [] := by
  unfold i64Range
  split
  · rw [Ne, List.map_eq_nil_iff, List.range_eq_nil]
    omega
  · rw [Ne, List.reverse_eq_nil_iff, List.map_eq_nil_iff, List.range_eq_nil]
    omega

theorem rangeValues_ne_nil {body : List Char} {values : List (List Char)}
    (h : rangeValues body = some values) : values ≠ [] := by
  simp only [rangeValues, Option.bind_eq_bind, Option.bind_eq_some_iff, Option.pure_def,
    Option.some.injEq] at h
  obtain ⟨index, _, first, _, last, _, rfl⟩ := h
  rw [Ne, List.map_eq_nil_iff]
  exact i64Range_ne_nil first last

/-- A value of a range is written with signs and digits, and no longer than the body. -/
theorem of_mem_rangeValues {body : List Char} {values : List (List Char)}
    (h : rangeValues body = some values) :
    ∀ v ∈ values, v.length ≤ body.length ∧ ∀ c ∈ v, c = '-' ∨ c.isDigit = true := by
  intro v hv
  simp only [rangeValues, Option.bind_eq_bind, Option.bind_eq_some_iff, Option.pure_def,
    Option.some.injEq] at h
  obtain ⟨index, _, first, hfirst, last, hlast, rfl⟩ := h
  obtain ⟨n, hn, rfl⟩ := List.mem_map.mp hv
  have hbetween := mem_i64Range hn
  have hlen := length_format_le_of_between hbetween.1 hbetween.2
  have hfirst := length_le_of_parseI64 hfirst
  have hlast := length_le_of_parseI64 hlast
  have hends : max (format (min first last)).length (format (max first last)).length ≤
      max (body.take index).length (body.drop (index + 2)).length := by
    rcases Int.le_total first last with hle | hle
    · rw [Int.min_eq_left hle, Int.max_eq_right hle]
      omega
    · rw [Int.min_eq_right hle, Int.max_eq_left hle]
      omega
  rw [List.length_take, List.length_drop] at hends
  refine ⟨?_, ?_⟩
  · split
    · rw [length_formatPadded, List.length_take, List.length_drop]
      omega
    · omega
  · intro c hc
    split at hc
    · exact mem_formatPadded hc
    · exact mem_formatPadded hc

private theorem length_le_of_braceChoicesFrom {body w current : List Char}
    {choices result : List (List Char)} {depth n : ℕ} (hchoices : ∀ c ∈ choices, c.length ≤ n)
    (hcurrent : current.length + w.length ≤ n)
    (h : braceChoicesFrom body choices current depth w = .ok result) :
    ∀ c ∈ result, c.length ≤ n := by
  induction w generalizing choices current depth with
  | nil =>
    obtain rfl := Except.ok.inj h
    intro c hc
    rcases List.mem_append.mp hc with hc | hc
    · exact hchoices c hc
    · rw [List.mem_singleton.mp hc]
      simpa using hcurrent
  | cons c rest ih =>
    have hlonger : (current ++ [c]).length + rest.length ≤ n := by
      rw [List.length_cons] at hcurrent
      rw [List.length_append, List.length_singleton]
      omega
    rw [List.length_cons] at hcurrent
    unfold braceChoicesFrom at h
    split at h
    · exact ih hchoices hlonger h
    · split at h
      · split at h
        · exact absurd h Outcome.bail_ne_ok
        · exact ih hchoices hlonger h
      · split at h
        · refine ih ?_ (by rw [List.length_nil]; omega) h
          intro d hd
          rcases List.mem_append.mp hd with hd | hd
          · exact hchoices d hd
          · rw [List.mem_singleton.mp hd]
            omega
        · exact ih hchoices hlonger h

/-- A choice is not longer than the body it comes from. -/
theorem length_le_of_mem_braceChoices {body : List Char} {choices : List (List Char)}
    (h : braceChoices body = .ok choices) : ∀ c ∈ choices, c.length ≤ body.length := by
  unfold braceChoices at h
  split at h
  · rename_i values hvalues
    obtain rfl := Except.ok.inj h
    exact fun c hc => (of_mem_rangeValues hvalues c hc).1
  · exact length_le_of_braceChoicesFrom (fun c hc => absurd hc List.not_mem_nil)
      (by rw [List.length_nil, Nat.zero_add]) h

/-- A body that is a range has no brace. -/
theorem not_brace_of_rangeValues {body : List Char} {values : List (List Char)}
    (h : rangeValues body = some values) : '{' ∉ body ∧ '}' ∉ body := by
  simp only [rangeValues, Option.bind_eq_bind, Option.bind_eq_some_iff, Option.pure_def,
    Option.some.injEq] at h
  obtain ⟨index, hindex, first, hfirst, last, hlast, _⟩ := h
  obtain ⟨post, hsplit, hlen⟩ := exists_split_of_firstAt? hindex
  have hpost : body.drop (index + 2) = post := by
    conv_lhs => rw [hsplit]
    exact List.drop_left' (by rw [List.length_append, hlen]; rfl)
  have hmem : ∀ c ∈ body, c = '-' ∨ c = '+' ∨ c.isDigit = true ∨ c = '.' := by
    intro c hc
    rw [hsplit] at hc
    rcases List.mem_append.mp hc with hc | hc
    · rcases List.mem_append.mp hc with hc | hc
      · rcases mem_of_parseI64 hfirst c hc with h | h | h
        · exact Or.inl h
        · exact Or.inr (Or.inl h)
        · exact Or.inr (Or.inr (Or.inl h))
      · simp only [List.mem_cons, List.not_mem_nil, or_false, or_self] at hc
        exact Or.inr (Or.inr (Or.inr hc))
    · rcases mem_of_parseI64 hlast c (hpost.symm ▸ hc) with h | h | h
      · exact Or.inl h
      · exact Or.inr (Or.inl h)
      · exact Or.inr (Or.inr (Or.inl h))
  exact ⟨fun h => absurd (hmem _ h) (by decide), fun h => absurd (hmem _ h) (by decide)⟩

private theorem mem_of_mem_braceChoicesFrom {body w current : List Char}
    {choices result : List (List Char)} {depth : ℕ} {P : Char → Prop}
    (hchoices : ∀ p ∈ choices, ∀ c ∈ p, P c) (hcurrent : ∀ c ∈ current, P c) (hw : ∀ c ∈ w, P c)
    (h : braceChoicesFrom body choices current depth w = .ok result) :
    ∀ p ∈ result, ∀ c ∈ p, P c := by
  have hsnoc : ∀ {choices : List (List Char)} {current : List Char},
      (∀ p ∈ choices, ∀ c ∈ p, P c) → (∀ c ∈ current, P c) →
      ∀ p ∈ choices ++ [current], ∀ c ∈ p, P c := by
    intro choices current hchoices hcurrent p hp
    rcases List.mem_append.mp hp with hp | hp
    · exact hchoices p hp
    · rw [List.mem_singleton.mp hp]
      exact hcurrent
  induction w generalizing choices current depth with
  | nil =>
    obtain rfl := Except.ok.inj h
    exact hsnoc hchoices hcurrent
  | cons c rest ih =>
    obtain ⟨hc, hrest⟩ := List.forall_mem_cons.mp hw
    have hlonger : ∀ d ∈ current ++ [c], P d := by
      intro d hd
      rcases List.mem_append.mp hd with hd | hd
      · exact hcurrent d hd
      · rw [List.mem_singleton.mp hd]
        exact hc
    unfold braceChoicesFrom at h
    split at h
    · exact ih hchoices hlonger hrest h
    · split at h
      · split at h
        · exact absurd h Outcome.bail_ne_ok
        · exact ih hchoices hlonger hrest h
      · split at h
        · exact ih (hsnoc hchoices hcurrent) (fun d hd => absurd hd List.not_mem_nil) hrest h
        · exact ih hchoices hlonger hrest h

/-- A choice is written with characters of the body, signs and digits. -/
theorem mem_of_mem_braceChoices {body : List Char} {choices : List (List Char)}
    (h : braceChoices body = .ok choices) :
    ∀ p ∈ choices, ∀ c ∈ p, c ∈ body ∨ c = '-' ∨ c.isDigit = true := by
  unfold braceChoices at h
  split at h
  · rename_i values hvalues
    obtain rfl := Except.ok.inj h
    exact fun p hp c hc => Or.inr ((of_mem_rangeValues hvalues p hp).2 c hc)
  · exact mem_of_mem_braceChoicesFrom (fun p hp => absurd hp List.not_mem_nil)
      (fun c hc => absurd hc List.not_mem_nil) (fun c hc => Or.inl hc) h

/-- The pattern with a choice in the place of the group between two positions. -/
def substituted (pattern : List Char) (start stop : ℕ) (choice : List Char) : List Char :=
  pattern.take start ++ choice ++ pattern.drop (stop + 1)

/-- The body of the group between two positions. -/
def groupBody (pattern : List Char) (start stop : ℕ) : List Char :=
  (pattern.take stop).drop (start + 1)

theorem length_substituted_lt {pattern choice : List Char} {choices : List (List Char)}
    {start stop : ℕ} (h : firstBrace pattern = .ok (some (start, stop)))
    (hchoices : braceChoices (groupBody pattern start stop) = .ok choices)
    (hc : choice ∈ choices) :
    (substituted pattern start stop choice).length < pattern.length := by
  obtain ⟨hlt, hstop⟩ := lt_of_firstBrace h
  have hlen := length_le_of_mem_braceChoices hchoices choice hc
  rw [groupBody, List.length_drop, List.length_take] at hlen
  rw [substituted, List.length_append, List.length_append, List.length_take, List.length_drop]
  omega

/-- `expand_braces`. -/
def expandBraces (pattern : List Char) : Outcome (List (List Char)) :=
  match _hbrace : firstBrace pattern with
  | .error failure => .error failure
  | .ok none => .ok [pattern]
  | .ok (some (start, stop)) =>
    match _hchoices : braceChoices (groupBody pattern start stop) with
    | .error failure => .error failure
    | .ok choices => do
      let out ← choices.attach.mapM fun choice =>
        expandBraces (substituted pattern start stop choice.1)
      return out.flatten
termination_by pattern.length
decreasing_by exact length_substituted_lt _hbrace _hchoices choice.2

/-- Whether an input of `pattern_rules` includes, and its unescaped pattern. -/
def unescapedInput (input : List Char) : Outcome (Bool × List Char) :=
  match stripPrefix ['\\', '!'] input with
  | some rest => do
    let out ← unescapePattern rest
    return (true, '!' :: out)
  | none =>
    match stripPrefix ['!'] input with
    | some rest => do
      let out ← unescapePattern rest
      return (false, out)
    | none => do
      let out ← unescapePattern input
      return (true, out)

/-- `pattern_rules`. -/
def patternRules (paths : NativePaths) (input : List Char) : Outcome (List PatternRule) := do
  let r ← unescapedInput input
  Outcome.guardThat (r.2 ≠ []) "empty pattern"
  validateRelativePattern paths r.2
  let patterns ← expandBraces r.2
  return patterns.map fun pattern => ⟨r.1, pattern⟩

/-- The first group, and then the pattern with each choice in its place. -/
theorem expandBraces_of_group {pattern : List Char} {start stop : ℕ}
    (h : firstBrace pattern = .ok (some (start, stop))) {xs : List (List Char)} :
    expandBraces pattern = .ok xs ↔
      ∃ choices out, braceChoices (groupBody pattern start stop) = .ok choices ∧
        choices.mapM (fun choice => expandBraces (substituted pattern start stop choice)) =
          .ok out ∧ xs = out.flatten := by
  have hattach : ∀ choices : List (List Char),
      choices.attach.mapM (fun choice => expandBraces (substituted pattern start stop choice.1)) =
        choices.mapM fun choice => expandBraces (substituted pattern start stop choice) := by
    intro choices
    conv_rhs => rw [← List.attach_map_subtype_val choices, List.mapM_map]
    rfl
  rw [expandBraces]
  split
  · rename_i heq
    exact absurd (h.symm.trans heq) (by simp)
  · rename_i heq
    exact absurd (h.symm.trans heq) (by simp)
  · rename_i start' stop' heq
    obtain ⟨rfl, rfl⟩ := Prod.mk.inj (Option.some.inj (Except.ok.inj (h.symm.trans heq)))
    split
    · rename_i failure hchoices
      rw [hchoices]
      simp
    · rename_i choices hchoices
      rw [hattach, Outcome.bind_eq_ok, hchoices]
      constructor
      · intro h
        obtain ⟨out, hout, hxs⟩ := h
        exact ⟨choices, out, rfl, hout, (Except.ok.inj hxs).symm⟩
      · intro h
        obtain ⟨_, out, heq, hout, rfl⟩ := h
        obtain rfl := Except.ok.inj heq
        exact ⟨out, hout, rfl⟩

theorem expandBraces_of_error {pattern : List Char} {failure : Failure}
    (h : firstBrace pattern = .error failure) : expandBraces pattern = .error failure := by
  rw [expandBraces]
  split
  · rename_i heq
    rw [Except.error.inj (h.symm.trans heq)]
  · rename_i heq
    exact absurd (h.symm.trans heq) (by simp)
  · rename_i heq
    exact absurd (h.symm.trans heq) (by simp)

theorem expandBraces_of_none {pattern : List Char} (h : firstBrace pattern = .ok none) :
    expandBraces pattern = .ok [pattern] := by
  rw [expandBraces]
  split
  · rename_i heq
    exact absurd (h.symm.trans heq) (by simp)
  · rfl
  · rename_i heq
    exact absurd (h.symm.trans heq) (by simp)

/-- What a choice in the place of a group keeps holds of each pattern of the expansion, and none
has a brace that is found. -/
theorem expandBraces_keeps {P : List Char → Prop}
    (hstep : ∀ {pattern choice : List Char} {start stop : ℕ} {choices : List (List Char)},
      firstBrace pattern = .ok (some (start, stop)) →
      braceChoices (groupBody pattern start stop) = .ok choices → choice ∈ choices →
      P pattern → P (substituted pattern start stop choice))
    {pattern : List Char} {xs : List (List Char)} (hpattern : P pattern)
    (h : expandBraces pattern = .ok xs) : ∀ x ∈ xs, P x ∧ firstBrace x = .ok none := by
  induction hn : pattern.length using Nat.strong_induction_on generalizing pattern xs with
  | _ n ih =>
    cases hbrace : firstBrace pattern with
    | error failure => exact absurd ((expandBraces_of_error hbrace).symm.trans h) (by simp)
    | ok r =>
      cases r with
      | none =>
        obtain rfl := Except.ok.inj ((expandBraces_of_none hbrace).symm.trans h)
        intro x hx
        rw [List.mem_singleton.mp hx]
        exact ⟨hpattern, hbrace⟩
      | some r =>
        obtain ⟨choices, out, hchoices, hout, rfl⟩ := (expandBraces_of_group hbrace).mp h
        intro x hx
        obtain ⟨ys, hys, hx⟩ := List.mem_flatten.mp hx
        obtain ⟨hlen, hmembers⟩ := Outcome.mapM_eq_ok_iff.mp hout
        rw [← List.map_snd_zip (Nat.le_of_eq hlen)] at hys
        obtain ⟨p, hp, rfl⟩ := List.mem_map.mp hys
        have hmem := (List.of_mem_zip hp).1
        have hshort := length_substituted_lt hbrace hchoices hmem
        rw [hn] at hshort
        exact ih _ hshort (hstep hbrace hchoices hmem hpattern) (hmembers p hp) rfl x hx

end Psign.Code
