import Mathlib.Data.List.Basic
import Psign.CodeLib.Outcome

/-!
# Edits of all spans that a search finds

`editAll` looks for a span, edits it, and goes on behind it.  Where a search on a part does not
depend on what follows the part (`Local`), the parts of a text are edited one by one
(`editAll_append`).
-/

namespace CodeLib.Edits

variable {α : Type}

/-- What a search finds: what is before the span, the span, and what is behind it. -/
abbrev Search (α : Type) := List α → Outcome (Option (List α × List α × List α))

/-- The loop of `editAll`. -/
def editFuel (find : Search α) (edit : List α → Outcome (List α)) : ℕ → List α → Outcome (List α)
  | 0, _ => .error .outOfFuel
  | fuel + 1, text => do
    match ← find text with
    | none => return text
    | some (before, span, behind) =>
      let edited ← edit span
      let more ← editFuel find edit fuel behind
      return before ++ edited ++ more

/-- Edit every span.  A span takes one element at least. -/
def editAll (find : Search α) (edit : List α → Outcome (List α)) (text : List α) :
    Outcome (List α) :=
  editFuel find edit (text.length + 1) text

/-- A search finds spans of the text. -/
def Splits (find : Search α) : Prop :=
  ∀ {text before span behind}, find text = .ok (some (before, span, behind)) →
    text = before ++ (span ++ behind) ∧ span ≠ []

variable {find : Search α} {edit : List α → Outcome (List α)}

theorem Splits.length_lt (h : Splits find) {text before span behind : List α}
    (hfind : find text = .ok (some (before, span, behind))) : behind.length < text.length := by
  obtain ⟨rfl, hne⟩ := h hfind
  have hpos := List.length_pos_of_ne_nil hne
  rw [List.length_append, List.length_append]
  omega

private theorem editFuel_congr (h : Splits find) {fuel fuel' : ℕ} {text : List α}
    (hfuel : text.length < fuel) (hfuel' : text.length < fuel') :
    editFuel find edit fuel text = editFuel find edit fuel' text := by
  induction fuel generalizing fuel' text with
  | zero => exact absurd hfuel (Nat.not_lt_zero _)
  | succ fuel ih =>
    cases fuel' with
    | zero => exact absurd hfuel' (Nat.not_lt_zero _)
    | succ fuel' =>
      rw [editFuel, editFuel]
      cases hfind : find text with
      | error failure => rfl
      | ok found =>
        rcases found with _ | ⟨before, span, behind⟩
        · rfl
        · have hlt := h.length_lt hfind
          show (edit span >>= fun edited => editFuel find edit fuel behind >>= fun more => _) =
            (edit span >>= fun edited => editFuel find edit fuel' behind >>= fun more => _)
          rw [@ih fuel' behind (by omega) (by omega)]

/-- A text in which nothing is found stays as it is. -/
theorem editAll_of_none {text : List α} (h : find text = .ok none) :
    editAll find edit text = .ok text := by
  rw [editAll, editFuel, h]
  rfl

theorem editAll_of_error {text : List α} {failure : Failure} (h : find text = .error failure) :
    editAll find edit text = .error failure := by
  rw [editAll, editFuel, h]
  rfl

theorem editAll_of_some (h : Splits find) {text before span behind : List α}
    (hfind : find text = .ok (some (before, span, behind))) :
    editAll find edit text =
      (edit span >>= fun edited => editAll find edit behind >>= fun more =>
        .ok (before ++ edited ++ more)) := by
  have hlt := h.length_lt hfind
  rw [editAll, editFuel, hfind]
  show (edit span >>= fun edited => editFuel find edit text.length behind >>= fun more => _) = _
  rw [editFuel_congr h hlt (Nat.lt_succ_self behind.length)]
  rfl

/-! ## Parts -/

/-- A search on a part does not depend on what follows. -/
structure Local (find : Search α) (part : List α → Prop) : Prop where
  suffix : ∀ {raw rest}, part raw → rest <:+ raw → part rest
  none : ∀ {raw}, part raw → find raw = .ok none → ∀ rest, find (raw ++ rest) =
    (find rest).map (Option.map fun (before, found) => (raw ++ before, found))
  some : ∀ {raw before span behind}, part raw → find raw = .ok (some (before, span, behind)) →
    ∀ rest, find (raw ++ rest) = .ok (.some (before, span, behind ++ rest))
  total : ∀ {raw}, part raw → ∃ found, find raw = .ok found

/-- The parts of a text are edited one by one. -/
theorem editAll_append {part : List α → Prop} (hsplits : Splits find) (hlocal : Local find part)
    {raw : List α} (hraw : part raw) (rest : List α) :
    editAll find edit (raw ++ rest) =
      (editAll find edit raw >>= fun first => editAll find edit rest >>= fun second =>
        .ok (first ++ second)) := by
  induction hlength : raw.length using Nat.strongRecOn generalizing raw with
  | ind n ih =>
    obtain ⟨found, hfind⟩ := hlocal.total hraw
    rcases found with _ | ⟨before, span, behind⟩
    · have hall := hlocal.none hraw hfind rest
      rw [editAll_of_none hfind]
      show _ = (editAll find edit rest >>= fun second => .ok (raw ++ second))
      cases hrest : find rest with
      | error failure =>
        rw [hrest] at hall
        rw [editAll_of_error hall, editAll_of_error hrest]
        rfl
      | ok found =>
        rw [hrest] at hall
        rcases found with _ | ⟨before, span, behind⟩
        · rw [editAll_of_none hall, editAll_of_none hrest]
          rfl
        · rw [editAll_of_some hsplits hall, editAll_of_some hsplits hrest]
          cases edit span with
          | error failure => rfl
          | ok edited =>
            show (editAll find edit behind >>= _) = _
            cases editAll find edit behind with
            | error failure => rfl
            | ok more =>
              show Except.ok _ = Except.ok _
              simp
    · have hlt := hsplits.length_lt hfind
      have hbehind : part behind := by
        refine hlocal.suffix hraw ?_
        rw [(hsplits hfind).1]
        exact (List.suffix_append _ _).trans (List.suffix_append _ _)
      have hmore := ih behind.length (by omega) hbehind rfl
      rw [editAll_of_some hsplits (hlocal.some hraw hfind rest), editAll_of_some hsplits hfind,
        hmore]
      cases edit span with
      | error failure => rfl
      | ok edited =>
        show (editAll find edit behind >>= _ >>= _) = _
        cases editAll find edit behind with
        | error failure => rfl
        | ok first =>
          show (editAll find edit rest >>= _ >>= _) = (editAll find edit rest >>= _)
          cases editAll find edit rest with
          | error failure => rfl
          | ok second =>
            show Except.ok _ = Except.ok _
            simp

end CodeLib.Edits
