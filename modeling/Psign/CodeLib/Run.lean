import Psign.CodeLib.Outcome

/-!
# Computations that may panic

`Outcome` is what a function returns.  A function that indexes slices may also panic, and a panic
is no error: a caller that drops an error (`unwrap_or_default`, `if let Ok`) does not stop a
panic.  `Run` keeps both apart.  A run that panics does so in its first step or behind its result
(`bind_eq_panicked`).
-/

namespace CodeLib

/-- What a computation does: it returns, or it panics. -/
inductive Run (α : Type) where
  | returned (result : Outcome α)
  | panicked
  deriving DecidableEq

namespace Run

variable {α β : Type}

/-- The computation has this value. -/
@[match_pattern] def ok (a : α) : Run α := .returned (.ok a)

/-- The computation returns an error. -/
def bail (message : String) : Run α := .returned (Outcome.bail message)

instance : Monad Run where
  pure a := .returned (.ok a)
  bind first next :=
    match first with
    | .returned (.ok a) => next a
    | .returned (.error failure) => .returned (.error failure)
    | .panicked => .panicked

/-- `unwrap_or`, and `if let Ok` with a value for the other case. -/
def unwrapOr (run : Run α) (default : α) : Run α :=
  match run with
  | .returned (.error _) => .ok default
  | run => run

@[simp] theorem pure_eq_ok (a : α) : (pure a : Run α) = .ok a := rfl

@[simp] theorem ok_bind (a : α) (next : α → Run β) : (ok a >>= next) = next a := rfl

@[simp] theorem bail_bind (message : String) (next : α → Run β) :
    ((bail message : Run α) >>= next) = bail message := rfl

@[simp] theorem panicked_bind (next : α → Run β) : ((panicked : Run α) >>= next) = panicked := rfl

@[simp] theorem unwrapOr_ok (a default : α) : (ok a).unwrapOr default = ok a := rfl

@[simp] theorem unwrapOr_panicked (default : α) : (panicked : Run α).unwrapOr default = panicked :=
  rfl

theorem bind_eq_ok {first : Run α} {next : α → Run β} {b : β} :
    (first >>= next) = ok b ↔ ∃ a, first = ok a ∧ next a = ok b := by
  rcases first with (failure | a) | _
  · exact iff_of_false nofun fun h => nomatch h.choose_spec.1
  · constructor
    · intro h
      exact ⟨a, rfl, h⟩
    · intro h
      obtain ⟨_, heq, h⟩ := h
      obtain rfl := Except.ok.inj (Run.returned.inj heq)
      exact h
  · exact iff_of_false nofun fun h => nomatch h.choose_spec.1

theorem bind_eq_panicked {first : Run α} {next : α → Run β} :
    (first >>= next) = panicked ↔ first = panicked ∨ ∃ a, first = ok a ∧ next a = panicked := by
  rcases first with (failure | a) | _
  · exact iff_of_false nofun fun h => by
      rcases h with h | ⟨_, h, _⟩ <;> exact nomatch h
  · constructor
    · intro h
      exact Or.inr ⟨a, rfl, h⟩
    · intro h
      rcases h with h | ⟨_, heq, h⟩
      · exact nomatch h
      · obtain rfl := Except.ok.inj (Run.returned.inj heq)
        exact h
  · exact iff_of_true rfl (Or.inl rfl)

theorem unwrapOr_eq_panicked {run : Run α} {default : α} :
    run.unwrapOr default = panicked ↔ run = panicked := by
  rcases run with (failure | a) | _
  · exact iff_of_false nofun nofun
  · exact iff_of_false nofun nofun
  · exact iff_of_true rfl rfl

/-- The run panics exactly under the condition, and has this value otherwise. -/
def Does (run : Run α) (panics : Prop) (a : α) : Prop :=
  (run = panicked ↔ panics) ∧ (¬ panics → run = ok a)

theorem does_ok (a : α) : Does (ok a) False a :=
  ⟨iff_of_false nofun id, fun _ => rfl⟩

theorem Does.bind {first : Run α} {next : α → Run β} {P Q : Prop} {a : α} {b : β}
    (hfirst : Does first P a) (hnext : Does (next a) Q b) : Does (first >>= next) (P ∨ Q) b := by
  by_cases hP : P
  · rw [hfirst.1.mpr hP]
    exact ⟨iff_of_true rfl (Or.inl hP), fun h => absurd (Or.inl hP) h⟩
  · rw [hfirst.2 hP, ok_bind]
    refine ⟨hnext.1.trans (or_iff_right hP).symm, fun h => hnext.2 fun hQ => h (Or.inr hQ)⟩

theorem Does.map {run : Run α} {P : Prop} {a : α} (h : Does run P a) (f : α → β) :
    Does (run >>= fun x => ok (f x)) P (f a) := by
  by_cases hP : P
  · rw [h.1.mpr hP]
    exact ⟨iff_of_true rfl hP, fun hnot => absurd hP hnot⟩
  · rw [h.2 hP]
    exact ⟨iff_of_false nofun hP, fun _ => rfl⟩

theorem Does.congr {run : Run α} {P Q : Prop} {a b : α} (h : Does run P a) (hPQ : P ↔ Q)
    (hab : a = b) : Does run Q b :=
  ⟨h.1.trans hPQ, fun hQ => hab ▸ h.2 (mt hPQ.mp hQ)⟩

/-- A second attempt that is made only under a condition. -/
theorem Does.ite {c : Prop} [Decidable c] {run : Run α} {P : Prop} {a b : α} (h : Does run P a) :
    Does (if c then run else ok b) (c ∧ P) (if c then a else b) := by
  by_cases hc : c
  · rw [if_pos hc, if_pos hc]
    exact h.congr (and_iff_right hc).symm rfl
  · rw [if_neg hc, if_neg hc]
    exact (does_ok b).congr (iff_of_false id fun h => hc h.1) rfl

end Run

end CodeLib
