import Mathlib

/-!
# Loops

A loop whose body may ask its surroundings, which may answer differently each time.
The body is `step`, with the number of the iteration; it goes on with another state or
returns.

`Ends` says that the loop returns.  `ends_of_rank` shows it for a loop that now and then
comes closer to its end, `not_ends` refutes it with an invariant of states from which
the loop goes on, and `run_induction` moves an invariant to what the loop returns.
-/

namespace CodeLib.Loop

variable {σ ρ : Type} (step : ℕ → σ → σ ⊕ ρ)

/-- What a loop returns within `fuel` iterations. -/
def run : ℕ → ℕ → σ → Option ρ
  | 0, _, _ => none
  | fuel + 1, i, s =>
    match step i s with
    | .inl s' => run fuel (i + 1) s'
    | .inr r => some r

/-- The loop returns. -/
def Ends (i : ℕ) (s : σ) : Prop :=
  ∃ fuel r, run step fuel i s = some r

/-- The loop comes from the first state to the second. -/
inductive Reaches : ℕ → σ → ℕ → σ → Prop where
  | refl {i : ℕ} {s : σ} : Reaches i s i s
  | next {i j : ℕ} {s s' t : σ} (hstep : step i s = .inl s') (hrest : Reaches (i + 1) s' j t) :
    Reaches i s j t

variable {step} {i j : ℕ} {s s' t : σ} {r : ρ}

theorem run_of_inl {fuel : ℕ} (h : step i s = .inl s') :
    run step (fuel + 1) i s = run step fuel (i + 1) s' := by
  rw [run, h]

theorem run_of_inr {fuel : ℕ} (h : step i s = .inr r) : run step (fuel + 1) i s = some r := by
  rw [run, h]

theorem ends_of_inr (h : step i s = .inr r) : Ends step i s :=
  ⟨1, r, run_of_inr h⟩

theorem ends_iff_of_inl (h : step i s = .inl s') : Ends step i s ↔ Ends step (i + 1) s' := by
  constructor
  · intro ⟨fuel, r, hrun⟩
    cases fuel with
    | zero => simp [run] at hrun
    | succ fuel => exact ⟨fuel, r, (run_of_inl h).symm.trans hrun⟩
  · intro ⟨fuel, r, hrun⟩
    exact ⟨fuel + 1, r, (run_of_inl h).trans hrun⟩

theorem Reaches.trans {k : ℕ} {u : σ} (h : Reaches step i s j t) (h' : Reaches step j t k u) :
    Reaches step i s k u := by
  induction h with
  | refl => exact h'
  | next hstep _ ih => exact .next hstep (ih h')

theorem Reaches.ends_iff (h : Reaches step i s j t) : Ends step i s ↔ Ends step j t := by
  induction h with
  | refl => exact Iff.rfl
  | next hstep _ ih => exact (ends_iff_of_inl hstep).trans ih

/-- A loop ends if from every state it returns or comes to one of a smaller rank. -/
theorem ends_of_rank (rank : σ → ℕ)
    (hprogress : ∀ j t, Reaches step i s j t →
      Ends step j t ∨ ∃ k u, Reaches step j t k u ∧ rank u < rank t) : Ends step i s := by
  induction hn : rank s using Nat.strongRecOn generalizing i s with
  | ind n ih =>
    subst hn
    rcases hprogress i s .refl with hends | ⟨k, u, hreach, hlt⟩
    · exact hends
    · rw [hreach.ends_iff]
      exact ih _ hlt (fun j t h => hprogress j t (hreach.trans h)) rfl

/-- A loop does not end in states from which it always goes on. -/
theorem not_ends (inv : ℕ → σ → Prop)
    (hstep : ∀ i s, inv i s → ∃ s', step i s = .inl s' ∧ inv (i + 1) s') (h : inv i s) :
    ¬ Ends step i s := by
  intro ⟨fuel, r, hrun⟩
  induction fuel generalizing i s with
  | zero => simp [run] at hrun
  | succ fuel ih =>
    obtain ⟨s', hnext, hinv⟩ := hstep i s h
    exact ih hinv ((run_of_inl hnext).symm.trans hrun)

/-- What every iteration preserves holds at the return. -/
theorem run_induction (inv : σ → Prop) (post : ρ → Prop)
    (hstep : ∀ i s s', inv s → step i s = .inl s' → inv s')
    (hreturn : ∀ i s r, inv s → step i s = .inr r → post r)
    {fuel : ℕ} (hinv : inv s) (hrun : run step fuel i s = some r) : post r := by
  induction fuel generalizing i s with
  | zero => simp [run] at hrun
  | succ fuel ih =>
    cases hnext : step i s with
    | inl s' => exact ih (hstep i s s' hinv hnext) ((run_of_inl hnext).symm.trans hrun)
    | inr r' =>
      rw [run_of_inr hnext] at hrun
      exact Option.some.inj hrun ▸ hreturn i s r' hinv hnext

/-! ## How long a loop runs -/

variable (step) (stalls : σ → σ → Bool)

/-- How many of the first iterations do not bring the loop forward. -/
def stalled : ℕ → ℕ → σ → ℕ
  | 0, _, _ => 0
  | fuel + 1, i, s =>
    match step i s with
    | .inl s' => (if stalls s s' then 1 else 0) + stalled fuel (i + 1) s'
    | .inr _ => 0

variable {step stalls}

/-- A loop that has not ended spent an iteration on each rank that it went down, and on each
iteration that did not bring it forward. -/
theorem le_of_run_eq_none (rank : σ → ℕ)
    (hstep : ∀ i s s', step i s = .inl s' →
      rank s' < rank s ∨ rank s' ≤ rank s ∧ stalls s s' = true) {fuel : ℕ}
    (h : run step fuel i s = none) : fuel ≤ rank s + stalled step stalls fuel i s := by
  induction fuel generalizing i s with
  | zero => exact Nat.zero_le _
  | succ fuel ih =>
    cases hnext : step i s with
    | inr r =>
      rw [run_of_inr hnext] at h
      exact absurd h (Option.some_ne_none r)
    | inl s' =>
      rw [run_of_inl hnext] at h
      have hrest := ih h
      unfold stalled
      rw [hnext]
      dsimp only
      rcases hstep i s s' hnext with hlt | ⟨hle, hstall⟩
      · omega
      · rw [if_pos hstall]
        omega

end CodeLib.Loop
