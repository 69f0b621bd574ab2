import Mathlib.Data.List.Basic
import Psign.CodeLib.Members

/-!
# Fallible computations

The result type of every modelled function that can fail.  `Outcome α` is
`Except Failure α`; a `Failure` is either an error the program reports, with
its text, or `outOfFuel`, which only a model of an unbounded loop produces.
Keeping the two apart means that a statement about an error of the program
never talks about the fuel of the model, and that a statement about a result
holds for every amount of fuel.

The lemmas invert one layer of `do` notation at a time: a successful bind gives
the intermediate value back (`bind_eq_ok`), a successful guard gives its
condition back (`guardThat_bind_eq_ok`).
-/

namespace CodeLib

/-- Why a computation has no result. -/
inductive Failure where
  /-- The program reports an error with this text. -/
  | error (message : String)
  /-- The fuel of a modelled loop ran out. -/
  | outOfFuel
  deriving DecidableEq, Repr

/-- The result of a fallible function. -/
abbrev Outcome (α : Type) := Except Failure α

namespace Outcome

variable {α β : Type}

/-- Fail with an error text, as `anyhow!` and `bail!` do. -/
def bail (message : String) : Outcome α :=
  .error (.error message)

/-- Fail with an error text unless the condition holds. -/
def guardThat (condition : Prop) [Decidable condition] (message : String) : Outcome Unit :=
  if condition then .ok () else bail message

/-- The value of an optional, or an error text where there is none. -/
def ofOption (value : Option α) (message : String) : Outcome α :=
  match value with
  | some a => .ok a
  | none => bail message

/-- The value of a result, with its failure forgotten. -/
def toOption (result : Outcome α) : Option α :=
  match result with
  | .ok a => some a
  | .error _ => none

/-- Replace the text of an error, as `map_err` does. -/
def mapErr (result : Outcome α) (text : String → String) : Outcome α :=
  match result with
  | .ok a => .ok a
  | .error (.error message) => bail (text message)
  | .error .outOfFuel => .error .outOfFuel

/-- Say what was being done in front of the text of an error, as `with_context`
does. -/
def context (result : Outcome α) (text : String) : Outcome α :=
  result.mapErr fun e => text ++ ": " ++ e

/-! ## Inversion of successful runs -/

theorem bail_ne_ok {message : String} {a : α} : (bail message : Outcome α) ≠ .ok a := by
  simp [bail]

@[simp] theorem bail_eq_ok_iff {message : String} {a : α} :
    (bail message : Outcome α) = .ok a ↔ False := by
  simp [bail]

/-- A successful bind has a successful first part. -/
theorem bind_eq_ok {first : Outcome α} {next : α → Outcome β} {b : β} :
    (first >>= next) = .ok b ↔ ∃ a, first = .ok a ∧ next a = .ok b := by
  cases first with
  | error failure => simp [bind, Except.bind]
  | ok a => simp [bind, Except.bind]

@[simp] theorem ok_bind {a : α} {next : α → Outcome β} :
    ((.ok a : Outcome α) >>= next) = next a := rfl

@[simp] theorem error_bind {failure : Failure} {next : α → Outcome β} :
    ((.error failure : Outcome α) >>= next) = .error failure := rfl

@[simp] theorem bail_bind {message : String} {next : α → Outcome β} :
    ((bail message : Outcome α) >>= next) = bail message := rfl

@[simp] theorem pure_eq_ok {a : α} : (pure a : Outcome α) = .ok a := rfl

@[simp] theorem guardThat_eq_ok {condition : Prop} [Decidable condition] {message : String}
    {u : Unit} : guardThat condition message = .ok u ↔ condition := by
  unfold guardThat
  split <;> simp_all

theorem guardThat_of {condition : Prop} [Decidable condition] {message : String}
    (h : condition) : guardThat condition message = .ok () :=
  guardThat_eq_ok.mpr h

theorem guardThat_of_not {condition : Prop} [Decidable condition] {message : String}
    (h : ¬ condition) : guardThat condition message = bail message := by
  simp [guardThat, h]

/-- A successful guarded computation satisfies its guard. -/
theorem guardThat_bind_eq_ok {condition : Prop} [Decidable condition] {message : String}
    {next : Unit → Outcome β} {b : β} :
    (guardThat condition message >>= next) = .ok b ↔ condition ∧ next () = .ok b := by
  rw [bind_eq_ok]
  constructor
  · rintro ⟨u, hguard, hnext⟩
    exact ⟨guardThat_eq_ok.mp hguard, hnext⟩
  · rintro ⟨hcondition, hnext⟩
    exact ⟨(), guardThat_of hcondition, hnext⟩

@[simp] theorem ofOption_eq_ok {value : Option α} {message : String} {a : α} :
    ofOption value message = .ok a ↔ value = some a := by
  cases value <;> simp [ofOption]

@[simp] theorem mapErr_eq_ok {result : Outcome α} {text : String → String} {a : α} :
    result.mapErr text = .ok a ↔ result = .ok a := by
  rcases result with (message | _) | b <;> simp [mapErr]

/-- A loop that succeeds succeeded at each element. -/
theorem exists_of_mapM_eq_ok {f : α → Outcome β} {xs : List α} {ys : List β}
    (h : xs.mapM f = .ok ys) : ∀ x ∈ xs, ∃ y ∈ ys, f x = .ok y := by
  induction xs generalizing ys with
  | nil =>
    intro x hx
    cases hx
  | cons x xs ih =>
    simp only [List.mapM_cons, bind_eq_ok, pure_eq_ok, Except.ok.injEq] at h
    obtain ⟨y, hy, rest, hrest, rfl⟩ := h
    intro x' hx'
    rcases List.mem_cons.mp hx' with rfl | hx'
    · exact ⟨y, List.mem_cons_self, hy⟩
    · obtain ⟨y', hmem, hy'⟩ := ih hrest x' hx'
      exact ⟨y', List.mem_cons_of_mem _ hmem, hy'⟩

/-- A loop with one result a member. -/
theorem mapM_eq_ok_iff {f : α → Outcome β} {l : List α} {out : List β} :
    l.mapM f = .ok out ↔ out.length = l.length ∧ ∀ p ∈ l.zip out, f p.1 = .ok p.2 := by
  induction l generalizing out with
  | nil =>
    rw [List.mapM_nil, List.length_nil, List.length_eq_zero_iff, pure_eq_ok,
      Except.ok.injEq, eq_comm]
    simp
  | cons a l ih =>
    rw [List.mapM_cons]
    simp only [bind_eq_ok, pure_eq_ok, Except.ok.injEq, ih]
    constructor
    · intro h
      obtain ⟨b, hb, bs, ⟨hlen, hbs⟩, rfl⟩ := h
      refine ⟨congrArg Nat.succ hlen, ?_⟩
      intro p hp
      rw [List.zip_cons_cons] at hp
      rcases List.mem_cons.mp hp with rfl | hp
      · exact hb
      · exact hbs p hp
    · intro h
      obtain ⟨hlen, h⟩ := h
      cases out with
      | nil => exact absurd hlen (by simp)
      | cons b bs =>
        rw [List.zip_cons_cons] at h
        exact ⟨b, h (a, b) List.mem_cons_self, bs, ⟨Nat.succ.inj hlen,
          fun p hp => h p (List.mem_cons_of_mem _ hp)⟩, rfl⟩

@[simp] theorem context_eq_ok {result : Outcome α} {text : String} {a : α} :
    result.context text = .ok a ↔ result = .ok a :=
  mapErr_eq_ok

@[simp] theorem toOption_eq_some {result : Outcome α} {a : α} :
    result.toOption = some a ↔ result = .ok a := by
  cases result <;> simp [toOption]

/-- A computation that can be seen to succeed. -/
theorem exists_ok_of_isSome {result : Outcome α} (h : result.toOption.isSome) :
    ∃ a, result = .ok a := by
  obtain ⟨a, ha⟩ := Option.isSome_iff_exists.mp h
  exact ⟨a, toOption_eq_some.mp ha⟩

end Outcome

end CodeLib
