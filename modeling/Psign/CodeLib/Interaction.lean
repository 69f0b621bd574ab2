import Psign.CodeLib.Outcome

/-!
# Clients of an arbitrary peer

A client sends requests and goes on with the replies.  An `Interaction` is such
a program with its requests left open: it is finished, or it asks and has a
continuation for every reply.  Nothing is assumed of the peer.

`run` plays a client against a sequence of replies and records the exchange.
`Ensures` is what holds of the record and of the result for every sequence; it
is computed along the program (`ensures_bind`, `ensures_send`), so that a
client is proved correct piece by piece, and moved to runs by `run_of_ensures`.
-/

namespace CodeLib

/-- A client program: it has a result, or sends a request and goes on with the
reply. -/
inductive Interaction (Req Rep α : Type) where
  | done (result : Outcome α)
  | ask (request : Req) (next : Rep → Interaction Req Rep α)

namespace Interaction

variable {Req Rep α β : Type}

/-! ## Programs -/

/-- Go on with the value of a client; a failure ends the program. -/
def andThen (client : Interaction Req Rep α) (next : α → Interaction Req Rep β) :
    Interaction Req Rep β :=
  match client with
  | done (.ok a) => next a
  | done (.error failure) => done (.error failure)
  | ask request reply => ask request fun rep => (reply rep).andThen next

instance : Monad (Interaction Req Rep) where
  pure a := done (.ok a)
  bind := andThen

/-- Send one request. -/
def send (request : Req) : Interaction Req Rep Rep :=
  ask request fun rep => done (.ok rep)

/-- A computation that sends nothing. -/
def lift (result : Outcome α) : Interaction Req Rep α :=
  done result

/-- A client whose failure is a value. -/
def attempt : Interaction Req Rep α → Interaction Req Rep (Outcome α)
  | done result => done (.ok result)
  | ask request reply => ask request fun rep => (reply rep).attempt

/-! ## Runs -/

/-- The exchange of a client with a peer that gives these replies, and the
result. -/
def run : Interaction Req Rep α → (Nat → Rep) → List (Req × Rep) × Outcome α
  | done result, _ => ([], result)
  | ask request reply, replies =>
      let (trace, result) := (reply (replies 0)).run fun i => replies (i + 1)
      ((request, replies 0) :: trace, result)

/-- Whatever the replies are, the exchange and the result satisfy `post`. -/
def Ensures : Interaction Req Rep α → (List (Req × Rep) → Outcome α → Prop) → Prop
  | done result, post => post [] result
  | ask request reply, post =>
      ∀ rep, (reply rep).Ensures fun trace result => post ((request, rep) :: trace) result

theorem run_of_ensures {client : Interaction Req Rep α}
    {post : List (Req × Rep) → Outcome α → Prop} (h : client.Ensures post) (replies : Nat → Rep) :
    post (client.run replies).1 (client.run replies).2 := by
  induction client generalizing post replies with
  | done result => exact h
  | ask request reply ih => exact ih (replies 0) (h (replies 0)) fun i => replies (i + 1)

theorem Ensures.mono {client : Interaction Req Rep α}
    {post post' : List (Req × Rep) → Outcome α → Prop} (h : client.Ensures post)
    (himp : ∀ trace result, post trace result → post' trace result) : client.Ensures post' := by
  induction client generalizing post post' with
  | done result => exact himp _ _ h
  | ask request reply ih =>
    intro rep
    exact ih rep (h rep) fun trace result hpost => himp _ _ hpost

/-! ## One rule for each way to build a client -/

@[simp] theorem ensures_lift {result : Outcome α}
    {post : List (Req × Rep) → Outcome α → Prop} :
    (lift result : Interaction Req Rep α).Ensures post ↔ post [] result := Iff.rfl

@[simp] theorem ensures_send {request : Req} {post : List (Req × Rep) → Outcome Rep → Prop} :
    (send request).Ensures post ↔ ∀ rep, post [(request, rep)] (.ok rep) := Iff.rfl

/-- What a client ensures that goes on with the value of another. -/
theorem ensures_bind {client : Interaction Req Rep α} {next : α → Interaction Req Rep β}
    {post : List (Req × Rep) → Outcome β → Prop} :
    (client >>= next).Ensures post ↔ client.Ensures fun trace result =>
      match result with
      | .ok a => (next a).Ensures fun more result' => post (trace ++ more) result'
      | .error failure => post trace (.error failure) := by
  show (client.andThen next).Ensures post ↔ _
  induction client generalizing post with
  | done result =>
    cases result with
    | ok a => exact Iff.rfl
    | error failure => exact Iff.rfl
  | ask request reply ih => exact forall_congr' fun rep => ih rep

theorem ensures_attempt {client : Interaction Req Rep α}
    {post : List (Req × Rep) → Outcome (Outcome α) → Prop} :
    client.attempt.Ensures post ↔ client.Ensures fun trace result => post trace (.ok result) := by
  induction client generalizing post with
  | done result => exact Iff.rfl
  | ask request reply ih => exact forall_congr' fun rep => ih rep

/-- A computation in front that sends nothing. -/
@[simp] theorem ensures_lift_bind {result : Outcome α} {next : α → Interaction Req Rep β}
    {post : List (Req × Rep) → Outcome β → Prop} :
    (lift result >>= next).Ensures post ↔
      (∀ a, result = .ok a → (next a).Ensures post) ∧
        ∀ failure, result = .error failure → post [] (.error failure) := by
  rw [ensures_bind, ensures_lift]
  cases result with
  | ok a => simp
  | error failure => simp

/-- A request in front. -/
@[simp] theorem ensures_send_bind {request : Req} {next : Rep → Interaction Req Rep β}
    {post : List (Req × Rep) → Outcome β → Prop} :
    (send request >>= next).Ensures post ↔
      ∀ rep, (next rep).Ensures fun trace result => post ((request, rep) :: trace) result := by
  rw [ensures_bind, ensures_send]
  rfl

/-! ## Facts about every exchange -/

/-- Every exchange of the client satisfies `P`, also in a run that fails. -/
def Only (client : Interaction Req Rep α) (P : Req × Rep → Prop) : Prop :=
  client.Ensures fun trace _ => ∀ x ∈ trace, P x

theorem only_lift {result : Outcome α} {P : Req × Rep → Prop} :
    (lift result : Interaction Req Rep α).Only P := by
  intro x hx
  cases hx

theorem only_send {request : Req} {P : Req × Rep → Prop} (h : ∀ rep, P (request, rep)) :
    (send request : Interaction Req Rep Rep).Only P := by
  intro rep x hx
  obtain rfl := List.mem_singleton.mp hx
  exact h rep

theorem Only.bind {client : Interaction Req Rep α} {next : α → Interaction Req Rep β}
    {P : Req × Rep → Prop} (h : client.Only P) (hnext : ∀ a, (next a).Only P) :
    (client >>= next).Only P := by
  refine ensures_bind.mpr (h.mono fun trace result htrace => ?_)
  cases result with
  | error failure => exact htrace
  | ok a =>
    refine (hnext a).mono fun more _ hmore x hx => ?_
    rcases List.mem_append.mp hx with hx | hx
    · exact htrace x hx
    · exact hmore x hx

theorem Only.attempt {client : Interaction Req Rep α} {P : Req × Rep → Prop}
    (h : client.Only P) : client.attempt.Only P :=
  ensures_attempt.mpr h

end Interaction

end CodeLib
