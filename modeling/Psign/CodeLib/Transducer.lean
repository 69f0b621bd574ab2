import Mathlib.Data.List.Basic
import Psign.CodeLib.Members

/-!
# Transducers with synchronizing symbols

A transducer reads its input one symbol at a time, emits output as it goes and
emits a last piece when the input ends.  The lossy decoders of text encodings
are transducers: the state is the unfinished sequence.

A symbol is *synchronizing* when reading it first closes the unfinished
sequence, as the end of the input would, and then goes on from the initial
state.  What stands before such a symbol never changes how the rest is read
(`run_append_of_synchronizing`), so text that starts with one can be appended
to anything.
-/

namespace CodeLib

/-- A machine that turns a list of `α` into a list of `β`. -/
structure Transducer (σ α β : Type) where
  initial : σ
  step : σ → α → List β × σ
  finish : σ → List β

namespace Transducer

variable {σ α β : Type}

/-- The output from a state on. -/
def runFrom (machine : Transducer σ α β) : σ → List α → List β
  | s, [] => machine.finish s
  | s, a :: rest => (machine.step s a).1 ++ machine.runFrom (machine.step s a).2 rest

/-- The output on a whole input. -/
def run (machine : Transducer σ α β) (input : List α) : List β :=
  machine.runFrom machine.initial input

/-- Reading `a` closes what is unfinished and restarts the machine. -/
def Synchronizing (machine : Transducer σ α β) (a : α) : Prop :=
  ∀ s, machine.step s a =
    (machine.finish s ++ (machine.step machine.initial a).1, (machine.step machine.initial a).2)

/-- Nothing is unfinished before the input starts. -/
def Clean (machine : Transducer σ α β) : Prop :=
  machine.finish machine.initial = []

@[simp] theorem run_nil {machine : Transducer σ α β} (hclean : machine.Clean) :
    machine.run [] = [] :=
  hclean

theorem runFrom_append_of_synchronizing {machine : Transducer σ α β} {a : α}
    (hsync : machine.Synchronizing a) (s : σ) (xs rest : List α) :
    machine.runFrom s (xs ++ a :: rest) = machine.runFrom s xs ++ machine.run (a :: rest) := by
  induction xs generalizing s with
  | nil =>
    rw [List.nil_append, run, runFrom, runFrom, runFrom, hsync s, List.append_assoc]
  | cons x xs ih => rw [List.cons_append, runFrom, runFrom, ih, List.append_assoc]

/-- The input before a synchronizing symbol and the input from it on are read
independently of each other. -/
theorem run_append_of_synchronizing {machine : Transducer σ α β} {a : α}
    (hsync : machine.Synchronizing a) (xs rest : List α) :
    machine.run (xs ++ a :: rest) = machine.run xs ++ machine.run (a :: rest) :=
  runFrom_append_of_synchronizing hsync machine.initial xs rest

/-- A machine that emits one symbol for `a` and stays in its initial state does
so wherever `a` starts the input. -/
theorem run_cons_of_step {machine : Transducer σ α β} {a : α} {b : β}
    (hstep : machine.step machine.initial a = ([b], machine.initial)) (rest : List α) :
    machine.run (a :: rest) = b :: machine.run rest := by
  rw [run, runFrom, hstep]
  rfl

/-- Symbols read one by one are translated one by one. -/
theorem run_map_of_step {machine : Transducer σ α β} (hclean : machine.Clean) {γ : Type}
    (read : γ → α) (emit : γ → β) (xs : List γ)
    (hstep : ∀ x ∈ xs, machine.step machine.initial (read x) = ([emit x], machine.initial)) :
    machine.run (xs.map read) = xs.map emit := by
  induction xs with
  | nil => exact run_nil hclean
  | cons x xs ih =>
    rw [List.map_cons, List.map_cons, run_cons_of_step (hstep x List.mem_cons_self),
      ih fun y hy => hstep y (List.mem_cons_of_mem _ hy)]

/-- `b` comes out of the machine only by reading the synchronizing symbol `a`,
which emits nothing else from the initial state. -/
structure OnlyFrom (machine : Transducer σ α β) (b : β) (a : α) : Prop where
  synchronizing : machine.Synchronizing a
  step_initial : machine.step machine.initial a = ([b], machine.initial)
  symbol_of_mem_step : ∀ s x, b ∈ (machine.step s x).1 → x = a
  not_mem_finish : ∀ s, b ∉ machine.finish s

/-- The same of the states that keep an invariant. -/
structure OnlyFromOn (machine : Transducer σ α β) (inv : σ → Prop) (b : β) (a : α) : Prop where
  synchronizing : machine.Synchronizing a
  step_initial : machine.step machine.initial a = ([b], machine.initial)
  inv_initial : inv machine.initial
  inv_step : ∀ s x, inv s → inv (machine.step s x).2
  symbol_of_mem_step : ∀ s x, inv s → b ∈ (machine.step s x).1 → x = a
  not_mem_finish : ∀ s, inv s → b ∉ machine.finish s

private theorem exists_split_of_runFrom_eq {machine : Transducer σ α β} {inv : σ → Prop} {a : α}
    {b : β} (honly : machine.OnlyFromOn inv b a) {input : List α} :
    ∀ {s : σ} (_ : inv s) (pre : List β) {post : List β}, machine.runFrom s input = pre ++ b :: post →
      ∃ before after, input = before ++ a :: after ∧ machine.runFrom s before = pre ∧
        machine.run after = post := by
  induction input with
  | nil =>
    intro s hs pre post hrun
    refine absurd ?_ (honly.not_mem_finish s hs)
    rw [runFrom] at hrun
    simp [hrun]
  | cons x xs ih =>
    intro s hs pre post hrun
    have hnext := honly.inv_step s x hs
    rw [runFrom, List.append_eq_append_iff] at hrun
    rcases hrun with ⟨rest, hpre, hrest⟩ | ⟨rest, hemit, hrest⟩
    · obtain ⟨before, after, rfl, hbefore, hafter⟩ := ih hnext rest hrest
      refine ⟨x :: before, after, by simp, ?_, hafter⟩
      rw [runFrom, hbefore, hpre]
    · cases rest with
      | nil =>
        -- `pre` ends exactly where the output of `x` does
        obtain ⟨before, after, rfl, hbefore, hafter⟩ := ih hnext [] hrest.symm
        refine ⟨x :: before, after, by simp, ?_, hafter⟩
        rw [runFrom, hbefore, hemit, List.append_nil, List.append_nil]
      | cons c rest =>
        obtain ⟨rfl, hpost⟩ := List.cons.inj hrest
        have hx : x = a := honly.symbol_of_mem_step s x hs (by simp [hemit])
        subst hx
        have hstep := honly.synchronizing s
        rw [honly.step_initial] at hstep
        rw [hstep, List.append_eq_append_iff] at hemit
        have hsplit : machine.finish s = pre ∧ rest = [] := by
          rcases hemit with ⟨m, hm, hm'⟩ | ⟨m, hm, hm'⟩
          · cases m with
            | nil => simp_all
            | cons d m => simp at hm'
          · cases m with
            | nil => simp_all
            | cons d m =>
              refine absurd ?_ (honly.not_mem_finish s hs)
              simp_all
        obtain ⟨hfinish, rfl⟩ := hsplit
        refine ⟨[], xs, rfl, hfinish, ?_⟩
        rw [hpost, hstep]
        rfl

/-- An occurrence of `b` in the output comes from an occurrence of `a` in the
input, and the two sides of it are read on their own. -/
theorem exists_split_of_run_eq_on {machine : Transducer σ α β} {inv : σ → Prop} {a : α} {b : β}
    (honly : machine.OnlyFromOn inv b a) {input : List α} (pre : List β) {post : List β}
    (hrun : machine.run input = pre ++ b :: post) :
    ∃ before after, input = before ++ a :: after ∧ machine.run before = pre ∧
      machine.run after = post :=
  exists_split_of_runFrom_eq honly honly.inv_initial pre hrun

theorem exists_split_of_run_eq {machine : Transducer σ α β} {a : α} {b : β}
    (honly : machine.OnlyFrom b a) {input : List α} (pre : List β) {post : List β}
    (hrun : machine.run input = pre ++ b :: post) :
    ∃ before after, input = before ++ a :: after ∧ machine.run before = pre ∧
      machine.run after = post := by
  have hon : machine.OnlyFromOn (fun _ => True) b a :=
    { synchronizing := honly.synchronizing
      step_initial := honly.step_initial
      inv_initial := trivial
      inv_step := fun _ _ _ => trivial
      symbol_of_mem_step := fun s x _ => honly.symbol_of_mem_step s x
      not_mem_finish := fun s _ => honly.not_mem_finish s }
  exact exists_split_of_run_eq_on hon pre hrun

end Transducer

end CodeLib
