import Mathlib

/-!
# Statements about members

Whether something holds of all members of a list, or of one, is decided by going through the list.
For a type with finitely many values there are other instances, which go through the type.  Which
one is found depends on what is imported, and for characters the type is too large to go through.
So the instances of lists and options come first here.

Membership of a text or of bytes in a list compares them by the equality test of lists, whose
laws are instances of their own.
-/

namespace CodeLib

variable {α : Type*} {p : α → Prop} [DecidablePred p]

instance (priority := 2000) decidableForallMem (l : List α) : Decidable (∀ a ∈ l, p a) :=
  List.decidableBAll p l

instance (priority := 2000) decidableExistsMem (l : List α) : Decidable (∃ a ∈ l, p a) :=
  List.decidableBEx p l

instance (priority := 2000) decidableForallMemOption (o : Option α) : Decidable (∀ a ∈ o, p a) :=
  Option.decidableForallMem o

instance lawfulBEqChars : LawfulBEq (List Char) := inferInstance

instance lawfulBEqBytes : LawfulBEq (List UInt8) := inferInstance

end CodeLib
