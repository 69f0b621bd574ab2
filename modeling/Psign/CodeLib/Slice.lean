import Mathlib.Data.List.Basic
import Psign.CodeLib.Members

/-!
# Slices

Slice methods of the Rust standard library on lists.  `chunks` cuts a list into
pieces of one length, the last of which may be shorter.
-/

namespace CodeLib.Slice

variable {α : Type}

/-- At most `fuel` pieces of `size` elements. -/
def chunksFuel (size : Nat) : Nat → List α → List (List α)
  | 0, _ => []
  | fuel + 1, xs =>
      if xs.isEmpty then [] else xs.take size :: chunksFuel size fuel (xs.drop size)

/-- `slice::chunks`.  Every piece takes at least one element, so the length of
the list is enough fuel. -/
def chunks (size : Nat) (xs : List α) : List (List α) :=
  chunksFuel size xs.length xs

private theorem chunksFuel_map {β : Type} (f : α → β) (size : Nat) : ∀ (fuel : Nat) (xs : List α),
    chunksFuel size fuel (xs.map f) = (chunksFuel size fuel xs).map (List.map f) := by
  intro fuel
  induction fuel with
  | zero => intro xs; rfl
  | succ fuel ih =>
    intro xs
    unfold chunksFuel
    rw [List.isEmpty_map, ← List.map_take, ← List.map_drop, ih]
    split <;> rfl

/-- The pieces of the images are the images of the pieces. -/
theorem chunks_map {β : Type} (f : α → β) (size : Nat) (xs : List α) :
    chunks size (xs.map f) = (chunks size xs).map (List.map f) := by
  rw [chunks, List.length_map, chunksFuel_map]
  rfl

private theorem flatten_chunksFuel {size : Nat} (hsize : 0 < size) :
    ∀ (fuel : Nat) (xs : List α), xs.length ≤ fuel → (chunksFuel size fuel xs).flatten = xs := by
  intro fuel
  induction fuel with
  | zero =>
    intro xs hfuel
    obtain rfl := List.length_eq_zero_iff.mp (Nat.le_zero.mp hfuel)
    rfl
  | succ fuel ih =>
    intro xs hfuel
    unfold chunksFuel
    split
    · rename_i hempty
      simp [List.isEmpty_iff.mp hempty]
    · rename_i hne
      have hpos : xs.length ≠ 0 := fun h => hne (by simp [List.length_eq_zero_iff.mp h])
      have hrest : (xs.drop size).length ≤ fuel := by
        rw [List.length_drop]
        omega
      rw [List.flatten_cons, ih _ hrest, List.take_append_drop]

/-- The pieces are the list. -/
theorem flatten_chunks {size : Nat} (hsize : 0 < size) (xs : List α) :
    (chunks size xs).flatten = xs :=
  flatten_chunksFuel hsize _ xs (Nat.le_refl _)

private theorem dvd_length_of_mem_chunksFuel {size d : Nat} (hsize : d ∣ size) :
    ∀ (fuel : Nat) (xs : List α), d ∣ xs.length → ∀ chunk ∈ chunksFuel size fuel xs,
      d ∣ chunk.length := by
  intro fuel
  induction fuel with
  | zero => simp [chunksFuel]
  | succ fuel ih =>
    intro xs hxs chunk hchunk
    unfold chunksFuel at hchunk
    split at hchunk
    · simp at hchunk
    · rcases List.mem_cons.mp hchunk with rfl | htail
      · rw [List.length_take]
        rcases Nat.le_total size xs.length with h | h
        · rwa [Nat.min_eq_left h]
        · rwa [Nat.min_eq_right h]
      · refine ih (xs.drop size) ?_ chunk htail
        rw [List.length_drop]
        exact Nat.dvd_sub hxs hsize

/-- A divisor of the length and of the size of the pieces divides the length of
every piece. -/
theorem dvd_length_of_mem_chunks {size d : Nat} (hsize : d ∣ size) {xs : List α}
    (hxs : d ∣ xs.length) {chunk : List α} (hchunk : chunk ∈ chunks size xs) :
    d ∣ chunk.length :=
  dvd_length_of_mem_chunksFuel hsize _ xs hxs chunk hchunk

theorem ne_nil_of_mem_chunks {size : Nat} (hsize : 0 < size) {xs chunk : List α}
    (hchunk : chunk ∈ chunks size xs) : chunk ≠ [] := by
  have hall : ∀ (fuel : Nat) (xs : List α), chunk ∈ chunksFuel size fuel xs → chunk ≠ [] := by
    intro fuel
    induction fuel with
    | zero => simp [chunksFuel]
    | succ fuel ih =>
      intro xs hchunk
      unfold chunksFuel at hchunk
      split at hchunk
      · simp at hchunk
      · rename_i hne
        rcases List.mem_cons.mp hchunk with rfl | htail
        · simp only [ne_eq, List.take_eq_nil_iff]
          rintro (h | h)
          · omega
          · simp [h] at hne
        · exact ih _ htail
  exact hall _ xs hchunk

private theorem length_le_of_mem_chunksFuel {size : Nat} : ∀ (fuel : Nat) (xs : List α),
    ∀ chunk ∈ chunksFuel size fuel xs, chunk.length ≤ size := by
  intro fuel
  induction fuel with
  | zero => intro xs chunk hchunk; exact absurd hchunk List.not_mem_nil
  | succ fuel ih =>
    intro xs chunk hchunk
    unfold chunksFuel at hchunk
    split at hchunk
    · exact absurd hchunk List.not_mem_nil
    · rcases List.mem_cons.mp hchunk with rfl | htail
      · exact List.length_take_le size xs
      · exact ih _ chunk htail

theorem length_le_of_mem_chunks {size : Nat} {xs chunk : List α} (hchunk : chunk ∈ chunks size xs) :
    chunk.length ≤ size :=
  length_le_of_mem_chunksFuel _ xs chunk hchunk

theorem mem_of_mem_chunks {size : Nat} (hsize : 0 < size) {xs chunk : List α}
    (hchunk : chunk ∈ chunks size xs) : ∀ x ∈ chunk, x ∈ xs := by
  intro x hx
  rw [← flatten_chunks hsize xs]
  exact List.mem_flatten.mpr ⟨chunk, hchunk, hx⟩

end CodeLib.Slice
