import Psign.CodeLib.Outcome

/-!
# Ordered maps

`std::collections::BTreeMap` as the list of its entries in ascending order of the
keys.  A bare list keeps the model computable: the order is kept by `insert`, and
the lemmas about `get` hold for every list.

`insertAll` inserts entries one after the other; where their keys are different,
the map holds exactly these entries besides those that it had.
-/

namespace CodeLib.SortedMap

variable {K V : Type} [DecidableEq K] [LT K] [DecidableLT K]

/-- The entries of a map. -/
abbrev Map (K V : Type) := List (K × V)

/-- `BTreeMap::keys`. -/
def keys (m : Map K V) : List K :=
  m.map Prod.fst

/-- `BTreeMap::get`. -/
def get (m : Map K V) (key : K) : Option V :=
  m.lookup key

/-- `BTreeMap::insert`, without the value that was there. -/
def insert : Map K V → K → V → Map K V
  | [], key, value => [(key, value)]
  | (k, v) :: rest, key, value =>
    if key = k then (key, value) :: rest
    else if key < k then (key, value) :: (k, v) :: rest
    else (k, v) :: insert rest key value

/-- Insert the entries one after the other. -/
def insertAll (m : Map K V) (entries : List (K × V)) : Map K V :=
  entries.foldl (fun m entry => insert m entry.1 entry.2) m

/-! ## Lookup -/

omit [LT K] [DecidableLT K] in
theorem get_cons (k : K) (v : V) (rest : Map K V) (key : K) :
    get ((k, v) :: rest) key = if key = k then some v else get rest key := by
  unfold get
  rw [List.lookup_cons]
  by_cases h : key = k
  · simp [h]
  · have hne : (key == k) = false := by simpa using h
    simp [h, hne]

theorem get_insert (m : Map K V) (key : K) (value : V) (key' : K) :
    get (insert m key value) key' = if key' = key then some value else get m key' := by
  induction m with
  | nil => simp [insert, get_cons]
  | cons entry rest ih =>
    obtain ⟨k, v⟩ := entry
    rw [insert]
    by_cases hsame : key = k
    · subst hsame
      rw [if_pos rfl, get_cons, get_cons]
      by_cases h : key' = key <;> simp [h]
    · rw [if_neg hsame]
      by_cases hlt : key < k
      · rw [if_pos hlt, get_cons]
      · rw [if_neg hlt, get_cons, get_cons, ih]
        by_cases h : key' = k
        · subst h
          rw [if_pos rfl, if_pos rfl, if_neg fun heq => hsame heq.symm]
        · rw [if_neg h, if_neg h]

theorem mem_keys_insert {m : Map K V} {key : K} {value : V} {key' : K} :
    key' ∈ keys (insert m key value) ↔ key' = key ∨ key' ∈ keys m := by
  induction m with
  | nil => simp [insert, keys]
  | cons entry rest ih =>
    obtain ⟨k, v⟩ := entry
    rw [insert]
    by_cases hsame : key = k
    · subst hsame
      simp [keys]
    · rw [if_neg hsame]
      by_cases hlt : key < k
      · simp [hlt, keys]
      · rw [if_neg hlt]
        simp only [keys, List.map_cons, List.mem_cons] at ih ⊢
        rw [ih]
        exact or_left_comm

omit [LT K] [DecidableLT K] in
theorem mem_keys_iff {m : Map K V} {key : K} : key ∈ keys m ↔ ∃ value, get m key = some value := by
  induction m with
  | nil => simp [keys, get]
  | cons entry rest ih =>
    obtain ⟨k, v⟩ := entry
    simp only [keys, List.map_cons, List.mem_cons] at ih ⊢
    rw [ih]
    by_cases h : key = k <;> simp [get_cons, h]

omit [LT K] [DecidableLT K] in
/-- With different keys, what is found is what is there. -/
theorem get_eq_some_iff_mem {m : Map K V} {key : K} {value : V} (hnodup : (keys m).Nodup) :
    get m key = some value ↔ (key, value) ∈ m := by
  induction m with
  | nil => simp [get]
  | cons entry rest ih =>
    obtain ⟨k, v⟩ := entry
    rw [keys, List.map_cons, List.nodup_cons] at hnodup
    rw [get_cons, List.mem_cons, Prod.mk.injEq]
    by_cases h : key = k
    · subst h
      rw [if_pos rfl, Option.some.injEq]
      constructor
      · exact fun heq => .inl ⟨rfl, heq.symm⟩
      · intro hmem
        rcases hmem with hmem | hmem
        · exact hmem.2.symm
        · exact absurd (List.mem_map_of_mem hmem) hnodup.1
    · rw [if_neg h, ih hnodup.2]
      simp [h]

omit [LT K] [DecidableLT K] in
theorem mem_of_get {m : Map K V} {key : K} {value : V} (h : get m key = some value) :
    (key, value) ∈ m := by
  induction m with
  | nil => cases h
  | cons entry rest ih =>
    obtain ⟨k, v⟩ := entry
    rw [get_cons] at h
    by_cases hkey : key = k
    · rw [if_pos hkey] at h
      rw [hkey, Option.some.inj h]
      exact List.mem_cons_self
    · rw [if_neg hkey] at h
      exact List.mem_cons_of_mem _ (ih h)

theorem nodup_keys_insert {m : Map K V} {key : K} (value : V) (hnodup : (keys m).Nodup)
    (h : key ∉ keys m) : (keys (insert m key value)).Nodup := by
  induction m with
  | nil => simp [insert, keys]
  | cons entry rest ih =>
    obtain ⟨k, v⟩ := entry
    have hparts := hnodup
    rw [keys, List.map_cons, List.nodup_cons] at hparts
    simp only [keys, List.map_cons, List.mem_cons, not_or] at h
    rw [insert, if_neg h.1]
    by_cases hlt : key < k
    · rw [if_pos hlt, keys, List.map_cons, List.nodup_cons]
      refine ⟨?_, hnodup⟩
      simp only [List.map_cons, List.mem_cons, not_or]
      exact h
    · rw [if_neg hlt, keys, List.map_cons, List.nodup_cons]
      refine ⟨?_, ih hparts.2 h.2⟩
      show k ∉ keys (insert rest key value)
      rw [mem_keys_insert, not_or]
      exact ⟨fun heq => h.1 heq.symm, hparts.1⟩

/-! ## Insertions one after the other -/

theorem nodup_keys_insertAll {m : Map K V} {entries : List (K × V)} (hnodup : (keys m).Nodup)
    (hentries : (entries.map Prod.fst).Nodup) (hnew : ∀ entry ∈ entries, entry.1 ∉ keys m) :
    (keys (insertAll m entries)).Nodup := by
  induction entries generalizing m with
  | nil => exact hnodup
  | cons entry entries ih =>
    rw [List.map_cons, List.nodup_cons] at hentries
    rw [insertAll, List.foldl_cons, ← insertAll]
    refine ih (nodup_keys_insert _ hnodup (hnew entry List.mem_cons_self)) hentries.2 ?_
    intro other hother
    rw [mem_keys_insert, not_or]
    refine ⟨?_, hnew other (List.mem_cons_of_mem _ hother)⟩
    intro heq
    exact hentries.1 (heq ▸ List.mem_map_of_mem hother)

theorem get_insertAll_of_not_mem {m : Map K V} {entries : List (K × V)} {key : K}
    (h : key ∉ entries.map Prod.fst) : get (insertAll m entries) key = get m key := by
  induction entries generalizing m with
  | nil => rfl
  | cons entry entries ih =>
    simp only [List.map_cons, List.mem_cons, not_or] at h
    rw [insertAll, List.foldl_cons, ← insertAll, ih h.2, get_insert, if_neg h.1]

/-- Entries with different keys are all found. -/
theorem get_insertAll_of_mem {m : Map K V} {entries : List (K × V)} {key : K} {value : V}
    (hnodup : (entries.map Prod.fst).Nodup) (h : (key, value) ∈ entries) :
    get (insertAll m entries) key = some value := by
  induction entries generalizing m with
  | nil => exact absurd h List.not_mem_nil
  | cons entry entries ih =>
    rw [List.map_cons, List.nodup_cons] at hnodup
    rw [insertAll, List.foldl_cons, ← insertAll]
    rcases List.mem_cons.mp h with rfl | h
    · rw [get_insertAll_of_not_mem hnodup.1, get_insert, if_pos rfl]
    · exact ih hnodup.2 h

end CodeLib.SortedMap
