import Mathlib

/-!
# Sorting by a key

What sorting does to a list of which one element is changed.  Dropping elements
commutes with sorting (`filter_insertionSort`), so elements that are dropped behind
the sort do not count; and an element that is replaced by one of the same rank stays
at its place (`insertionSort_replace`).  Where no two elements have the same rank, a
list has one order only (`insertionSort_eq_of_perm`).  A search in a sorted list is decided
by what comes before (`findSome?_eq_some_iff_before`).
-/

namespace CodeLib.Sort

open List

variable {α : Type} {r : α → α → Prop} [DecidableRel r]

private theorem filter_orderedInsert [IsTrans α r] (p : α → Bool) (a : α) {l : List α}
    (hsorted : l.Pairwise r) :
    (l.orderedInsert r a).filter p =
      if p a then (l.filter p).orderedInsert r a else l.filter p := by
  induction l with
  | nil => cases h : p a <;> simp [h]
  | cons b l ih =>
    have htail := ih hsorted.of_cons
    rw [orderedInsert_cons]
    by_cases hle : r a b
    · rw [if_pos hle, filter_cons]
      -- everything that is kept of the list is behind `a`
      have hrest : ((b :: l).filter p).orderedInsert r a = a :: (b :: l).filter p := by
        cases hkept : (b :: l).filter p with
        | nil => rfl
        | cons c rest =>
          have hmem : c ∈ b :: l := (mem_filter.mp (hkept ▸ mem_cons_self)).1
          have hac : r a c := by
            rcases mem_cons.mp hmem with rfl | hmem
            · exact hle
            · exact trans_of r hle (rel_of_pairwise_cons hsorted hmem)
          exact orderedInsert_cons_of_le r rest hac
      rw [hrest]
    · rw [if_neg hle]
      cases hb : p b with
      | false => rw [filter_cons_of_neg (by simp [hb]), filter_cons_of_neg (by simp [hb]), htail]
      | true =>
        rw [filter_cons_of_pos hb, filter_cons_of_pos hb, htail, orderedInsert_cons, if_neg hle]
        cases p a <;> rfl

/-- Dropping elements commutes with sorting. -/
theorem filter_insertionSort [Std.Total r] [IsTrans α r] (p : α → Bool) (l : List α) :
    (l.insertionSort r).filter p = (l.filter p).insertionSort r := by
  induction l with
  | nil => rfl
  | cons a l ih =>
    rw [insertionSort_cons, filter_orderedInsert p a (pairwise_insertionSort r l), ih]
    cases h : p a with
    | false => rw [filter_cons_of_neg (by simp [h])]; rfl
    | true => rw [filter_cons_of_pos h, insertionSort_cons]; rfl

variable {x y : α}

private theorem orderedInsert_self_replace (hbefore : ∀ a, r x a ↔ r y a) (l : List α) :
    ∃ before after, l.orderedInsert r x = before ++ x :: after ∧
      l.orderedInsert r y = before ++ y :: after := by
  induction l with
  | nil => exact ⟨[], [], rfl, rfl⟩
  | cons a l ih =>
    rw [orderedInsert_cons, orderedInsert_cons]
    by_cases hle : r x a
    · rw [if_pos hle, if_pos ((hbefore a).mp hle)]
      exact ⟨[], a :: l, rfl, rfl⟩
    · rw [if_neg hle, if_neg fun h => hle ((hbefore a).mpr h)]
      obtain ⟨before, after, hx, hy⟩ := ih
      exact ⟨a :: before, after, by rw [hx]; rfl, by rw [hy]; rfl⟩

private theorem orderedInsert_replace (hafter : ∀ a, r a x ↔ r a y) (a : α)
    (before after : List α) :
    ∃ before' after', (before ++ x :: after).orderedInsert r a = before' ++ x :: after' ∧
      (before ++ y :: after).orderedInsert r a = before' ++ y :: after' := by
  induction before with
  | nil =>
    rw [nil_append, nil_append, orderedInsert_cons, orderedInsert_cons]
    by_cases hle : r a x
    · rw [if_pos hle, if_pos ((hafter a).mp hle)]
      exact ⟨[a], after, rfl, rfl⟩
    · rw [if_neg hle, if_neg fun h => hle ((hafter a).mpr h)]
      exact ⟨[], after.orderedInsert r a, rfl, rfl⟩
  | cons b before ih =>
    rw [cons_append, cons_append, orderedInsert_cons, orderedInsert_cons]
    by_cases hle : r a b
    · rw [if_pos hle, if_pos hle]
      exact ⟨a :: b :: before, after, rfl, rfl⟩
    · rw [if_neg hle, if_neg hle]
      obtain ⟨before', after', hx, hy⟩ := ih
      exact ⟨b :: before', after', by rw [hx]; rfl, by rw [hy]; rfl⟩

/-- An element that is replaced by one of the same rank stays at its place. -/
theorem insertionSort_replace (hbefore : ∀ a, r x a ↔ r y a) (hafter : ∀ a, r a x ↔ r a y)
    (before after : List α) :
    ∃ before' after', (before ++ x :: after).insertionSort r = before' ++ x :: after' ∧
      (before ++ y :: after).insertionSort r = before' ++ y :: after' := by
  induction before with
  | nil =>
    rw [nil_append, nil_append, insertionSort_cons, insertionSort_cons]
    exact orderedInsert_self_replace hbefore _
  | cons a before ih =>
    obtain ⟨before', after', hx, hy⟩ := ih
    rw [cons_append, cons_append, insertionSort_cons, insertionSort_cons, hx, hy]
    exact orderedInsert_replace hafter a before' after'

/-- Without two elements of the same rank, sorting forgets the order of the list. -/
theorem insertionSort_eq_of_perm [Std.Total r] [IsTrans α r] {l l' : List α} (hperm : l.Perm l')
    (hranks : ∀ a ∈ l, ∀ b ∈ l, r a b → r b a → a = b) :
    l.insertionSort r = l'.insertionSort r := by
  have hsorted := (perm_insertionSort r l).trans (hperm.trans (perm_insertionSort r l').symm)
  apply Perm.eq_of_pairwise ?_ (pairwise_insertionSort r l) (pairwise_insertionSort r l') hsorted
  intro a b ha hb hab hba
  have hamem : a ∈ l := (perm_insertionSort r l).mem_iff.mp ha
  have hbmem : b ∈ l := hperm.mem_iff.mpr ((perm_insertionSort r l').mem_iff.mp hb)
  exact hranks a hamem b hbmem hab hba

/-! ## Searching in order -/

section search

variable {β : Type} {before : α → α → Prop} {l : List α} {f : α → Option β} {a : α} {v : β}

/-- In a list in which `before` holds of elements in their order, a search that finds `v` at `a`
finds `v` exactly if every other find in front of `a` is itself behind a find of `v`. -/
theorem findSome?_eq_some_iff_before (hpairwise : l.Pairwise before)
    (hirrefl : ∀ x, ¬ before x x) (htrans : ∀ x y z, before x y → before y z → before x z)
    (ha : a ∈ l) (hfind : f a = some v) :
    l.findSome? f = some v ↔ ∀ x ∈ l, before x a → ∀ w, f x = some w → w ≠ v →
      ∃ y ∈ l, before y x ∧ f y = some v := by
  constructor
  · intro hsome x hx hbefore w hw hne
    obtain ⟨front, y, back, rfl, hy, hfront⟩ := findSome?_eq_some_iff.mp hsome
    refine ⟨y, mem_append_right _ mem_cons_self, ?_, hy⟩
    rcases mem_append.mp hx with hx | hx
    · rw [hfront x hx] at hw
      simp at hw
    · rcases mem_cons.mp hx with rfl | hx
      · exact absurd (Option.some.inj (hw.symm.trans hy)) hne
      · exact rel_of_pairwise_cons (pairwise_append.mp hpairwise).2.1 hx
  · intro hothers
    obtain ⟨w, hw⟩ : ∃ w, l.findSome? f = some w := by
      rw [← Option.isSome_iff_exists, findSome?_isSome_iff]
      exact ⟨a, ha, by rw [hfind]; rfl⟩
    obtain ⟨front, x, back, rfl, hx, hfront⟩ := findSome?_eq_some_iff.mp hw
    have hback := (pairwise_append.mp hpairwise).2.1
    -- whatever is found stands at `x` or behind it
    have hbehind : ∀ y ∈ front ++ x :: back, (f y).isSome → y ≠ x → before x y := by
      intro y hy hsome hne
      rcases mem_append.mp hy with hy | hy
      · rw [hfront y hy] at hsome
        simp at hsome
      · exact rel_of_pairwise_cons hback ((mem_cons.mp hy).resolve_left hne)
    by_contra hne
    rw [hw, Option.some.injEq] at hne
    have hax : a ≠ x := by
      rintro rfl
      exact hne (Option.some.inj (hx.symm.trans hfind))
    have hbefore := hbehind a ha (by rw [hfind]; rfl) hax
    obtain ⟨y, hy, hyx, hfound⟩ := hothers x (mem_append_right _ mem_cons_self) hbefore w hx hne
    by_cases hsame : y = x
    · exact hirrefl x (hsame ▸ hyx)
    · exact hirrefl x (htrans _ _ _ (hbehind y hy (by rw [hfound]; rfl) hsame) hyx)

end search

end CodeLib.Sort
