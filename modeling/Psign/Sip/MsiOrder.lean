import Psign.Sip.MsiSign

/-!
# The MSI digest and the order of the entries

`cmp_utf16_name` is a strict total order on names.  It compares the keys of two names, which are
their UTF-16 bytes with an end mark behind them that is greater than every byte, so a name is behind
everything that begins with it (`cmpUtf16Name_append`).

Two files are the same up to the order of their entries if the entries of each storage are
(`CompoundFile.Reordered`).  The walk of the digest sorts the entries of a storage before it hashes
them, and entries with different names have one order only, so both walks hash the same for two
such files.  The proof is by induction on the tree; a step takes the permutation of one storage.
-/

namespace Psign.Sip

open CodeLib CodeLib.Unicode

/-! ## The order of the names -/

theorem nameBytes_injective {a b : List Char} (h : nameBytes a = nameBytes b) : a = b := by
  have hunits : encodeUtf16 a = encodeUtf16 b := by
    unfold nameBytes at h
    rw [← mapPairs_utf16leBytes (encodeUtf16 a), h, mapPairs_utf16leBytes]
  rw [← fromUtf16Lossy_encodeUtf16 a, hunits, fromUtf16Lossy_encodeUtf16]

theorem nameBytes_append (a b : List Char) : nameBytes (a ++ b) = nameBytes a ++ nameBytes b := by
  unfold nameBytes utf16leBytes encodeUtf16
  rw [List.flatMap_append, List.flatMap_append]

theorem nameKey_injective {a b : List UInt8} (h : nameKey a = nameKey b) : a = b :=
  List.map_injective_iff.mpr (fun _ _ => UInt8.toNat_inj.mp) (List.append_cancel_right h)

/-- The names are compared by their keys. -/
theorem cmpUtf16Name_eq_lt {a b : List Char} :
    cmpUtf16Name a b = .lt ↔ nameKey (nameBytes a) < nameKey (nameBytes b) := by
  unfold cmpUtf16Name
  rw [cmpNameBytes_eq]
  by_cases hlt : nameKey (nameBytes a) < nameKey (nameBytes b)
  · simp [hlt]
  · by_cases heq : nameKey (nameBytes a) = nameKey (nameBytes b)
    · simp [heq]
    · simp [hlt, heq]

/-- Only a name itself is neither before nor behind it. -/
theorem cmpUtf16Name_eq_eq {a b : List Char} : cmpUtf16Name a b = .eq ↔ a = b := by
  unfold cmpUtf16Name
  rw [cmpNameBytes_eq]
  constructor
  · intro h
    by_cases hlt : nameKey (nameBytes a) < nameKey (nameBytes b)
    · rw [if_pos hlt] at h
      cases h
    · rw [if_neg hlt] at h
      by_cases heq : nameKey (nameBytes a) = nameKey (nameBytes b)
      · exact nameBytes_injective (nameKey_injective heq)
      · rw [if_neg heq] at h
        cases h
  · rintro rfl
    rw [if_neg (lt_irrefl _), if_pos rfl]

/-- The other way around a comparison is reversed. -/
theorem cmpUtf16Name_swap (a b : List Char) : (cmpUtf16Name a b).swap = cmpUtf16Name b a := by
  unfold cmpUtf16Name
  rw [cmpNameBytes_eq, cmpNameBytes_eq]
  rcases lt_trichotomy (nameKey (nameBytes a)) (nameKey (nameBytes b)) with hlt | heq | hgt
  · rw [if_pos hlt, if_neg (lt_asymm hlt), if_neg (ne_of_gt hlt)]
    rfl
  · rw [heq, if_neg (lt_irrefl _), if_pos rfl]
    rfl
  · rw [if_pos hgt, if_neg (lt_asymm hgt), if_neg (ne_of_gt hgt)]
    rfl

theorem cmpUtf16Name_trans {a b c : List Char} (hab : cmpUtf16Name a b = .lt)
    (hbc : cmpUtf16Name b c = .lt) : cmpUtf16Name a c = .lt :=
  cmpUtf16Name_eq_lt.mpr (lt_trans (cmpUtf16Name_eq_lt.mp hab) (cmpUtf16Name_eq_lt.mp hbc))

/-- A name is behind everything that begins with it. -/
theorem cmpUtf16Name_append (a : List Char) {more : List Char} (hmore : more ≠ []) :
    cmpUtf16Name (a ++ more) a = .lt := by
  rw [cmpUtf16Name_eq_lt, nameBytes_append]
  have hkey : nameKey (nameBytes a ++ nameBytes more) =
      (nameBytes a).map UInt8.toNat ++ nameKey (nameBytes more) := by
    unfold nameKey
    rw [List.map_append, List.append_assoc]
  rw [hkey]
  apply List.append_left_lt
  cases hbytes : nameBytes more with
  | nil => exact absurd (nameBytes_injective (hbytes.trans (show [] = nameBytes [] from rfl))) hmore
  | cons first rest =>
    have hfirst := first.toNat_lt
    exact List.Lex.rel (by show first.toNat < 256; omega)

/-! ## Files up to the order of their entries -/

mutual

/-- The same entry but for the order of the entries in the storages below it. -/
inductive Entry.Reordered : Entry → Entry → Prop
  | stream (name : List Char) (info : EntryInfo) (contents : List UInt8) :
    Entry.Reordered (.stream name info contents) (.stream name info contents)
  | storage {name : List Char} {info : EntryInfo} {entries reordered entries' : List Entry}
    (below : AllReordered entries reordered) (perm : reordered.Perm entries') :
    Entry.Reordered (.storage name info entries) (.storage name info entries')

/-- One by one the same entries but for the order below them. -/
inductive AllReordered : List Entry → List Entry → Prop
  | nil : AllReordered [] []
  | cons {entry entry' : Entry} {entries entries' : List Entry} (head : entry.Reordered entry')
    (tail : AllReordered entries entries') : AllReordered (entry :: entries) (entry' :: entries')

end

mutual

/-- The siblings in every storage have different names. -/
def Entry.DistinctNames : Entry → Prop
  | .stream .. => True
  | .storage _ _ entries => (entries.map Entry.name).Nodup ∧ AllDistinctNames entries

/-- Every one of the entries has different names below it. -/
def AllDistinctNames : List Entry → Prop
  | [] => True
  | entry :: rest => entry.DistinctNames ∧ AllDistinctNames rest

end

/-- The same file but for the order of the entries of its storages. -/
def CompoundFile.Reordered (cfb cfb' : CompoundFile) : Prop :=
  cfb'.clsid = cfb.clsid ∧ cfb'.stateBits = cfb.stateBits ∧
    ∃ reordered, AllReordered cfb.entries reordered ∧ reordered.Perm cfb'.entries

/-- The siblings in every storage of the file, the root included, have different names. -/
def CompoundFile.DistinctNames (cfb : CompoundFile) : Prop :=
  (cfb.entries.map Entry.name).Nodup ∧ AllDistinctNames cfb.entries

/-! ## The walks -/

/-- Entries with different names are sorted in one way, whatever is hashed of them. -/
theorem insertionSort_names_eq {entries entries' : List (List Char × List UInt8)}
    (hperm : entries.Perm entries') (hnames : (entries.map Prod.fst).Nodup) :
    entries.insertionSort nameLe = entries'.insertionSort nameLe := by
  apply Sort.insertionSort_eq_of_perm hperm
  intro a ha b hb hab hba
  rw [nameLe_iff] at hab hba
  have hname : a.1 = b.1 := nameBytes_injective (nameKey_injective (le_antisymm hab hba))
  exact List.inj_on_of_nodup_map hnames ha hb hname

/-- Entries with their hashes, in another order. -/
theorem insertionSort_of_perm {g : Entry → List UInt8} {entries entries' : List Entry}
    (hperm : entries.Perm entries') (hnames : (entries.map Entry.name).Nodup) :
    (entries.map fun entry => (entry.name, g entry)).insertionSort nameLe =
      (entries'.map fun entry => (entry.name, g entry)).insertionSort nameLe := by
  apply insertionSort_names_eq (hperm.map _)
  rw [List.map_map]
  exact hnames

mutual

/-- An entry up to the order below it has the same name, and both walks hash the same of it. -/
theorem Entry.Reordered.same_walks : (entry : Entry) → {entry' : Entry} →
    entry.Reordered entry' → entry.DistinctNames →
    entry.name = entry'.name ∧ prehashStorageRecursive entry = prehashStorageRecursive entry' ∧
      hashStorageContentRecursive entry = hashStorageContentRecursive entry'
  | .stream name info contents, _, h, _ => by
    cases h
    exact ⟨rfl, rfl, rfl⟩
  | .storage name info entries, _, h, hdistinct => by
    unfold Entry.DistinctNames at hdistinct
    obtain ⟨hnames, hbelow⟩ := hdistinct
    cases h with
    | @storage _ _ _ reordered entries' below perm =>
      obtain ⟨hsame, hprehash, hcontent⟩ := AllReordered.same_walks entries below hbelow
      have hreordered : (reordered.map Entry.name).Nodup := hsame ▸ hnames
      refine ⟨rfl, ?_, ?_⟩
      · unfold prehashStorageRecursive prehashEntry
        rw [hprehash, prehashEntries_eq, prehashEntries_eq, insertionSort_of_perm perm hreordered]
      · unfold hashStorageContentRecursive
        rw [hcontent, contentEntries_eq, contentEntries_eq, insertionSort_of_perm perm hreordered]

/-- Both walks take the same of entries that are the same one by one. -/
theorem AllReordered.same_walks : (entries : List Entry) → {entries' : List Entry} →
    AllReordered entries entries' → AllDistinctNames entries →
    entries.map Entry.name = entries'.map Entry.name ∧
      prehashEntries entries = prehashEntries entries' ∧
      contentEntries entries = contentEntries entries'
  | [], _, h, _ => by
    cases h
    exact ⟨rfl, rfl, rfl⟩
  | entry :: rest, _, h, hdistinct => by
    unfold AllDistinctNames at hdistinct
    cases h with
    | cons head tail =>
      obtain ⟨hname, hprehash, hcontent⟩ := Entry.Reordered.same_walks entry head hdistinct.1
      obtain ⟨hnames, hprehashes, hcontents⟩ := AllReordered.same_walks rest tail hdistinct.2
      refine ⟨?_, ?_, ?_⟩
      · rw [List.map_cons, List.map_cons, hname, hnames]
      · unfold prehashEntries
        rw [hname, hprehash, hprehashes]
      · unfold contentEntries
        rw [hname, hcontent, hcontents]

end

/-! ## The digest -/

/-- The comparison of names is a strict total order, in which a name is behind everything that
begins with it.  What is hashed of a file, and of a storage in it, does not depend on the order in
which the storages list their entries, if siblings have different names. -/
theorem msi_digest_of_reordered :
    (∀ a b, (cmpUtf16Name a b).swap = cmpUtf16Name b a) ∧
    (∀ a b, cmpUtf16Name a b = .eq ↔ a = b) ∧
    (∀ a b c, cmpUtf16Name a b = .lt → cmpUtf16Name b c = .lt → cmpUtf16Name a c = .lt) ∧
    (∀ a more : List Char, more ≠ [] → cmpUtf16Name (a ++ more) a = .lt) ∧
    (∀ entry entry' : Entry, entry.Reordered entry' → entry.DistinctNames →
      prehashStorageRecursive entry = prehashStorageRecursive entry' ∧
        hashStorageContentRecursive entry = hashStorageContentRecursive entry') ∧
    ∀ cfb cfb' : CompoundFile, cfb.Reordered cfb' → cfb.DistinctNames →
      prehashInput cfb = prehashInput cfb' ∧ contentInput cfb = contentInput cfb' := by
  refine ⟨cmpUtf16Name_swap, fun _ _ => cmpUtf16Name_eq_eq, fun _ _ _ => cmpUtf16Name_trans,
    fun a _ => cmpUtf16Name_append a, ?_, ?_⟩
  · intro entry entry' h hdistinct
    exact (Entry.Reordered.same_walks entry h hdistinct).2
  · intro cfb cfb' h hdistinct
    obtain ⟨hclsid, hstate, reordered, hbelow, hperm⟩ := h
    obtain ⟨hnames, hprehash, hcontent⟩ :=
      AllReordered.same_walks cfb.entries hbelow hdistinct.2
    have hreordered : (reordered.map Entry.name).Nodup := hnames ▸ hdistinct.1
    constructor
    · unfold prehashInput prehashRoot
      rw [hclsid, hstate, hprehash, prehashEntries_eq, prehashEntries_eq,
        insertionSort_of_perm hperm hreordered]
    · unfold contentInput
      rw [hclsid, hcontent, contentEntries_eq, contentEntries_eq,
        insertionSort_of_perm hperm hreordered]

/-- An entry of a stream or storage, as the crate makes it. -/
def newInfo : EntryInfo := ⟨[], 0, 0, 0⟩

/-- A storage with two streams beside a stream, in one order and in the other. -/
def unorderedFile (swapped : Bool) : CompoundFile :=
  let first := Entry.stream ['a'] newInfo [1]
  let second := Entry.stream ['a', 'b'] newInfo [2]
  if swapped then ⟨[], 0, [second, .storage ['s'] newInfo [second, first]]⟩
  else ⟨[], 0, [.storage ['s'] newInfo [first, second], second]⟩

theorem msi_digest_of_reordered_swapped :
    prehashInput (unorderedFile false) = prehashInput (unorderedFile true) ∧
      contentInput (unorderedFile false) = contentInput (unorderedFile true) := by
  have hbelow : AllReordered (unorderedFile false).entries
      [.storage ['s'] newInfo [.stream ['a', 'b'] newInfo [2], .stream ['a'] newInfo [1]],
        .stream ['a', 'b'] newInfo [2]] := by
    apply AllReordered.cons
    · exact .storage (.cons (.stream _ _ _) (.cons (.stream _ _ _) .nil)) (List.Perm.swap _ _ [])
    · exact .cons (.stream _ _ _) .nil
  apply msi_digest_of_reordered.2.2.2.2.2
  · exact ⟨rfl, rfl, _, hbelow, List.Perm.swap _ _ []⟩
  · refine ⟨by decide, ⟨by decide, trivial, trivial, trivial⟩, trivial, trivial⟩

end Psign.Sip
