import Psign.Sip.MsiDigest

/-!
# An MSI that was signed is verified

Signing writes two streams of the root, first the metadata digest and then the
signature, and the walk of the digest leaves streams of these two names out.  The
walk compares the names as they are spelled, the lookup of a stream does not see
their case.  So a stream that is spelled in another case is written and hashed.

`rootWalk_putStream_iff` says when writing a stream leaves the walk as it was.  All
that verification compares are walks of the trees before and after a write, and
`msi_sign_then_verify_iff` follows from it, for hashes that do not collide on these
walks.
-/

namespace Psign.Sip

open CodeLib CodeLib.Unicode

/-! ## The order of the names -/

/-- The bytes of a name, with an end that is behind every byte. -/
def nameKey (bytes : List UInt8) : List Nat :=
  bytes.map UInt8.toNat ++ [256]

theorem cmpNameBytes_cons (x y : UInt8) (a b : List UInt8) :
    cmpNameBytes (x :: a) (y :: b) =
      if x < y then .lt else if x = y then cmpNameBytes a b else .gt := by
  unfold cmpNameBytes
  simp only [List.length_cons, Nat.add_min_add_right, List.take_succ_cons, List.cons_lt_cons_iff,
    List.cons.injEq]
  by_cases hlt : x < y
  · simp [hlt]
  · by_cases heq : x = y
    · subst heq
      simp only [hlt, false_or, true_and, if_false, if_true]
      have hlength : compare (b.length + 1) (a.length + 1) = compare b.length a.length := by
        simp [compare, compareOfLessAndEq]
      rw [hlength]
    · simp [hlt, heq]

/-- Names are compared by their keys. -/
theorem cmpNameBytes_eq (a b : List UInt8) :
    cmpNameBytes a b = if nameKey a < nameKey b then .lt
      else if nameKey a = nameKey b then .eq else .gt := by
  induction a generalizing b with
  | nil =>
    cases b with
    | nil => rw [if_neg (lt_irrefl _), if_pos rfl]; rfl
    | cons y b =>
      have hy := y.toNat_lt
      have hlt : nameKey (y :: b) < nameKey [] := List.Lex.rel (by show y.toNat < 256; omega)
      rw [if_neg (lt_asymm hlt), if_neg (ne_of_gt hlt)]
      rfl
  | cons x a ih =>
    have hx := x.toNat_lt
    cases b with
    | nil =>
      have hlt : nameKey (x :: a) < nameKey [] := List.Lex.rel (by show x.toNat < 256; omega)
      rw [if_pos hlt]
      rfl
    | cons y b =>
      have hcons : ∀ z c, nameKey (z :: c) = z.toNat :: nameKey c := fun _ _ => rfl
      rw [cmpNameBytes_cons, ih, hcons, hcons]
      simp only [List.cons_lt_cons_iff, List.cons.injEq, ← UInt8.lt_iff_toNat_lt, UInt8.toNat_inj]
      by_cases hlt : x < y
      · simp [hlt]
      · by_cases heq : x = y
        · simp [heq]
        · simp [hlt, heq]

/-- An entry is not behind another one if its key is not. -/
theorem cmpNameBytes_ne_gt {a b : List UInt8} :
    cmpNameBytes a b ≠ .gt ↔ nameKey a ≤ nameKey b := by
  rw [cmpNameBytes_eq]
  rcases lt_trichotomy (nameKey a) (nameKey b) with hlt | heq | hgt
  · simp [hlt, le_of_lt hlt]
  · simp [heq]
  · simp [lt_asymm hgt, ne_of_gt hgt, not_le_of_gt hgt]

section

variable {β : Type}

theorem nameLe_iff {a b : List Char × β} :
    nameLe a b ↔ nameKey (nameBytes a.1) ≤ nameKey (nameBytes b.1) :=
  cmpNameBytes_ne_gt

instance : Std.Total (nameLe (β := β)) where
  total a b := by
    rw [nameLe_iff, nameLe_iff]
    exact le_total _ _

instance : IsTrans (List Char × β) nameLe where
  trans a b c hab hbc := by
    rw [nameLe_iff] at hab hbc ⊢
    exact le_trans hab hbc

end

/-! ## The walk -/

/-- What the walk of the root hashes below it, for a hash `g` of the entries. -/
def rootWalk (g : Entry → List UInt8) (entries : List Entry) : List UInt8 :=
  (((entries.map fun entry => (entry.name, g entry)).insertionSort nameLe).filter fun entry =>
    !isSignatureName entry.1).flatMap Prod.snd

theorem prehashEntries_eq (entries : List Entry) :
    prehashEntries entries = entries.map fun entry => (entry.name, prehashStorageRecursive entry) := by
  induction entries with
  | nil => rfl
  | cons entry entries ih => rw [prehashEntries, ih, List.map_cons]

theorem contentEntries_eq (entries : List Entry) :
    contentEntries entries =
      entries.map fun entry => (entry.name, hashStorageContentRecursive entry) := by
  induction entries with
  | nil => rfl
  | cons entry entries ih => rw [contentEntries, ih, List.map_cons]

theorem prehashInput_eq (cfb : CompoundFile) :
    prehashInput cfb = prehashRoot cfb ++ rootWalk prehashStorageRecursive cfb.entries := by
  rw [prehashInput, prehashEntries_eq, rootWalk]

theorem contentInput_eq (cfb : CompoundFile) :
    contentInput cfb = rootWalk hashStorageContentRecursive cfb.entries ++ cfb.clsid := by
  rw [contentInput, contentEntries_eq, rootWalk]

/-- An entry with the name of a signature stream is left out. -/
theorem rootWalk_append_cons (g : Entry → List UInt8) {entry : Entry}
    (h : isSignatureName entry.name) (before after : List Entry) :
    rootWalk g (before ++ entry :: after) = rootWalk g (before ++ after) := by
  unfold rootWalk
  rw [Sort.filter_insertionSort, Sort.filter_insertionSort, List.map_append, List.map_append,
    List.filter_append, List.filter_append, List.map_cons, List.filter_cons_of_neg (by simp [h])]

/-- Another entry stays at its place as long as it keeps its name. -/
theorem rootWalk_replace (g : Entry → List UInt8) {entry entry' : Entry}
    (hname : entry'.name = entry.name) (h : isSignatureName entry.name = false)
    (before after : List Entry) :
    ∃ front back, rootWalk g (before ++ entry :: after) = front ++ (g entry ++ back) ∧
      rootWalk g (before ++ entry' :: after) = front ++ (g entry' ++ back) := by
  have hrank : ∀ other : List Char × List UInt8,
      (nameLe (entry.name, g entry) other ↔ nameLe (entry'.name, g entry') other) ∧
        (nameLe other (entry.name, g entry) ↔ nameLe other (entry'.name, g entry')) := by
    intro other
    simp only [nameLe, hname, iff_self, and_self]
  obtain ⟨front, back, hsort, hsort'⟩ := Sort.insertionSort_replace
    (fun other => (hrank other).1) (fun other => (hrank other).2)
    (before.map fun entry => (entry.name, g entry)) (after.map fun entry => (entry.name, g entry))
  refine ⟨(front.filter fun entry => !isSignatureName entry.1).flatMap Prod.snd,
    (back.filter fun entry => !isSignatureName entry.1).flatMap Prod.snd, ?_, ?_⟩
  · rw [rootWalk, List.map_append, List.map_cons, hsort, List.filter_append,
      List.filter_cons_of_pos (by simp [h]), List.flatMap_append, List.flatMap_cons]
  · rw [rootWalk, List.map_append, List.map_cons, hsort', List.filter_append,
      List.filter_cons_of_pos (by simp [hname, h]), List.flatMap_append, List.flatMap_cons]

/-! ## Writing a stream -/

section

variable {crate : CfbCrate} {cfb : CompoundFile} (touch : SystemTime → SystemTime)
  (name : List Char) (contents : List UInt8)

/-- The names of the entries of the root, as they are compared. -/
def rootNames (crate : CfbCrate) (cfb : CompoundFile) : List (List Char) :=
  cfb.entries.map fun entry => crate.foldName entry.name

theorem name_overwrite (entry : Entry) :
    (overwrite touch contents entry).name = entry.name := by
  cases entry <;> rfl

/-- Writing adds a stream, or changes the entry that the name denotes. -/
theorem putStream_cases (hnodup : (rootNames crate cfb).Nodup) :
    (rootEntry crate cfb name = none ∧ (putStream crate touch name contents cfb).entries =
        cfb.entries ++ [.stream name crate.newStream contents]) ∨
      ∃ before entry after, rootEntry crate cfb name = some entry ∧
        cfb.entries = before ++ entry :: after ∧
        crate.foldName entry.name = crate.foldName name ∧
        (putStream crate touch name contents cfb).entries =
          before ++ overwrite touch contents entry :: after := by
  cases hfind : rootEntry crate cfb name with
  | none =>
    refine .inl ⟨rfl, ?_⟩
    rw [putStream, rootExists, hfind]
    rfl
  | some entry =>
    right
    obtain ⟨hmatch, before, after, hentries, -⟩ := List.find?_eq_some_iff_append.mp hfind
    have hfold : crate.foldName entry.name = crate.foldName name := of_decide_eq_true hmatch
    refine ⟨before, entry, after, rfl, hentries, hfold, ?_⟩
    rw [rootNames, hentries, List.map_append, List.map_cons, List.nodup_append, List.nodup_cons]
      at hnodup
    obtain ⟨-, ⟨hafter, -⟩, hbefore⟩ := hnodup
    have hrest : ∀ others : List Entry, (∀ other ∈ others,
        crate.foldName other.name ≠ crate.foldName name) →
        (others.map fun entry => if crate.foldName entry.name = crate.foldName name then
          overwrite touch contents entry else entry) = others := by
      intro others hothers
      rw [List.map_congr_left fun other hother => if_neg (hothers other hother), List.map_id']
    rw [putStream, rootExists, hfind]
    show List.map _ cfb.entries = _
    rw [hentries, List.map_append, List.map_cons, if_pos hfold, hrest before, hrest after]
    · intro other hother heq
      exact hafter (List.mem_map.mpr ⟨other, hother, heq.trans hfold.symm⟩)
    · intro other hother heq
      exact hbefore _ (List.mem_map.mpr ⟨other, hother, rfl⟩) _ List.mem_cons_self
        (heq.trans hfold.symm)

theorem rootEntry_eq_none :
    rootEntry crate cfb name = none ↔ crate.foldName name ∉ rootNames crate cfb := by
  unfold rootEntry rootNames
  rw [List.find?_eq_none]
  simp

/-- The entry that a name denotes is the only one. -/
theorem eq_of_rootEntry {name : List Char} (hnodup : (rootNames crate cfb).Nodup) {entry other : Entry}
    (h : rootEntry crate cfb name = some entry) (hother : other ∈ cfb.entries)
    (hfold : crate.foldName other.name = crate.foldName name) : other = entry := by
  unfold rootEntry at h
  have hmatch : crate.foldName entry.name = crate.foldName name := by
    simpa using List.find?_some h
  exact List.inj_on_of_nodup_map hnodup hother (List.mem_of_find?_eq_some h)
    (hfold.trans hmatch.symm)

theorem nodup_rootNames_putStream (hnodup : (rootNames crate cfb).Nodup) :
    (rootNames crate (putStream crate touch name contents cfb)).Nodup := by
  rcases putStream_cases touch name contents hnodup with
    ⟨hnone, hentries⟩ | ⟨before, entry, after, -, hcfb, -, hentries⟩
  · have hnew := (rootEntry_eq_none name).mp hnone
    rw [rootNames, hentries, List.map_append, List.map_singleton, ← rootNames, List.nodup_append]
    refine ⟨hnodup, List.nodup_singleton _, ?_⟩
    intro a ha b hb heq
    rw [List.mem_singleton] at hb
    subst heq hb
    exact hnew ha
  · rw [rootNames, hcfb] at hnodup
    rw [rootNames, hentries, List.map_append, List.map_cons, name_overwrite]
    rwa [List.map_append, List.map_cons] at hnodup

/-- The two names of signature streams denote different entries. -/
theorem foldName_signature_ne (crate : CfbCrate) :
    crate.foldName digitalSignatureEntry ≠ crate.foldName extendedSignatureEntry := fun h =>
  absurd (crate.length_of_foldName h) (by decide)

/-- A name that denotes the same entry as the name of a signature stream is this name
or one that the walk does not leave out. -/
theorem eq_or_isSignatureName_eq_false {other name : List Char} (hsig : isSignatureName name)
    (hfold : crate.foldName other = crate.foldName name) :
    other = name ∨ isSignatureName other = false := by
  have hne := foldName_signature_ne crate
  unfold isSignatureName at hsig ⊢
  simp only [Bool.or_eq_true, decide_eq_true_eq, Bool.or_eq_false_iff, decide_eq_false_iff_not]
    at hsig ⊢
  by_cases hsame : other = name
  · exact .inl hsame
  · right
    rcases hsig with rfl | rfl
    · exact ⟨hsame, fun h => hne (h ▸ hfold.symm)⟩
    · exact ⟨fun h => hne (h ▸ hfold), hsame⟩

/-- Writing a signature stream leaves the walk as it was if what is hashed for an entry
that is spelled differently stays the same. -/
theorem rootWalk_putStream_iff (g : Entry → List UInt8) (hnodup : (rootNames crate cfb).Nodup)
    (hsig : isSignatureName name) :
    rootWalk g (putStream crate touch name contents cfb).entries = rootWalk g cfb.entries ↔
      ∀ entry, rootEntry crate cfb name = some entry →
        entry.name = name ∨ g (overwrite touch contents entry) = g entry := by
  rcases putStream_cases touch name contents hnodup with
    ⟨hnone, hentries⟩ | ⟨before, entry, after, hentry, hcfb, hfold, hentries⟩
  · have hnew := rootWalk_append_cons g
      (show isSignatureName (Entry.stream name crate.newStream contents).name from hsig)
      cfb.entries []
    rw [hentries, hnew, List.append_nil, hnone]
    exact iff_of_true rfl fun entry h => absurd h (by simp)
  · have hone : (∀ other, rootEntry crate cfb name = some other →
        other.name = name ∨ g (overwrite touch contents other) = g other) ↔
        (entry.name = name ∨ g (overwrite touch contents entry) = g entry) := by
      simp [hentry]
    rw [hone, hentries, hcfb]
    rcases eq_or_isSignatureName_eq_false hsig hfold with hsame | hvisible
    · have hleft : isSignatureName entry.name := hsame ▸ hsig
      rw [rootWalk_append_cons g (by rw [name_overwrite]; exact hleft),
        rootWalk_append_cons g hleft]
      exact iff_of_true rfl (.inl hsame)
    · obtain ⟨front, back, hwalk, hwalk'⟩ :=
        rootWalk_replace g (name_overwrite touch contents entry) hvisible before after
      have hne : entry.name ≠ name := fun h => by
        rw [h, hsig] at hvisible
        exact absurd hvisible (by decide)
      rw [hwalk, hwalk']
      simp only [List.append_cancel_left_eq, List.append_cancel_right_eq, hne, false_or]

/-- After a write the name denotes the entry that was written. -/
theorem rootEntry_putStream_self (hnodup : (rootNames crate cfb).Nodup) :
    rootEntry crate (putStream crate touch name contents cfb) name =
      some (match rootEntry crate cfb name with
        | some entry => overwrite touch contents entry
        | none => .stream name crate.newStream contents) := by
  rcases putStream_cases touch name contents hnodup with
    ⟨hnone, hentries⟩ | ⟨before, entry, after, hentry, hcfb, hfold, hentries⟩
  · have hrest : cfb.entries.find? (fun entry =>
        decide (crate.foldName entry.name = crate.foldName name)) = none := hnone
    rw [hnone, rootEntry, hentries, List.find?_append, hrest]
    simp [Entry.name]
  · have hbefore : before.find? (fun entry =>
        decide (crate.foldName entry.name = crate.foldName name)) = none := by
      rw [List.find?_eq_none]
      intro other hother hmatch
      have hmem : other ∈ cfb.entries := hcfb ▸ List.mem_append_left _ hother
      have hsame := eq_of_rootEntry hnodup hentry hmem (of_decide_eq_true hmatch)
      rw [rootNames, hcfb, List.map_append, List.map_cons, List.nodup_append] at hnodup
      exact hnodup.2.2 _ (List.mem_map.mpr ⟨other, hother, rfl⟩) _ List.mem_cons_self
        (by rw [hsame])
    rw [hentry, rootEntry, hentries, List.find?_append, hbefore, Option.none_or,
      List.find?_cons_of_pos (by rw [name_overwrite]; exact decide_eq_true hfold)]

/-- A write does not touch the entries that other names denote. -/
theorem rootEntry_putStream_other {other : List Char} (hnodup : (rootNames crate cfb).Nodup)
    (hne : crate.foldName other ≠ crate.foldName name) :
    rootEntry crate (putStream crate touch name contents cfb) other = rootEntry crate cfb other := by
  rcases putStream_cases touch name contents hnodup with
    ⟨-, hentries⟩ | ⟨before, entry, after, -, hcfb, hfold, hentries⟩
  · rw [rootEntry, hentries, List.find?_append, ← rootEntry]
    rw [List.find?_cons_of_neg (by exact fun h => hne (of_decide_eq_true h).symm)]
    simp
  · have hskip : ¬ crate.foldName entry.name = crate.foldName other := fun h =>
      hne (h.symm.trans hfold)
    rw [rootEntry, rootEntry, hentries, hcfb, List.find?_append, List.find?_append,
      List.find?_cons_of_neg (by simpa [name_overwrite] using hskip),
      List.find?_cons_of_neg (by simpa using hskip)]

end

/-! ## What is hashed -/

section

variable {crate : CfbCrate} {cfb : CompoundFile} {touch : SystemTime → SystemTime}

theorem length_u32le (n : Nat) : (Bytes.u32le n).length = 4 := rfl

/-- What is hashed of the metadata of a stream changes with the low part of its length
and the time of its last change. -/
theorem prehash_overwrite_stream (name : List Char) (info : EntryInfo)
    (old contents : List UInt8) :
    prehashStorageRecursive (overwrite touch contents (.stream name info old)) =
        prehashStorageRecursive (.stream name info old) ↔
      contents.length % 2 ^ 32 = old.length % 2 ^ 32 ∧
        systemTimeToFiletimeLe (touch info.modified) = systemTimeToFiletimeLe info.modified := by
  simp only [overwrite, prehashStorageRecursive, prehashEntry, List.append_cancel_left_eq]
  constructor
  · intro h
    obtain ⟨hlength, hrest⟩ := List.append_inj h (by rw [length_u32le, length_u32le])
    simp only [List.append_cancel_left_eq] at hrest
    exact ⟨(Bytes.u32le_inj (Nat.mod_lt _ (by decide)) (Nat.mod_lt _ (by decide))).mp hlength, hrest⟩
  · intro ⟨hlength, htime⟩
    rw [hlength, htime]

/-- The metadata that is hashed is the same before and after a write. -/
theorem prehashInput_putStream_iff {name : List Char} {contents : List UInt8}
    (hnodup : (rootNames crate cfb).Nodup) (hsig : isSignatureName name) :
    prehashInput (putStream crate touch name contents cfb) = prehashInput cfb ↔
      ∀ entry, rootEntry crate cfb name = some entry →
        entry.name = name ∨ prehashStorageRecursive (overwrite touch contents entry) =
          prehashStorageRecursive entry := by
  have hroot : prehashRoot (putStream crate touch name contents cfb) = prehashRoot cfb := by
    unfold putStream
    split <;> rfl
  rw [prehashInput_eq, prehashInput_eq, hroot, List.append_cancel_left_eq]
  exact rootWalk_putStream_iff touch name contents prehashStorageRecursive hnodup hsig

/-- The contents that are hashed are the same before and after a write. -/
theorem contentInput_putStream_iff {name : List Char} {contents : List UInt8}
    (hnodup : (rootNames crate cfb).Nodup) (hsig : isSignatureName name) :
    contentInput (putStream crate touch name contents cfb) = contentInput cfb ↔
      ∀ entry, rootEntry crate cfb name = some entry →
        entry.name = name ∨ hashStorageContentRecursive (overwrite touch contents entry) =
          hashStorageContentRecursive entry := by
  have hroot : (putStream crate touch name contents cfb).clsid = cfb.clsid := by
    unfold putStream
    split <;> rfl
  rw [contentInput_eq, contentInput_eq, hroot, List.append_cancel_right_eq]
  exact rootWalk_putStream_iff touch name contents hashStorageContentRecursive hnodup hsig

/-- A write over a stream leaves both walks as they were if the stream has the name, or
has the contents and keeps its time. -/
theorem inputs_putStream_iff {name n : List Char} {contents old : List UInt8} {info : EntryInfo}
    (hnodup : (rootNames crate cfb).Nodup) (hsig : isSignatureName name)
    (hentry : rootEntry crate cfb name = some (.stream n info old)) :
    (prehashInput (putStream crate touch name contents cfb) = prehashInput cfb ∧
        contentInput (putStream crate touch name contents cfb) = contentInput cfb) ↔
      n = name ∨ (contents = old ∧
        systemTimeToFiletimeLe (touch info.modified) = systemTimeToFiletimeLe info.modified) := by
  rw [prehashInput_putStream_iff hnodup hsig, contentInput_putStream_iff hnodup hsig, hentry]
  simp only [Option.some.injEq, forall_eq', prehash_overwrite_stream]
  show (n = name ∨ _) ∧ (n = name ∨ contents = old) ↔ _
  rw [← or_and_left]
  constructor
  · exact Or.imp_right fun h => ⟨h.2, h.1.2⟩
  · exact Or.imp_right fun h => ⟨⟨by rw [h.1], h.2⟩, h.1⟩

variable {hashes : Hashes} {kind : PeAuthenticodeHashKind}

/-- The inputs of the hash that verification and signing make of a file. -/
def hashInputs (crate : CfbCrate) (hashes : Hashes) (kind : PeAuthenticodeHashKind)
    (cfb : CompoundFile) : List (List UInt8) :=
  [prehashInput cfb, fingerprintInput crate hashes cfb kind]

/-- The hash does not collide on these inputs. -/
def CollisionFree (hashes : Hashes) (kind : PeAuthenticodeHashKind) (inputs : List (List UInt8)) :
    Prop :=
  ∀ a ∈ inputs, ∀ b ∈ inputs, hashes.hash kind a = hashes.hash kind b → a = b

instance (hashes : Hashes) (kind : PeAuthenticodeHashKind) (inputs : List (List UInt8)) :
    Decidable (CollisionFree hashes kind inputs) :=
  inferInstanceAs (Decidable (∀ a ∈ inputs, ∀ b ∈ inputs,
    hashes.hash kind a = hashes.hash kind b → a = b))

variable {files : List CompoundFile} {cfb' : CompoundFile}

theorem computePrehash_inj
    (hfree : CollisionFree hashes kind (files.flatMap (hashInputs crate hashes kind)))
    (hcfb : cfb ∈ files) (hcfb' : cfb' ∈ files) :
    computePrehash hashes cfb kind = computePrehash hashes cfb' kind ↔
      prehashInput cfb = prehashInput cfb' := by
  constructor
  · exact hfree _ (List.mem_flatMap.mpr ⟨cfb, hcfb, by simp [hashInputs]⟩) _
      (List.mem_flatMap.mpr ⟨cfb', hcfb', by simp [hashInputs]⟩)
  · intro h
    rw [computePrehash, computePrehash, h]

/-- Two files with the metadata digest have the same fingerprint if the walks of the
metadata and of the contents are the same. -/
theorem computeMsiFingerprint_inj
    (hfree : CollisionFree hashes kind (files.flatMap (hashInputs crate hashes kind)))
    (hcfb : cfb ∈ files) (hcfb' : cfb' ∈ files) (hextended : msiHasExtended crate cfb)
    (hextended' : msiHasExtended crate cfb') :
    computeMsiFingerprint crate hashes cfb kind = computeMsiFingerprint crate hashes cfb' kind ↔
      prehashInput cfb = prehashInput cfb' ∧ contentInput cfb = contentInput cfb' := by
  rw [← computePrehash_inj hfree hcfb hcfb']
  constructor
  · intro h
    have hinput := hfree _ (List.mem_flatMap.mpr ⟨cfb, hcfb, by simp [hashInputs]⟩) _
      (List.mem_flatMap.mpr ⟨cfb', hcfb', by simp [hashInputs]⟩) h
    rw [fingerprintInput, fingerprintInput, if_pos hextended, if_pos hextended'] at hinput
    exact List.append_inj hinput (by simp only [computePrehash, hashes.length_hash])
  · intro ⟨hprehash, hcontent⟩
    rw [computeMsiFingerprint, computeMsiFingerprint, fingerprintInput, fingerprintInput,
      if_pos hextended, if_pos hextended', hprehash, hcontent]

end

/-! ## Signing, then verifying -/

section

variable (crate : CfbCrate) (hashes : Hashes) (kind : PeAuthenticodeHashKind)

/-- What verification computes of the signed file is what was prepared. -/
structure Recomputes (prepared : PreparedMsiAuthenticode) (signed : CompoundFile) : Prop where
  fingerprint : computeMsiFingerprint crate hashes signed kind = prepared.digest
  extended : msiHasExtended crate signed → readStreamAll crate signed extendedSignatureEntry =
    .ok (computePrehash hashes signed kind)

/-- Preparing the file gives this digest. -/
def PreparesAgain (touch : SystemTime → SystemTime) (cfb : CompoundFile) (digest : List UInt8) :
    Prop :=
  ∃ again, prepareMsiForAuthenticodeSigning crate hashes touch cfb kind = .ok again ∧
    again.digest = digest

/-- When the streams are written: the time that a write gives to a stream that was there. -/
structure Clocks where
  prepare : SystemTime → SystemTime
  embed : SystemTime → SystemTime
  prepareAgain : SystemTime → SystemTime
  prepareSigned : SystemTime → SystemTime

variable (clocks : Clocks)

/-- The signed file verifies, and preparing the prepared or the signed file again gives
the same digest. -/
def SignThenVerify (prepared : PreparedMsiAuthenticode) (pkcs7 : List UInt8) : Prop :=
  ∃ signed, msiEmbedPreparedAuthenticodePkcs7Signature crate clocks.embed prepared pkcs7 =
      .ok signed ∧
    Recomputes crate hashes kind prepared signed ∧
    PreparesAgain crate hashes kind clocks.prepareAgain prepared.image prepared.digest ∧
    PreparesAgain crate hashes kind clocks.prepareSigned signed prepared.digest

/-- What is written over is not seen by the walk: it has the exact name of a signature
stream, or nothing that is hashed of it changes. -/
structure WritesUnseen (cfb : CompoundFile) (pkcs7 : List UInt8) : Prop where
  signature : ∀ entry, rootEntry crate cfb digitalSignatureEntry = some entry →
    ∃ name info contents, entry = .stream name info contents ∧
      (name = digitalSignatureEntry ∨ (pkcs7 = contents ∧
        systemTimeToFiletimeLe (clocks.embed info.modified) = systemTimeToFiletimeLe info.modified))
  extended : ∀ name info contents,
    rootEntry crate cfb extendedSignatureEntry = some (.stream name info contents) →
    name = extendedSignatureEntry ∨
      (kind.digestOutputLen = contents.length % 2 ^ 32 ∧
        systemTimeToFiletimeLe (clocks.prepare info.modified) =
          systemTimeToFiletimeLe info.modified ∧
        systemTimeToFiletimeLe (clocks.prepareAgain (clocks.prepare info.modified)) =
          systemTimeToFiletimeLe (clocks.prepare info.modified) ∧
        systemTimeToFiletimeLe (clocks.prepareSigned (clocks.prepare info.modified)) =
          systemTimeToFiletimeLe (clocks.prepare info.modified))

/-- The prepared file. -/
def preparedImage (cfb : CompoundFile) : CompoundFile :=
  putStream crate clocks.prepare extendedSignatureEntry (computePrehash hashes cfb kind) cfb

/-- The signed file. -/
def signedImage (cfb : CompoundFile) (pkcs7 : List UInt8) : CompoundFile :=
  putStream crate clocks.embed digitalSignatureEntry pkcs7
    (preparedImage crate hashes kind clocks cfb)

/-- The prepared file, prepared again. -/
def imagePreparedAgain (cfb : CompoundFile) : CompoundFile :=
  putStream crate clocks.prepareAgain extendedSignatureEntry
    (computePrehash hashes (preparedImage crate hashes kind clocks cfb) kind)
    (preparedImage crate hashes kind clocks cfb)

/-- The signed file, prepared again. -/
def signedPreparedAgain (cfb : CompoundFile) (pkcs7 : List UInt8) : CompoundFile :=
  putStream crate clocks.prepareSigned extendedSignatureEntry
    (computePrehash hashes (signedImage crate hashes kind clocks cfb pkcs7) kind)
    (signedImage crate hashes kind clocks cfb pkcs7)

/-- The files of a run. -/
def stages (cfb : CompoundFile) (pkcs7 : List UInt8) : List CompoundFile :=
  [cfb, preparedImage crate hashes kind clocks cfb, signedImage crate hashes kind clocks cfb pkcs7,
    imagePreparedAgain crate hashes kind clocks cfb,
    signedPreparedAgain crate hashes kind clocks cfb pkcs7]

/-- Both walks of two files are the same. -/
def SameWalks (cfb cfb' : CompoundFile) : Prop :=
  prehashInput cfb = prehashInput cfb' ∧ contentInput cfb = contentInput cfb'

end

section

variable {crate : CfbCrate} {hashes : Hashes} {kind : PeAuthenticodeHashKind}
  {touch : SystemTime → SystemTime}

theorem createStream_eq_ok {name : List Char} {contents : List UInt8} {cfb cfb' : CompoundFile} :
    createStream crate touch name contents cfb = .ok cfb' ↔
      (∀ n info entries, rootEntry crate cfb name ≠ some (.storage n info entries)) ∧
        putStream crate touch name contents cfb = cfb' := by
  unfold createStream
  split
  · rename_i n info entries h
    simp [h]
  · rename_i h
    simp only [Except.ok.injEq, iff_and_self]
    exact fun _ => h

/-- Preparing fails only over a storage. -/
theorem prepare_eq_ok {cfb : CompoundFile} {prepared : PreparedMsiAuthenticode} :
    prepareMsiForAuthenticodeSigning crate hashes touch cfb kind = .ok prepared ↔
      (∀ n info entries,
        rootEntry crate cfb extendedSignatureEntry ≠ some (.storage n info entries)) ∧
      prepared = ⟨putStream crate touch extendedSignatureEntry (computePrehash hashes cfb kind) cfb,
        computeMsiFingerprint crate hashes (putStream crate touch extendedSignatureEntry
          (computePrehash hashes cfb kind) cfb) kind⟩ := by
  unfold prepareMsiForAuthenticodeSigning
  rw [Outcome.bind_eq_ok]
  simp only [createStream_eq_ok]
  constructor
  · intro ⟨image, ⟨hstorage, himage⟩, hprepared⟩
    subst himage
    exact ⟨hstorage, (Except.ok.inj hprepared).symm⟩
  · intro ⟨hstorage, hprepared⟩
    exact ⟨_, ⟨hstorage, rfl⟩, hprepared ▸ rfl⟩

theorem isSignatureName_extended : isSignatureName extendedSignatureEntry = true := by decide

theorem isSignatureName_digital : isSignatureName digitalSignatureEntry = true := by decide

/-- A file that a metadata digest was written to has one. -/
theorem msiHasExtended_putStream {cfb : CompoundFile} {contents : List UInt8}
    (hnodup : (rootNames crate cfb).Nodup) :
    msiHasExtended crate (putStream crate touch extendedSignatureEntry contents cfb) = true := by
  rw [msiHasExtended, rootExists, rootEntry_putStream_self _ _ _ hnodup]
  rfl

/-- The signature is written, unless a storage has its name, and both walks stay the same. -/
theorem embed_unseen_iff {cfb : CompoundFile} {pkcs7 : List UInt8}
    (hnodup : (rootNames crate cfb).Nodup) :
    ((∀ n info entries, rootEntry crate cfb digitalSignatureEntry ≠ some (.storage n info entries)) ∧
        prehashInput (putStream crate touch digitalSignatureEntry pkcs7 cfb) = prehashInput cfb ∧
        contentInput (putStream crate touch digitalSignatureEntry pkcs7 cfb) = contentInput cfb) ↔
      ∀ entry, rootEntry crate cfb digitalSignatureEntry = some entry →
        ∃ name info contents, entry = .stream name info contents ∧
          (name = digitalSignatureEntry ∨ (pkcs7 = contents ∧
            systemTimeToFiletimeLe (touch info.modified) = systemTimeToFiletimeLe info.modified)) := by
  cases hentry : rootEntry crate cfb digitalSignatureEntry with
  | none =>
    refine iff_of_true ⟨by simp, ?_, ?_⟩ fun entry h => absurd h (by simp)
    · exact (prehashInput_putStream_iff hnodup isSignatureName_digital).mpr (by simp [hentry])
    · exact (contentInput_putStream_iff hnodup isSignatureName_digital).mpr (by simp [hentry])
  | some entry =>
    cases entry with
    | storage n info entries =>
      refine iff_of_false (fun h => h.1 n info entries rfl) fun h => ?_
      obtain ⟨_, _, _, hstream, -⟩ := h _ rfl
      exact absurd hstream (by simp)
    | stream n info old =>
      rw [inputs_putStream_iff hnodup isSignatureName_digital hentry]
      constructor
      · intro ⟨_, hunseen⟩ entry h
        exact ⟨n, info, old, (Option.some.inj h).symm, hunseen⟩
      · intro h
        obtain ⟨_, _, _, hstream, hunseen⟩ := h _ rfl
        cases hstream
        exact ⟨by simp, hunseen⟩

/-- What `read_stream_all` gives back after a write, of a name that does not denote a
storage. -/
theorem readStreamAll_putStream {cfb : CompoundFile} {name : List Char} {contents : List UInt8}
    (hnodup : (rootNames crate cfb).Nodup)
    (hstorage : ∀ n info entries, rootEntry crate cfb name ≠ some (.storage n info entries)) :
    readStreamAll crate (putStream crate touch name contents cfb) name = .ok contents := by
  rw [readStreamAll, rootEntry_putStream_self _ _ _ hnodup]
  cases hentry : rootEntry crate cfb name with
  | none => rfl
  | some entry =>
    cases entry with
    | storage n info entries => exact absurd hentry (hstorage n info entries)
    | stream n info old => rfl

/-- A storage of the name of the metadata digest stays away in the prepared file. -/
theorem rootEntry_putStream_ne_storage {cfb : CompoundFile} {name : List Char}
    {contents : List UInt8} (hnodup : (rootNames crate cfb).Nodup)
    (hstorage : ∀ n info entries, rootEntry crate cfb name ≠ some (.storage n info entries)) :
    ∀ n info entries, rootEntry crate (putStream crate touch name contents cfb) name ≠
      some (.storage n info entries) := by
  intro n info entries h
  have hread : readStreamAll crate (putStream crate touch name contents cfb) name = .ok contents :=
    readStreamAll_putStream hnodup hstorage
  rw [readStreamAll, h] at hread
  exact Outcome.bail_ne_ok hread

variable {clocks : Clocks} {cfb : CompoundFile} {pkcs7 : List UInt8}

/-- Signing and verifying in terms of the walks of the stages. -/
theorem signThenVerify_iff_walks (hnodup : (rootNames crate cfb).Nodup)
    (hstorage : ∀ n info entries,
      rootEntry crate cfb extendedSignatureEntry ≠ some (.storage n info entries))
    (hfree : CollisionFree hashes kind
      ((stages crate hashes kind clocks cfb pkcs7).flatMap (hashInputs crate hashes kind))) :
    SignThenVerify crate hashes kind clocks ⟨preparedImage crate hashes kind clocks cfb,
        computeMsiFingerprint crate hashes (preparedImage crate hashes kind clocks cfb) kind⟩ pkcs7 ↔
      ((∀ n info entries, rootEntry crate (preparedImage crate hashes kind clocks cfb)
          digitalSignatureEntry ≠ some (.storage n info entries)) ∧
        SameWalks (signedImage crate hashes kind clocks cfb pkcs7)
          (preparedImage crate hashes kind clocks cfb)) ∧
      prehashInput (preparedImage crate hashes kind clocks cfb) = prehashInput cfb ∧
      SameWalks (imagePreparedAgain crate hashes kind clocks cfb)
        (preparedImage crate hashes kind clocks cfb) ∧
      SameWalks (signedPreparedAgain crate hashes kind clocks cfb pkcs7)
        (signedImage crate hashes kind clocks cfb pkcs7) := by
  have hne := foldName_signature_ne crate
  have himage : (rootNames crate (preparedImage crate hashes kind clocks cfb)).Nodup :=
    nodup_rootNames_putStream _ _ _ hnodup
  have hsigned : (rootNames crate (signedImage crate hashes kind clocks cfb pkcs7)).Nodup :=
    nodup_rootNames_putStream _ _ _ himage
  have hentry : rootEntry crate (signedImage crate hashes kind clocks cfb pkcs7)
      extendedSignatureEntry = rootEntry crate (preparedImage crate hashes kind clocks cfb)
      extendedSignatureEntry := rootEntry_putStream_other _ _ _ himage hne.symm
  -- every stage after the first has a metadata digest, and it is a stream
  have hext : msiHasExtended crate (preparedImage crate hashes kind clocks cfb) = true :=
    msiHasExtended_putStream hnodup
  have hext' : msiHasExtended crate (signedImage crate hashes kind clocks cfb pkcs7) = true := by
    rw [msiHasExtended, rootExists, hentry]
    exact hext
  have hstorage' : ∀ n info entries, rootEntry crate (preparedImage crate hashes kind clocks cfb)
      extendedSignatureEntry ≠ some (.storage n info entries) :=
    rootEntry_putStream_ne_storage hnodup hstorage
  have hread : readStreamAll crate (signedImage crate hashes kind clocks cfb pkcs7)
      extendedSignatureEntry = .ok (computePrehash hashes cfb kind) := by
    rw [readStreamAll, hentry]
    exact readStreamAll_putStream hnodup hstorage
  have hfingerprint : ∀ file ∈ stages crate hashes kind clocks cfb pkcs7,
      msiHasExtended crate file = true →
      (computeMsiFingerprint crate hashes file kind = computeMsiFingerprint crate hashes
        (preparedImage crate hashes kind clocks cfb) kind ↔
        SameWalks file (preparedImage crate hashes kind clocks cfb)) :=
    fun file hfile hextended =>
      computeMsiFingerprint_inj hfree hfile (by simp [stages]) hextended hext
  have hrecomputes : Recomputes crate hashes kind ⟨preparedImage crate hashes kind clocks cfb,
      computeMsiFingerprint crate hashes (preparedImage crate hashes kind clocks cfb) kind⟩
      (signedImage crate hashes kind clocks cfb pkcs7) ↔
      SameWalks (signedImage crate hashes kind clocks cfb pkcs7)
        (preparedImage crate hashes kind clocks cfb) ∧
      prehashInput cfb = prehashInput (signedImage crate hashes kind clocks cfb pkcs7) := by
    have hmetadata : computePrehash hashes cfb kind =
        computePrehash hashes (signedImage crate hashes kind clocks cfb pkcs7) kind ↔ _ :=
      computePrehash_inj hfree (by simp [stages]) (by simp [stages])
    rw [← hfingerprint _ (by simp [stages]) hext', ← hmetadata]
    constructor
    · intro ⟨hsame, hextended⟩
      exact ⟨hsame, Except.ok.inj (hread.symm.trans (hextended hext'))⟩
    · intro ⟨hsame, hdigest⟩
      exact ⟨hsame, fun _ => hdigest ▸ hread⟩
  have hagain : ∀ file (again : SystemTime → SystemTime) digest,
      (∀ n info entries, rootEntry crate file extendedSignatureEntry ≠
        some (.storage n info entries)) →
      (PreparesAgain crate hashes kind again file digest ↔
        computeMsiFingerprint crate hashes (putStream crate again extendedSignatureEntry
          (computePrehash hashes file kind) file) kind = digest) := by
    intro file again digest hfile
    unfold PreparesAgain
    simp only [prepare_eq_ok]
    constructor
    · intro ⟨_, ⟨_, rfl⟩, hdigest⟩
      exact hdigest
    · intro hdigest
      exact ⟨_, ⟨hfile, rfl⟩, hdigest⟩
  have hstorage'' : ∀ n info entries, rootEntry crate (signedImage crate hashes kind clocks cfb pkcs7)
      extendedSignatureEntry ≠ some (.storage n info entries) := by
    rw [hentry]
    exact hstorage'
  have hagainWalks := hfingerprint (imagePreparedAgain crate hashes kind clocks cfb)
    (by simp [stages]) (msiHasExtended_putStream himage)
  have hresignedWalks := hfingerprint (signedPreparedAgain crate hashes kind clocks cfb pkcs7)
    (by simp [stages]) (msiHasExtended_putStream hsigned)
  constructor
  · intro ⟨signed, hembed, hverified, hprepared, hresigned⟩
    obtain ⟨hno, rfl⟩ := createStream_eq_ok.mp hembed
    obtain ⟨hsame, hprehash⟩ := hrecomputes.mp hverified
    have hsame' := hresignedWalks.mp ((hagain _ _ _ hstorage'').mp hresigned)
    exact ⟨⟨hno, hsame⟩, hsame.1.symm.trans hprehash.symm,
      hagainWalks.mp ((hagain _ _ _ hstorage').mp hprepared),
      hsame'.1.trans hsame.1.symm, hsame'.2.trans hsame.2.symm⟩
  · intro ⟨⟨hno, hsame⟩, hprehash, hprepared, hresigned⟩
    exact ⟨_, createStream_eq_ok.mpr ⟨hno, rfl⟩,
      hrecomputes.mpr ⟨hsame, (hsame.1.trans hprehash).symm⟩,
      (hagain _ _ _ hstorage').mpr (hagainWalks.mpr hprepared),
      (hagain _ _ _ hstorage'').mpr (hresignedWalks.mpr
        ⟨hresigned.1.trans hsame.1, hresigned.2.trans hsame.2⟩)⟩

/-- The writes of the metadata digest leave the walks as they were if the stream has the
exact name, or has the length of the digest and keeps its time. -/
theorem extended_unseen_iff (hnodup : (rootNames crate cfb).Nodup)
    (hstorage : ∀ n info entries,
      rootEntry crate cfb extendedSignatureEntry ≠ some (.storage n info entries))
    (hsame : prehashInput (signedImage crate hashes kind clocks cfb pkcs7) =
      prehashInput (preparedImage crate hashes kind clocks cfb)) :
    (prehashInput (preparedImage crate hashes kind clocks cfb) = prehashInput cfb ∧
        SameWalks (imagePreparedAgain crate hashes kind clocks cfb)
          (preparedImage crate hashes kind clocks cfb) ∧
        SameWalks (signedPreparedAgain crate hashes kind clocks cfb pkcs7)
          (signedImage crate hashes kind clocks cfb pkcs7)) ↔
      ∀ name info contents,
        rootEntry crate cfb extendedSignatureEntry = some (.stream name info contents) →
        name = extendedSignatureEntry ∨
          (kind.digestOutputLen = contents.length % 2 ^ 32 ∧
            systemTimeToFiletimeLe (clocks.prepare info.modified) =
              systemTimeToFiletimeLe info.modified ∧
            systemTimeToFiletimeLe (clocks.prepareAgain (clocks.prepare info.modified)) =
              systemTimeToFiletimeLe (clocks.prepare info.modified) ∧
            systemTimeToFiletimeLe (clocks.prepareSigned (clocks.prepare info.modified)) =
              systemTimeToFiletimeLe (clocks.prepare info.modified)) := by
  have himage : (rootNames crate (preparedImage crate hashes kind clocks cfb)).Nodup :=
    nodup_rootNames_putStream _ _ _ hnodup
  have hsigned : (rootNames crate (signedImage crate hashes kind clocks cfb pkcs7)).Nodup :=
    nodup_rootNames_putStream _ _ _ himage
  have hentry : rootEntry crate (signedImage crate hashes kind clocks cfb pkcs7)
      extendedSignatureEntry = rootEntry crate (preparedImage crate hashes kind clocks cfb)
      extendedSignatureEntry :=
    rootEntry_putStream_other _ _ _ himage (foldName_signature_ne crate).symm
  have hself : rootEntry crate (preparedImage crate hashes kind clocks cfb) extendedSignatureEntry =
      some _ := rootEntry_putStream_self _ _ _ hnodup
  have hprehash : prehashInput (preparedImage crate hashes kind clocks cfb) = prehashInput cfb ↔ _ :=
    prehashInput_putStream_iff hnodup isSignatureName_extended
  cases hfound : rootEntry crate cfb extendedSignatureEntry with
  | none =>
    rw [hfound] at hself hprehash
    refine iff_of_true ⟨hprehash.mpr (by simp), ?_, ?_⟩ (by simp)
    · exact (inputs_putStream_iff himage isSignatureName_extended hself).mpr (.inl rfl)
    · exact (inputs_putStream_iff hsigned isSignatureName_extended (hentry.trans hself)).mpr (.inl rfl)
  | some entry =>
    cases entry with
    | storage n info entries => exact absurd hfound (hstorage n info entries)
    | stream n info old =>
      rw [hfound] at hself hprehash
      have hlength : (computePrehash hashes cfb kind).length % 2 ^ 32 = kind.digestOutputLen := by
        rw [computePrehash, hashes.length_hash]
        cases kind <;> rfl
      simp only [Option.some.injEq, forall_eq', prehash_overwrite_stream, hlength] at hprehash
      have hagain : SameWalks (imagePreparedAgain crate hashes kind clocks cfb)
          (preparedImage crate hashes kind clocks cfb) ↔ _ :=
        inputs_putStream_iff himage isSignatureName_extended hself
      have hresigned : SameWalks (signedPreparedAgain crate hashes kind clocks cfb pkcs7)
          (signedImage crate hashes kind clocks cfb pkcs7) ↔ _ :=
        inputs_putStream_iff hsigned isSignatureName_extended (hentry.trans hself)
      rw [hprehash, hagain, hresigned]
      constructor
      · intro ⟨hprepare, hprepareAgain, hprepareSigned⟩ name info' contents hstream
        cases hstream
        by_cases hname : n = extendedSignatureEntry
        · exact .inl hname
        · exact .inr ⟨(hprepare.resolve_left hname).1, (hprepare.resolve_left hname).2,
            (hprepareAgain.resolve_left hname).2, (hprepareSigned.resolve_left hname).2⟩
      · intro h
        rcases h n info old rfl with hname | ⟨hlen, htime, htimeAgain, htimeSigned⟩
        · exact ⟨.inl hname, .inl hname, .inl hname⟩
        · have himageDigest : prehashInput (preparedImage crate hashes kind clocks cfb) =
              prehashInput cfb := hprehash.mpr (.inr ⟨hlen, htime⟩)
          refine ⟨.inr ⟨hlen, htime⟩, .inr ⟨?_, htimeAgain⟩, .inr ⟨?_, htimeSigned⟩⟩
          · rw [computePrehash, computePrehash, himageDigest]
          · rw [computePrehash, computePrehash, hsame, himageDigest]

/-- For a file whose signature carries the prepared digest, verification is recomputing. -/
theorem verify_iff_recomputes {embeddedDigest : List UInt8 → Outcome (List UInt8)}
    {prepared : PreparedMsiAuthenticode} {signed : CompoundFile}
    (hpkcs7 : msiDigitalSignaturePkcs7FromCfb crate signed = .ok pkcs7)
    (hembedded : embeddedDigest pkcs7 = .ok prepared.digest)
    (hlength : prepared.digest.length = kind.digestOutputLen) :
    verifyMsiDigestConsistency crate hashes embeddedDigest signed = .ok () ↔
      Recomputes crate hashes kind prepared signed := by
  have hverify : verifyMsiDigestConsistency crate hashes embeddedDigest signed = .ok () ↔
      computeMsiFingerprint crate hashes signed kind = prepared.digest ∧
        (if msiHasExtended crate signed then do
          let expected ← readStreamAll crate signed extendedSignatureEntry
          Outcome.guardThat (computePrehash hashes signed kind = expected)
            "MSI extended metadata digest mismatch (MsiDigitalSignatureEx stream vs Rust pre-hash)"
        else .ok ()) = .ok () := by
    simp only [verifyMsiDigestConsistency, hpkcs7, hembedded, Outcome.ok_bind, Outcome.mapErr,
      hlength, PeAuthenticodeHashKind.fromDigestByteLen_digestOutputLen, Outcome.bind_eq_ok,
      Outcome.guardThat_eq_ok]
    constructor
    · rintro ⟨_, hsame, hrest⟩
      exact ⟨hsame, hrest⟩
    · rintro ⟨hsame, hrest⟩
      exact ⟨(), hsame, hrest⟩
  rw [hverify]
  by_cases hextended : msiHasExtended crate signed
  · rw [if_pos hextended]
    simp only [Outcome.bind_eq_ok, Outcome.guardThat_eq_ok]
    constructor
    · rintro ⟨hsame, _, hread, hdigest⟩
      exact ⟨hsame, fun _ => hdigest ▸ hread⟩
    · rintro ⟨hsame, hread⟩
      exact ⟨hsame, _, hread hextended, rfl⟩
  · rw [if_neg hextended]
    constructor
    · rintro ⟨hsame, _⟩
      exact ⟨hsame, fun h => absurd h hextended⟩
    · rintro ⟨hsame, _⟩
      exact ⟨hsame, rfl⟩

/-- **Signing an MSI file, then verifying it.**  For a file that can be prepared, the
signed file verifies and can be prepared again exactly if what is written over is not
seen by the walk. -/
theorem msi_sign_then_verify_iff (clocks : Clocks) {cfb : CompoundFile}
    {prepared : PreparedMsiAuthenticode} (pkcs7 : List UInt8)
    (hnodup : (rootNames crate cfb).Nodup)
    (hprepare : prepareMsiForAuthenticodeSigning crate hashes clocks.prepare cfb kind = .ok prepared)
    (hfree : CollisionFree hashes kind
      ((stages crate hashes kind clocks cfb pkcs7).flatMap (hashInputs crate hashes kind))) :
    SignThenVerify crate hashes kind clocks prepared pkcs7 ↔
      WritesUnseen crate kind clocks cfb pkcs7 := by
  obtain ⟨hstorage, rfl⟩ := prepare_eq_ok.mp hprepare
  have himage : (rootNames crate (preparedImage crate hashes kind clocks cfb)).Nodup :=
    nodup_rootNames_putStream _ _ _ hnodup
  have hdigital : rootEntry crate (preparedImage crate hashes kind clocks cfb)
      digitalSignatureEntry = rootEntry crate cfb digitalSignatureEntry :=
    rootEntry_putStream_other _ _ _ hnodup (foldName_signature_ne crate)
  have hembed := @embed_unseen_iff crate clocks.embed _ pkcs7 himage
  refine (signThenVerify_iff_walks hnodup hstorage hfree).trans ?_
  constructor
  · intro ⟨hsigned, hprepared⟩
    refine ⟨?_, (extended_unseen_iff hnodup hstorage hsigned.2.1).mp hprepared⟩
    rw [← hdigital]
    exact hembed.mp hsigned
  · intro ⟨hsignature, hextended⟩
    rw [← hdigital] at hsignature
    have hsigned := hembed.mpr hsignature
    exact ⟨hsigned, (extended_unseen_iff hnodup hstorage hsigned.2.1).mpr hextended⟩

end

/-! ## A file of one stream -/

/-- Lower case does not change the length of a name. -/
theorem length_encodeUtf16_toAsciiLowercase (name : List Char) :
    (encodeUtf16 (RustStr.toAsciiLowercase name)).length = (encodeUtf16 name).length := by
  have hunits : ∀ c : Char, (utf16Units c.toLower).length = (utf16Units c).length := by
    intro c
    have hnum := RustStr.toNat_toLower c
    unfold utf16Units
    by_cases hbmp : c.toNat < 0x10000
    · rw [if_pos hbmp, if_pos (by split at hnum <;> omega)]
      rfl
    · rw [if_neg hbmp, if_neg (by split at hnum <;> omega)]
      simp only [List.length_cons]
  simp only [encodeUtf16, RustStr.toAsciiLowercase, List.length_flatMap, List.map_map,
    Function.comp_def, hunits]

/-- Names are compared without the case of ASCII letters. -/
def asciiCfbCrate : CfbCrate where
  foldName := RustStr.toAsciiLowercase
  newStream := ⟨List.replicate 16 0, 0, 0, 0⟩
  length_of_foldName {a b} h := by
    rw [← length_encodeUtf16_toAsciiLowercase a, h, length_encodeUtf16_toAsciiLowercase]

/-- A file with one stream of the root. -/
def oneStreamFile (name : List Char) : CompoundFile :=
  ⟨List.replicate 16 0, 0, [.stream name ⟨List.replicate 16 0, 0, 0, 0⟩ [1]]⟩

/-- Writing keeps the times. -/
def stoppedClocks : Clocks := ⟨id, id, id, id⟩

/-- A file with a storage in a storage, a stream next to it, and the streams of a signature. -/
def signedNestedFile : CompoundFile :=
  let info : EntryInfo := ⟨List.replicate 16 0, 0, 0, 0⟩
  ⟨List.replicate 16 0, 0,
    [.storage "data".toList info
        [.storage "inner".toList info [.stream "b".toList info [2]], .stream "a".toList info [1]],
      .stream "table".toList info [3], .stream digitalSignatureEntry info [9],
      .stream extendedSignatureEntry info [8]]⟩

set_option maxRecDepth 4000

theorem msi_sign_then_verify_iff_nested : ∃ prepared,
    prepareMsiForAuthenticodeSigning asciiCfbCrate .mixing id signedNestedFile .sha256 =
      .ok prepared ∧
    (SignThenVerify asciiCfbCrate .mixing .sha256 stoppedClocks prepared [2] ↔
      WritesUnseen asciiCfbCrate .sha256 stoppedClocks signedNestedFile [2]) :=
  ⟨_, rfl, msi_sign_then_verify_iff stoppedClocks [2] (by decide +kernel) rfl (by decide +kernel)⟩

/-- A stream `\5digitalsignature` is written over and hashed. -/
theorem msi_signature_in_other_case : ∃ prepared,
    prepareMsiForAuthenticodeSigning asciiCfbCrate .mixing id
      (oneStreamFile ('\x05' :: "digitalsignature".toList)) .sha256 = .ok prepared ∧
    ¬ SignThenVerify asciiCfbCrate .mixing .sha256 stoppedClocks prepared [2] := by
  refine ⟨_, rfl, ?_⟩
  intro ⟨signed, hembed, hverified, _⟩
  cases Except.ok.inj hembed
  exact absurd hverified.fingerprint (by decide)

end Psign.Sip
