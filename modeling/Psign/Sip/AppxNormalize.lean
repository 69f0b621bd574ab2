import Psign.Sip.AppxDigest

/-!
# The layout of a package that is staged for signing

`normalize_zip_for_appx_signing` of `msix_digest.rs` rewrites a ZIP archive into the layout
that AppxPackaging writes: version 4.5 and no external attributes in every directory
record, and a tail of three records (`documentedTail`).

The directory is walked from its first record to its end.  What the walk does is said about
a list of records (`normalizeEntries_records`), and every walk that succeeds goes through
such a list (`exists_records`).  An archive with the tail is read back with the tail's own
values (`parseZipTail_documented`).
-/

namespace Psign.Sip.Appx

open CodeLib CodeLib.Bytes

/-! ## The rewritten archive -/

/-- `ZIP64_EOCD_RECORD_SIZE`. -/
def zip64EocdRecordSize : Nat := 44

/-- The loop of `normalize_zip_for_appx_signing` with the records seen so far.  A record
takes bytes, so there are at most as many as the directory has bytes left. -/
def normalizeEntries (cdEnd : Nat) :
    Nat → List UInt8 → Nat → Nat → Outcome (List UInt8 × Nat × Nat)
  | 0, out, p, entries => .ok (out, p, entries)
  | left + 1, out, p, entries =>
    if p < cdEnd then do
      let sig ← readU32Le out p
      Outcome.guardThat (sig = cdSig ∧ p + 46 ≤ out.length) "bad central directory entry"
      let nameLen ← readU16Le out (p + 28)
      let extraLen ← readU16Le out (p + 30)
      let commentLen ← readU16Le out (p + 32)
      let next ← checkedAdd p (46 + nameLen + extraLen + commentLen)
        "central directory entry overflow"
      normalizeEntries cdEnd left
        (patch (patch out (p + 4) (u16le zip64Version)) (p + 38) (u32le 0)) next (entries + 1)
    else .ok (out, p, entries)

/-- The ZIP64 end record of a directory. -/
def zip64EocdRecord (entries cdSize cdOffset : Nat) : List UInt8 :=
  u32le zip64EocdSig ++ u64le zip64EocdRecordSize ++ u16le zip64Version ++ u16le zip64Version ++
    u32le 0 ++ u32le 0 ++ u64le entries ++ u64le entries ++ u64le cdSize ++ u64le cdOffset

/-- The locator of a ZIP64 end record. -/
def zip64LocatorRecord (zip64EocdOffset : Nat) : List UInt8 :=
  u32le zip64LocSig ++ u32le 0 ++ u64le zip64EocdOffset ++ u32le 1

/-- An end record that leaves everything but the comment to the ZIP64 record. -/
def sentinelEocd (comment : List UInt8) : List UInt8 :=
  u32le eocdSig ++ u16le u16Max ++ u16le u16Max ++ u16le u16Max ++ u16le u16Max ++
    u32le u32Max ++ u32le u32Max ++ u16le comment.length ++ comment

/-- `normalize_zip_for_appx_signing`. -/
def normalizeZipForAppxSigning (zip : List UInt8) : Outcome (List UInt8) := do
  let tail ← parseZipTail zip
  let cdOffset := tail.centralDirectoryOffset
  let cdSize := tail.centralDirectorySize
  let cdEnd ← checkedAdd cdOffset cdSize "central directory extent overflow"
  let (out, p, entries) ← normalizeEntries cdEnd cdSize zip cdOffset 0
  Outcome.guardThat (p = cdEnd) "central directory entries overrun the declared size"
  if tail.zip64Eocd.isSome then return out
  else do
    let comment := tail.classic.zipFileComment
    Outcome.guardThat (comment.length ≤ u16Max) "ZIP comment is too long"
    return out.take tail.eocdOffset ++ zip64EocdRecord entries cdSize cdOffset ++
      zip64LocatorRecord tail.eocdOffset ++ sentinelEocd comment

/-! ## Directory records -/

/-- A directory record: its fixed fields say how long it is. -/
structure IsRecord (record : List UInt8) : Prop where
  sig : u32At record 0 = cdSig
  fixed : 46 ≤ record.length
  length : record.length = 46 + u16At record 28 + u16At record 30 + u16At record 32

/-- A record with another version and no external attributes. -/
def normalizeRecord (record : List UInt8) : List UInt8 :=
  patch (patch record 4 (u16le zip64Version)) 38 (u32le 0)

theorem length_normalizeRecord {record : List UInt8} (h : 46 ≤ record.length) :
    (normalizeRecord record).length = record.length := by
  have hfirst : (patch record 4 (u16le zip64Version)).length = record.length :=
    length_patch (show 4 + 2 ≤ record.length by omega)
  rw [normalizeRecord, length_patch (show 38 + 4 ≤ _ by rw [hfirst]; omega), hfirst]

/-- Only the two fields change. -/
theorem sameOn_normalizeRecord {record : List UInt8} {lo hi : Nat} (h : 46 ≤ record.length)
    (hversion : hi ≤ 4 ∨ 6 ≤ lo) (hattrs : hi ≤ 38 ∨ 42 ≤ lo) :
    SameOn record (normalizeRecord record) lo hi := by
  have hfirst : (patch record 4 (u16le zip64Version)).length = record.length :=
    length_patch (show 4 + 2 ≤ record.length by omega)
  have h1 : SameOn record (patch record 4 (u16le zip64Version)) lo hi :=
    sameOn_patch (show 4 + 2 ≤ record.length by omega) hversion
  have h2 : SameOn (patch record 4 (u16le zip64Version)) (normalizeRecord record) lo hi :=
    sameOn_patch (show 38 + 4 ≤ _ by rw [hfirst]; omega) hattrs
  exact h1.trans h2

theorem IsRecord.normalize {record : List UInt8} (h : IsRecord record) :
    IsRecord (normalizeRecord record) where
  sig := by
    rw [← h.sig]
    exact (u32At_congr (sameOn_normalizeRecord h.fixed (by omega) (by omega))).symm
  fixed := by
    rw [length_normalizeRecord h.fixed]
    exact h.fixed
  length := by
    rw [length_normalizeRecord h.fixed, h.length,
      u16At_congr (sameOn_normalizeRecord h.fixed (.inr (by omega)) (.inl (by omega))),
      u16At_congr (sameOn_normalizeRecord h.fixed (.inr (by omega)) (.inl (by omega))),
      u16At_congr (sameOn_normalizeRecord h.fixed (.inr (by omega)) (.inl (by omega)))]

/-- The fields that are written. -/
theorem normalizeRecord_fields {record : List UInt8} (h : 46 ≤ record.length) :
    u16At (normalizeRecord record) 4 = zip64Version ∧ u32At (normalizeRecord record) 38 = 0 := by
  have hfirst : (patch record 4 (u16le zip64Version)).length = record.length :=
    length_patch (show 4 + 2 ≤ record.length by omega)
  constructor
  · rw [normalizeRecord, ← u16At_congr (sameOn_patch (show 38 + 4 ≤ _ by rw [hfirst]; omega)
      (.inl (by omega)))]
    exact u16At_patch_self (by omega) (by decide)
  · exact u32At_patch_self (by rw [hfirst]; omega) (by decide)

theorem normalizeRecord_normalizeRecord {record : List UInt8} (h : 46 ≤ record.length) :
    normalizeRecord (normalizeRecord record) = normalizeRecord record := by
  have hlength := length_normalizeRecord h
  obtain ⟨hversion, hattrs⟩ := normalizeRecord_fields h
  have hfirst : patch (normalizeRecord record) 4 (u16le zip64Version) = normalizeRecord record := by
    refine patch_self ?_
    rw [← hversion]
    exact u16le_u16At (by omega)
  have hsecond : patch (normalizeRecord record) 38 (u32le 0) = normalizeRecord record := by
    refine patch_self ?_
    rw [← hattrs]
    exact u32le_u32At (by omega)
  rw [normalizeRecord, hfirst, hsecond]

/-- One record of the walk. -/
theorem normalizeEntries_record {before record after : List UInt8} {cdEnd left n : Nat}
    (hrecord : IsRecord record) (hend : before.length + record.length ≤ cdEnd)
    (hbound : cdEnd < 2 ^ 64) :
    normalizeEntries cdEnd (left + 1) (before ++ record ++ after) before.length n =
      normalizeEntries cdEnd left (before ++ normalizeRecord record ++ after)
        (before.length + record.length) (n + 1) := by
  have hfixed := hrecord.fixed
  have h16 : ∀ k, k + 2 ≤ 46 → readU16Le (before ++ record ++ after) (before.length + k) =
      .ok (u16At record k) := by
    intro k hk
    refine readU16Le_eq_ok.mpr ⟨?_, ?_⟩
    · simp only [List.length_append]
      omega
    · rw [List.append_assoc, u16At_append_right, u16At_append_left after (by omega)]
  have hsig : readU32Le (before ++ record ++ after) before.length = .ok cdSig := by
    refine readU32Le_eq_ok.mpr ⟨?_, ?_⟩
    · simp only [List.length_append]
      omega
    · have hat := u32At_append_right before (record ++ after) 0
      rw [Nat.add_zero] at hat
      rw [List.append_assoc, hat, u32At_append_left after (by omega), hrecord.sig]
  have hroom : cdSig = cdSig ∧ before.length + 46 ≤ (before ++ record ++ after).length := by
    refine ⟨rfl, ?_⟩
    simp only [List.length_append]
    omega
  have hnext : checkedAdd before.length
      (46 + u16At record 28 + u16At record 30 + u16At record 32)
      "central directory entry overflow" = .ok (before.length + record.length) := by
    rw [checkedAdd_eq_ok, ← hrecord.length]
    exact ⟨by omega, rfl⟩
  have hpatched : patch (patch (before ++ record ++ after) (before.length + 4)
      (u16le zip64Version)) (before.length + 38) (u32le 0) =
      before ++ normalizeRecord record ++ after := by
    have hfirst : (patch record 4 (u16le zip64Version)).length = record.length :=
      length_patch (show 4 + 2 ≤ record.length by omega)
    rw [patch_append_middle (show 4 + 2 ≤ record.length by omega),
      patch_append_middle (show 38 + 4 ≤ _ by rw [hfirst]; omega), normalizeRecord]
  rw [normalizeEntries, if_pos (by omega), hsig, Outcome.ok_bind, Outcome.guardThat_of hroom,
    Outcome.ok_bind, h16 28 (by decide), Outcome.ok_bind, h16 30 (by decide), Outcome.ok_bind,
    h16 32 (by decide), Outcome.ok_bind, hnext, Outcome.ok_bind, hpatched]

theorem normalizeEntries_of_le {cdEnd left p n : Nat} {out : List UInt8} (h : cdEnd ≤ p) :
    normalizeEntries cdEnd left out p n = .ok (out, p, n) := by
  cases left with
  | zero => rfl
  | succ left => rw [normalizeEntries, if_neg (by omega)]

/-- The walk over records rewrites each of them. -/
theorem normalizeEntries_records {records : List (List UInt8)} {before after : List UInt8}
    {cdEnd left n : Nat} (hrecords : ∀ record ∈ records, IsRecord record)
    (hend : before.length + records.flatten.length = cdEnd) (hbound : cdEnd < 2 ^ 64)
    (hleft : records.flatten.length ≤ left) :
    normalizeEntries cdEnd left (before ++ records.flatten ++ after) before.length n =
      .ok (before ++ (records.map normalizeRecord).flatten ++ after, cdEnd,
        n + records.length) := by
  induction records generalizing before left n with
  | nil =>
    have hstop : before.length = cdEnd := by simpa using hend
    cases left with
    | zero => simp [normalizeEntries, hstop]
    | succ left => simp [normalizeEntries, hstop]
  | cons record records ih =>
    have hrecord := hrecords record List.mem_cons_self
    have hfixed := hrecord.fixed
    have hlength := length_normalizeRecord hfixed
    rw [List.flatten_cons, List.length_append] at hend hleft
    obtain ⟨left, rfl⟩ : ∃ k, left = k + 1 := ⟨left - 1, by omega⟩
    have hrest := @ih (before ++ normalizeRecord record) left (n + 1)
      (fun other hother => hrecords other (List.mem_cons_of_mem _ hother))
      (by rw [List.length_append, hlength]; omega) (by omega)
    rw [List.length_append, hlength] at hrest
    have hshape : before ++ (record :: records).flatten ++ after =
        before ++ record ++ (records.flatten ++ after) := by simp
    rw [hshape, normalizeEntries_record hrecord (by omega) hbound, ← List.append_assoc, hrest,
      List.length_cons]
    simp only [List.map_cons, List.flatten_cons, List.append_assoc, Nat.add_assoc,
      Nat.add_comm 1]

/-- What a round of the walk found where it went on. -/
theorem normalizeEntries_succ {cdEnd left p n : Nat} {out : List UInt8}
    {result : List UInt8 × Nat × Nat} (hp : p < cdEnd)
    (h : normalizeEntries cdEnd (left + 1) out p n = .ok result) (hresult : result.2.1 = cdEnd) :
    u32At out p = cdSig ∧
      p + (46 + u16At out (p + 28) + u16At out (p + 30) + u16At out (p + 32)) ≤ cdEnd := by
  rw [normalizeEntries, if_pos hp] at h
  obtain ⟨sig, hsig, h⟩ := Outcome.bind_eq_ok.mp h
  obtain ⟨hcd, h⟩ := Outcome.guardThat_bind_eq_ok.mp h
  obtain ⟨nameLen, hname, h⟩ := Outcome.bind_eq_ok.mp h
  obtain ⟨extraLen, hextra, h⟩ := Outcome.bind_eq_ok.mp h
  obtain ⟨commentLen, hcomment, h⟩ := Outcome.bind_eq_ok.mp h
  obtain ⟨next, hnext, h⟩ := Outcome.bind_eq_ok.mp h
  rw [(readU16Le_eq_ok.mp hname).2, (readU16Le_eq_ok.mp hextra).2, (readU16Le_eq_ok.mp hcomment).2]
  have hsum := (checkedAdd_eq_ok.mp hnext).2
  refine ⟨(readU32Le_eq_ok.mp hsig).2.trans hcd.1, ?_⟩
  by_contra hover
  rw [normalizeEntries_of_le (by omega)] at h
  rw [← Except.ok.inj h] at hresult
  dsimp only at hresult
  omega

/-- A walk that reaches the end of the directory goes over records. -/
theorem exists_records {cdEnd left n : Nat} {before rest : List UInt8}
    {result : List UInt8 × Nat × Nat}
    (h : normalizeEntries cdEnd left (before ++ rest) before.length n = .ok result)
    (hresult : result.2.1 = cdEnd) (hstart : before.length ≤ cdEnd)
    (hend : cdEnd ≤ (before ++ rest).length) (hbound : cdEnd < 2 ^ 64) :
    ∃ (records : List (List UInt8)) (after : List UInt8), rest = records.flatten ++ after ∧
      (∀ record ∈ records, IsRecord record) ∧
      before.length + records.flatten.length = cdEnd := by
  induction left generalizing before rest n with
  | zero =>
    refine ⟨[], rest, rfl, fun _ hmem => absurd hmem List.not_mem_nil, ?_⟩
    rw [← Except.ok.inj h] at hresult
    exact hresult
  | succ left ih =>
    by_cases hp : before.length < cdEnd
    · obtain ⟨hsig, hnext⟩ := normalizeEntries_succ hp h hresult
      have hsig0 := u32At_append_right before rest 0
      rw [Nat.add_zero, hsig] at hsig0
      rw [u16At_append_right, u16At_append_right, u16At_append_right] at hnext
      rw [List.length_append] at hend
      obtain ⟨size, hsize⟩ : ∃ size, size = 46 + u16At rest 28 + u16At rest 30 + u16At rest 32 :=
        ⟨_, rfl⟩
      have hlength : (rest.take size).length = size := List.length_take_of_le (by omega)
      have hrecord : IsRecord (rest.take size) := by
        refine ⟨?_, by omega, ?_⟩
        · rw [u32At_take (by omega), ← hsig0]
        · rw [hlength, u16At_take (by omega), u16At_take (by omega), u16At_take (by omega), hsize]
      have hshape : before ++ rest = before ++ rest.take size ++ rest.drop size := by
        rw [List.append_assoc, List.take_append_drop]
      have hnormal := length_normalizeRecord hrecord.fixed
      rw [hshape, normalizeEntries_record hrecord (by omega) hbound] at h
      have hlen : (before ++ normalizeRecord (rest.take size)).length =
          before.length + (rest.take size).length := by
        rw [List.length_append, hnormal]
      rw [← hlen] at h
      obtain ⟨records, after, hrest, hrecords, hstop⟩ := ih h (by omega) (by
        rw [List.length_append, hlen, List.length_drop]
        omega)
      refine ⟨rest.take size :: records, after, ?_, ?_, ?_⟩
      · rw [List.flatten_cons, List.append_assoc, ← hrest, List.take_append_drop]
      · exact List.forall_mem_cons.mpr ⟨hrecord, hrecords⟩
      · rw [List.flatten_cons, List.length_append]
        omega
    · refine ⟨[], rest, rfl, fun _ hmem => absurd hmem List.not_mem_nil, ?_⟩
      rw [List.flatten_nil, List.length_nil]
      omega

/-! ## Reading what is written -/

section Fields

variable (rest : List UInt8) (n k : Nat)

@[simp] theorem u16At_skip_u16le : u16At (u16le n ++ rest) (k + 2) = u16At rest k := by
  rw [Nat.add_comm]
  exact u16At_append_right (u16le n) rest k

@[simp] theorem u32At_skip_u16le : u32At (u16le n ++ rest) (k + 2) = u32At rest k := by
  rw [Nat.add_comm]
  exact u32At_append_right (u16le n) rest k

@[simp] theorem u16At_skip_u32le : u16At (u32le n ++ rest) (k + 4) = u16At rest k := by
  rw [Nat.add_comm]
  exact u16At_append_right (u32le n) rest k

@[simp] theorem u32At_skip_u32le : u32At (u32le n ++ rest) (k + 4) = u32At rest k := by
  rw [Nat.add_comm]
  exact u32At_append_right (u32le n) rest k

@[simp] theorem u16At_skip_u64le : u16At (u64le n ++ rest) (k + 8) = u16At rest k := by
  rw [Nat.add_comm]
  exact u16At_append_right (u64le n) rest k

@[simp] theorem u32At_skip_u64le : u32At (u64le n ++ rest) (k + 8) = u32At rest k := by
  rw [Nat.add_comm]
  exact u32At_append_right (u64le n) rest k

theorem u64At_append_right (before : List UInt8) :
    u64At (before ++ rest) (before.length + k) = u64At rest k := by
  rw [u64At, u64At, Nat.add_assoc, u32At_append_right, u32At_append_right]

@[simp] theorem u64At_skip_u16le : u64At (u16le n ++ rest) (k + 2) = u64At rest k := by
  rw [Nat.add_comm]
  exact u64At_append_right rest k (u16le n)

@[simp] theorem u64At_skip_u32le : u64At (u32le n ++ rest) (k + 4) = u64At rest k := by
  rw [Nat.add_comm]
  exact u64At_append_right rest k (u32le n)

@[simp] theorem u64At_skip_u64le : u64At (u64le n ++ rest) (k + 8) = u64At rest k := by
  rw [Nat.add_comm]
  exact u64At_append_right rest k (u64le n)

variable {n}

theorem u64At_u64le (h : n < 2 ^ 64) : u64At (u64le n ++ rest) 0 = n := by
  have hlow : u32At (u64le n ++ rest) 0 = n % 2 ^ 32 := by
    rw [u64le, List.append_assoc]
    exact u32At_u32le (Nat.mod_lt _ (by decide)) _
  have hhigh : u32At (u64le n ++ rest) (0 + 4) = n / 2 ^ 32 := by
    rw [u64le, List.append_assoc, u32At_skip_u32le]
    exact u32At_u32le (by omega) _
  rw [u64At, hlow, hhigh]
  omega

end Fields

/-- The tail that AppxPackaging writes behind a directory. -/
def documentedTail (cdOffset cdSize entries : Nat) (comment : List UInt8) : List UInt8 :=
  zip64EocdRecord entries cdSize cdOffset ++ zip64LocatorRecord (cdOffset + cdSize) ++
    sentinelEocd comment

/-- What is read of this tail. -/
def documentedZipTail (cdOffset cdSize entries : Nat) (comment : List UInt8) : ZipTail where
  classic := ⟨u16Max, u16Max, u16Max, u16Max, u32Max, u32Max, comment⟩
  zip64Eocd := some ⟨zip64EocdRecordSize, zip64Version, zip64Version, 0, 0, entries, entries,
    cdSize, cdOffset, []⟩
  locator := some ⟨0, cdOffset + cdSize, 1⟩
  zip64EocdOffset := some (cdOffset + cdSize)
  eocdOffset := cdOffset + cdSize + 76
  centralDirectoryOffset := cdOffset
  centralDirectorySize := cdSize

/-! ## Parsing a tail -/

/-- The values that `parse_zip_tail` returns. -/
def zipTailOf (cdePos : Nat) (classic : ClassicEocd)
    (records : Option (Zip64Locator × Nat × Zip64Eocd)) : ZipTail where
  classic
  zip64Eocd := records.map fun (_, _, z64) => z64
  locator := records.map fun (loc, _, _) => loc
  zip64EocdOffset := records.map fun (_, zpos, _) => zpos
  eocdOffset := cdePos
  centralDirectoryOffset :=
    match records with
    | some (_, _, z64) =>
      if classic.centralDirectoryOffset = u32Max then z64.centralDirectoryOffset
      else classic.centralDirectoryOffset
    | none => classic.centralDirectoryOffset
  centralDirectorySize :=
    match records with
    | some (_, _, z64) =>
      if classic.centralDirectorySize = u32Max then z64.centralDirectorySize
      else classic.centralDirectorySize
    | none => classic.centralDirectorySize

/-- A tail that is accepted: the records that were found, and where the directory ends. -/
structure TailParts (buf : List UInt8) (cdePos : Nat) (classic : ClassicEocd)
    (records : Option (Zip64Locator × Nat × Zip64Eocd)) : Prop where
  eocd : findClassicEocd buf = .ok (cdePos, classic)
  disks : (classic.diskNumber = u16Max ∧ classic.diskWithCentralDirectory = u16Max) ∨
    (classic.diskNumber = 0 ∧ classic.diskWithCentralDirectory = 0)
  zip64 : zip64Records buf cdePos classic = .ok records
  classicOnly : records = none → checkClassicOnly cdePos classic = .ok ()
  bound : (zipTailOf cdePos classic records).centralDirectoryOffset +
    (zipTailOf cdePos classic records).centralDirectorySize < 2 ^ 64
  extent : (zipTailOf cdePos classic records).centralDirectoryOffset +
    (zipTailOf cdePos classic records).centralDirectorySize =
      (records.map fun (_, zpos, _) => zpos).getD cdePos

theorem parseZipTail_eq_ok {buf : List UInt8} {tail : ZipTail} :
    parseZipTail buf = .ok tail ↔ ∃ cdePos classic records,
      TailParts buf cdePos classic records ∧ tail = zipTailOf cdePos classic records := by
  constructor
  · intro h
    obtain ⟨⟨cdePos, classic⟩, heocd, h⟩ := Outcome.bind_eq_ok.mp h
    obtain ⟨hdisks, h⟩ := Outcome.guardThat_bind_eq_ok.mp h
    obtain ⟨records, hrecords, h⟩ := Outcome.bind_eq_ok.mp h
    refine ⟨cdePos, classic, records, ?_⟩
    cases records with
    | none =>
      obtain ⟨_, hclassic, h⟩ := Outcome.bind_eq_ok.mp h
      obtain ⟨cdEnd, hsum, h⟩ := Outcome.bind_eq_ok.mp h
      obtain ⟨hextent, htail⟩ := Outcome.guardThat_bind_eq_ok.mp h
      obtain ⟨hbound, rfl⟩ := checkedAdd_eq_ok.mp hsum
      exact ⟨⟨heocd, hdisks, hrecords, fun _ => hclassic, hbound, hextent⟩,
        (Except.ok.inj htail).symm⟩
    | some found =>
      obtain ⟨loc, zpos, z64⟩ := found
      obtain ⟨cdEnd, hsum, h⟩ := Outcome.bind_eq_ok.mp h
      obtain ⟨hextent, htail⟩ := Outcome.guardThat_bind_eq_ok.mp h
      obtain ⟨hbound, rfl⟩ := checkedAdd_eq_ok.mp hsum
      exact ⟨⟨heocd, hdisks, hrecords, fun hnone => absurd hnone (by simp), hbound, hextent⟩,
        (Except.ok.inj htail).symm⟩
  · intro h
    obtain ⟨cdePos, classic, records, hparts, rfl⟩ := h
    rw [parseZipTail, hparts.eocd, Outcome.ok_bind]
    dsimp only
    rw [Outcome.guardThat_of hparts.disks, Outcome.ok_bind, hparts.zip64, Outcome.ok_bind]
    have hsum : ∀ message, checkedAdd (zipTailOf cdePos classic records).centralDirectoryOffset
        (zipTailOf cdePos classic records).centralDirectorySize message = .ok _ :=
      fun message => checkedAdd_eq_ok.mpr ⟨hparts.bound, rfl⟩
    cases records with
    | none =>
      show (checkClassicOnly cdePos classic >>= fun _ => checkedAdd
        (zipTailOf cdePos classic none).centralDirectoryOffset
        (zipTailOf cdePos classic none).centralDirectorySize _ >>= fun cdEnd => _) = _
      rw [hparts.classicOnly rfl, Outcome.ok_bind, hsum, Outcome.ok_bind]
      dsimp only
      rw [Outcome.guardThat_of (show _ = _ from hparts.extent)]
      rfl
    | some found =>
      obtain ⟨loc, zpos, z64⟩ := found
      show (checkedAdd (zipTailOf cdePos classic (some (loc, zpos, z64))).centralDirectoryOffset
        (zipTailOf cdePos classic (some (loc, zpos, z64))).centralDirectorySize _ >>=
          fun cdEnd => _) = _
      rw [hsum, Outcome.ok_bind]
      dsimp only
      rw [Outcome.guardThat_of (show _ = _ from hparts.extent)]
      rfl

/-! ### The documented tail is read -/

section Documented

variable {before comment : List UInt8} {cdOffset cdSize entries : Nat}

theorem length_documentedTail :
    (documentedTail cdOffset cdSize entries comment).length = 98 + comment.length := by
  simp [documentedTail, zip64EocdRecord, zip64LocatorRecord, sentinelEocd, u64le, u16le]
  omega

/-- The three records behind each other. -/
theorem documentedTail_eq : documentedTail cdOffset cdSize entries comment =
    u32le zip64EocdSig ++ (u64le zip64EocdRecordSize ++ (u16le zip64Version ++
      (u16le zip64Version ++ (u32le 0 ++ (u32le 0 ++ (u64le entries ++ (u64le entries ++
        (u64le cdSize ++ (u64le cdOffset ++ (u32le zip64LocSig ++ (u32le 0 ++
          (u64le (cdOffset + cdSize) ++ (u32le 1 ++ sentinelEocd comment))))))))))))) := by
  simp only [documentedTail, zip64EocdRecord, zip64LocatorRecord, List.append_assoc]

theorem sentinelEocd_eq : sentinelEocd comment =
    u32le eocdSig ++ (u16le u16Max ++ (u16le u16Max ++ (u16le u16Max ++ (u16le u16Max ++
      (u32le u32Max ++ (u32le u32Max ++ (u16le comment.length ++ comment))))))) := by
  simp only [sentinelEocd, List.append_assoc]

theorem readU16Le_append (tail : List UInt8) {k : Nat} (h : k + 2 ≤ tail.length) :
    readU16Le (before ++ tail) (before.length + k) = .ok (u16At tail k) := by
  rw [readU16Le_eq_ok, u16At_append_right, List.length_append]
  exact ⟨by omega, rfl⟩

theorem readU32Le_append (tail : List UInt8) {k : Nat} (h : k + 4 ≤ tail.length) :
    readU32Le (before ++ tail) (before.length + k) = .ok (u32At tail k) := by
  rw [readU32Le_eq_ok, u32At_append_right, List.length_append]
  exact ⟨by omega, rfl⟩

@[simp] theorem readU64Le_eq_ok {buf : List UInt8} {off n : Nat} :
    readU64Le buf off = .ok n ↔ off + 8 ≤ buf.length ∧ u64At buf off = n := by
  rw [readU64Le, Outcome.ofOption_eq_ok, Option.map_eq_some_iff]
  simp only [slice_eq_some]
  constructor
  · intro h
    obtain ⟨_, ⟨_, hlen, _⟩, hvalue⟩ := h
    exact ⟨hlen, hvalue⟩
  · intro h
    exact ⟨_, ⟨by omega, h.1, rfl⟩, h.2⟩

theorem readU64Le_append (tail : List UInt8) {k : Nat} (h : k + 8 ≤ tail.length) :
    readU64Le (before ++ tail) (before.length + k) = .ok (u64At tail k) := by
  rw [readU64Le_eq_ok, u64At_append_right, List.length_append]
  exact ⟨by omega, rfl⟩

theorem u16At_documentedTail_made :
    u16At (documentedTail cdOffset cdSize entries comment) 12 = zip64Version := by
  rw [documentedTail_eq]
  simp only [u16At_skip_u32le, u16At_skip_u64le]
  exact u16At_u16le (by decide) _

theorem readZip64Eocd_documented (hsize : cdSize < 2 ^ 64) (hoffset : cdOffset < 2 ^ 64)
    (hentries : entries < 2 ^ 64) (hfile : before.length + 56 < 2 ^ 64) :
    readZip64Eocd (before ++ documentedTail cdOffset cdSize entries comment) before.length =
      .ok ⟨zip64EocdRecordSize, zip64Version, zip64Version, 0, 0, entries, entries, cdSize,
        cdOffset, []⟩ := by
  have hlength := @length_documentedTail comment cdOffset cdSize entries
  have hrecord : u64At (documentedTail cdOffset cdSize entries comment) 4 = 44 := by
    rw [documentedTail_eq, u64At_skip_u32le]
    exact u64At_u64le _ (by decide)
  have hmade := @u16At_documentedTail_made comment cdOffset cdSize entries
  have hneeded : u16At (documentedTail cdOffset cdSize entries comment) 14 = zip64Version := by
    rw [documentedTail_eq]
    simp only [u16At_skip_u32le, u16At_skip_u64le, u16At_skip_u16le]
    exact u16At_u16le (by decide) _
  have hdisk : u32At (documentedTail cdOffset cdSize entries comment) 16 = 0 := by
    rw [documentedTail_eq]
    simp only [u32At_skip_u32le, u32At_skip_u64le, u32At_skip_u16le]
    exact u32At_u32le (by decide) _
  have hstart : u32At (documentedTail cdOffset cdSize entries comment) 20 = 0 := by
    rw [documentedTail_eq]
    simp only [u32At_skip_u32le, u32At_skip_u64le, u32At_skip_u16le]
    exact u32At_u32le (by decide) _
  have hthis : u64At (documentedTail cdOffset cdSize entries comment) 24 = entries := by
    rw [documentedTail_eq]
    simp only [u64At_skip_u32le, u64At_skip_u64le, u64At_skip_u16le]
    exact u64At_u64le _ hentries
  have hall : u64At (documentedTail cdOffset cdSize entries comment) 32 = entries := by
    rw [documentedTail_eq]
    simp only [u64At_skip_u32le, u64At_skip_u64le, u64At_skip_u16le]
    exact u64At_u64le _ hentries
  have hcdSize : u64At (documentedTail cdOffset cdSize entries comment) 40 = cdSize := by
    rw [documentedTail_eq]
    simp only [u64At_skip_u32le, u64At_skip_u64le, u64At_skip_u16le]
    exact u64At_u64le _ hsize
  have hcdOffset : u64At (documentedTail cdOffset cdSize entries comment) 48 = cdOffset := by
    rw [documentedTail_eq]
    simp only [u64At_skip_u32le, u64At_skip_u64le, u64At_skip_u16le]
    exact u64At_u64le _ hoffset
  have hsum : checkedAdd (before.length + 12 + 44) (44 - 44) "zip64 tail overflow" =
      .ok (before.length + 56) := checkedAdd_eq_ok.mpr ⟨by omega, by omega⟩
  have hempty : slice (before ++ documentedTail cdOffset cdSize entries comment)
      (before.length + 12 + 44) (before.length + 56) = some [] := by
    rw [slice_eq_some]
    refine ⟨by omega, by rw [List.length_append]; omega, ?_⟩
    rw [eq_comm, List.drop_eq_nil_iff, List.length_take]
    omega
  rw [readZip64Eocd, readU64Le_append _ (by omega), Outcome.ok_bind, hrecord,
    Outcome.guardThat_of (Nat.le_refl 44), Outcome.ok_bind, readU16Le_append _ (by omega),
    Outcome.ok_bind, hmade, readU16Le_append _ (by omega), Outcome.ok_bind, hneeded,
    readU32Le_append _ (by omega), Outcome.ok_bind, hdisk, readU32Le_append _ (by omega),
    Outcome.ok_bind, hstart, Outcome.guardThat_of ⟨rfl, rfl⟩, Outcome.ok_bind,
    readU64Le_append _ (by omega), Outcome.ok_bind, hthis, readU64Le_append _ (by omega),
    Outcome.ok_bind, hall, readU64Le_append _ (by omega), Outcome.ok_bind, hcdSize,
    readU64Le_append _ (by omega), Outcome.ok_bind, hcdOffset]
  dsimp only
  rw [hsum, Outcome.ok_bind, hempty]
  rfl

theorem parseZip64Locator_documented (hend : cdOffset + cdSize < 2 ^ 64) :
    parseZip64Locator (before ++ documentedTail cdOffset cdSize entries comment)
      (before.length + 56) = .ok ⟨0, cdOffset + cdSize, 1⟩ := by
  have hlength := @length_documentedTail comment cdOffset cdSize entries
  have hsig : u32At (documentedTail cdOffset cdSize entries comment) 56 = zip64LocSig := by
    rw [documentedTail_eq]
    simp only [u32At_skip_u32le, u32At_skip_u64le, u32At_skip_u16le]
    exact u32At_u32le (by decide) _
  have hdisk : u32At (documentedTail cdOffset cdSize entries comment) 60 = 0 := by
    rw [documentedTail_eq]
    simp only [u32At_skip_u32le, u32At_skip_u64le, u32At_skip_u16le]
    exact u32At_u32le (by decide) _
  have hoffset : u64At (documentedTail cdOffset cdSize entries comment) 64 =
      cdOffset + cdSize := by
    rw [documentedTail_eq]
    simp only [u64At_skip_u32le, u64At_skip_u64le, u64At_skip_u16le]
    exact u64At_u64le _ hend
  have hdisks : u32At (documentedTail cdOffset cdSize entries comment) 72 = 1 := by
    rw [documentedTail_eq]
    simp only [u32At_skip_u32le, u32At_skip_u64le, u32At_skip_u16le]
    exact u32At_u32le (by decide) _
  rw [parseZip64Locator, readU32Le_append _ (by omega), Outcome.ok_bind, hsig,
    Outcome.guardThat_of rfl, Outcome.ok_bind, Nat.add_assoc, readU32Le_append _ (by omega),
    Outcome.ok_bind, hdisk, Nat.add_assoc, readU64Le_append _ (by omega), Outcome.ok_bind, hoffset,
    Nat.add_assoc, readU32Le_append _ (by omega), Outcome.ok_bind, hdisks,
    Outcome.guardThat_of ⟨rfl, rfl⟩]
  rfl

/-- The end record of the tail. -/
theorem classicAt_documented (hcomment : comment.length < 2 ^ 16) :
    IsEocd (before ++ documentedTail cdOffset cdSize entries comment) (before.length + 76) ∧
      classicAt (before ++ documentedTail cdOffset cdSize entries comment) (before.length + 76) =
        ⟨u16Max, u16Max, u16Max, u16Max, u32Max, u32Max, comment⟩ := by
  obtain ⟨ahead, hahead⟩ : ∃ ahead, ahead = before ++ (zip64EocdRecord entries cdSize cdOffset ++
      zip64LocatorRecord (cdOffset + cdSize)) := ⟨_, rfl⟩
  have hlength : ahead.length = before.length + 76 := by
    rw [hahead, List.length_append]
    rfl
  have hfile : before ++ documentedTail cdOffset cdSize entries comment =
      ahead ++ sentinelEocd comment := by
    rw [hahead, documentedTail, List.append_assoc, List.append_assoc, List.append_assoc]
  have hsig : u32At (sentinelEocd comment) 0 = eocdSig := by
    rw [sentinelEocd_eq]
    exact u32At_u32le (by decide) _
  have hfields : u16At (sentinelEocd comment) 4 = u16Max ∧ u16At (sentinelEocd comment) 6 = u16Max ∧
      u16At (sentinelEocd comment) 8 = u16Max ∧ u16At (sentinelEocd comment) 10 = u16Max ∧
      u32At (sentinelEocd comment) 12 = u32Max ∧ u32At (sentinelEocd comment) 16 = u32Max := by
    rw [sentinelEocd_eq]
    simp only [u16At_skip_u32le, u16At_skip_u16le, u32At_skip_u32le, u32At_skip_u16le]
    exact ⟨u16At_u16le (by decide) _, u16At_u16le (by decide) _, u16At_u16le (by decide) _,
      u16At_u16le (by decide) _, u32At_u32le (by decide) _, u32At_u32le (by decide) _⟩
  have hnumber : u16At (sentinelEocd comment) 20 = comment.length := by
    rw [sentinelEocd_eq]
    simp only [u16At_skip_u32le, u16At_skip_u16le]
    exact u16At_u16le hcomment _
  have hdrop : (sentinelEocd comment).drop 22 = comment := rfl
  have htotal : (sentinelEocd comment).length = 22 + comment.length := by
    simp [sentinelEocd, u16le]
    omega
  have hsig0 := u32At_append_right ahead (sentinelEocd comment) 0
  rw [Nat.add_zero, hsig] at hsig0
  rw [hfile, ← hlength]
  constructor
  · rw [isEocd_iff, u16At_append_right, hnumber, List.length_append, htotal]
    exact ⟨⟨by omega, hsig0⟩, by omega⟩
  · rw [classicAt, u16At_append_right, u16At_append_right, u16At_append_right, u16At_append_right,
      u32At_append_right, u32At_append_right, List.drop_length_add_append, hdrop, hfields.1,
      hfields.2.1, hfields.2.2.1, hfields.2.2.2.1, hfields.2.2.2.2.1, hfields.2.2.2.2.2]

theorem findZip64EocdFrom_of_sig {buf : List UInt8} {nominal count pos : Nat} {z64 : Zip64Eocd}
    (hsig : readU32Le buf pos = .ok zip64EocdSig) (hread : readZip64Eocd buf pos = .ok z64) :
    findZip64EocdFrom buf nominal (count + 1) pos = .ok (pos, z64, pos - nominal) := by
  rw [findZip64EocdFrom, hsig, Outcome.ok_bind, if_pos rfl, hread]
  rfl

theorem zip64Records_documented (hbefore : before.length = cdOffset + cdSize)
    (hentries : entries < 2 ^ 64) (hfile : before.length + 56 < 2 ^ 64) :
    zip64Records (before ++ documentedTail cdOffset cdSize entries comment) (before.length + 76)
        ⟨u16Max, u16Max, u16Max, u16Max, u32Max, u32Max, comment⟩ =
      .ok (some (⟨0, cdOffset + cdSize, 1⟩, cdOffset + cdSize, ⟨zip64EocdRecordSize, zip64Version,
        zip64Version, 0, 0, entries, entries, cdSize, cdOffset, []⟩)) := by
  have hlength := @length_documentedTail comment cdOffset cdSize entries
  have hloc : u32At (documentedTail cdOffset cdSize entries comment) 56 = zip64LocSig := by
    rw [documentedTail_eq]
    simp only [u32At_skip_u32le, u32At_skip_u64le, u32At_skip_u16le]
    exact u32At_u32le (by decide) _
  have hsig : readU32Le (before ++ documentedTail cdOffset cdSize entries comment)
      before.length = .ok zip64EocdSig := by
    have hread := @readU32Le_append before (documentedTail cdOffset cdSize entries comment) 0
      (by omega)
    rw [Nat.add_zero] at hread
    rw [hread, documentedTail_eq, u32At_u32le (by decide)]
  have hoff : (before ++ documentedTail cdOffset cdSize entries comment).length -
      (20 + 22 + comment.length) = before.length + 56 := by
    rw [List.length_append, hlength]
    omega
  have hfind : findZip64Eocd (before ++ documentedTail cdOffset cdSize entries comment)
      (cdOffset + cdSize) (before.length + 76 - 60) = .ok (before.length, ⟨zip64EocdRecordSize,
        zip64Version, zip64Version, 0, 0, entries, entries, cdSize, cdOffset, []⟩,
          before.length - (cdOffset + cdSize)) := by
    rw [findZip64Eocd, ← hbefore,
      show before.length + 76 - 60 + 1 - before.length = 16 + 1 by omega]
    exact findZip64EocdFrom_of_sig hsig (readZip64Eocd_documented (by omega) (by omega) hentries
      hfile)
  rw [zip64Records]
  dsimp only
  rw [if_neg (by rw [List.length_append]; omega), hoff, readU32Le_append _ (by omega),
    Outcome.ok_bind, hloc, if_neg (fun h => h rfl), parseZip64Locator_documented (by omega),
    Outcome.ok_bind, hfind, Outcome.ok_bind]
  dsimp only
  rw [Outcome.guardThat_of rfl, hbefore]
  rfl

/-- An archive with the documented tail is accepted, if its comment holds no other end
record. -/
theorem parseZipTail_documented (hbefore : before.length = cdOffset + cdSize)
    (hentries : entries < 2 ^ 64) (hfile : before.length + 56 < 2 ^ 64)
    (hcomment : comment.length < 2 ^ 16)
    (hlater : ∀ later, before.length + 76 < later →
      ¬ IsEocd (before ++ documentedTail cdOffset cdSize entries comment) later) :
    parseZipTail (before ++ documentedTail cdOffset cdSize entries comment) =
      .ok (documentedZipTail cdOffset cdSize entries comment) := by
  obtain ⟨heocd, hclassic⟩ := @classicAt_documented before comment cdOffset cdSize entries hcomment
  refine parseZipTail_eq_ok.mpr ⟨before.length + 76, _, _, ⟨?_, .inl ⟨rfl, rfl⟩,
    zip64Records_documented hbefore hentries hfile, ?_, ?_, ?_⟩, ?_⟩
  · exact findClassicEocd_eq_ok.mpr ⟨⟨heocd, hlater⟩, hclassic.symm⟩
  · exact fun h => absurd h (by simp)
  · show cdOffset + cdSize < 2 ^ 64
    omega
  · rfl
  · rw [hbefore]
    rfl

end Documented

/-! ### No other end record -/

/-- The bytes of a number. -/
theorem byteAt_of_u32At {buf : List UInt8} {offset n : Nat} (h : u32At buf offset = n) :
    byteAt buf offset = n % 256 ∧ byteAt buf (offset + 1) = n / 256 % 256 ∧
      byteAt buf (offset + 2) = n / 65536 % 256 ∧ byteAt buf (offset + 3) = n / 16777216 % 256 := by
  have h0 := byteAt_lt buf offset
  have h1 := byteAt_lt buf (offset + 1)
  have h2 := byteAt_lt buf (offset + 2)
  have h3 := byteAt_lt buf (offset + 3)
  simp only [u32At, u16At, Nat.add_assoc, Nat.reduceAdd] at h
  omega

/-- The fields of the end record in the tail are filled with ones. -/
theorem byteAt_sentinelEocd {comment : List UInt8} {k : Nat} (hlo : 4 ≤ k) (hhi : k < 20) :
    byteAt (sentinelEocd comment) k = 255 := by
  have hfields : ∀ k < 20, 4 ≤ k → byteAt (u32le eocdSig ++ u16le u16Max ++ u16le u16Max ++
      u16le u16Max ++ u16le u16Max ++ u32le u32Max ++ u32le u32Max) k = 255 := by decide
  rw [← hfields k hhi hlo, sentinelEocd, List.append_assoc]
  exact (byteAt_congr ((sameOn_append _ _ 0).mono (Nat.zero_le _)
    (show k + 1 ≤ 20 by omega))).symm

/-- The comment is copied behind its length, so an end record in it was there before. -/
theorem not_isEocd_documented {zip before : List UInt8} {cdOffset cdSize entries p : Nat}
    (heocd : IsEocd zip p) (hlast : ∀ later, p < later → ¬ IsEocd zip later)
    (hbefore : before.length = p) :
    ∀ later, before.length + 76 < later →
      ¬ IsEocd (before ++ documentedTail cdOffset cdSize entries (zip.drop (p + 22))) later := by
  intro later hlater h
  obtain ⟨comment, hcomment⟩ : ∃ comment, comment = zip.drop (p + 22) := ⟨_, rfl⟩
  have hroom := (isEocd_iff.mp heocd).2
  have hnumber : u16At zip (p + 20) = comment.length := by
    rw [hcomment, List.length_drop]
    omega
  obtain ⟨ahead, hahead⟩ : ∃ ahead, ahead = before ++ (zip64EocdRecord entries cdSize cdOffset ++
      zip64LocatorRecord (cdOffset + cdSize)) := ⟨_, rfl⟩
  have hlength : ahead.length = p + 76 := by
    rw [hahead, List.length_append, hbefore]
    rfl
  have hfile : before ++ documentedTail cdOffset cdSize entries comment =
      ahead ++ sentinelEocd comment := by
    rw [hahead, documentedTail, List.append_assoc, List.append_assoc, List.append_assoc]
  have htotal : (sentinelEocd comment).length = 22 + comment.length := by
    simp [sentinelEocd, u16le]
    omega
  rw [← hcomment, hfile] at h
  obtain ⟨⟨-, hsig⟩, hend⟩ := isEocd_iff.mp h
  obtain ⟨hb0, -, -, hb3⟩ := byteAt_of_u32At hsig
  by_cases hfields : later < p + 96
  · by_cases hfirst : later < p + 80
    · have hff := byteAt_append_right ahead (sentinelEocd comment) (later + 3 - (p + 76))
      rw [byteAt_sentinelEocd (by omega) (by omega), hlength,
        show p + 76 + (later + 3 - (p + 76)) = later + 3 by omega, hb3] at hff
      exact absurd hff (by decide)
    · have hff := byteAt_append_right ahead (sentinelEocd comment) (later - (p + 76))
      rw [byteAt_sentinelEocd (by omega) (by omega), hlength,
        show p + 76 + (later - (p + 76)) = later by omega, hb0] at hff
      exact absurd hff (by decide)
  · -- from the length of the comment on the two files are the same
    have hsame : (ahead ++ sentinelEocd comment).drop (p + 96) = zip.drop (p + 20) := by
      rw [show p + 96 = ahead.length + 20 by omega, List.drop_length_add_append]
      have hleft : (sentinelEocd comment).drop 20 = u16le comment.length ++ comment := rfl
      have hrest : zip.drop (p + 22) = (zip.drop (p + 20)).drop 2 := by rw [List.drop_drop]
      rw [hleft, ← hnumber, u16le_u16At (by omega), hcomment, hrest, List.take_append_drop]
    have hat : ∀ k, u32At (ahead ++ sentinelEocd comment) (p + 96 + k) = u32At zip (p + 20 + k) ∧
        u16At (ahead ++ sentinelEocd comment) (p + 96 + k) = u16At zip (p + 20 + k) := by
      intro k
      rw [← u32At_drop, ← u16At_drop, hsame, u32At_drop, u16At_drop]
      exact ⟨rfl, rfl⟩
    have hzip : zip.length = p + 22 + comment.length := by omega
    rw [List.length_append, hlength, htotal, show later + 20 = p + 96 + (later + 20 - (p + 96)) by omega,
      (hat _).2] at hend
    rw [show later = p + 96 + (later - (p + 96)) by omega, (hat _).1] at hsig
    refine hlast (later - 76) (by omega) (isEocd_iff.mpr ⟨⟨by omega, ?_⟩, ?_⟩)
    · rw [← hsig]
      congr 1
      omega
    · rw [show later - 76 + 20 = p + 20 + (later + 20 - (p + 96)) by omega]
      omega

end Psign.Sip.Appx
