import Psign.Sip.AppxNormalize

/-!
# Normalized packages

An archive without ZIP64 records gets the documented tail, which is read back
(`normalizedFrom_of_classic`).  An archive with ZIP64 records keeps its tail: rewriting the
directory makes no new signature in front of it, so the records that are found are the same
(`SameTail`), and the result has the documented tail only if the archive had it
(`normalizedFrom_of_zip64_iff`).

`normalized_iff` puts the two together, and `zip64_record_kept` is an archive whose ZIP64
record is not the documented one.
-/

namespace Psign.Sip.Appx

open CodeLib CodeLib.Bytes

/-! ## A tail that is kept -/

/-- The file is the same from `cut` on, and what is new in front of it is a byte of the
version or of the attributes. -/
structure SameTail (zip out : List UInt8) (cut : Nat) : Prop where
  length : out.length = zip.length
  drop : out.drop cut = zip.drop cut
  fresh : ∀ i, byteAt out i = byteAt zip i ∨ byteAt out i = 45 ∨ byteAt out i = 0

namespace SameTail

variable {zip out : List UInt8} {cut off : Nat}

theorem u16At_eq (h : SameTail zip out cut) (hoff : cut ≤ off) : u16At out off = u16At zip off := by
  rw [show off = cut + (off - cut) by omega, ← u16At_drop, h.drop, u16At_drop]

theorem u32At_eq (h : SameTail zip out cut) (hoff : cut ≤ off) : u32At out off = u32At zip off := by
  rw [show off = cut + (off - cut) by omega, ← u32At_drop, h.drop, u32At_drop]

theorem u64At_eq (h : SameTail zip out cut) (hoff : cut ≤ off) : u64At out off = u64At zip off := by
  rw [u64At, u64At, h.u32At_eq hoff, h.u32At_eq (by omega)]

theorem readU16Le (h : SameTail zip out cut) {n : Nat} (hoff : cut ≤ off)
    (hread : readU16Le zip off = .ok n) : readU16Le out off = .ok n := by
  rw [readU16Le_eq_ok, h.length, h.u16At_eq hoff]
  exact readU16Le_eq_ok.mp hread

theorem readU32Le (h : SameTail zip out cut) {n : Nat} (hoff : cut ≤ off)
    (hread : readU32Le zip off = .ok n) : readU32Le out off = .ok n := by
  rw [readU32Le_eq_ok, h.length, h.u32At_eq hoff]
  exact readU32Le_eq_ok.mp hread

theorem readU64Le (h : SameTail zip out cut) {n : Nat} (hoff : cut ≤ off)
    (hread : readU64Le zip off = .ok n) : readU64Le out off = .ok n := by
  rw [readU64Le_eq_ok, h.length, h.u64At_eq hoff]
  exact readU64Le_eq_ok.mp hread

theorem slice (h : SameTail zip out cut) {stop : Nat} {bytes : List UInt8} (hoff : cut ≤ off)
    (hslice : slice zip off stop = some bytes) : slice out off stop = some bytes := by
  rw [slice_eq_some] at hslice ⊢
  rw [h.length, List.drop_take, show off = cut + (off - cut) by omega, ← List.drop_drop, h.drop,
    List.drop_drop, ← show off = cut + (off - cut) by omega, ← List.drop_take]
  exact hslice

/-- No signature is made in front of the cut: its bytes would not be new. -/
theorem u32At_of_sig (h : SameTail zip out cut) {n : Nat}
    (hbytes : n % 256 ≠ 45 ∧ n % 256 ≠ 0 ∧ n / 256 % 256 ≠ 45 ∧ n / 256 % 256 ≠ 0 ∧
      n / 65536 % 256 ≠ 45 ∧ n / 65536 % 256 ≠ 0 ∧ n / 16777216 % 256 ≠ 45 ∧
      n / 16777216 % 256 ≠ 0) (hsig : u32At out off = n) : u32At zip off = n := by
  obtain ⟨h0, h1, h2, h3⟩ := byteAt_of_u32At hsig
  have hold : ∀ i, byteAt out i ≠ 45 → byteAt out i ≠ 0 → byteAt zip i = byteAt out i := by
    intro i h45 hzero
    rcases h.fresh i with hsame | hversion | hattrs
    · exact hsame.symm
    · exact absurd hversion h45
    · exact absurd hattrs hzero
  rw [← hsig]
  simp only [u32At, u16At, Nat.add_assoc, Nat.reduceAdd]
  rw [hold off (by omega) (by omega), hold (off + 1) (by omega) (by omega),
    hold (off + 2) (by omega) (by omega), hold (off + 3) (by omega) (by omega)]

theorem readZip64Eocd (h : SameTail zip out cut) {z64 : Zip64Eocd} (hoff : cut ≤ off)
    (hread : readZip64Eocd zip off = .ok z64) : readZip64Eocd out off = .ok z64 := by
  obtain ⟨recordSize, hrecord, hread⟩ := Outcome.bind_eq_ok.mp hread
  obtain ⟨hsmall, hread⟩ := Outcome.guardThat_bind_eq_ok.mp hread
  obtain ⟨made, hmade, hread⟩ := Outcome.bind_eq_ok.mp hread
  obtain ⟨needed, hneeded, hread⟩ := Outcome.bind_eq_ok.mp hread
  obtain ⟨disk, hdisk, hread⟩ := Outcome.bind_eq_ok.mp hread
  obtain ⟨start, hstart, hread⟩ := Outcome.bind_eq_ok.mp hread
  obtain ⟨hdisks, hread⟩ := Outcome.guardThat_bind_eq_ok.mp hread
  obtain ⟨this, hthis, hread⟩ := Outcome.bind_eq_ok.mp hread
  obtain ⟨all, hall, hread⟩ := Outcome.bind_eq_ok.mp hread
  obtain ⟨size, hsize, hread⟩ := Outcome.bind_eq_ok.mp hread
  obtain ⟨offset, hoffset, hread⟩ := Outcome.bind_eq_ok.mp hread
  obtain ⟨tailEnd, hend, hread⟩ := Outcome.bind_eq_ok.mp hread
  obtain ⟨tail, htail, hread⟩ := Outcome.bind_eq_ok.mp hread
  rw [Appx.readZip64Eocd, h.readU64Le (by omega) hrecord, Outcome.ok_bind,
    Outcome.guardThat_of hsmall, Outcome.ok_bind, h.readU16Le (by omega) hmade, Outcome.ok_bind,
    h.readU16Le (by omega) hneeded, Outcome.ok_bind, h.readU32Le (by omega) hdisk, Outcome.ok_bind,
    h.readU32Le (by omega) hstart, Outcome.ok_bind, Outcome.guardThat_of hdisks, Outcome.ok_bind,
    h.readU64Le (by omega) hthis, Outcome.ok_bind, h.readU64Le (by omega) hall, Outcome.ok_bind,
    h.readU64Le (by omega) hsize, Outcome.ok_bind, h.readU64Le (by omega) hoffset, Outcome.ok_bind]
  dsimp only
  rw [hend, Outcome.ok_bind, h.slice (by omega) (Outcome.ofOption_eq_ok.mp htail)]
  exact hread

theorem parseZip64Locator (h : SameTail zip out cut) {loc : Zip64Locator} (hoff : cut ≤ off)
    (hread : parseZip64Locator zip off = .ok loc) : parseZip64Locator out off = .ok loc := by
  obtain ⟨sig, hsig, hread⟩ := Outcome.bind_eq_ok.mp hread
  obtain ⟨hloc, hread⟩ := Outcome.guardThat_bind_eq_ok.mp hread
  obtain ⟨disk, hdisk, hread⟩ := Outcome.bind_eq_ok.mp hread
  obtain ⟨offset, hoffset, hread⟩ := Outcome.bind_eq_ok.mp hread
  obtain ⟨disks, hdisks, hread⟩ := Outcome.bind_eq_ok.mp hread
  rw [Appx.parseZip64Locator, h.readU32Le hoff hsig, Outcome.ok_bind, Outcome.guardThat_of hloc,
    Outcome.ok_bind, h.readU32Le (by omega) hdisk, Outcome.ok_bind, h.readU64Le (by omega) hoffset,
    Outcome.ok_bind, h.readU32Le (by omega) hdisks, Outcome.ok_bind]
  exact hread

/-- The search stops where it stopped. -/
theorem findZip64EocdFrom (h : SameTail zip out cut) {nominal count pos zpos d : Nat}
    {z64 : Zip64Eocd} (hcut : cut ≤ zpos)
    (hfind : findZip64EocdFrom zip nominal count pos = .ok (zpos, z64, d)) :
    findZip64EocdFrom out nominal count pos = .ok (zpos, z64, d) := by
  induction count generalizing pos with
  | zero => exact absurd hfind Outcome.bail_ne_ok
  | succ count ih =>
    obtain ⟨sig, hsig, hfind⟩ := Outcome.bind_eq_ok.mp hfind
    by_cases hat : sig = zip64EocdSig
    · rw [if_pos hat] at hfind
      obtain ⟨found, hread, hfind⟩ := Outcome.bind_eq_ok.mp hfind
      obtain ⟨rfl, rfl, rfl⟩ : pos = zpos ∧ found = z64 ∧ pos - nominal = d := by
        simpa using hfind
      rw [Appx.findZip64EocdFrom, h.readU32Le hcut hsig, Outcome.ok_bind, if_pos hat,
        h.readZip64Eocd hcut hread]
      rfl
    · rw [if_neg hat] at hfind
      obtain ⟨hlen, hvalue⟩ := readU32Le_eq_ok.mp hsig
      have hout : Appx.readU32Le out pos = .ok (u32At out pos) :=
        readU32Le_eq_ok.mpr ⟨h.length ▸ hlen, rfl⟩
      have hne : u32At out pos ≠ zip64EocdSig := by
        intro heq
        exact hat (hvalue.symm.trans (h.u32At_of_sig (by decide) heq))
      rw [Appx.findZip64EocdFrom, hout, Outcome.ok_bind, if_neg hne]
      exact ih hfind

theorem zip64Records (h : SameTail zip out cut) {cdePos : Nat} {classic : ClassicEocd}
    {loc : Zip64Locator} {zpos : Nat} {z64 : Zip64Eocd} (hcut : cut ≤ zpos)
    (hcde : cdePos + 22 + classic.zipFileComment.length = zip.length) (hzpos : zpos ≤ cdePos - 60)
    (hrecords : zip64Records zip cdePos classic = .ok (some (loc, zpos, z64))) :
    zip64Records out cdePos classic = .ok (some (loc, zpos, z64)) := by
  rw [Appx.zip64Records] at hrecords ⊢
  dsimp only at hrecords ⊢
  rw [h.length]
  by_cases hshort : zip.length < 20 + 22 + classic.zipFileComment.length
  · rw [if_pos hshort] at hrecords
    cases hrecords
  · rw [if_neg hshort] at hrecords ⊢
    obtain ⟨sig, hsig, hrecords⟩ := Outcome.bind_eq_ok.mp hrecords
    rw [h.readU32Le (by omega) hsig, Outcome.ok_bind]
    by_cases hloc : sig = zip64LocSig
    · rw [if_neg (not_not_intro hloc)] at hrecords ⊢
      obtain ⟨found, hlocator, hrecords⟩ := Outcome.bind_eq_ok.mp hrecords
      obtain ⟨⟨pos, record, d⟩, hfind, hrecords⟩ := Outcome.bind_eq_ok.mp hrecords
      obtain ⟨hcount, hrecords⟩ := Outcome.guardThat_bind_eq_ok.mp hrecords
      obtain ⟨rfl, rfl, rfl⟩ : found = loc ∧ pos = zpos ∧ record = z64 := by
        simpa using hrecords
      rw [findZip64Eocd] at hfind
      rw [h.parseZip64Locator (by omega) hlocator, Outcome.ok_bind, findZip64Eocd,
        h.findZip64EocdFrom hcut hfind, Outcome.ok_bind]
      dsimp only
      rw [Outcome.guardThat_of hcount]
      rfl
    · rw [if_pos hloc] at hrecords
      cases hrecords

end SameTail

theorem findZip64EocdFrom_bound {buf : List UInt8} {nominal count pos zpos d : Nat}
    {z64 : Zip64Eocd} (h : findZip64EocdFrom buf nominal count pos = .ok (zpos, z64, d)) :
    pos ≤ zpos ∧ zpos < pos + count := by
  induction count generalizing pos with
  | zero => exact absurd h Outcome.bail_ne_ok
  | succ count ih =>
    obtain ⟨sig, -, h⟩ := Outcome.bind_eq_ok.mp h
    by_cases hat : sig = zip64EocdSig
    · rw [if_pos hat] at h
      obtain ⟨found, -, h⟩ := Outcome.bind_eq_ok.mp h
      obtain ⟨rfl, -, -⟩ : pos = zpos ∧ found = z64 ∧ pos - nominal = d := by simpa using h
      omega
    · rw [if_neg hat] at h
      have hrest := ih h
      omega

/-- A locator in front of the end record leads to a ZIP64 record before it. -/
theorem zip64Records_some {buf : List UInt8} {cdePos zpos : Nat} {classic : ClassicEocd}
    {loc : Zip64Locator} {z64 : Zip64Eocd}
    (h : zip64Records buf cdePos classic = .ok (some (loc, zpos, z64))) :
    u32At buf (buf.length - (20 + 22 + classic.zipFileComment.length)) = zip64LocSig ∧
      20 + 22 + classic.zipFileComment.length ≤ buf.length ∧ zpos ≤ cdePos - 60 := by
  rw [zip64Records] at h
  dsimp only at h
  by_cases hshort : buf.length < 20 + 22 + classic.zipFileComment.length
  · rw [if_pos hshort] at h
    cases h
  · rw [if_neg hshort] at h
    obtain ⟨sig, hsig, h⟩ := Outcome.bind_eq_ok.mp h
    by_cases hloc : sig = zip64LocSig
    · rw [if_neg (not_not_intro hloc)] at h
      obtain ⟨found, -, h⟩ := Outcome.bind_eq_ok.mp h
      obtain ⟨⟨pos, record, d⟩, hfind, h⟩ := Outcome.bind_eq_ok.mp h
      obtain ⟨-, h⟩ := Outcome.guardThat_bind_eq_ok.mp h
      obtain ⟨-, rfl, -⟩ : found = loc ∧ pos = zpos ∧ record = z64 := by simpa using h
      have hbound := findZip64EocdFrom_bound hfind
      exact ⟨(readU32Le_eq_ok.mp hsig).2.trans hloc, by omega, by omega⟩
    · rw [if_pos hloc] at h
      cases h

theorem zip64Records_none {buf : List UInt8} {cdePos : Nat} {classic : ClassicEocd}
    (h : zip64Records buf cdePos classic = .ok none) :
    ¬ (20 + 22 + classic.zipFileComment.length ≤ buf.length ∧
      u32At buf (buf.length - (20 + 22 + classic.zipFileComment.length)) = zip64LocSig) := by
  intro hloc
  rw [zip64Records] at h
  dsimp only at h
  rw [if_neg (by omega)] at h
  obtain ⟨sig, hsig, h⟩ := Outcome.bind_eq_ok.mp h
  rw [if_neg (not_not_intro ((readU32Le_eq_ok.mp hsig).2.symm.trans hloc.2))] at h
  obtain ⟨found, -, h⟩ := Outcome.bind_eq_ok.mp h
  obtain ⟨⟨pos, record, d⟩, -, h⟩ := Outcome.bind_eq_ok.mp h
  obtain ⟨-, h⟩ := Outcome.guardThat_bind_eq_ok.mp h
  cases h

/-- A rewritten record has no new bytes but the version and zeros. -/
theorem byteAt_normalizeRecord {record : List UInt8} (h : 46 ≤ record.length) (i : Nat) :
    byteAt (normalizeRecord record) i = byteAt record i ∨
      byteAt (normalizeRecord record) i = 45 ∨ byteAt (normalizeRecord record) i = 0 := by
  by_cases hkept : (i + 1 ≤ 4 ∨ 6 ≤ i) ∧ (i + 1 ≤ 38 ∨ 42 ≤ i)
  · exact .inl (byteAt_congr (sameOn_normalizeRecord h hkept.1 hkept.2)).symm
  · refine .inr ?_
    obtain ⟨hversion, hattrs⟩ := normalizeRecord_fields h
    have h0 := byteAt_lt (normalizeRecord record) 4
    have h1 := byteAt_lt (normalizeRecord record) (4 + 1)
    rw [u16At, zip64Version] at hversion
    obtain ⟨ha, hb, hc, hd⟩ := byteAt_of_u32At hattrs
    have hi : i = 4 ∨ i = 4 + 1 ∨ i = 38 ∨ i = 38 + 1 ∨ i = 38 + 2 ∨ i = 38 + 3 := by omega
    rcases hi with rfl | rfl | rfl | rfl | rfl | rfl
    all_goals omega

theorem map_normalizeRecord_twice {records : List (List UInt8)}
    (h : ∀ record ∈ records, IsRecord record) :
    (records.map normalizeRecord).map normalizeRecord = records.map normalizeRecord := by
  rw [List.map_map]
  exact List.map_congr_left fun record hrecord =>
    normalizeRecord_normalizeRecord (h record hrecord).fixed

theorem isRecord_of_mem_map {records : List (List UInt8)}
    (h : ∀ record ∈ records, IsRecord record) :
    ∀ record ∈ records.map normalizeRecord, IsRecord record := by
  intro record hrecord
  obtain ⟨old, hold, rfl⟩ := List.mem_map.mp hrecord
  exact (h old hold).normalize

theorem length_flatten_normalize {records : List (List UInt8)}
    (h : ∀ record ∈ records, IsRecord record) :
    (records.map normalizeRecord).flatten.length = records.flatten.length := by
  induction records with
  | nil => rfl
  | cons record records ih =>
    rw [List.map_cons, List.flatten_cons, List.flatten_cons, List.length_append, List.length_append,
      length_normalizeRecord (h record List.mem_cons_self).fixed,
      ih fun other hother => h other (List.mem_cons_of_mem _ hother)]

theorem byteAt_flatten_normalize {records : List (List UInt8)}
    (h : ∀ record ∈ records, IsRecord record) (rest : List UInt8) (i : Nat) :
    byteAt ((records.map normalizeRecord).flatten ++ rest) i = byteAt (records.flatten ++ rest) i ∨
      byteAt ((records.map normalizeRecord).flatten ++ rest) i = 45 ∨
        byteAt ((records.map normalizeRecord).flatten ++ rest) i = 0 := by
  induction records generalizing i with
  | nil => exact .inl rfl
  | cons record records ih =>
    have hrecord := h record List.mem_cons_self
    have hlength := length_normalizeRecord hrecord.fixed
    have hleft : ∀ head more : List UInt8, i < head.length → byteAt (head ++ more) i = byteAt head i :=
      fun head more hi => (byteAt_congr ((sameOn_append head more 0).mono (Nat.zero_le _) hi)).symm
    rw [List.map_cons, List.flatten_cons, List.flatten_cons, List.append_assoc, List.append_assoc]
    by_cases hi : i < record.length
    · rw [hleft _ _ (hlength ▸ hi), hleft _ _ hi]
      exact byteAt_normalizeRecord hrecord.fixed i
    · have hnew := byteAt_append_right (normalizeRecord record)
        ((records.map normalizeRecord).flatten ++ rest) (i - record.length)
      have hold := byteAt_append_right record (records.flatten ++ rest) (i - record.length)
      rw [hlength, show record.length + (i - record.length) = i by omega] at hnew
      rw [show record.length + (i - record.length) = i by omega] at hold
      rw [hnew, hold]
      exact ih (fun other hother => h other (List.mem_cons_of_mem _ hother)) _

theorem sameTail_normalize {records : List (List UInt8)} (h : ∀ record ∈ records, IsRecord record)
    (before after : List UInt8) :
    SameTail (before ++ records.flatten ++ after)
      (before ++ (records.map normalizeRecord).flatten ++ after)
      (before.length + records.flatten.length) where
  length := by
    simp only [List.length_append, length_flatten_normalize h]
  drop := by
    have hnew : before.length + records.flatten.length =
        (before ++ (records.map normalizeRecord).flatten).length := by
      rw [List.length_append, length_flatten_normalize h]
    have hold : before.length + records.flatten.length = (before ++ records.flatten).length := by
      rw [List.length_append]
    rw [hnew, List.drop_left, ← hnew, hold, List.drop_left]
  fresh := by
    intro i
    rw [List.append_assoc, List.append_assoc]
    by_cases hi : i < before.length
    · have hleft : ∀ more : List UInt8, byteAt (before ++ more) i = byteAt before i :=
        fun more => (byteAt_congr ((sameOn_append before more 0).mono (Nat.zero_le _) hi)).symm
      exact .inl ((hleft _).trans (hleft _).symm)
    · have hright : ∀ more : List UInt8,
          byteAt (before ++ more) i = byteAt more (i - before.length) := by
        intro more
        rw [← byteAt_append_right before more, show before.length + (i - before.length) = i by omega]
      rw [hright, hright]
      exact byteAt_flatten_normalize h after _

/-- A tail with ZIP64 records behind the directory is read again. -/
theorem SameTail.parseZipTail {zip out : List UInt8} {cut : Nat} (h : SameTail zip out cut)
    {cdePos zpos : Nat} {classic : ClassicEocd} {loc : Zip64Locator} {z64 : Zip64Eocd}
    (hcut : cut ≤ zpos) (hparts : TailParts zip cdePos classic (some (loc, zpos, z64))) :
    TailParts out cdePos classic (some (loc, zpos, z64)) where
  eocd := by
    obtain ⟨⟨heocd, hlast⟩, hclassic⟩ := findClassicEocd_eq_ok.mp hparts.eocd
    have hzpos := (zip64Records_some hparts.zip64).2.2
    have hiff : ∀ p, cut ≤ p → (IsEocd out p ↔ IsEocd zip p) := by
      intro p hp
      rw [isEocd_iff, isEocd_iff, h.length, h.u32At_eq hp, h.u16At_eq (by omega)]
    refine findClassicEocd_eq_ok.mpr ⟨⟨(hiff cdePos (by omega)).mpr heocd, ?_⟩, ?_⟩
    · intro later hlater hother
      exact hlast later hlater ((hiff later (by omega)).mp hother)
    · have hdrop : out.drop (cdePos + 22) = zip.drop (cdePos + 22) := by
        rw [show cdePos + 22 = cut + (cdePos + 22 - cut) by omega, ← List.drop_drop, h.drop,
          List.drop_drop]
      rw [hclassic, classicAt, classicAt, h.u16At_eq (by omega), h.u16At_eq (by omega),
        h.u16At_eq (by omega), h.u16At_eq (by omega), h.u32At_eq (by omega), h.u32At_eq (by omega),
        hdrop]
  disks := hparts.disks
  zip64 := by
    obtain ⟨⟨heocd, -⟩, hclassic⟩ := findClassicEocd_eq_ok.mp hparts.eocd
    have hend := (isEocd_iff.mp heocd).2
    have hcomment : classic.zipFileComment.length = zip.length - (cdePos + 22) := by
      rw [hclassic]
      exact List.length_drop
    exact h.zip64Records hcut (by omega) (zip64Records_some hparts.zip64).2.2 hparts.zip64
  classicOnly := fun hnone => absurd hnone (by simp)
  bound := hparts.bound
  extent := hparts.extent

/-! ## The normalized archive -/

/-- What is said of a normalized archive: the bytes in front of the directory are kept, its
records are rewritten, it ends in the documented tail with the comment that it had, and it
is accepted and normalized already. -/
def NormalizedFrom (zip out : List UInt8) (tail : ZipTail) : Prop :=
  ∃ (before : List UInt8) (records : List (List UInt8)),
    before.length = tail.centralDirectoryOffset ∧
    records.flatten.length = tail.centralDirectorySize ∧
    (∀ record ∈ records, IsRecord record) ∧
    (∃ after, zip = before ++ records.flatten ++ after) ∧
    out = before ++ (records.map normalizeRecord).flatten ++
      documentedTail tail.centralDirectoryOffset tail.centralDirectorySize records.length
        tail.classic.zipFileComment ∧
    (∃ tail', parseZipTail out = .ok tail') ∧ normalizeZipForAppxSigning out = .ok out

/-- There is a ZIP64 locator in front of the end record. -/
def HasLocator (zip : List UInt8) (eocdOffset : Nat) : Prop :=
  20 ≤ eocdOffset ∧ u32At zip (eocdOffset - 20) = zip64LocSig

/-- The archive ends in the documented tail of its directory, whose records are counted. -/
def EndsDocumented (zip : List UInt8) (tail : ZipTail) : Prop :=
  ∃ (before : List UInt8) (records : List (List UInt8)),
    before.length = tail.centralDirectoryOffset ∧
    records.flatten.length = tail.centralDirectorySize ∧
    (∀ record ∈ records, IsRecord record) ∧
    zip = before ++ records.flatten ++ documentedTail tail.centralDirectoryOffset
      tail.centralDirectorySize records.length tail.classic.zipFileComment

theorem TailParts.extent_le {zip : List UInt8} {cdePos : Nat} {classic : ClassicEocd}
    {records : Option (Zip64Locator × Nat × Zip64Eocd)}
    (h : TailParts zip cdePos classic records) :
    (zipTailOf cdePos classic records).centralDirectoryOffset +
      (zipTailOf cdePos classic records).centralDirectorySize ≤ zip.length := by
  obtain ⟨⟨heocd, -⟩, -⟩ := findClassicEocd_eq_ok.mp h.eocd
  have hend := (isEocd_iff.mp heocd).2
  rw [h.extent]
  cases records with
  | none =>
    show cdePos ≤ zip.length
    omega
  | some found =>
    obtain ⟨loc, zpos, z64⟩ := found
    have hzpos := (zip64Records_some h.zip64).2.2
    show zpos ≤ zip.length
    omega

theorem length_le_flatten {records : List (List UInt8)}
    (h : ∀ record ∈ records, IsRecord record) : records.length ≤ records.flatten.length := by
  induction records with
  | nil => exact Nat.le_refl 0
  | cons record records ih =>
    have hfixed := (h record List.mem_cons_self).fixed
    have hrest := ih fun other hother => h other (List.mem_cons_of_mem _ hother)
    rw [List.flatten_cons, List.length_append, List.length_cons]
    omega

theorem comment_lt {zip : List UInt8} {cdePos : Nat} {classic : ClassicEocd}
    (h : findClassicEocd zip = .ok (cdePos, classic)) :
    classic.zipFileComment = zip.drop (cdePos + 22) ∧ classic.zipFileComment.length < 2 ^ 16 := by
  obtain ⟨⟨heocd, -⟩, hclassic⟩ := findClassicEocd_eq_ok.mp h
  have hend := (isEocd_iff.mp heocd).2
  have hlt := u16At_lt zip (cdePos + 20)
  have hcomment : classic.zipFileComment = zip.drop (cdePos + 22) := by
    rw [hclassic]
    rfl
  refine ⟨hcomment, ?_⟩
  rw [hcomment, List.length_drop]
  omega

/-- The directory of an archive that is normalized, record by record. -/
theorem normalize_records {zip out : List UInt8} {tail : ZipTail}
    (htail : parseZipTail zip = .ok tail) (h : normalizeZipForAppxSigning zip = .ok out) :
    ∃ (before : List UInt8) (records : List (List UInt8)) (after : List UInt8),
      before.length = tail.centralDirectoryOffset ∧
      records.flatten.length = tail.centralDirectorySize ∧
      (∀ record ∈ records, IsRecord record) ∧ zip = before ++ records.flatten ++ after := by
  rw [normalizeZipForAppxSigning, htail, Outcome.ok_bind] at h
  dsimp only at h
  obtain ⟨cdEnd, hsum, h⟩ := Outcome.bind_eq_ok.mp h
  obtain ⟨result, hwalk, h⟩ := Outcome.bind_eq_ok.mp h
  obtain ⟨cdePos, classic, found, hparts, rfl⟩ := parseZipTail_eq_ok.mp htail
  have hstop : result.2.1 = cdEnd := by
    obtain ⟨walked, p, entries⟩ := result
    exact (Outcome.guardThat_bind_eq_ok.mp h).1
  have hle := hparts.extent_le
  obtain ⟨hbound, hcdEnd⟩ := checkedAdd_eq_ok.mp hsum
  obtain ⟨offset, hoffset⟩ : ∃ offset, offset =
    (zipTailOf cdePos classic found).centralDirectoryOffset := ⟨_, rfl⟩
  rw [← hoffset] at hwalk hcdEnd hbound hle ⊢
  have hbefore : (zip.take offset).length = offset := List.length_take_of_le (by omega)
  have hshape : zip.take offset ++ zip.drop offset = zip := List.take_append_drop _ _
  nth_rewrite 1 [← hshape] at hwalk
  rw [show normalizeEntries cdEnd _ (zip.take offset ++ zip.drop offset) offset 0 =
    normalizeEntries cdEnd _ (zip.take offset ++ zip.drop offset) (zip.take offset).length 0 by
      rw [hbefore]] at hwalk
  obtain ⟨records, after, hrest, hrecords, hend⟩ := exists_records hwalk hstop (by omega)
    (by rw [hshape]; omega) (by omega)
  refine ⟨zip.take offset, records, after, hbefore, by omega, hrecords, ?_⟩
  rw [List.append_assoc, ← hrest, hshape]

/-- What is written for a directory of records. -/
theorem normalize_of_records {zip before after : List UInt8} {records : List (List UInt8)}
    {tail : ZipTail} (htail : parseZipTail zip = .ok tail)
    (hzip : zip = before ++ records.flatten ++ after)
    (hbefore : before.length = tail.centralDirectoryOffset)
    (hsize : records.flatten.length = tail.centralDirectorySize)
    (hrecords : ∀ record ∈ records, IsRecord record) :
    normalizeZipForAppxSigning zip = .ok (before ++ (records.map normalizeRecord).flatten ++
      if tail.zip64Eocd.isSome then after
      else documentedTail tail.centralDirectoryOffset tail.centralDirectorySize records.length
        tail.classic.zipFileComment) := by
  obtain ⟨cdePos, classic, found, hparts, htailOf⟩ := parseZipTail_eq_ok.mp htail
  have hbound : tail.centralDirectoryOffset + tail.centralDirectorySize < 2 ^ 64 := by
    rw [htailOf]
    exact hparts.bound
  have hwalk := @normalizeEntries_records records before after
    (tail.centralDirectoryOffset + tail.centralDirectorySize) tail.centralDirectorySize 0 hrecords
    (by omega) hbound (by omega)
  have hsum : checkedAdd tail.centralDirectoryOffset tail.centralDirectorySize
      "central directory extent overflow" =
      .ok (tail.centralDirectoryOffset + tail.centralDirectorySize) :=
    checkedAdd_eq_ok.mpr ⟨hbound, rfl⟩
  rw [hbefore, ← hzip, Nat.zero_add] at hwalk
  rw [normalizeZipForAppxSigning, htail, Outcome.ok_bind]
  dsimp only
  rw [hsum, Outcome.ok_bind, hwalk, Outcome.ok_bind]
  dsimp only
  rw [Outcome.guardThat_of rfl, Outcome.ok_bind]
  cases found with
  | some records64 =>
    have hsome : tail.zip64Eocd.isSome = true := by rw [htailOf]; rfl
    rw [if_pos hsome, if_pos hsome]
    rfl
  | none =>
    have hnone : ¬ tail.zip64Eocd.isSome = true := by
      rw [htailOf]
      exact Bool.false_ne_true
    have hcomment : tail.classic.zipFileComment.length ≤ u16Max := by
      have hlt := (comment_lt hparts.eocd).2
      rw [htailOf]
      exact Nat.le_of_lt_succ hlt
    have heocd : tail.eocdOffset = tail.centralDirectoryOffset + tail.centralDirectorySize := by
      rw [htailOf]
      exact hparts.extent.symm
    have hlength : (before ++ (records.map normalizeRecord).flatten).length =
        tail.centralDirectoryOffset + tail.centralDirectorySize := by
      rw [List.length_append, length_flatten_normalize hrecords, hbefore, hsize]
    rw [if_neg hnone, if_neg hnone, Outcome.guardThat_of hcomment, Outcome.ok_bind, heocd,
      ← hlength, List.take_left, documentedTail, ← hlength]
    simp only [List.append_assoc]
    rfl

/-- Whether there are ZIP64 records is told by the locator. -/
theorem zip64Eocd_isSome_iff {zip : List UInt8} {tail : ZipTail}
    (htail : parseZipTail zip = .ok tail) :
    tail.zip64Eocd.isSome = true ↔ HasLocator zip tail.eocdOffset := by
  obtain ⟨cdePos, classic, found, hparts, rfl⟩ := parseZipTail_eq_ok.mp htail
  obtain ⟨⟨heocd, -⟩, -⟩ := findClassicEocd_eq_ok.mp hparts.eocd
  have hend := (isEocd_iff.mp heocd).2
  have hcomment : classic.zipFileComment.length = zip.length - (cdePos + 22) := by
    rw [(comment_lt hparts.eocd).1, List.length_drop]
  have hseek : zip.length - (20 + 22 + classic.zipFileComment.length) = cdePos - 20 := by omega
  show (found.map _).isSome = true ↔ 20 ≤ cdePos ∧ u32At zip (cdePos - 20) = zip64LocSig
  cases found with
  | none =>
    have hnot := zip64Records_none hparts.zip64
    rw [hseek] at hnot
    refine iff_of_false Bool.false_ne_true ?_
    intro hloc
    exact hnot ⟨by omega, hloc.2⟩
  | some records =>
    obtain ⟨loc, zpos, z64⟩ := records
    obtain ⟨hsig, hlen, -⟩ := zip64Records_some hparts.zip64
    rw [hseek] at hsig
    exact iff_of_true rfl ⟨by omega, hsig⟩

/-- An archive without ZIP64 records is normalized. -/
theorem normalizedFrom_of_classic {zip before after : List UInt8} {records : List (List UInt8)}
    {tail : ZipTail} (htail : parseZipTail zip = .ok tail) (hlen : zip.length < 2 ^ 63)
    (hzip : zip = before ++ records.flatten ++ after)
    (hbefore : before.length = tail.centralDirectoryOffset)
    (hsize : records.flatten.length = tail.centralDirectorySize)
    (hrecords : ∀ record ∈ records, IsRecord record) (hclassic : tail.zip64Eocd = none) :
    NormalizedFrom zip (before ++ (records.map normalizeRecord).flatten ++
      documentedTail tail.centralDirectoryOffset tail.centralDirectorySize records.length
        tail.classic.zipFileComment) tail := by
  obtain ⟨cdePos, classic, found, hparts, htailOf⟩ := parseZipTail_eq_ok.mp htail
  have hnone : found = none := by
    cases found with
    | none => rfl
    | some records64 =>
      rw [htailOf] at hclassic
      cases hclassic
  subst hnone
  obtain ⟨⟨heocd, hlast⟩, -⟩ := findClassicEocd_eq_ok.mp hparts.eocd
  have hextent : tail.centralDirectoryOffset + tail.centralDirectorySize = cdePos := by
    rw [htailOf]
    exact hparts.extent
  obtain ⟨hcomment, hshort⟩ := comment_lt hparts.eocd
  have hcommentOf : tail.classic.zipFileComment = zip.drop (cdePos + 22) := by
    rw [htailOf]
    exact hcomment
  have hroom := (isEocd_iff.mp heocd).2
  have hlength : (before ++ (records.map normalizeRecord).flatten).length = cdePos := by
    rw [List.length_append, length_flatten_normalize hrecords, hbefore, hsize, hextent]
  have hcount := length_le_flatten hrecords
  have hparsed := @parseZipTail_documented (before ++ (records.map normalizeRecord).flatten)
    tail.classic.zipFileComment tail.centralDirectoryOffset tail.centralDirectorySize
    records.length (by omega) (by omega) (by omega) (by rw [htailOf]; exact hshort)
    (by rw [hcommentOf]; exact not_isEocd_documented heocd hlast hlength)
  refine ⟨before, records, hbefore, hsize, hrecords, ⟨after, hzip⟩, rfl, ⟨_, hparsed⟩, ?_⟩
  rw [normalize_of_records hparsed rfl hbefore ((length_flatten_normalize hrecords).trans hsize)
    (isRecord_of_mem_map hrecords), map_normalizeRecord_twice hrecords]
  rfl

/-- An archive with ZIP64 records keeps its tail. -/
theorem normalizedFrom_of_zip64_iff {zip before after : List UInt8} {records : List (List UInt8)}
    {tail : ZipTail} (htail : parseZipTail zip = .ok tail)
    (hzip : zip = before ++ records.flatten ++ after)
    (hbefore : before.length = tail.centralDirectoryOffset)
    (hsize : records.flatten.length = tail.centralDirectorySize)
    (hrecords : ∀ record ∈ records, IsRecord record) (hzip64 : tail.zip64Eocd.isSome = true) :
    NormalizedFrom zip (before ++ (records.map normalizeRecord).flatten ++ after) tail ↔
      EndsDocumented zip tail := by
  obtain ⟨cdePos, classic, found, hparts, htailOf⟩ := parseZipTail_eq_ok.mp htail
  obtain ⟨records64, rfl⟩ : ∃ records64, found = some records64 := by
    cases found with
    | some records64 => exact ⟨records64, rfl⟩
    | none =>
      rw [htailOf] at hzip64
      cases hzip64
  obtain ⟨loc, zpos, z64⟩ := records64
  have hextent : before.length + records.flatten.length = zpos := by
    rw [hbefore, hsize, htailOf]
    exact hparts.extent
  have hcut : ∀ (front back more : List UInt8),
      front.length + back.length = zpos → (front ++ back ++ more).drop zpos = more := by
    intro front back more hfront
    rw [← hfront, ← List.length_append, List.drop_left]
  constructor
  · intro h
    obtain ⟨front, others, hfront, hothers, hareRecords, ⟨rest, hrest⟩, hout, -⟩ := h
    refine ⟨front, others, hfront, hothers, hareRecords, ?_⟩
    have hsame : after = documentedTail tail.centralDirectoryOffset tail.centralDirectorySize
        others.length tail.classic.zipFileComment := by
      have hdrop := congrArg (List.drop zpos) hout
      rw [hcut _ _ _ (by rw [length_flatten_normalize hrecords]; exact hextent),
        hcut _ _ _ (by rw [length_flatten_normalize hareRecords]; omega)] at hdrop
      exact hdrop
    have hkept : after = rest := by
      have hdrop := congrArg (List.drop zpos) (hzip.symm.trans hrest)
      rw [hcut _ _ _ hextent, hcut _ _ _ (by omega)] at hdrop
      exact hdrop
    rw [← hsame, hkept]
    exact hrest
  · intro h
    obtain ⟨front, others, hfront, hothers, hareRecords, hdocumented⟩ := h
    have hout := normalize_of_records htail hzip hbefore hsize hrecords
    rw [if_pos hzip64, normalize_of_records htail hdocumented hfront hothers hareRecords,
      if_pos hzip64] at hout
    rw [← Except.ok.inj hout]
    have hsame := sameTail_normalize hareRecords front (documentedTail tail.centralDirectoryOffset
      tail.centralDirectorySize others.length tail.classic.zipFileComment)
    rw [← hdocumented] at hsame
    have hparsed : parseZipTail (front ++ (others.map normalizeRecord).flatten ++
        documentedTail tail.centralDirectoryOffset tail.centralDirectorySize others.length
          tail.classic.zipFileComment) = .ok tail :=
      parseZipTail_eq_ok.mpr ⟨cdePos, classic, _, hsame.parseZipTail (by omega) hparts, htailOf⟩
    refine ⟨front, others, hfront, hothers, hareRecords, ⟨_, hdocumented⟩, rfl, ⟨tail, hparsed⟩, ?_⟩
    rw [normalize_of_records hparsed rfl hfront
      ((length_flatten_normalize hareRecords).trans hothers) (isRecord_of_mem_map hareRecords),
      map_normalizeRecord_twice hareRecords, if_pos hzip64]

/-- The result has the layout that AppxPackaging writes exactly when the archive had no ZIP64
records, or already the documented ones. -/
theorem normalized_iff {zip out : List UInt8} {tail : ZipTail} (hlen : zip.length < 2 ^ 63)
    (htail : parseZipTail zip = .ok tail) (h : normalizeZipForAppxSigning zip = .ok out) :
    NormalizedFrom zip out tail ↔
      ¬ HasLocator zip tail.eocdOffset ∨ EndsDocumented zip tail := by
  obtain ⟨before, records, after, hbefore, hsize, hrecords, hzip⟩ := normalize_records htail h
  have hout := normalize_of_records htail hzip hbefore hsize hrecords
  rw [h] at hout
  rw [← zip64Eocd_isSome_iff htail, Except.ok.inj hout]
  by_cases hzip64 : tail.zip64Eocd.isSome = true
  · rw [if_pos hzip64, normalizedFrom_of_zip64_iff htail hzip hbefore hsize hrecords hzip64,
      or_iff_right (not_not_intro hzip64)]
  · rw [if_neg hzip64]
    refine iff_of_true ?_ (.inl hzip64)
    exact normalizedFrom_of_classic htail hlen hzip hbefore hsize hrecords
      (Option.not_isSome_iff_eq_none.mp hzip64)

/-! ### Two archives -/

/-- The directory record of a file with the name `a`. -/
def sampleRecord : List UInt8 :=
  u32le cdSig ++ u16le 0x0314 ++ u16le 20 ++ u32le 0 ++ u32le 0 ++ u32le 0 ++ u32le 0 ++
    u32le 0 ++ u16le 1 ++ u16le 0 ++ u16le 0 ++ u16le 0 ++ u16le 0 ++ u32le 0x81A40000 ++
    u32le 0 ++ [97]

/-- An archive of an empty file with the name `a`, whose directory starts at 31. -/
def sampleFront : List UInt8 :=
  u32le lhSig ++ u16le 20 ++ u32le 0 ++ u32le 0 ++ u32le 0 ++ u32le 0 ++ u32le 0 ++ u16le 1 ++
    u16le 0 ++ [97] ++ sampleRecord

/-- The archive with an end record only. -/
def sampleZip : List UInt8 :=
  sampleFront ++ u32le eocdSig ++ u32le 0 ++ u16le 1 ++ u16le 1 ++ u32le 47 ++ u32le 31 ++ u16le 0

/-- The archive with a ZIP64 record that needs version 4.5 but was made by another one. -/
def sampleZip64 : List UInt8 :=
  sampleFront ++ u32le zip64EocdSig ++ u64le 44 ++ u16le 0x032D ++ u16le 45 ++ u32le 0 ++
    u32le 0 ++ u64le 1 ++ u64le 1 ++ u64le 47 ++ u64le 31 ++ zip64LocatorRecord 78 ++
    sentinelEocd []

set_option maxRecDepth 2000

theorem normalized_sample : ∃ out tail, NormalizedFrom sampleZip out tail := by
  have htail : ∃ tail, parseZipTail sampleZip = .ok tail ∧ ¬ HasLocator sampleZip tail.eocdOffset :=
    ⟨⟨⟨0, 0, 1, 1, 47, 31, []⟩, none, none, none, 78, 31, 47⟩, by decide,
      by unfold HasLocator; decide⟩
  obtain ⟨tail, htail, hlocator⟩ := htail
  have hout : ∃ out, normalizeZipForAppxSigning sampleZip = .ok out :=
    ⟨sampleFront.take 31 ++ normalizeRecord sampleRecord ++ documentedTail 31 47 1 [],
      by decide⟩
  obtain ⟨out, hout⟩ := hout
  exact ⟨out, tail, (normalized_iff (by decide) htail hout).mpr (.inl hlocator)⟩

/-- A ZIP64 record of another version is not replaced. -/
theorem zip64_record_kept : ∃ out tail, parseZipTail sampleZip64 = .ok tail ∧
    normalizeZipForAppxSigning sampleZip64 = .ok out ∧ ¬ NormalizedFrom sampleZip64 out tail := by
  have htail : parseZipTail sampleZip64 = .ok ⟨⟨u16Max, u16Max, u16Max, u16Max, u32Max, u32Max, []⟩,
      some ⟨44, 0x032D, 45, 0, 0, 1, 1, 47, 31, []⟩, some ⟨0, 78, 1⟩, some 78, 154, 31, 47⟩ := by
    decide
  have hout : normalizeZipForAppxSigning sampleZip64 =
      .ok (sampleFront.take 31 ++ normalizeRecord sampleRecord ++ sampleZip64.drop 78) := by
    decide
  refine ⟨_, _, htail, hout, ?_⟩
  intro h
  obtain ⟨before, records, hbefore, hsize, hrecords, -, heq, -⟩ := h
  have hlength : (before ++ (records.map normalizeRecord).flatten).length = 78 := by
    rw [List.length_append, length_flatten_normalize hrecords, hbefore, hsize]
    rfl
  have hmade := u16At_append_right (before ++ (records.map normalizeRecord).flatten)
    (documentedTail 31 47 records.length []) 12
  rw [hlength, u16At_documentedTail_made] at hmade
  have hold : u16At (sampleFront.take 31 ++ normalizeRecord sampleRecord ++ sampleZip64.drop 78)
      (78 + 12) = 0x032D := by decide
  rw [heq] at hold
  exact absurd (hmade.symm.trans hold) (by decide)

end Psign.Sip.Appx
