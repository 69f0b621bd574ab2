import Mathlib.Data.List.Forall2
import Psign.Sip.CabSign

/-!
# Preparing a cabinet moves it

`prepare_unsigned_cab_for_authenticode_signature` puts 24 bytes behind the header and
adds 24 to the offsets that lead behind them.  `Relocation` says what it writes, byte by
byte, and `readCabinet` is a reader of cabinets: it takes the names of the next cabinet,
the folder table, the files and the data blocks of the folders from where the header and
the table say that they are.

The file table is behind the folder table, because the preparation checks that.  It does
not check where the data of a folder is.  The offset of a folder whose data is in the
header or in the folder table grows like the others, but what is there does not move with
it or is written over.  So the reader takes the same from both cabinets except for the data
of such folders (`prepared_cabinet_relocated`, `prepared_data_in_header`).
-/

namespace Psign.Sip.Cab

open CodeLib CodeLib.Bytes

/-! ## A reader of cabinets -/

/-- A string that a zero ends, and what is behind it. -/
def readSz : List UInt8 → Option (List UInt8 × List UInt8)
  | [] => none
  | b :: rest =>
    if b = 0 then some ([], rest)
    else (readSz rest).map fun (name, after) => (b :: name, after)

/-- `CFFOLDER`. -/
structure CfFolder where
  coffCabStart : Nat
  cCfData : Nat
  typeCompress : Nat
  deriving DecidableEq

/-- `CFFILE`. -/
structure CfFile where
  cbFile : Nat
  uoffFolderStart : Nat
  iFolder : Nat
  date : Nat
  time : Nat
  attribs : Nat
  szName : List UInt8
  deriving DecidableEq

/-- `CFDATA`. -/
structure CfData where
  csum : Nat
  cbData : Nat
  cbUncomp : Nat
  abReserve : List UInt8
  ab : List UInt8
  deriving DecidableEq

/-- The sizes of the reserve areas of a folder and of a data block, and what is behind the
reserve area of the header. -/
def readReserve (data : List UInt8) : Option (Nat × Nat × List UInt8) :=
  if u16At data 30 &&& flagReservePresent = 0 then some (0, 0, data.drop 36)
  else if data.length < 40 + u16At data 36 then none
  else some (byteAt data 38, byteAt data 39, data.drop (40 + u16At data 36))

/-- The names of the cabinet and of the disk, where the flags announce them. -/
def readPair (announced : Prop) [Decidable announced] (bytes : List UInt8) :
    Option (List (List UInt8) × List UInt8) :=
  if announced then do
    let (cabinet, rest) ← readSz bytes
    let (disk, rest) ← readSz rest
    return ([cabinet, disk], rest)
  else some ([], bytes)

/-- The names of the previous and of the next cabinet. -/
def readNames (flags : Nat) (bytes : List UInt8) : Option (List (List UInt8) × List UInt8) := do
  let (previous, rest) ← readPair (flags &&& flagPrevCabinet ≠ 0) bytes
  let (next, rest) ← readPair (flags &&& flagNextCabinet ≠ 0) rest
  return (previous ++ next, rest)

/-- The folder table. -/
def readFolders (reserve : Nat) : Nat → List UInt8 → Option (List CfFolder)
  | 0, _ => some []
  | count + 1, bytes =>
    if bytes.length < 8 + reserve then none
    else (readFolders reserve count (bytes.drop (8 + reserve))).map fun folders =>
      ⟨u32At bytes 0, u16At bytes 4, u16At bytes 6⟩ :: folders

/-- The file table. -/
def readFiles : Nat → List UInt8 → Option (List CfFile)
  | 0, _ => some []
  | count + 1, bytes => do
    if bytes.length < 16 then none
    let (name, rest) ← readSz (bytes.drop 16)
    let files ← readFiles count rest
    return ⟨u32At bytes 0, u32At bytes 4, u16At bytes 8, u16At bytes 10, u16At bytes 12,
      u16At bytes 14, name⟩ :: files

/-- The data blocks of a folder. -/
def readBlocks (reserve : Nat) : Nat → List UInt8 → Option (List CfData)
  | 0, _ => some []
  | count + 1, bytes =>
    let size := 8 + reserve + u16At bytes 4
    if bytes.length < size then none
    else (readBlocks reserve count (bytes.drop size)).map fun blocks =>
      ⟨u32At bytes 0, u16At bytes 4, u16At bytes 6, (bytes.drop 8).take reserve,
        (bytes.take size).drop (8 + reserve)⟩ :: blocks

/-- What a reader takes from a cabinet: the names of other cabinets, the folders with
their data, and the files. -/
structure Cabinet where
  names : List (List UInt8)
  folders : List (CfFolder × Option (List CfData))
  files : Option (List CfFile)
  deriving DecidableEq

/-- A reader that walks a cabinet by its header. -/
def readCabinet (data : List UInt8) : Option Cabinet := do
  let (folderReserve, dataReserve, rest) ← readReserve data
  let (names, rest) ← readNames (u16At data 30) rest
  let folders ← readFolders folderReserve (u16At data 26) rest
  let blocks (folder : CfFolder) :=
    readBlocks dataReserve folder.cCfData (data.drop folder.coffCabStart)
  return ⟨names, folders.map fun folder => (folder, blocks folder),
    readFiles (u16At data 28) (data.drop (u32At data 16))⟩

/-- Two cabinets have the same names, the same files and folders of the same type and
count; the folders that `kept` holds for have the same data. -/
structure SameCabinet (kept : CfFolder → Prop) (cabinet cabinet' : Cabinet) : Prop where
  names_eq : cabinet'.names = cabinet.names
  files_eq : cabinet'.files = cabinet.files
  folders : List.Forall₂ (fun folder folder' =>
    folder'.1.typeCompress = folder.1.typeCompress ∧ folder'.1.cCfData = folder.1.cCfData ∧
      (kept folder.1 → folder'.2 = folder.2)) cabinet.folders cabinet'.folders

/-! ## What the preparation writes -/

/-- The byte is of the offset of a folder. -/
def InCoffCabStart (table count i : Nat) : Prop :=
  ∃ k < count, table + 8 * k ≤ i ∧ i < table + 8 * k + 4

/-- The reserve area with the position and the length of the signature. -/
def filledArea (sigpos siglen : Nat) : List UInt8 :=
  [0x14, 0, 0, 0, 0, 0, 0x10, 0] ++ u32le sigpos ++ u32le siglen ++ List.replicate 8 0

/-- The output is the input with 24 bytes behind the header; otherwise only the sizes and
offsets and the flag are changed.  The folder table is behind the header and before the
file table. -/
structure Relocation (data out : List UInt8) (signatureLen table : Nat) : Prop where
  length_eq : out.length = data.length + 24
  area : (out.take 60).drop 36 = filledArea (data.length + 24) signatureLen
  cbCabinet : u32At out 8 = u32At data 8 + 24
  coffFiles : u32At out 16 = u32At data 16 + 24
  flags : u16At out 30 = u16At data 30 ||| flagReservePresent
  header : ∀ i < 36, ¬ (8 ≤ i ∧ i < 12 ∨ 16 ≤ i ∧ i < 20 ∨ 30 ≤ i ∧ i < 32) →
    out[i]? = data[i]?
  table_ge : 36 ≤ table
  table_le : table + 8 * u16At data 26 ≤ u32At data 16
  coffCabStart : ∀ k < u16At data 26,
    u32At out (table + 8 * k + 24) = u32At data (table + 8 * k) + 24
  body : ∀ i, 36 ≤ i → ¬ InCoffCabStart table (u16At data 26) i → out[i + 24]? = data[i]?

/-- The loop adds 24 to the offset of each folder and changes nothing else. -/
theorem shiftFolders_spec {image out : List UInt8} {entry count : Nat}
    (h : shiftFolders image entry count = .ok out) :
    out.length = image.length ∧
      (∀ i, ¬ InCoffCabStart entry count i → out[i]? = image[i]?) ∧
      ∀ k < count, u32At out (entry + 8 * k) = u32At image (entry + 8 * k) + 24 := by
  induction count generalizing image entry with
  | zero =>
    obtain rfl := Except.ok.inj h
    exact ⟨rfl, fun _ _ => rfl, fun k hk => absurd hk (Nat.not_lt_zero k)⟩
  | succ count ih =>
    simp only [shiftFolders, Outcome.bind_eq_ok, readU32Le_eq_ok, checkedU32Add_eq_ok,
      writeU32Le_eq_ok] at h
    obtain ⟨start, ⟨hlen, rfl⟩, shifted, ⟨hfit, rfl⟩, next, ⟨-, rfl⟩, h⟩ := h
    obtain ⟨hlength, hsame, hstarts⟩ := ih h
    have hpatch := sameOutside_patch (u32le (u32At image entry + 24)) hlen
    have hfirst : SameOn (patch image entry (u32le (u32At image entry + 24))) out 0
        (entry + 8) := by
      intro i _ hi
      refine (hsame i ?_).symm
      rintro ⟨k, _, hge, _⟩
      omega
    refine ⟨hlength.trans hpatch.length_eq, ?_, ?_⟩
    · intro i hi
      have houtside : i < entry ∨ entry + 4 ≤ i := by
        by_contra hin
        exact hi ⟨0, Nat.succ_pos count, by omega, by omega⟩
      have hrest : ¬ InCoffCabStart (entry + 8) count i := by
        rintro ⟨k, hk, hge, hlt⟩
        exact hi ⟨k + 1, by omega, by omega, by omega⟩
      exact (hsame i hrest).trans (hpatch.same i houtside).symm
    · intro k hk
      cases k with
      | zero =>
        have hself := u32At_patch_self hlen hfit
        exact (u32At_congr (hfirst.mono (Nat.zero_le _) (by omega))).symm.trans hself
      | succ k =>
        have hat := hstarts k (by omega)
        rw [show entry + 8 + 8 * k = entry + 8 * (k + 1) by omega] at hat
        rw [hat, hpatch.u32At (Or.inr (by show entry + 4 ≤ _; omega))]

theorem patch_append_left {record data : List UInt8} {offset : Nat} (after : List UInt8)
    (h : offset + data.length ≤ record.length) :
    patch (record ++ after) offset data = patch record offset data ++ after := by
  have hmiddle := @patch_append_middle [] record after data offset h
  rwa [List.nil_append, List.length_nil, Nat.zero_add, List.nil_append] at hmiddle

/-- The header after the preparation, without the reserve area. -/
def movedHeader (data : List UInt8) : List UInt8 :=
  patch (patch (patch (data.take 36) 8 (u32le (data.length + 24))) 16
    (u32le (u32At data 16 + 24))) 30 (u16le (u16At data 30 ||| flagReservePresent))

section movedHeader

variable {data : List UInt8}

theorem length_movedHeader (h : 36 ≤ data.length) : (movedHeader data).length = 36 := by
  have htake : (data.take 36).length = 36 := List.length_take_of_le h
  rw [movedHeader, length_patch, length_patch, length_patch, htake]
  · show 8 + 4 ≤ _
    omega
  · show 16 + 4 ≤ _
    rw [length_patch (by show 8 + 4 ≤ _; omega)]
    omega
  · show 30 + 2 ≤ _
    rw [length_patch, length_patch, htake]
    · decide
    · show 8 + 4 ≤ _
      omega
    · show 16 + 4 ≤ _
      rw [length_patch (by show 8 + 4 ≤ _; omega)]
      omega

/-- What the three patches of the header write, and what they keep. -/
theorem movedHeader_spec (hlen : 36 ≤ data.length) (hsize : data.length + 24 < 2 ^ 32)
    (hcoff : u32At data 16 + 24 < 2 ^ 32)
    (hprev : u16At data 30 &&& flagPrevCabinet = 0) :
    u32At (movedHeader data) 8 = data.length + 24 ∧
      u32At (movedHeader data) 16 = u32At data 16 + 24 ∧
      u16At (movedHeader data) 30 = u16At data 30 ||| flagReservePresent ∧
      ∀ i < 36, ¬ (8 ≤ i ∧ i < 12 ∨ 16 ≤ i ∧ i < 20 ∨ 30 ≤ i ∧ i < 32) →
        (movedHeader data)[i]? = data[i]? := by
  have htake : (data.take 36).length = 36 := List.length_take_of_le hlen
  generalize ha : patch (data.take 36) 8 (u32le (data.length + 24)) = a
  generalize hb : patch a 16 (u32le (u32At data 16 + 24)) = b
  have hfa : SameOutside (data.take 36) a 8 12 :=
    ha ▸ sameOutside_patch _ (by show 8 + 4 ≤ _; omega)
  have hlenA : a.length = 36 := hfa.length_eq.trans htake
  have hfb : SameOutside a b 16 20 := hb ▸ sameOutside_patch _ (by show 16 + 4 ≤ _; omega)
  have hlenB : b.length = 36 := hfb.length_eq.trans hlenA
  have hmoved : movedHeader data = patch b 30 (u16le (u16At data 30 ||| flagReservePresent)) := by
    rw [movedHeader, ha, hb]
  have hfc : SameOutside b (movedHeader data) 30 32 :=
    hmoved ▸ sameOutside_patch _ (by show 30 + 2 ≤ _; omega)
  refine ⟨?_, ?_, ?_, ?_⟩
  · rw [hfc.u32At (Or.inl (by decide)), hfb.u32At (Or.inl (by decide)), ← ha]
    exact u32At_patch_self (by omega) hsize
  · rw [hfc.u32At (Or.inl (by decide)), ← hb]
    exact u32At_patch_self (by omega) hcoff
  · rw [hmoved]
    exact u16At_patch_self (by omega) (signedFlags (u16At_lt data 30) hprev).1
  · intro i hi hout
    rw [← hfc.same i (by omega), ← hfb.same i (by omega), ← hfa.same i (by omega),
      List.getElem?_take_of_lt hi]

end movedHeader

/-- The preparation puts the filled reserve area between the header and the rest, and
moves the folders. -/
theorem shiftFolders_of_prepare {data out : List UInt8} {signatureLen : Nat}
    (h : prepareUnsignedCabForAuthenticodeSignature data signatureLen = .ok out) :
    ∃ table, cffolderTableOffset data (u16At data 30) = .ok table ∧
      table + 8 * u16At data 26 ≤ u32At data 16 ∧ u32At data 8 = data.length ∧
      u32At data 16 + 24 < 2 ^ 32 ∧ u16At data 30 &&& flagReservePresent = 0 ∧
      shiftFolders (movedHeader data ++ filledArea (data.length + 24) signatureLen ++ data.drop 36)
        (table + 24) (u16At data 26) = .ok out := by
  simp only [prepareUnsignedCabForAuthenticodeSignature, Outcome.bind_eq_ok,
    Outcome.guardThat_eq_ok, writeU32Le_eq_ok, writeU16Le_eq_ok, readU32Le_eq_ok, readU16Le_eq_ok,
    checkedU32Add_eq_ok] at h
  obtain ⟨ctx, hctx, _, hreserve, _, -, _, -, _, -, _, ⟨-, rfl⟩, _, ⟨-, rfl⟩, _, hcb, _, ⟨-, rfl⟩, _,
    ⟨-, rfl⟩, table, htable, _, hend, _, ⟨-, rfl⟩, _, ⟨hcoff, rfl⟩, _, ⟨-, rfl⟩, _, ⟨-, rfl⟩, _,
    ⟨-, rfl⟩, _, ⟨-, rfl⟩, hshift⟩ := h
  obtain ⟨hnone, hunsigned⟩ := parseCabContext_unsigned hctx hreserve
  have hlen := (parseCabContext_eq_ok.mp hctx).1
  rw [hunsigned] at htable hshift
  refine ⟨table, htable, by omega, hcb, hcoff, hnone, ?_⟩
  have htake : (data.take 36).length = 36 := List.length_take_of_le (by omega)
  have hmoved := length_movedHeader (show 36 ≤ data.length by omega)
  have hlenA : (patch (data.take 36) 8 (u32le (data.length + 24))).length = 36 :=
    (length_patch (by show 8 + 4 ≤ _; omega)).trans htake
  have hlenB : (patch (patch (data.take 36) 8 (u32le (data.length + 24))) 16
      (u32le (u32At data 16 + 24))).length = 36 :=
    (length_patch (by show 16 + 4 ≤ _; omega)).trans hlenA
  have harea : patch (patch reserveArea 8 (u32le (data.length + 24))) 12 (u32le signatureLen) =
      filledArea (data.length + 24) signatureLen := rfl
  have hpos := @patch_append_middle (movedHeader data) reserveArea (data.drop 36)
    (u32le (data.length + 24)) 8 (by show 8 + 4 ≤ 24; decide)
  have hsig := @patch_append_middle (movedHeader data)
    (patch reserveArea 8 (u32le (data.length + 24))) (data.drop 36) (u32le signatureLen) 12
    (by show 12 + 4 ≤ 24; decide)
  rw [hmoved] at hpos hsig
  rw [List.append_assoc, patch_append_left _ (by show 8 + 4 ≤ _; omega),
    patch_append_left _ (by show 16 + 4 ≤ _; omega),
    patch_append_left _ (by show 30 + 2 ≤ _; omega), ← List.append_assoc] at hshift
  rw [← harea, ← hsig, ← hpos]
  exact hshift

theorem relocation_of_prepare {data out : List UInt8} {signatureLen : Nat}
    (h : prepareUnsignedCabForAuthenticodeSignature data signatureLen = .ok out) :
    ∃ table, cffolderTableOffset data (u16At data 30) = .ok table ∧
      Relocation data out signatureLen table := by
  obtain ⟨table, htable, hend, hcb, hcoff, hnone, hshift⟩ := shiftFolders_of_prepare h
  have hprepared := isPrepared_of_prepare h
  have hlen := hprepared.long
  have hge := le_of_cffolderTableOffset htable
  have hprev : u16At data 30 &&& flagPrevCabinet = 0 := by
    simp only [cffolderTableOffset, Outcome.bind_eq_ok, Outcome.guardThat_eq_ok] at htable
    exact htable.choose_spec.1
  obtain ⟨hcbOut, hcoffOut, hflagsOut, hframe⟩ :=
    movedHeader_spec (by omega) hprepared.size hcoff hprev
  have hmoved := length_movedHeader (show 36 ≤ data.length by omega)
  obtain ⟨hlength, hsame, hstarts⟩ := shiftFolders_spec hshift
  have harea : (filledArea (data.length + 24) signatureLen).length = 24 := rfl
  have hhead : SameOn (movedHeader data) out 0 36 := by
    intro i _ hi
    rw [hsame i (by intro ⟨k, _, hstart, _⟩; omega), List.append_assoc,
      List.getElem?_append_left (by omega)]
  have hbehind : ∀ i, 36 ≤ i →
      (movedHeader data ++ filledArea (data.length + 24) signatureLen ++ data.drop 36)[i + 24]? =
        data[i]? := by
    intro i hi
    rw [List.getElem?_append_right (by rw [List.length_append]; omega), List.getElem?_drop,
      List.length_append, hmoved, harea]
    congr 1
    omega
  refine ⟨table, htable, ?_⟩
  exact
    { length_eq := hprepared.length_eq
      area := by
        apply List.ext_getElem?
        intro i
        rw [List.getElem?_drop]
        by_cases hi : i < 24
        · rw [List.getElem?_take_of_lt (by omega), hsame _ (by intro ⟨k, _, hstart, _⟩; omega),
            List.append_assoc, List.getElem?_append_right (by omega), hmoved,
            Nat.add_sub_cancel_left, List.getElem?_append_left (by omega)]
        · rw [List.getElem?_eq_none (by rw [List.length_take]; omega),
            List.getElem?_eq_none (by omega)]
      cbCabinet := by
        rw [← u32At_congr (hhead.mono (Nat.zero_le 8) (by decide)), hcbOut, hcb]
      coffFiles := by
        rw [← u32At_congr (hhead.mono (Nat.zero_le 16) (by decide)), hcoffOut]
      flags := by
        rw [← u16At_congr (hhead.mono (Nat.zero_le 30) (by decide)), hflagsOut]
      header := by
        intro i hi hout
        rw [← hhead i (Nat.zero_le i) hi]
        exact hframe i hi hout
      table_ge := hge
      table_le := hend
      coffCabStart := by
        intro k hk
        have hat := hstarts k hk
        rw [show table + 24 + 8 * k = table + 8 * k + 24 by omega] at hat
        have hmove : SameOn data ((movedHeader data ++
            filledArea (data.length + 24) signatureLen ++ data.drop 36).drop 24) 36
            (table + 8 * k + 4) := by
          intro i hi _
          rw [List.getElem?_drop, Nat.add_comm 24]
          exact (hbehind i hi).symm
        rw [hat, u32At_congr (hmove.mono (by omega) (Nat.le_refl _)), u32At_drop, Nat.add_comm 24]
      body := by
        intro i hi hout
        rw [← hbehind i hi]
        apply hsame
        intro ⟨k, hk, hstart, hstop⟩
        exact hout ⟨k, hk, by omega, by omega⟩ }

/-! ## What a reader takes -/

section read

variable {data out : List UInt8} {signatureLen table : Nat}

/-- Away from the offsets of the folders the output has the bytes 24 further. -/
theorem Relocation.sameOn (h : Relocation data out signatureLen table) {lo hi : Nat} (hlo : 36 ≤ lo)
    (hout : ∀ i, lo ≤ i → i < hi → ¬ InCoffCabStart table (u16At data 26) i) :
    SameOn data (out.drop 24) lo hi := by
  intro i hl hh
  rw [List.getElem?_drop, Nat.add_comm]
  exact (h.body i (by omega) (hout i hl hh)).symm

/-- Behind the folder table the output has the rest of the input. -/
theorem Relocation.drop_eq (h : Relocation data out signatureLen table) {offset : Nat}
    (hoffset : table + 8 * u16At data 26 ≤ offset) : out.drop (offset + 24) = data.drop offset := by
  have hge := h.table_ge
  apply List.ext_getElem?
  intro i
  rw [List.getElem?_drop, List.getElem?_drop, Nat.add_right_comm]
  apply h.body _ (by omega)
  intro ⟨k, hk, _, hlt⟩
  omega

/-- A field of the header that is not changed is read as before. -/
theorem Relocation.u16At_header (h : Relocation data out signatureLen table) {offset : Nat}
    (hlt : offset + 2 ≤ 36) (hout : offset + 2 ≤ 8 ∨ 12 ≤ offset ∧ offset + 2 ≤ 16 ∨
      20 ≤ offset ∧ offset + 2 ≤ 30 ∨ 32 ≤ offset) : u16At out offset = u16At data offset := by
  apply u16At_congr
  intro i hl hh
  exact h.header i (by omega) (by omega)

theorem Relocation.readReserve_eq (h : Relocation data out signatureLen table)
    (hlen : 36 ≤ data.length) : readReserve out = some (0, 0, out.drop 60) := by
  have hset : u16At out 30 &&& flagReservePresent ≠ 0 := by
    rw [h.flags, Nat.and_or_distrib_right, Nat.and_self]
    intro hzero
    exact absurd (Nat.or_eq_zero_iff.mp hzero).2 (by decide)
  have hat : ∀ k, k < 24 → byteAt out (36 + k) = byteAt (filledArea (data.length + 24) signatureLen) k := by
    intro k hk
    rw [← h.area, byteAt_drop]
    exact byteAt_congr (fun i hl hh => (List.getElem?_take_of_lt (by omega)).symm)
  have hsize : u16At out 36 = 20 := by
    rw [u16At, show (36 : Nat) = 36 + 0 from rfl, hat 0 (by decide), Nat.add_assoc,
      hat 1 (by decide)]
    rfl
  have hfolder : byteAt out 38 = 0 := hat 2 (by decide)
  have hdata : byteAt out 39 = 0 := hat 3 (by decide)
  have hlength := h.length_eq
  rw [readReserve, if_neg hset, hsize, if_neg (by omega), hfolder, hdata]

/-- A string is read the same wherever its bytes are. -/
theorem readSz_of_skipCabSzFrom {bytes : List UInt8} {idx stop : Nat}
    (h : skipCabSzFrom bytes idx = .ok stop) : ∃ name, ∀ bytes' : List UInt8,
      SameOn bytes bytes' 0 (stop - idx) → readSz bytes' = some (name, bytes'.drop (stop - idx)) := by
  induction bytes generalizing idx with
  | nil => exact absurd h Outcome.bail_ne_ok
  | cons b rest ih =>
    rw [skipCabSzFrom] at h
    by_cases hzero : b = 0
    · rw [if_pos hzero] at h
      obtain rfl := Except.ok.inj h
      refine ⟨[], ?_⟩
      intro bytes' hsame
      have hfirst := hsame 0 (Nat.le_refl 0) (by omega)
      cases bytes' with
      | nil => cases hfirst
      | cons b' rest' =>
        obtain rfl : b = b' := Option.some.inj hfirst
        rw [readSz, if_pos hzero, Nat.add_sub_cancel_left, List.drop_one, List.tail_cons]
    · rw [if_neg hzero] at h
      have hle := le_of_skipCabSzFrom h
      obtain ⟨name, hname⟩ := ih h
      refine ⟨b :: name, ?_⟩
      intro bytes' hsame
      have hfirst := hsame 0 (Nat.le_refl 0) (by omega)
      cases bytes' with
      | nil => cases hfirst
      | cons b' rest' =>
        obtain rfl : b = b' := Option.some.inj hfirst
        have hrest := hname rest' fun i _ hi => hsame (i + 1) (Nat.zero_le _) (by omega)
        rw [readSz, if_neg hzero, hrest, show stop - idx = stop - (idx + 1) + 1 by omega,
          List.drop_succ_cons]
        rfl

/-- The names before the folder table are read the same wherever their bytes are. -/
theorem readNames_of_cffolderTableOffset {flags : Nat}
    (htable : cffolderTableOffset data flags = .ok table) :
    ∃ names, ∀ flags' bytes', flags' &&& flagPrevCabinet = 0 →
      flags' &&& flagNextCabinet = flags &&& flagNextCabinet →
      SameOn (data.drop 36) bytes' 0 (table - 36) →
      readNames flags' bytes' = some (names, bytes'.drop (table - 36)) := by
  simp only [cffolderTableOffset, Outcome.bind_eq_ok] at htable
  obtain ⟨_, -, htable⟩ := htable
  have hnone : ∀ (flags' : Nat) (bytes' : List UInt8), flags' &&& flagPrevCabinet = 0 →
      readPair (flags' &&& flagPrevCabinet ≠ 0) bytes' = some ([], bytes') := by
    intro flags' bytes' hprev
    rw [readPair, if_neg (not_not.mpr hprev)]
  by_cases hflag : flags &&& flagNextCabinet ≠ 0
  · rw [if_pos hflag] at htable
    simp only [Outcome.bind_eq_ok] at htable
    obtain ⟨first, hfirst, hsecond⟩ := htable
    have hle := le_of_skipCabSzFrom hfirst
    have hle' := le_of_skipCabSzFrom hsecond
    obtain ⟨cabinet, hcabinet⟩ := readSz_of_skipCabSzFrom hfirst
    obtain ⟨disk, hdisk⟩ := readSz_of_skipCabSzFrom hsecond
    refine ⟨[cabinet, disk], ?_⟩
    intro flags' bytes' hprev hnext hsame
    have hrest : readSz (bytes'.drop (first - 36)) =
        some (disk, (bytes'.drop (first - 36)).drop (table - first)) := by
      apply hdisk
      intro i _ hi
      have hat := hsame (first - 36 + i) (Nat.zero_le _) (by omega)
      rw [List.getElem?_drop, show 36 + (first - 36 + i) = first + i by omega] at hat
      rw [List.getElem?_drop, List.getElem?_drop, hat]
    rw [readNames, hnone flags' bytes' hprev]
    simp only [Option.bind_eq_bind, Option.bind_some, readPair, if_pos (hnext.symm ▸ hflag),
      hcabinet bytes' (hsame.mono (Nat.le_refl _) (by omega)), hrest, List.drop_drop,
      show first - 36 + (table - first) = table - 36 by omega, Option.pure_def, List.nil_append]
  · rw [if_neg hflag] at htable
    obtain rfl := Except.ok.inj htable
    refine ⟨[], ?_⟩
    intro flags' bytes' hprev hnext _
    rw [readNames, hnone flags' bytes' hprev]
    simp only [Option.bind_eq_bind, Option.bind_some, readPair, if_neg (hnext.symm ▸ hflag)]
    rfl

/-- The folders of the output: at offsets 24 further, otherwise as they were. -/
theorem readFolders_moved {entry count : Nat} (hlen : out.length = data.length + 24)
    (hstart : ∀ k < count, u32At out (entry + 8 * k + 24) = u32At data (entry + 8 * k) + 24)
    (hfields : ∀ k < count, SameOn data (out.drop 24) (entry + 8 * k + 4) (entry + 8 * k + 8)) :
    Option.Rel (List.Forall₂ fun folder folder' : CfFolder =>
        folder' = { folder with coffCabStart := folder.coffCabStart + 24 })
      (readFolders 0 count (data.drop entry)) (readFolders 0 count (out.drop (entry + 24))) := by
  induction count generalizing entry with
  | zero => exact .some .nil
  | succ count ih =>
    have hrest := @ih (entry + 8)
      (by
        intro k hk
        have hat := hstart (k + 1) (by omega)
        rw [show entry + 8 + 8 * k = entry + 8 * (k + 1) by omega]
        exact hat)
      (by
        intro k hk
        have hat := hfields (k + 1) (by omega)
        rw [show entry + 8 + 8 * k = entry + 8 * (k + 1) by omega]
        exact hat)
    have hfield : ∀ k, k + 2 ≤ 4 →
        u16At out (entry + 24 + (4 + k)) = u16At data (entry + (4 + k)) := by
      intro k hk
      have hsame := hfields 0 (Nat.succ_pos count)
      rw [u16At_congr (hsame.mono (show entry + 8 * 0 + 4 ≤ entry + (4 + k) by omega) (by omega)),
        u16At_drop, show 24 + (entry + (4 + k)) = entry + 24 + (4 + k) by omega]
    have hzero := hstart 0 (Nat.succ_pos count)
    rw [readFolders, readFolders]
    by_cases hshort : (data.drop entry).length < 8 + 0
    · have hshort' : (out.drop (entry + 24)).length < 8 + 0 := by
        rw [List.length_drop] at hshort ⊢
        omega
      rw [if_pos hshort, if_pos hshort']
      exact .none
    · have hshort' : ¬ (out.drop (entry + 24)).length < 8 + 0 := by
        rw [List.length_drop] at hshort ⊢
        omega
      rw [if_neg hshort, if_neg hshort', List.drop_drop, List.drop_drop, Nat.add_zero,
        Nat.add_right_comm entry 24 8]
      generalize readFolders 0 count (data.drop (entry + 8)) = folders at hrest ⊢
      generalize readFolders 0 count (out.drop (entry + 8 + 24)) = folders' at hrest ⊢
      cases hrest with
      | none => exact .none
      | some htail =>
        refine .some (.cons ?_ htail)
        simp only [u32At_drop, u16At_drop, Nat.add_zero, hfield 0 (by decide), hfield 2 (by decide)]
        rw [show entry + 24 = entry + 8 * 0 + 24 by omega, hzero]
        rfl

end read

/-- A prepared cabinet is its input moved, and a reader takes the same names, files and
folders from both, and the same data of every folder whose data is behind the folder
table. -/
theorem prepared_cabinet_relocated {data out : List UInt8} {signatureLen : Nat}
    (h : prepareUnsignedCabForAuthenticodeSignature data signatureLen = .ok out) :
    ∃ table, cffolderTableOffset data (u16At data 30) = .ok table ∧
      Relocation data out signatureLen table ∧
      Option.Rel
        (SameCabinet fun folder => table + 8 * u16At data 26 ≤ folder.coffCabStart)
        (readCabinet data) (readCabinet out) := by
  obtain ⟨table, htable, hmoved⟩ := relocation_of_prepare h
  refine ⟨table, htable, hmoved, ?_⟩
  obtain ⟨-, -, -, -, -, hnone, -⟩ := shiftFolders_of_prepare h
  have hlong := (isPrepared_of_prepare h).long
  have hge := hmoved.table_ge
  have hfolderCount : u16At out 26 = u16At data 26 :=
    hmoved.u16At_header (by decide) (by decide)
  have hfileCount : u16At out 28 = u16At data 28 := hmoved.u16At_header (by decide) (by decide)
  have hnext : u16At out 30 &&& flagNextCabinet = u16At data 30 &&& flagNextCabinet := by
    rw [hmoved.flags, Nat.and_or_distrib_right]
    exact Nat.or_zero _
  have hprev : u16At data 30 &&& flagPrevCabinet = 0 := by
    simp only [cffolderTableOffset, Outcome.bind_eq_ok, Outcome.guardThat_eq_ok] at htable
    exact htable.choose_spec.1
  have hfiles : out.drop (u32At out 16) = data.drop (u32At data 16) := by
    rw [hmoved.coffFiles]
    exact hmoved.drop_eq hmoved.table_le
  -- the names
  have hstrings : SameOn (data.drop 36) (out.drop 60) 0 (table - 36) := by
    intro i _ hi
    have hat := hmoved.body (36 + i) (by omega) (by intro ⟨k, _, hstart, _⟩; omega)
    rw [List.getElem?_drop, List.getElem?_drop, ← hat, Nat.add_right_comm]
  obtain ⟨names, hnames⟩ := readNames_of_cffolderTableOffset htable
  have hread := hnames _ _ hprev rfl (fun i _ _ => rfl)
  have hread' := hnames _ _ (isPrepared_of_prepare h).prev hnext hstrings
  rw [List.drop_drop, show 36 + (table - 36) = table by omega] at hread
  rw [List.drop_drop, show 60 + (table - 36) = table + 24 by omega] at hread'
  -- the folders
  have hfolders := @readFolders_moved data out table (u16At data 26) hmoved.length_eq
    hmoved.coffCabStart (by
      intro k hk
      apply hmoved.sameOn (by omega)
      intro i hl hh ⟨j, hj, hstart, hstop⟩
      omega)
  have hreserve : readReserve data = some (0, 0, data.drop 36) := by
    rw [readReserve, if_pos hnone]
  rw [readCabinet, readCabinet, hreserve, hmoved.readReserve_eq (by omega)]
  simp only [Option.bind_eq_bind, Option.bind_some, hread, hread', hfolderCount, hfileCount, hfiles]
  generalize readFolders 0 (u16At data 26) (data.drop table) = folders at hfolders ⊢
  generalize readFolders 0 (u16At data 26) (out.drop (table + 24)) = folders' at hfolders ⊢
  cases hfolders with
  | none => exact .none
  | some hall =>
    refine .some ⟨rfl, rfl, ?_⟩
    rw [List.forall₂_map_left_iff, List.forall₂_map_right_iff]
    refine hall.imp ?_
    intro folder folder' hfolder
    subst hfolder
    refine ⟨rfl, rfl, ?_⟩
    intro hkept
    show readBlocks 0 folder.cCfData (out.drop (folder.coffCabStart + 24)) = _
    rw [hmoved.drop_eq hkept]

/-- A cabinet with one folder and no files, whose data starts at `coffCabStart`. -/
def oneFolder (coffCabStart : Nat) : List UInt8 :=
  mscf ++ u32le 0 ++ u32le 54 ++ u32le 0 ++ u32le 44 ++ u32le 0 ++ u16le 0x103 ++ u16le 1 ++
    u16le 0 ++ u16le 0 ++ u32le 0 ++
    u32le coffCabStart ++ u16le 1 ++ u16le 0 ++
    u32le 7 ++ u16le 2 ++ u16le 2 ++ [8, 9]

theorem prepared_cabinet_relocated_behind : ∃ out,
    prepareUnsignedCabForAuthenticodeSignature (oneFolder 44) 5 = .ok out ∧
    (∃ table, cffolderTableOffset (oneFolder 44) (u16At (oneFolder 44) 30) = .ok table ∧
      Relocation (oneFolder 44) out 5 table ∧
      Option.Rel
        (SameCabinet fun folder => table + 8 * u16At (oneFolder 44) 26 ≤ folder.coffCabStart)
        (readCabinet (oneFolder 44)) (readCabinet out)) :=
  ⟨_, rfl, prepared_cabinet_relocated rfl⟩

/-- Cabinets with the same contents have the same data blocks. -/
theorem blocks_eq_of_same {cabinet cabinet' : Option Cabinet}
    (h : Option.Rel (SameCabinet fun _ => True) cabinet cabinet') :
    cabinet'.map (fun c => c.folders.map Prod.snd) =
      cabinet.map (fun c => c.folders.map Prod.snd) := by
  cases h with
  | none => rfl
  | some hsame =>
    rw [Option.map_some, Option.map_some]
    congr 1
    rw [← List.forall₂_eq_eq_eq, List.forall₂_map_left_iff, List.forall₂_map_right_iff]
    exact (hsame.folders.imp fun _ _ hfolder => hfolder.2.2 trivial).flip

/-- A folder whose data is at the beginning of the file is accepted.  Its data is read
from the header, and from another place of it after the preparation. -/
theorem prepared_data_in_header : ¬ ∀ data out signatureLen,
    prepareUnsignedCabForAuthenticodeSignature data signatureLen = .ok out →
      Option.Rel (SameCabinet fun _ => True) (readCabinet data) (readCabinet out) := by
  intro h
  have hblocks := blocks_eq_of_same (h (oneFolder 0) _ 0 rfl)
  revert hblocks
  decide

end Psign.Sip.Cab
