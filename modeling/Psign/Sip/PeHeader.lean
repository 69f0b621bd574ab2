import Psign.CodeLib.Bytes
import Psign.CodeLib.Outcome

/-!
# PE header fields

The header functions of `pe_embed.rs`: where the optional header starts, where
the `CheckSum` field and the security data directory are in the file, and what
the security data directory says.

The two fields are the only header bytes that embedding a signature rewrites.
`SameHeader` says that two images have the same header otherwise;
`peOptionalHeaderStart_congr` and `securitySlot_congr` say that the places of
the fields do not depend on what is in them.
-/

namespace Psign.Sip

open CodeLib CodeLib.Bytes

/-! ## Definitions -/

/-- `{:#x}`. -/
def hex (n : Nat) : String :=
  "0x" ++ String.ofList (Nat.toDigits 16 n)

/-- `pe_optional_header_start`: the offset of the optional header and its magic. -/
def peOptionalHeaderStart (pe : List UInt8) : Outcome (Nat × Nat) := do
  Outcome.guardThat (0x3c + 4 ≤ pe.length) "PE image too small"
  Outcome.guardThat (slice pe 0 2 = some [0x4d, 0x5a]) "missing MZ DOS stub"
  let peOff := u32At pe 0x3c
  Outcome.guardThat (peOff + 24 ≤ pe.length) "invalid e_lfanew"
  Outcome.guardThat (slice pe peOff (peOff + 4) = some [0x50, 0x45, 0, 0]) "missing PE signature"
  let optionalStart := peOff + 4 + 20
  Outcome.guardThat (optionalStart + 2 ≤ pe.length) "truncated optional header"
  return (optionalStart, u16At pe optionalStart)

/-- `data_directory_entry_offset`: the offset of the security data directory. -/
def dataDirectoryEntryOffset (optionalStart magic : Nat) : Outcome Nat :=
  if magic = 0x10b then .ok (optionalStart + 96 + 4 * 8)
  else if magic = 0x20b then .ok (optionalStart + 112 + 4 * 8)
  else Outcome.bail ("unsupported optional header magic " ++ hex magic)

/-- `number_of_rva_and_sizes_offset`. -/
def numberOfRvaAndSizesOffset (optionalStart magic : Nat) : Outcome Nat :=
  if magic = 0x10b then .ok (optionalStart + 92)
  else if magic = 0x20b then .ok (optionalStart + 108)
  else Outcome.bail ("unsupported optional header magic " ++ hex magic)

/-- `read_security_data_directory`: file offset and size of the certificate
table, both zero when there is none. -/
def readSecurityDataDirectory (pe : List UInt8) : Outcome (Nat × Nat) := do
  let (optionalStart, magic) ← peOptionalHeaderStart pe
  let numRvaOff ← numberOfRvaAndSizesOffset optionalStart magic
  Outcome.guardThat (numRvaOff + 4 ≤ pe.length) "truncated NumberOfRvaAndSizes"
  let num := u32At pe numRvaOff
  Outcome.guardThat (4 < num)
    s!"PE optional header has only {num} data directories (need security slot)"
  let ddOff ← dataDirectoryEntryOffset optionalStart magic
  Outcome.guardThat (ddOff + 8 ≤ pe.length) "truncated security data directory"
  return (u32At pe ddOff, u32At pe (ddOff + 4))

/-- `write_security_data_directory`. -/
def writeSecurityDataDirectory (pe : List UInt8) (certFilePtr certSize : Nat) :
    Outcome (List UInt8) := do
  let (optionalStart, magic) ← peOptionalHeaderStart pe
  let ddOff ← dataDirectoryEntryOffset optionalStart magic
  Outcome.guardThat (ddOff + 8 ≤ pe.length) "truncated security data directory (write)"
  return patch (patch pe ddOff (u32le certFilePtr)) (ddOff + 4) (u32le certSize)

/-- `pe_checksum_field_file_offset`. -/
def peChecksumFieldFileOffset (pe : List UInt8) : Outcome Nat := do
  let (optionalStart, _) ← peOptionalHeaderStart pe
  let off := optionalStart + 64
  Outcome.guardThat (off + 4 ≤ pe.length) "PE image truncated before Optional Header CheckSum"
  return off

/-! ## What the functions return -/

theorem peOptionalHeaderStart_eq_ok {pe : List UInt8} {optionalStart magic : Nat} :
    peOptionalHeaderStart pe = .ok (optionalStart, magic) ↔
      0x40 ≤ pe.length ∧ slice pe 0 2 = some [0x4d, 0x5a] ∧
      slice pe (u32At pe 0x3c) (u32At pe 0x3c + 4) = some [0x50, 0x45, 0, 0] ∧
      optionalStart = u32At pe 0x3c + 24 ∧ optionalStart + 2 ≤ pe.length ∧
      magic = u16At pe optionalStart := by
  simp only [peOptionalHeaderStart, Outcome.bind_eq_ok, Outcome.guardThat_eq_ok, exists_const,
    Outcome.pure_eq_ok, Except.ok.injEq, Prod.mk.injEq]
  constructor
  · rintro ⟨hsize, hmz, -, hpe, hopt, rfl, rfl⟩
    exact ⟨hsize, hmz, hpe, rfl, hopt, rfl⟩
  · rintro ⟨hsize, hmz, hpe, rfl, hopt, rfl⟩
    exact ⟨hsize, hmz, by omega, hpe, hopt, rfl, rfl⟩

/-- The offset of the security data directory behind the optional header: past
the `CheckSum` field and the number of directories. -/
theorem dataDirectoryEntryOffset_eq_ok {optionalStart magic ddOff : Nat}
    (h : dataDirectoryEntryOffset optionalStart magic = .ok ddOff) :
    ∃ numOff, numberOfRvaAndSizesOffset optionalStart magic = .ok numOff ∧
      optionalStart + 68 ≤ numOff ∧ numOff + 36 = ddOff := by
  unfold dataDirectoryEntryOffset at h
  unfold numberOfRvaAndSizesOffset
  split at h
  · rename_i hmagic
    obtain rfl := Except.ok.inj h
    exact ⟨_, if_pos hmagic, by omega, by omega⟩
  · rename_i hmagic
    split at h
    · rename_i hplus
      obtain rfl := Except.ok.inj h
      exact ⟨_, by rw [if_neg hmagic, if_pos hplus], by omega, by omega⟩
    · exact absurd h Outcome.bail_ne_ok

/-- The places of the two fields that embedding a signature rewrites. -/
structure SecuritySlot where
  /-- Offset of `CheckSum`, four bytes. -/
  checkSum : Nat
  /-- Offset of the security data directory, eight bytes. -/
  dataDir : Nat
  /-- The directory lies behind the number of directories, and this behind
  `CheckSum`. -/
  checkSum_le : checkSum + 40 ≤ dataDir
  /-- `CheckSum` lies behind the DOS header. -/
  le_checkSum : 0x40 ≤ checkSum
  deriving DecidableEq

/-- The slot of an image in whose optional header there is one. -/
def HasSlot (pe : List UInt8) (slot : SecuritySlot) : Prop :=
  ∃ optionalStart magic, peOptionalHeaderStart pe = .ok (optionalStart, magic) ∧
    slot.checkSum = optionalStart + 64 ∧
    dataDirectoryEntryOffset optionalStart magic = .ok slot.dataDir ∧
    slot.dataDir + 8 ≤ pe.length

theorem HasSlot.unique {pe : List UInt8} {slot slot' : SecuritySlot} (h : HasSlot pe slot)
    (h' : HasSlot pe slot') : slot = slot' := by
  obtain ⟨o, m, hstart, hcheck, hdir, -⟩ := h
  obtain ⟨o', m', hstart', hcheck', hdir', -⟩ := h'
  obtain ⟨rfl, rfl⟩ := Prod.mk.inj (Except.ok.inj (hstart.symm.trans hstart'))
  have hd := Except.ok.inj (hdir.symm.trans hdir')
  cases slot
  cases slot'
  rw [SecuritySlot.mk.injEq]
  exact ⟨hcheck.trans hcheck'.symm, hd⟩

/-- A directory that is read has a slot. -/
theorem exists_slot_of_read {pe : List UInt8} {va size : Nat}
    (h : readSecurityDataDirectory pe = .ok (va, size)) :
    ∃ slot, HasSlot pe slot ∧ va = u32At pe slot.dataDir ∧ size = u32At pe (slot.dataDir + 4) := by
  simp only [readSecurityDataDirectory, Outcome.bind_eq_ok, Outcome.guardThat_eq_ok, exists_const,
    Outcome.pure_eq_ok, Except.ok.injEq, Prod.mk.injEq] at h
  obtain ⟨⟨optionalStart, magic⟩, hstart, numOff, hnum, -, -, ddOff, hdd, hlen, rfl, rfl⟩ := h
  obtain ⟨-, -, -, hopt, -, -⟩ := peOptionalHeaderStart_eq_ok.mp hstart
  obtain ⟨numOff', -, hle, heq⟩ := dataDirectoryEntryOffset_eq_ok hdd
  refine ⟨⟨optionalStart + 64, ddOff, by omega, by omega⟩,
    ⟨optionalStart, magic, hstart, rfl, hdd, hlen⟩, rfl, rfl⟩

theorem writeSecurityDataDirectory_of_slot {pe : List UInt8} {slot : SecuritySlot}
    (h : HasSlot pe slot) (certFilePtr certSize : Nat) :
    writeSecurityDataDirectory pe certFilePtr certSize =
      .ok (patch (patch pe slot.dataDir (u32le certFilePtr)) (slot.dataDir + 4)
        (u32le certSize)) := by
  obtain ⟨optionalStart, magic, hstart, -, hdir, hlen⟩ := h
  simp only [writeSecurityDataDirectory, hstart, Outcome.ok_bind, hdir, Outcome.guardThat_of hlen,
    Outcome.pure_eq_ok]

theorem peChecksumFieldFileOffset_of_slot {pe : List UInt8} {slot : SecuritySlot}
    (h : HasSlot pe slot) : peChecksumFieldFileOffset pe = .ok slot.checkSum := by
  have hle := slot.checkSum_le
  obtain ⟨optionalStart, magic, hstart, hcheck, -, hlen⟩ := h
  have hfits : optionalStart + 64 + 4 ≤ pe.length := by omega
  simp only [peChecksumFieldFileOffset, hstart, Outcome.ok_bind, Outcome.guardThat_of hfits,
    Outcome.pure_eq_ok, hcheck]

/-! ## Images with the same header -/

/-- Two images have the same bytes up to `stop`, those of the two fields apart. -/
def SameHeader (slot : SecuritySlot) (stop : Nat) (pe pe' : List UInt8) : Prop :=
  SameOn pe pe' 0 slot.checkSum ∧ SameOn pe pe' (slot.checkSum + 4) slot.dataDir ∧
    SameOn pe pe' (slot.dataDir + 8) stop

theorem peOptionalHeaderStart_congr {pe pe' : List UInt8} {optionalStart magic : Nat}
    (hstart : peOptionalHeaderStart pe = .ok (optionalStart, magic))
    (hsame : SameOn pe pe' 0 (optionalStart + 64)) (hlen : optionalStart + 2 ≤ pe'.length) :
    peOptionalHeaderStart pe' = .ok (optionalStart, magic) := by
  obtain ⟨hsize, hmz, hpe, rfl, hopt, rfl⟩ := peOptionalHeaderStart_eq_ok.mp hstart
  have hlfanew : u32At pe 0x3c = u32At pe' 0x3c :=
    u32At_congr (hsame.mono (Nat.zero_le _) (by omega))
  have hsize' : 0x40 ≤ pe'.length := by
    by_contra hshort
    -- the last byte of `e_lfanew` is in the one image and so in the other
    have hsame63 := hsame 63 (Nat.zero_le _) (by omega)
    have hout : pe'[63]? = none := List.getElem?_eq_none (by omega)
    rw [hout, List.getElem?_eq_none_iff] at hsame63
    omega
  refine peOptionalHeaderStart_eq_ok.mpr ⟨hsize', ?_, ?_, by rw [hlfanew], by omega, ?_⟩
  · rw [← slice_congr (hsame.mono (Nat.zero_le _) (by omega)) (by omega) (by omega), hmz]
  · rw [← hlfanew, ← slice_congr (hsame.mono (Nat.zero_le _) (by omega)) (by omega) (by omega), hpe]
  · exact u16At_congr (hsame.mono (Nat.zero_le _) (by omega))

/-- The slot stays where it is when only the two fields change. -/
theorem HasSlot.congr {pe pe' : List UInt8} {slot : SecuritySlot} {stop : Nat}
    (h : HasSlot pe slot) (hsame : SameHeader slot stop pe pe')
    (hlen : slot.dataDir + 8 ≤ pe'.length) : HasSlot pe' slot := by
  obtain ⟨optionalStart, magic, hstart, hcheck, hdir, -⟩ := h
  have hle := slot.checkSum_le
  refine ⟨optionalStart, magic, ?_, hcheck, hdir, hlen⟩
  exact peOptionalHeaderStart_congr hstart (hcheck ▸ hsame.1) (by omega)

/-- An image with the header of one whose directory is read has a directory, and
it is what its slot says. -/
theorem readSecurityDataDirectory_congr {pe pe' : List UInt8} {slot : SecuritySlot}
    {stop va size : Nat} (hread : readSecurityDataDirectory pe = .ok (va, size))
    (h : HasSlot pe slot) (hsame : SameHeader slot stop pe pe')
    (hlen : slot.dataDir + 8 ≤ pe'.length) :
    readSecurityDataDirectory pe' =
      .ok (u32At pe' slot.dataDir, u32At pe' (slot.dataDir + 4)) := by
  simp only [readSecurityDataDirectory, Outcome.bind_eq_ok, Outcome.guardThat_eq_ok, exists_const,
    Outcome.pure_eq_ok, Except.ok.injEq, Prod.mk.injEq] at hread
  obtain ⟨⟨optionalStart, magic⟩, hstart, numOff, hnum, -, hcount, ddOff, hdd, -, -, -⟩ := hread
  obtain ⟨optionalStart', magic', hstart', hcheck, hdir, -⟩ := h
  obtain ⟨rfl, rfl⟩ := Prod.mk.inj (Except.ok.inj (hstart.symm.trans hstart'))
  obtain rfl := Except.ok.inj (hdd.symm.trans hdir)
  obtain ⟨numOff', hnum', hle, heq⟩ := dataDirectoryEntryOffset_eq_ok hdd
  obtain rfl := Except.ok.inj (hnum.symm.trans hnum')
  have hcount' : u32At pe numOff = u32At pe' numOff :=
    u32At_congr (hsame.2.1.mono (by omega) (by omega))
  have hstart' := peOptionalHeaderStart_congr hstart (hcheck ▸ hsame.1) (by omega)
  simp only [readSecurityDataDirectory, hstart', Outcome.ok_bind, hnum,
    Outcome.guardThat_of (show numOff + 4 ≤ pe'.length by omega),
    Outcome.guardThat_of (hcount' ▸ hcount), hdd, Outcome.guardThat_of hlen, Outcome.pure_eq_ok]

end Psign.Sip
