import Mathlib.Data.List.Sort
import Psign.Sip.Digest
import Psign.Sip.PeHeader

/-!
# The bytes of a PE image that are hashed

`pe_digest.rs`: the file ranges that an Authenticode digest covers.  These are
the headers without the `CheckSum` field and the security data directory, the
sections in the order of their file offsets, and what follows them up to the
certificate table.

The image is parsed by the `object` and `authenticode` crates, which are a
parameter: a `PeParser` gives the header offsets, the file ranges of the
sections and of the certificate table.  Its laws are what the crates document:
the offsets are those of the PE format, the table range is what the security
data directory says, and nothing else is read but the headers up to the end of
the section table.
-/

namespace Psign.Sip

open CodeLib CodeLib.Bytes

/-! ## The parser -/

/-- A file range `start..end`. -/
abbrev FileRange := Nat × Nat

/-- `PeOffsets` of the `authenticode` crate. -/
structure PeOffsets where
  checkSum : Nat
  afterCheckSum : Nat
  securityDataDir : Nat
  afterSecurityDataDir : Nat
  afterHeader : Nat
  deriving DecidableEq

/-- What the digest reads of a parsed image through `PeTrait`; `none` is a
`PeOffsetError`. -/
structure ParsedPe where
  offsets : Option PeOffsets
  /-- `section_data_range` of each section. -/
  sections : List (Option FileRange)
  certificateTableRange : Option (Option FileRange)
  /-- The end of the section table, past which the parser reads nothing. -/
  headersEnd : Nat
  deriving DecidableEq

/-- `ParsedPe::parse` and the crates behind it. -/
structure PeParser where
  parse : List UInt8 → Outcome ParsedPe
  /-- The offsets are those of the fields in the file. -/
  offsets_of_parse : ∀ {pe parsed offsets}, parse pe = .ok parsed → parsed.offsets = some offsets →
    ∃ slot, HasSlot pe slot ∧ offsets.checkSum = slot.checkSum ∧
      offsets.afterCheckSum = slot.checkSum + 4 ∧ offsets.securityDataDir = slot.dataDir ∧
      offsets.afterSecurityDataDir = slot.dataDir + 8
  /-- The table range is what the security data directory says. -/
  table_of_parse : ∀ {pe parsed va size}, parse pe = .ok parsed →
    readSecurityDataDirectory pe = .ok (va, size) →
    parsed.certificateTableRange = some (if va = 0 then none else some (va, va + size))
  /-- The security data directory is in front of the section table. -/
  slot_of_parse : ∀ {pe parsed slot}, parse pe = .ok parsed → HasSlot pe slot →
    slot.dataDir + 8 ≤ parsed.headersEnd
  /-- The headers are in the file. -/
  headers_of_parse : ∀ {pe parsed}, parse pe = .ok parsed → parsed.headersEnd ≤ pe.length
  /-- Other headers and sections are found only in an image with other headers. -/
  parse_congr : ∀ {pe pe' parsed slot}, parse pe = .ok parsed → HasSlot pe slot →
    SameHeader slot parsed.headersEnd pe pe' → parsed.headersEnd ≤ pe'.length →
    ∃ parsed', parse pe' = .ok parsed' ∧ parsed'.offsets = parsed.offsets ∧
      parsed'.sections = parsed.sections ∧ parsed'.headersEnd = parsed.headersEnd

/-! ## The hashed ranges -/

/-- `usize::checked_add`. -/
def checkedAdd (a b : Nat) : Option Nat :=
  if a + b < 2 ^ 64 then some (a + b) else none

/-- `usize::checked_sub`. -/
def checkedSub (a b : Nat) : Option Nat :=
  if b ≤ a then some (a - b) else none

/-- `sections.sort_unstable_by_key(|r| r.start)`. -/
def sortByStart (sections : List FileRange) : List FileRange :=
  sections.insertionSort fun r r' => r.1 ≤ r'.1

/-- The loop over the sections: `sum_of_bytes_hashed` after all of them. -/
def sumSections (data : List UInt8) : List FileRange → Nat → Option Nat
  | [], sum => some sum
  | r :: rest, sum => do
      let bytes ← slice data r.1 r.2
      let sum ← checkedAdd sum bytes.length
      sumSections data rest sum

/-- The size that is subtracted for the certificate table. -/
def tableSize (table : Option FileRange) : Option Nat :=
  match table with
  | some r => checkedSub r.2 r.1
  | none => some 0

/-- `authenticode_digest_file_ranges`. -/
def authenticodeDigestFileRanges (data : List UInt8) (pe : ParsedPe) : Option (List FileRange) := do
  let offsets ← pe.offsets
  let head := [(0, offsets.checkSum), (offsets.afterCheckSum, offsets.securityDataDir),
    (offsets.afterSecurityDataDir, offsets.afterHeader)]
  let sections ← pe.sections.mapM id
  let sections := sortByStart sections
  let sumOfBytesHashed ← sumSections data sections offsets.afterHeader
  let extraHashLen ← checkedSub data.length sumOfBytesHashed
  let table ← pe.certificateTableRange
  let size ← tableSize table
  let extraHashLen ← checkedSub extraHashLen size
  let tailEnd ← checkedAdd sumOfBytesHashed extraHashLen
  let _ ← slice data sumOfBytesHashed tailEnd
  return head ++ sections ++ [(sumOfBytesHashed, tailEnd)]

variable (parser : PeParser)

/-- `pe_authenticode_digest_file_ranges`. -/
def peAuthenticodeDigestFileRanges (image : List UInt8) : Outcome (List FileRange) := do
  let pe ← parser.parse image
  Outcome.ofOption (authenticodeDigestFileRanges image pe)
    "PE layout invalid for Authenticode digest ranges (checksum/security-directory offsets)"

/-- The concatenation of file ranges. -/
def concatRanges (image : List UInt8) : List FileRange → Option (List UInt8)
  | [] => some []
  | r :: rest => do
      let bytes ← slice image r.1 r.2
      let others ← concatRanges image rest
      return bytes ++ others

/-- The bytes that `pe_authenticode_digest` hashes: the ranges one after the other. -/
def digestStream (image : List UInt8) : Outcome (List UInt8) := do
  let ranges ← peAuthenticodeDigestFileRanges parser image
  Outcome.ofOption (concatRanges image ranges) "authenticode_digest failed"

/-- `pe_authenticode_digest`. -/
def peAuthenticodeDigest (hashes : Hashes) (image : List UInt8) (kind : PeAuthenticodeHashKind) :
    Outcome (List UInt8) := do
  let stream ← digestStream parser image
  return hashes.hash kind stream

/-! ## What the loop computes -/

/-- The bytes of a list of ranges. -/
def totalLength (ranges : List FileRange) : Nat :=
  (ranges.map fun r => r.2 - r.1).sum

theorem sumSections_eq_some {data : List UInt8} {sections : List FileRange} {start sum : Nat}
    (h : sumSections data sections start = some sum) :
    sum = start + totalLength sections ∧ ∀ r ∈ sections, r.1 ≤ r.2 ∧ r.2 ≤ data.length := by
  induction sections generalizing start with
  | nil =>
    obtain rfl := Option.some.inj h
    exact ⟨rfl, by simp⟩
  | cons r rest ih =>
    simp only [sumSections, Option.bind_eq_bind, Option.bind_eq_some_iff] at h
    obtain ⟨bytes, hbytes, next, hnext, hrest⟩ := h
    obtain ⟨rfl, hin⟩ := ih hrest
    have hlength := length_of_slice hbytes
    obtain ⟨hle, hend, -⟩ := slice_eq_some.mp hbytes
    unfold checkedAdd at hnext
    split at hnext
    · have hnext := Option.some.inj hnext
      refine ⟨?_, ?_⟩
      · simp only [totalLength, List.map_cons, List.sum_cons]
        omega
      · intro r' hr'
        rcases List.mem_cons.mp hr' with rfl | hmem
        · exact ⟨hle, hend⟩
        · exact hin r' hmem
    · cases hnext

/-- The loop computes the same on an image that is not shorter. -/
theorem sumSections_mono {data data' : List UInt8} (hlen : data.length ≤ data'.length)
    {sections : List FileRange} {start sum : Nat}
    (h : sumSections data sections start = some sum) :
    sumSections data' sections start = some sum := by
  induction sections generalizing start with
  | nil => exact h
  | cons r rest ih =>
    simp only [sumSections, Option.bind_eq_bind, Option.bind_eq_some_iff] at h ⊢
    obtain ⟨bytes, hbytes, next, hnext, hrest⟩ := h
    obtain ⟨hle, hend, -⟩ := slice_eq_some.mp hbytes
    have hbytes' := slice_eq_some.mpr ⟨hle, Nat.le_trans hend hlen, rfl⟩
    refine ⟨_, hbytes', next, ?_, ih hrest⟩
    rw [length_of_slice hbytes', ← length_of_slice hbytes]
    exact hnext

/-- The ranges, when the layout is valid. -/
theorem authenticodeDigestFileRanges_eq_some {data : List UInt8} {pe : ParsedPe}
    {ranges : List FileRange} :
    authenticodeDigestFileRanges data pe = some ranges ↔
      ∃ offsets sections sum table size, pe.offsets = some offsets ∧
        pe.sections.mapM id = some sections ∧
        sumSections data (sortByStart sections) offsets.afterHeader = some sum ∧
        pe.certificateTableRange = some table ∧ tableSize table = some size ∧
        sum + size ≤ data.length ∧ data.length - size < 2 ^ 64 ∧
        ranges = [(0, offsets.checkSum), (offsets.afterCheckSum, offsets.securityDataDir),
          (offsets.afterSecurityDataDir, offsets.afterHeader)] ++ sortByStart sections ++
          [(sum, data.length - size)] := by
  simp only [authenticodeDigestFileRanges, Option.bind_eq_bind, Option.bind_eq_some_iff,
    checkedSub, checkedAdd, Option.ite_none_right_eq_some, Option.some.injEq, Option.pure_def]
  constructor
  · rintro ⟨offsets, hoffsets, sections, hsections, sum, hsum, extra, ⟨hle, rfl⟩, table, htable,
      size, hsize, rest, ⟨hfit, rfl⟩, tailEnd, ⟨hadd, rfl⟩, tail, -, rfl⟩
    have htail : sum + (data.length - sum - size) = data.length - size := by omega
    refine ⟨offsets, sections, sum, table, size, hoffsets, hsections, hsum, htable, hsize,
      by omega, by omega, ?_⟩
    rw [htail]
  · rintro ⟨offsets, sections, sum, table, size, hoffsets, hsections, hsum, htable, hsize, hfit,
      hadd, rfl⟩
    have htail : sum + (data.length - sum - size) = data.length - size := by omega
    refine ⟨offsets, hoffsets, sections, hsections, sum, hsum, _, ⟨by omega, rfl⟩, table, htable,
      size, hsize, _, ⟨by omega, rfl⟩, _, ⟨by omega, rfl⟩, _,
      slice_eq_some.mpr ⟨by omega, by omega, rfl⟩, ?_⟩
    rw [htail]

/-! ## Concatenation -/

theorem concatRanges_cons_eq_some {image stream : List UInt8} {r : FileRange}
    {rest : List FileRange} :
    concatRanges image (r :: rest) = some stream ↔
      ∃ bytes others, slice image r.1 r.2 = some bytes ∧ concatRanges image rest = some others ∧
        stream = bytes ++ others := by
  simp only [concatRanges, Option.bind_eq_bind, Option.bind_eq_some_iff, Option.pure_def,
    Option.some.injEq]
  constructor
  · rintro ⟨bytes, hbytes, others, hothers, rfl⟩
    exact ⟨bytes, others, hbytes, hothers, rfl⟩
  · rintro ⟨bytes, others, hbytes, hothers, rfl⟩
    exact ⟨bytes, hbytes, others, hothers, rfl⟩

theorem length_concatRanges {image stream : List UInt8} {ranges : List FileRange}
    (h : concatRanges image ranges = some stream) : stream.length = totalLength ranges := by
  induction ranges generalizing stream with
  | nil =>
    obtain rfl := Option.some.inj h
    rfl
  | cons r rest ih =>
    obtain ⟨bytes, others, hbytes, hothers, rfl⟩ := concatRanges_cons_eq_some.mp h
    rw [List.length_append, length_of_slice hbytes, ih hothers]
    rfl

theorem valid_of_concatRanges {image stream : List UInt8} {ranges : List FileRange}
    (h : concatRanges image ranges = some stream) :
    ∀ r ∈ ranges, r.1 ≤ r.2 ∧ r.2 ≤ image.length := by
  induction ranges generalizing stream with
  | nil => simp
  | cons r rest ih =>
    obtain ⟨bytes, others, hbytes, hothers, rfl⟩ := concatRanges_cons_eq_some.mp h
    intro r' hr'
    rcases List.mem_cons.mp hr' with rfl | hmem
    · obtain ⟨hle, hend, -⟩ := slice_eq_some.mp hbytes
      exact ⟨hle, hend⟩
    · exact ih hothers r' hmem

/-- Ranges in which two images agree have the same concatenation. -/
theorem concatRanges_congr {image image' : List UInt8} {ranges : List FileRange}
    (h : ∀ r ∈ ranges, slice image r.1 r.2 = slice image' r.1 r.2) :
    concatRanges image ranges = concatRanges image' ranges := by
  induction ranges with
  | nil => rfl
  | cons r rest ih =>
    rw [concatRanges, concatRanges, h r List.mem_cons_self,
      ih fun r' hr' => h r' (List.mem_cons_of_mem _ hr')]

/-- The stream of an image, range by range. -/
theorem digestStream_eq_ok {image stream : List UInt8} :
    digestStream parser image = .ok stream ↔
      ∃ pe ranges, parser.parse image = .ok pe ∧
        authenticodeDigestFileRanges image pe = some ranges ∧
        concatRanges image ranges = some stream := by
  simp only [digestStream, peAuthenticodeDigestFileRanges, Outcome.bind_eq_ok,
    Outcome.ofOption_eq_ok]
  constructor
  · rintro ⟨ranges, ⟨pe, hpe, hranges⟩, hstream⟩
    exact ⟨pe, ranges, hpe, hranges, hstream⟩
  · rintro ⟨pe, ranges, hpe, hranges, hstream⟩
    exact ⟨ranges, ⟨pe, hpe, hranges⟩, hstream⟩

/-! ## A parser that reads the headers -/

/-- `IMAGE_SECTION_HEADER`: the file range of the raw data, as far as it is mapped. -/
def sectionDataRange (pe : List UInt8) (header : Nat) : FileRange :=
  (u32At pe (header + 20),
    u32At pe (header + 20) + min (u32At pe (header + 8)) (u32At pe (header + 16)))

/-- The layout as the headers give it, for an image whose optional header holds
the data directories and whose section table is in the file. -/
def parseHeaders (pe : List UInt8) : Outcome ParsedPe := do
  let (optionalStart, magic) ← peOptionalHeaderStart pe
  let ddOff ← dataDirectoryEntryOffset optionalStart magic
  let sectionTable := optionalStart + u16At pe (optionalStart - 4)
  let count := u16At pe (optionalStart - 18)
  Outcome.guardThat (ddOff + 8 ≤ sectionTable) "Invalid PE number of data directories"
  Outcome.guardThat (sectionTable + 40 * count ≤ pe.length) "Invalid COFF/PE section headers"
  return {
    offsets := some ⟨optionalStart + 64, optionalStart + 68, ddOff, ddOff + 8,
      u32At pe (optionalStart + 60)⟩
    sections := (List.range count).map fun i => some (sectionDataRange pe (sectionTable + 40 * i))
    certificateTableRange :=
      match readSecurityDataDirectory pe with
      | .ok (va, size) => some (if va = 0 then none else some (va, va + size))
      | .error _ => some none
    headersEnd := sectionTable + 40 * count }

/-- A successful parse, field by field. -/
theorem parseHeaders_eq_ok {pe : List UInt8} {parsed : ParsedPe} (h : parseHeaders pe = .ok parsed) :
    ∃ optionalStart magic ddOff, peOptionalHeaderStart pe = .ok (optionalStart, magic) ∧
      dataDirectoryEntryOffset optionalStart magic = .ok ddOff ∧
      ddOff + 8 ≤ optionalStart + u16At pe (optionalStart - 4) ∧
      parsed.headersEnd ≤ pe.length ∧
      parsed.offsets = some ⟨optionalStart + 64, optionalStart + 68, ddOff, ddOff + 8,
        u32At pe (optionalStart + 60)⟩ ∧
      parsed.sections = (List.range (u16At pe (optionalStart - 18))).map (fun i =>
        some (sectionDataRange pe (optionalStart + u16At pe (optionalStart - 4) + 40 * i))) ∧
      parsed.certificateTableRange = (match readSecurityDataDirectory pe with
        | .ok (va, size) => some (if va = 0 then none else some (va, va + size))
        | .error _ => some none) ∧
      parsed.headersEnd = optionalStart + u16At pe (optionalStart - 4) +
        40 * u16At pe (optionalStart - 18) := by
  simp only [parseHeaders, Outcome.bind_eq_ok, Outcome.guardThat_eq_ok, exists_const,
    Outcome.pure_eq_ok, Except.ok.injEq] at h
  obtain ⟨⟨optionalStart, magic⟩, hstart, ddOff, hdd, hdir, hend, rfl⟩ := h
  exact ⟨optionalStart, magic, ddOff, hstart, hdd, hdir, hend, rfl, rfl, rfl, rfl⟩

theorem sectionDataRange_congr {pe pe' : List UInt8} {header : Nat}
    (h : SameOn pe pe' header (header + 40)) :
    sectionDataRange pe header = sectionDataRange pe' header := by
  have hpointer : u32At pe (header + 20) = u32At pe' (header + 20) :=
    u32At_congr (h.mono (by omega) (by omega))
  have hvirtual : u32At pe (header + 8) = u32At pe' (header + 8) :=
    u32At_congr (h.mono (by omega) (by omega))
  have hraw : u32At pe (header + 16) = u32At pe' (header + 16) :=
    u32At_congr (h.mono (by omega) (by omega))
  rw [sectionDataRange, sectionDataRange, hpointer, hvirtual, hraw]

/-- The parse of an image with the same headers. -/
theorem parseHeaders_congr {pe pe' : List UInt8} {parsed : ParsedPe} {slot : SecuritySlot}
    (h : parseHeaders pe = .ok parsed) (hslot : HasSlot pe slot)
    (hsame : SameHeader slot parsed.headersEnd pe pe') (hlen : parsed.headersEnd ≤ pe'.length) :
    ∃ parsed', parseHeaders pe' = .ok parsed' ∧ parsed'.offsets = parsed.offsets ∧
      parsed'.sections = parsed.sections ∧ parsed'.headersEnd = parsed.headersEnd := by
  obtain ⟨optionalStart, magic, ddOff, hstart, hdd, hdir, hend, hoff, hsections, -, hheaders⟩ :=
    parseHeaders_eq_ok h
  obtain ⟨_, _, hstart', hcheck, hdd', -⟩ := hslot
  obtain ⟨rfl, rfl⟩ := Prod.mk.inj (Except.ok.inj (hstart.symm.trans hstart'))
  obtain rfl := Except.ok.inj (hdd.symm.trans hdd')
  obtain ⟨-, -, -, hopt, -, -⟩ := peOptionalHeaderStart_eq_ok.mp hstart
  have hle := slot.checkSum_le
  obtain ⟨hfront, -, hback⟩ := hsame
  rw [hcheck] at hfront
  have hsize : u16At pe (optionalStart - 4) = u16At pe' (optionalStart - 4) :=
    u16At_congr (hfront.mono (by omega) (by omega))
  have hcount : u16At pe (optionalStart - 18) = u16At pe' (optionalStart - 18) :=
    u16At_congr (hfront.mono (by omega) (by omega))
  have hheader : u32At pe (optionalStart + 60) = u32At pe' (optionalStart + 60) :=
    u32At_congr (hfront.mono (by omega) (by omega))
  have hstartOut := peOptionalHeaderStart_congr hstart hfront (by omega)
  simp only [parseHeaders, hstartOut, Outcome.ok_bind, hdd, ← hsize, ← hcount,
    Outcome.guardThat_of hdir, Outcome.guardThat_of (hheaders ▸ hlen), Outcome.pure_eq_ok]
  refine ⟨_, rfl, by rw [hoff, hheader], ?_, hheaders.symm⟩
  rw [hsections]
  refine List.map_congr_left fun i hi => ?_
  have hi := List.mem_range.mp hi
  -- the section table lies between the security data directory and the end of the headers
  rw [sectionDataRange_congr (hback.mono (by omega) (by omega)).symm]

/-- The parser that reads the headers. -/
def PeParser.headers : PeParser where
  parse := parseHeaders
  offsets_of_parse {pe parsed offsets} h hoffsets := by
    obtain ⟨optionalStart, magic, ddOff, hstart, hdd, hdir, hend, hoff, -, -, hheaders⟩ :=
      parseHeaders_eq_ok h
    obtain rfl := Option.some.inj (hoffsets.symm.trans hoff)
    obtain ⟨-, -, -, hopt, -, -⟩ := peOptionalHeaderStart_eq_ok.mp hstart
    obtain ⟨numOff, -, hle, heq⟩ := dataDirectoryEntryOffset_eq_ok hdd
    exact ⟨⟨optionalStart + 64, ddOff, by omega, by omega⟩,
      ⟨optionalStart, magic, hstart, rfl, hdd, by show ddOff + 8 ≤ pe.length; omega⟩, rfl, rfl, rfl, rfl⟩
  table_of_parse {pe parsed va size} h hread := by
    obtain ⟨_, _, _, -, -, -, -, -, -, htable, -⟩ := parseHeaders_eq_ok h
    rw [htable, hread]
  slot_of_parse {pe parsed slot} h hslot := by
    obtain ⟨optionalStart, magic, ddOff, hstart, hdd, hdir, -, -, -, -, hheaders⟩ :=
      parseHeaders_eq_ok h
    obtain ⟨_, _, hstart', -, hdd', -⟩ := hslot
    obtain ⟨rfl, rfl⟩ := Prod.mk.inj (Except.ok.inj (hstart.symm.trans hstart'))
    have hd := Except.ok.inj (hdd.symm.trans hdd')
    omega
  headers_of_parse h := by
    obtain ⟨_, _, _, -, -, -, hend, -⟩ := parseHeaders_eq_ok h
    exact hend
  parse_congr := parseHeaders_congr

end Psign.Sip
