import Psign.Sip.VerifyPe

/-!
# Which bytes of a PE image the digest covers

The last range that is hashed starts where the counted bytes end, behind as many bytes
past the headers as the sections have (`authenticodeDigestFileRanges`).  This is the end of
the last section only when the sections follow one another; and the range leaves out as
many bytes at the end of the file as the certificate table has, wherever the table is.

`coveredOnce_iff` says which layouts the ranges cover byte by byte: those in which the
sections and the table take up exactly what the count leaves to them.  An image with such a
layout, whose section headers are hashed, is the only one of its length that its signature
fits (`sameElsewhere_of_coveredOnce`).
-/

namespace Psign.Sip

open CodeLib CodeLib.Bytes

/-! ## Layouts -/

/-- How many of the ranges hold the byte at `i`. -/
def timesCovered (ranges : List FileRange) (i : Nat) : Nat :=
  ranges.countP fun r => r.1 ≤ i ∧ i < r.2

/-- Where the fields, the sections and the certificate table of an image are. -/
structure PeLayout where
  slot : SecuritySlot
  sizeOfHeaders : Nat
  /-- The end of the section headers. -/
  headersEnd : Nat
  /-- The raw data of the sections in the order of their offsets. -/
  sections : List FileRange
  va : Nat
  size : Nat

namespace PeLayout

/-- The range of the certificate table. -/
def table (layout : PeLayout) : FileRange :=
  (layout.va, layout.va + layout.size)

/-- The ranges that the digest leaves out: the two fields and the table. -/
def excluded (layout : PeLayout) : List FileRange :=
  [(layout.slot.checkSum, layout.slot.checkSum + 4), (layout.slot.dataDir, layout.slot.dataDir + 8),
    layout.table]

/-- `sum_of_bytes_hashed` behind the sections. -/
def counted (layout : PeLayout) : Nat :=
  layout.sizeOfHeaders + totalLength layout.sections

end PeLayout

/-- The layout as the parser reports it. -/
structure HasLayout (parser : PeParser) (image : List UInt8) (layout : PeLayout) : Prop where
  hasSlot : HasSlot image layout.slot
  directory : readSecurityDataDirectory image = .ok (layout.va, layout.size)
  parsed : ∃ pe offsets sections, parser.parse image = .ok pe ∧ pe.offsets = some offsets ∧
    offsets.afterHeader = layout.sizeOfHeaders ∧ pe.headersEnd = layout.headersEnd ∧
    pe.sections.mapM id = some sections ∧ sortByStart sections = layout.sections

/-- Every byte of the file is in one of the hashed ranges or in one that is left out, and in
no two. -/
def CoveredOnce (image : List UInt8) (ranges : List FileRange) (layout : PeLayout) : Prop :=
  ∀ i < image.length, timesCovered (ranges ++ layout.excluded) i = 1

/-- The sections and the table take up each byte once of those that follow the headers, as
many as the sections have, and of the last ones, as many as the table has; and no other byte. -/
def FitsCount (image : List UInt8) (layout : PeLayout) : Prop :=
  ∀ i < image.length, timesCovered (layout.table :: layout.sections) i =
    if layout.sizeOfHeaders ≤ i ∧ i < layout.counted ∨ image.length - layout.size ≤ i then 1 else 0

/-- The ranges that are not empty follow one another from `start` on. -/
def Tiles : Nat → List FileRange → Prop
  | _, [] => True
  | start, r :: rest => if r.2 ≤ r.1 then Tiles start rest else r.1 = start ∧ Tiles r.2 rest

/-- The sections follow one another behind the headers, and the table ends the file. -/
def Ordinary (image : List UInt8) (layout : PeLayout) : Prop :=
  Tiles layout.sizeOfHeaders layout.sections ∧ layout.va + layout.size = image.length

/-! ## Counting -/

theorem timesCovered_append (ranges ranges' : List FileRange) (i : Nat) :
    timesCovered (ranges ++ ranges') i = timesCovered ranges i + timesCovered ranges' i :=
  List.countP_append

theorem timesCovered_cons (r : FileRange) (ranges : List FileRange) (i : Nat) :
    timesCovered (r :: ranges) i = timesCovered ranges i + if r.1 ≤ i ∧ i < r.2 then 1 else 0 := by
  rw [timesCovered, List.countP_cons]
  simp only [decide_eq_true_eq]
  rfl

@[simp] theorem timesCovered_nil (i : Nat) : timesCovered [] i = 0 := rfl

/-- A byte that is covered is in a range. -/
theorem exists_mem_of_timesCovered {ranges : List FileRange} {i : Nat}
    (h : timesCovered ranges i ≠ 0) : ∃ r ∈ ranges, r.1 ≤ i ∧ i < r.2 := by
  obtain ⟨r, hr, hin⟩ := List.countP_pos_iff.mp (Nat.pos_of_ne_zero h)
  exact ⟨r, hr, of_decide_eq_true hin⟩

/-- The headers with the two fields are one range. -/
theorem timesCovered_headers {cs dd stop : Nat} (hcs : cs + 4 ≤ dd) (hdd : dd + 8 ≤ stop) (i : Nat) :
    timesCovered [(0, cs), (cs + 4, dd), (dd + 8, stop)] i +
      timesCovered [(cs, cs + 4), (dd, dd + 8)] i = if i < stop then 1 else 0 := by
  simp only [timesCovered_cons, timesCovered_nil]
  split_ifs <;> omega

theorem timesCovered_of_tiles {ranges : List FileRange} {start : Nat} (h : Tiles start ranges)
    (i : Nat) : timesCovered ranges i =
      if start ≤ i ∧ i < start + totalLength ranges then 1 else 0 := by
  induction ranges generalizing start with
  | nil =>
    rw [timesCovered_nil, if_neg]
    show ¬ (start ≤ i ∧ i < start + 0)
    omega
  | cons r rest ih =>
    have htotal : totalLength (r :: rest) = r.2 - r.1 + totalLength rest := rfl
    unfold Tiles at h
    rw [timesCovered_cons, htotal]
    by_cases hempty : r.2 ≤ r.1
    · rw [if_pos hempty] at h
      rw [ih h, if_neg (show ¬ (r.1 ≤ i ∧ i < r.2) by omega), Nat.sub_eq_zero_of_le hempty, Nat.zero_add,
        Nat.add_zero]
    · rw [if_neg hempty] at h
      rw [ih h.2]
      have hstart := h.1
      split_ifs <;> omega

/-! ## The stream of a layout -/

section stream

variable {parser : PeParser} {image image' stream stream' : List UInt8} {ranges : List FileRange}
  {layout layout' : PeLayout}

/-- The ranges that are hashed, in their order. -/
def PeLayout.hashed (layout : PeLayout) (len : Nat) : List FileRange :=
  [(0, layout.slot.checkSum), (layout.slot.checkSum + 4, layout.slot.dataDir),
    (layout.slot.dataDir + 8, layout.sizeOfHeaders)] ++ layout.sections ++
    [(layout.counted, len - layout.size)]

/-- An image with a table has the ranges of its layout. -/
theorem ranges_eq (hlayout : HasLayout parser image layout) (hva : layout.va ≠ 0)
    (h : peAuthenticodeDigestFileRanges parser image = .ok ranges) :
    ranges = layout.hashed image.length ∧ layout.counted + layout.size ≤ image.length := by
  obtain ⟨hslot, hread, pe, offsets, sections, hparse, hoffsets, hafter, _, hmapM, hsorted⟩ := hlayout
  simp only [peAuthenticodeDigestFileRanges, hparse, Outcome.ok_bind, Outcome.ofOption_eq_ok] at h
  obtain ⟨offsets', sections', sum, table, tsize, hoffsets', hmapM', hsum, htable, htsize, hfit, _,
    hshape⟩ := authenticodeDigestFileRanges_eq_some.mp h
  obtain rfl := Option.some.inj (hoffsets.symm.trans hoffsets')
  obtain rfl := Option.some.inj (hmapM.symm.trans hmapM')
  rw [parser.table_of_parse hparse hread, if_neg hva] at htable
  obtain rfl := Option.some.inj htable
  obtain rfl : layout.size = tsize := by
    rw [tableSize_some] at htsize
    exact Option.some.inj htsize
  obtain ⟨slot, hslot', hcheck, hafterCheck, hdir, hafterDir⟩ := parser.offsets_of_parse hparse hoffsets
  obtain rfl := hslot.unique hslot'
  have hcounted : sum = layout.counted := by
    rw [PeLayout.counted, ← hafter, ← hsorted]
    exact (sumSections_eq_some hsum).1
  rw [hshape, hcheck, hafterCheck, hdir, hafterDir, hafter, hsorted, hcounted]
  exact ⟨rfl, hcounted ▸ hfit⟩

/-- What is hashed is the concatenation of these ranges, and they lie in the file. -/
theorem concatRanges_of_stream (hlayout : HasLayout parser image layout) (hva : layout.va ≠ 0)
    (h : digestStream parser image = .ok stream) :
    concatRanges image (layout.hashed image.length) = some stream ∧
      layout.counted + layout.size ≤ image.length := by
  simp only [digestStream, Outcome.bind_eq_ok, Outcome.ofOption_eq_ok] at h
  obtain ⟨ranges, hranges, hconcat⟩ := h
  obtain ⟨rfl, hfit⟩ := ranges_eq hlayout hva hranges
  exact ⟨hconcat, hfit⟩

/-- The security data directory of a hashed image lies in its headers. -/
theorem dataDir_le (hconcat : concatRanges image (layout.hashed image.length) = some stream) :
    layout.slot.dataDir + 8 ≤ layout.sizeOfHeaders ∧ layout.sizeOfHeaders ≤ image.length :=
  valid_of_concatRanges hconcat (layout.slot.dataDir + 8, layout.sizeOfHeaders)
    (by simp [PeLayout.hashed])

/-- Which layouts the ranges cover byte by byte. -/
theorem coveredOnce_iff (hconcat : concatRanges image (layout.hashed image.length) = some stream)
    (hfit : layout.counted + layout.size ≤ image.length) :
    CoveredOnce image (layout.hashed image.length) layout ↔ FitsCount image layout := by
  have hdir := dataDir_le hconcat
  have hle := layout.slot.checkSum_le
  have hsizes : layout.sizeOfHeaders ≤ layout.counted := Nat.le_add_right _ _
  refine forall₂_congr fun i hi => ?_
  have hheaders := timesCovered_headers (show layout.slot.checkSum + 4 ≤ layout.slot.dataDir by omega)
    hdir.1 i
  have htail : timesCovered [(layout.counted, image.length - layout.size)] i =
      if layout.counted ≤ i ∧ i < image.length - layout.size then 1 else 0 := by
    rw [timesCovered_cons, timesCovered_nil, Nat.zero_add]
  have htable : timesCovered (layout.table :: layout.sections) i =
      timesCovered [layout.table] i + timesCovered layout.sections i :=
    timesCovered_append [_] _ i
  have hexcluded : timesCovered layout.excluded i =
      timesCovered [(layout.slot.checkSum, layout.slot.checkSum + 4),
        (layout.slot.dataDir, layout.slot.dataDir + 8)] i + timesCovered [layout.table] i :=
    timesCovered_append [_, _] [_] i
  rw [timesCovered_append, PeLayout.hashed, timesCovered_append, timesCovered_append, hexcluded, htable]
  split_ifs at hheaders htail ⊢ <;> omega

/-- Sections that follow one another, and a table at the end. -/
theorem fitsCount_of_ordinary (hfit : layout.counted + layout.size ≤ image.length)
    (h : Ordinary image layout) : FitsCount image layout := by
  intro i hi
  have hend := h.2
  have hcounted : layout.counted = layout.sizeOfHeaders + totalLength layout.sections := rfl
  rw [timesCovered_cons, timesCovered_of_tiles h.1, ← hcounted]
  show (if layout.sizeOfHeaders ≤ i ∧ i < layout.counted then 1 else 0) +
    (if layout.va ≤ i ∧ i < layout.va + layout.size then 1 else 0) = _
  by_cases hsection : layout.sizeOfHeaders ≤ i ∧ i < layout.counted
  · rw [if_pos hsection, if_neg (by omega), if_pos (Or.inl hsection)]
  · by_cases htable : layout.va ≤ i
    · rw [if_neg hsection, if_pos (by omega), if_pos (by omega)]
    · rw [if_neg hsection, if_neg (by omega), if_neg (by omega)]

end stream

/-! ## Images with the same stream -/

section evidence

variable {parser : PeParser} {image image' stream : List UInt8} {layout layout' : PeLayout}

/-- The bytes of a slice are those of the image. -/
theorem getElem?_of_slice {bytes : List UInt8} {start stop i : Nat}
    (h : slice image start stop = some bytes) (hi : i < stop - start) :
    image[start + i]? = bytes[i]? := by
  obtain ⟨_, _, rfl⟩ := slice_eq_some.mp h
  rw [List.getElem?_drop, List.getElem?_take_of_lt (by omega)]

theorem sameOn_of_slice {bytes : List UInt8} {start stop : Nat}
    (h : slice image start stop = some bytes) (h' : slice image' start stop = some bytes) :
    SameOn image image' start stop := by
  intro i hl hh
  obtain ⟨k, rfl⟩ := Nat.exists_eq_add_of_le hl
  rw [getElem?_of_slice h (by omega), getElem?_of_slice h' (by omega)]

/-- Images in which the same ranges give the same bytes agree in each of them. -/
theorem sameOn_of_concatRanges {ranges : List FileRange} (h : concatRanges image ranges = some stream)
    (h' : concatRanges image' ranges = some stream) :
    ∀ r ∈ ranges, SameOn image image' r.1 r.2 := by
  induction ranges generalizing stream with
  | nil => simp
  | cons r rest ih =>
    obtain ⟨bytes, others, hbytes, hothers, rfl⟩ := concatRanges_cons_eq_some.mp h
    obtain ⟨bytes', others', hbytes', hothers', hsplit⟩ := concatRanges_cons_eq_some.mp h'
    obtain ⟨rfl, rfl⟩ := List.append_inj hsplit
      ((length_of_slice hbytes).trans (length_of_slice hbytes').symm)
    intro r' hr'
    rcases List.mem_cons.mp hr' with rfl | hmem
    · exact sameOn_of_slice hbytes hbytes'
    · exact ih hothers hothers' r' hmem

/-- `CheckSum` lies a fixed distance behind what `e_lfanew` says. -/
theorem checkSum_eq {slot : SecuritySlot} (h : HasSlot image slot) :
    slot.checkSum = u32At image 0x3c + 88 := by
  obtain ⟨optionalStart, magic, hstart, hcheck, _, _⟩ := h
  obtain ⟨_, _, _, hopt, _, _⟩ := peOptionalHeaderStart_eq_ok.mp hstart
  omega

/-- What the stream of an image starts with. -/
structure StartsWithHeaders (image stream : List UInt8) (layout : PeLayout) (front middle rest :
    List UInt8) : Prop where
  stream_eq : stream = front ++ (middle ++ rest)
  front_eq : slice image 0 layout.slot.checkSum = some front
  middle_eq : slice image (layout.slot.checkSum + 4) layout.slot.dataDir = some middle
  rest_eq : concatRanges image ((layout.slot.dataDir + 8, layout.sizeOfHeaders) ::
    (layout.sections ++ [(layout.counted, image.length - layout.size)])) = some rest

theorem exists_startsWithHeaders
    (h : concatRanges image (layout.hashed image.length) = some stream) :
    ∃ front middle rest, StartsWithHeaders image stream layout front middle rest := by
  obtain ⟨front, others, hfront, hothers, rfl⟩ := concatRanges_cons_eq_some.mp h
  obtain ⟨middle, rest, hmiddle, hrest, rfl⟩ := concatRanges_cons_eq_some.mp hothers
  exact ⟨front, middle, rest, rfl, hfront, hmiddle, hrest⟩

/-- Images with the same stream have their fields at the same place and the same bytes in
front of the security data directory. -/
theorem slot_eq_of_stream (hslot : HasSlot image layout.slot) (hslot' : HasSlot image' layout'.slot)
    (hlen : image'.length = image.length) {front middle rest front' middle' rest' : List UInt8}
    (h : StartsWithHeaders image stream layout front middle rest)
    (h' : StartsWithHeaders image' stream layout' front' middle' rest') :
    layout'.slot = layout.slot ∧ front' = front ∧ middle' = middle ∧ rest' = rest := by
  have hsplit := h.stream_eq.symm.trans h'.stream_eq
  have hfrontLen := length_of_slice h.front_eq
  have hfrontLen' := length_of_slice h'.front_eq
  have hlow := layout.slot.le_checkSum
  have hlow' := layout'.slot.le_checkSum
  -- the DOS header is hashed first, so it says in both where the optional header is
  have hdos : SameOn image image' 0 0x40 := by
    intro i _ hi
    have hat := getElem?_of_slice h.front_eq (show i < layout.slot.checkSum - 0 by omega)
    have hat' := getElem?_of_slice h'.front_eq (show i < layout'.slot.checkSum - 0 by omega)
    have hboth : (front ++ (middle ++ rest))[i]? = (front' ++ (middle' ++ rest'))[i]? := by rw [hsplit]
    rw [List.getElem?_append_left (by omega), List.getElem?_append_left (by omega)] at hboth
    rw [Nat.zero_add] at hat hat'
    rw [hat, hat', hboth]
  have hcheck : layout'.slot.checkSum = layout.slot.checkSum := by
    rw [checkSum_eq hslot, checkSum_eq hslot', u32At_congr (hdos.mono (by omega) (by omega))]
  obtain ⟨rfl, hbehind⟩ := List.append_inj hsplit (by omega)
  have hfront : SameOn image image' 0 layout.slot.checkSum :=
    sameOn_of_slice h.front_eq (hcheck ▸ h'.front_eq)
  have hslots : layout'.slot = layout.slot := by
    obtain ⟨optionalStart, magic, hstart, hopt, hdir, hfits⟩ := hslot
    have hle := layout.slot.checkSum_le
    have hstart' := peOptionalHeaderStart_congr hstart (hopt ▸ hfront) (by omega)
    exact hslot'.unique ⟨optionalStart, magic, hstart', hopt, hdir, by omega⟩
  have hmiddle := h.middle_eq
  have hmiddle' := h'.middle_eq
  rw [hslots] at hmiddle'
  obtain ⟨rfl, rfl⟩ := List.append_inj hbehind
    ((length_of_slice hmiddle).trans (length_of_slice hmiddle').symm)
  exact ⟨hslots, rfl, rfl, rfl⟩

/-- Two images have one length and the same bytes outside of the ranges. -/
def SameElsewhere (image image' : List UInt8) (ranges : List FileRange) : Prop :=
  image'.length = image.length ∧
    ∀ i, (∀ r ∈ ranges, ¬ (r.1 ≤ i ∧ i < r.2)) → image[i]? = image'[i]?

/-- `SizeOfHeaders` is reported as it is stored. -/
def StoresSizeOfHeaders (parser : PeParser) : Prop :=
  ∀ image pe offsets slot, parser.parse image = .ok pe → pe.offsets = some offsets →
    HasSlot image slot → offsets.afterHeader = u32At image (slot.checkSum - 4)

/-- The layout is that of the image with the same stream, when the section headers are
hashed with the headers. -/
theorem hashed_eq_of_stream (hstored : StoresSizeOfHeaders parser)
    (hlayout : HasLayout parser image layout) (hlayout' : HasLayout parser image' layout')
    (hlen : image'.length = image.length) (hheaders : layout.headersEnd ≤ layout.sizeOfHeaders)
    (hfit : layout.counted + layout.size ≤ image.length)
    (hfit' : layout'.counted + layout'.size ≤ image'.length)
    (h : concatRanges image (layout.hashed image.length) = some stream)
    (h' : concatRanges image' (layout'.hashed image'.length) = some stream) :
    layout'.hashed image'.length = layout.hashed image.length := by
  have hdir := dataDir_le h
  obtain ⟨front, middle, rest, hstarts⟩ := exists_startsWithHeaders h
  obtain ⟨front', middle', rest', hstarts'⟩ := exists_startsWithHeaders h'
  obtain ⟨hslots, rfl, rfl, rfl⟩ :=
    slot_eq_of_stream hlayout.hasSlot hlayout'.hasSlot hlen hstarts hstarts'
  obtain ⟨_, hfront, hmiddle, hrest⟩ := hstarts
  obtain ⟨_, hfront', hmiddle', hrest'⟩ := hstarts'
  rw [hslots] at hfront' hmiddle' hrest'
  have hsameFront := sameOn_of_slice hfront hfront'
  obtain ⟨pe, offsets, sections, hparse, hoffsets, hafter, hend, hmapM, hsorted⟩ := hlayout.parsed
  obtain ⟨pe', offsets', sections', hparse', hoffsets', hafter', _, hmapM', hsorted'⟩ := hlayout'.parsed
  have hlow := layout.slot.le_checkSum
  have hsizes : layout'.sizeOfHeaders = layout.sizeOfHeaders := by
    rw [← hafter, ← hafter', hstored _ _ _ _ hparse hoffsets hlayout.hasSlot,
      hstored _ _ _ _ hparse' hoffsets' hlayout'.hasSlot, hslots,
      u32At_congr (hsameFront.mono (by omega) (by omega))]
  -- with one `SizeOfHeaders` the rest of the headers is in one place of the stream
  obtain ⟨headers, others, hslice, _, hrestEq⟩ := concatRanges_cons_eq_some.mp hrest
  obtain ⟨headers', others', hslice', _, hrestEq'⟩ := concatRanges_cons_eq_some.mp hrest'
  rw [hsizes] at hslice'
  obtain ⟨rfl, _⟩ := List.append_inj (hrestEq.symm.trans hrestEq')
    ((length_of_slice hslice).trans (length_of_slice hslice').symm)
  have hsame : SameHeader layout.slot pe.headersEnd image image' :=
    ⟨hsameFront, sameOn_of_slice hmiddle hmiddle',
      (sameOn_of_slice hslice hslice').mono (Nat.le_refl _) (by omega)⟩
  obtain ⟨parsed, hparsed, hoffsetsEq, hsectionsEq, _⟩ :=
    parser.parse_congr hparse hlayout.hasSlot hsame (by omega)
  obtain rfl := Except.ok.inj (hparse'.symm.trans hparsed)
  rw [hsectionsEq, hmapM] at hmapM'
  obtain rfl := Option.some.inj hmapM'
  have hsections : layout'.sections = layout.sections := hsorted'.symm.trans hsorted
  have hcounted : layout'.counted = layout.counted := by
    rw [PeLayout.counted, PeLayout.counted, hsizes, hsections]
  have hlength := (length_concatRanges h).symm.trans (length_concatRanges h')
  simp only [PeLayout.hashed, totalLength, List.map_append, List.sum_append, List.map_cons,
    List.map_nil, List.sum_cons, List.sum_nil, hslots, hsizes, hsections, hcounted] at hlength
  rw [PeLayout.hashed, PeLayout.hashed, hslots, hsizes, hsections, hcounted]
  congr 2
  rw [Prod.mk.injEq]
  exact ⟨rfl, by omega⟩

/-- An image with the same stream agrees with one whose bytes are all covered. -/
theorem sameElsewhere_of_coveredOnce (hlen : image'.length = image.length)
    (hhashed : layout'.hashed image'.length = layout.hashed image.length)
    (h : concatRanges image (layout.hashed image.length) = some stream)
    (h' : concatRanges image' (layout'.hashed image'.length) = some stream)
    (hcovered : CoveredOnce image (layout.hashed image.length) layout) :
    SameElsewhere image image' layout.excluded := by
  refine ⟨hlen, ?_⟩
  intro i hout
  by_cases hi : i < image.length
  · obtain ⟨r, hr, hin⟩ := exists_mem_of_timesCovered (hcovered i hi ▸ Nat.one_ne_zero)
    rcases List.mem_append.mp hr with hr | hr
    · exact sameOn_of_concatRanges h (hhashed ▸ h') r hr i hin.1 hin.2
    · exact absurd hin (hout r hr)
  · rw [List.getElem?_eq_none (by omega), List.getElem?_eq_none (by omega)]

/-- The bytes of sections that follow one another. -/
theorem concatRanges_of_tiles {ranges : List FileRange} {start : Nat} {tail : FileRange}
    (htiles : Tiles start ranges) (htail : tail.1 = start + totalLength ranges) (hstart : start ≤ tail.2)
    (h : concatRanges image (ranges ++ [tail]) = some stream) :
    slice image start tail.2 = some stream := by
  induction ranges generalizing start stream with
  | nil =>
    obtain ⟨bytes, others, hbytes, hothers, rfl⟩ := concatRanges_cons_eq_some.mp h
    obtain rfl := Option.some.inj hothers
    rw [List.append_nil, ← hbytes, htail]
    rfl
  | cons r rest ih =>
    have hvalid := valid_of_concatRanges h r List.mem_cons_self
    have hvalidTail := valid_of_concatRanges h tail (by simp)
    have htotal : totalLength (r :: rest) = r.2 - r.1 + totalLength rest := rfl
    obtain ⟨bytes, others, hbytes, hothers, rfl⟩ := concatRanges_cons_eq_some.mp h
    unfold Tiles at htiles
    by_cases hempty : r.2 ≤ r.1
    · rw [if_pos hempty] at htiles
      have hnone : bytes = [] := by
        apply List.eq_nil_of_length_eq_zero
        rw [length_of_slice hbytes]
        omega
      rw [hnone, List.nil_append]
      exact ih htiles (by omega) hstart hothers
    · rw [if_neg hempty] at htiles
      obtain ⟨rfl, hrest⟩ := htiles
      have hbehind := ih hrest (by omega) (by omega) hothers
      obtain ⟨_, _, rfl⟩ := slice_eq_some.mp hbytes
      obtain ⟨_, _, rfl⟩ := slice_eq_some.mp hbehind
      refine slice_eq_some.mpr ⟨by omega, hvalidTail.2, ?_⟩
      have hcut := take_drop_add image r.1 (r.2 - r.1) (tail.2 - r.2)
      rw [List.drop_take, List.drop_take, List.drop_take]
      rw [show r.2 - r.1 + (tail.2 - r.2) = tail.2 - r.1 by omega,
        show r.1 + (r.2 - r.1) = r.2 by omega] at hcut
      exact hcut.symm

/-- Ordinary images with the same stream agree. -/
theorem sameElsewhere_of_ordinary (hslot : HasSlot image layout.slot)
    (hslot' : HasSlot image' layout'.slot) (hlen : image'.length = image.length)
    (hfit : layout.counted + layout.size ≤ image.length)
    (hfit' : layout'.counted + layout'.size ≤ image'.length)
    (h : concatRanges image (layout.hashed image.length) = some stream)
    (h' : concatRanges image' (layout'.hashed image'.length) = some stream)
    (hordinary : Ordinary image layout) (hordinary' : Ordinary image' layout') :
    SameElsewhere image image' layout.excluded := by
  have hbehind : ∀ {data : List UInt8} {layout : PeLayout} {bytes : List UInt8},
      layout.counted + layout.size ≤ data.length → Tiles layout.sizeOfHeaders layout.sections →
      layout.slot.dataDir + 8 ≤ layout.sizeOfHeaders →
      concatRanges data ((layout.slot.dataDir + 8, layout.sizeOfHeaders) ::
        (layout.sections ++ [(layout.counted, data.length - layout.size)])) = some bytes →
      slice data (layout.slot.dataDir + 8) (data.length - layout.size) = some bytes := by
    intro data layout bytes hfit htiles hdir hconcat
    have hsizes : layout.sizeOfHeaders ≤ layout.counted := Nat.le_add_right _ _
    -- the headers behind the directory are one more range that the sections follow
    refine @concatRanges_of_tiles data bytes
      ((layout.slot.dataDir + 8, layout.sizeOfHeaders) :: layout.sections) (layout.slot.dataDir + 8)
      (layout.counted, data.length - layout.size) ?_ ?_ (show _ ≤ data.length - layout.size by omega)
      hconcat
    · unfold Tiles
      by_cases hempty : layout.sizeOfHeaders ≤ layout.slot.dataDir + 8
      · rw [if_pos hempty, show layout.slot.dataDir + 8 = layout.sizeOfHeaders by omega]
        exact htiles
      · rw [if_neg hempty]
        exact ⟨rfl, htiles⟩
    · show layout.counted = layout.slot.dataDir + 8 +
        (layout.sizeOfHeaders - (layout.slot.dataDir + 8) + totalLength layout.sections)
      rw [PeLayout.counted]
      omega
  have hdir := dataDir_le h
  have hdir' := dataDir_le h'
  have hlength := (length_concatRanges h).symm.trans (length_concatRanges h')
  obtain ⟨front, middle, rest, hstarts⟩ := exists_startsWithHeaders h
  obtain ⟨front', middle', rest', hstarts'⟩ := exists_startsWithHeaders h'
  obtain ⟨hslots, rfl, rfl, rfl⟩ := slot_eq_of_stream hslot hslot' hlen hstarts hstarts'
  have hrest := hbehind hfit hordinary.1 hdir.1 hstarts.rest_eq
  have hrest' := hbehind hfit' hordinary'.1 hdir'.1 hstarts'.rest_eq
  have hrestLen := (length_of_slice hrest).symm.trans (length_of_slice hrest')
  have hslotLe := layout.slot.checkSum_le
  have hcounted : layout.counted = layout.sizeOfHeaders + totalLength layout.sections := rfl
  have hcounted' : layout'.counted = layout'.sizeOfHeaders + totalLength layout'.sections := rfl
  have hend := hordinary.2
  have hend' := hordinary'.2
  rw [hslots] at hrestLen hrest' hdir'
  have hsize : image'.length - layout'.size = image.length - layout.size := by omega
  have hfront' := hstarts'.front_eq
  have hmiddle' := hstarts'.middle_eq
  rw [hslots] at hfront' hmiddle'
  rw [hsize] at hrest'
  refine ⟨hlen, ?_⟩
  intro i hout
  have hcheck := hout (layout.slot.checkSum, layout.slot.checkSum + 4) (by simp [PeLayout.excluded])
  have hdirectory := hout (layout.slot.dataDir, layout.slot.dataDir + 8) (by simp [PeLayout.excluded])
  have htable := hout layout.table (by simp [PeLayout.excluded])
  replace htable : ¬ (layout.va ≤ i ∧ i < layout.va + layout.size) := htable
  replace hcheck : ¬ (layout.slot.checkSum ≤ i ∧ i < layout.slot.checkSum + 4) := hcheck
  replace hdirectory : ¬ (layout.slot.dataDir ≤ i ∧ i < layout.slot.dataDir + 8) := hdirectory
  by_cases hfirst : i < layout.slot.checkSum
  · exact sameOn_of_slice hstarts.front_eq hfront' i (Nat.zero_le _) hfirst
  by_cases hsecond : i < layout.slot.dataDir
  · exact sameOn_of_slice hstarts.middle_eq hmiddle' i (by omega) hsecond
  by_cases hthird : i < image.length - layout.size
  · exact sameOn_of_slice hrest hrest' i (by omega) hthird
  · rw [List.getElem?_eq_none (by omega), List.getElem?_eq_none (by omega)]

end evidence

/-! ## What an accepted image is covered by -/

section accepted

variable {crates : PeCrates} {hashes : Hashes} {image image' : List UInt8}
  {layout layout' : PeLayout}

/-- A PKCS#7 row of the certificate table. -/
def HasPkcs7Row (image : List UInt8) (attr : AttributeCertificate) : Prop :=
  ∃ va size table, ∃ rows : List AttributeCertificate, HasTable image va size table ∧
    attributeCertificates table = rows.map .ok ∧ attr ∈ rows ∧
    attr.certificateType = winCertTypePkcsSignedData

/-- The streams of two images are not a collision of the hashes. -/
def NoCollision (parser : PeParser) (hashes : Hashes) (image image' : List UInt8) : Prop :=
  ∀ kind stream stream', digestStream parser image = .ok stream →
    digestStream parser image' = .ok stream' → hashes.hash kind stream = hashes.hash kind stream' →
    stream = stream'

/-- A row of an accepted image holds the digest of the image. -/
theorem holdsDigest_of_row {result : PeDigestConsistencyResult} {attr : AttributeCertificate}
    (h : verifyPeAuthenticodeDigestConsistency crates hashes image = .ok result)
    (hrow : HasPkcs7Row image attr) : HoldsDigest crates hashes image attr := by
  obtain ⟨va, size, table, rows, htable, _, _, hwalk, hholds, _⟩ :=
    verifyPeAuthenticodeDigestConsistency_eq_ok h
  obtain ⟨va', size', table', rows', htable', hwalk', hmem, htype⟩ := hrow
  obtain ⟨rfl, rfl⟩ := Prod.mk.inj (Except.ok.inj (htable.1.symm.trans htable'.1))
  obtain rfl := Option.some.inj (htable.2.symm.trans htable'.2)
  have hrows : rows = rows' := by
    have hmap := hwalk.symm.trans hwalk'
    exact List.map_injective_iff.mpr (fun _ _ => Except.ok.inj) hmap
  exact hholds attr (hrows ▸ hmem) htype

/-- Accepted images with a common row have the same stream. -/
theorem stream_eq_of_row {result result' : PeDigestConsistencyResult} {attr : AttributeCertificate}
    (h : verifyPeAuthenticodeDigestConsistency crates hashes image = .ok result)
    (h' : verifyPeAuthenticodeDigestConsistency crates hashes image' = .ok result')
    (hrow : HasPkcs7Row image attr) (hrow' : HasPkcs7Row image' attr)
    (hcollision : NoCollision crates.parser hashes image image') :
    ∃ stream, digestStream crates.parser image = .ok stream ∧
      digestStream crates.parser image' = .ok stream := by
  obtain ⟨embedded, kind, stream, hembedded, hkind, hstream, hhash⟩ := holdsDigest_of_row h hrow
  obtain ⟨embedded', kind', stream', hembedded', hkind', hstream', hhash'⟩ :=
    holdsDigest_of_row h' hrow'
  obtain rfl := Except.ok.inj (hembedded.symm.trans hembedded')
  obtain rfl := Except.ok.inj (hkind.symm.trans hkind')
  obtain rfl := hcollision kind stream stream' hstream hstream' (hhash.trans hhash'.symm)
  exact ⟨stream, hstream, hstream'⟩

theorem va_ne_zero_of_verify {result : PeDigestConsistencyResult}
    (h : verifyPeAuthenticodeDigestConsistency crates hashes image = .ok result)
    (hlayout : HasLayout crates.parser image layout) : layout.va ≠ 0 := by
  obtain ⟨va, size, table, rows, htable, hva, _⟩ := verifyPeAuthenticodeDigestConsistency_eq_ok h
  obtain ⟨rfl, _⟩ := Prod.mk.inj (Except.ok.inj (htable.1.symm.trans hlayout.directory))
  exact hva

end accepted

/-- In an accepted image the hashed ranges, the two fields and the certificate table cover
every byte once exactly when the sections and the table take up what the count leaves to
them; sections that follow one another up to a table that ends the file do.  Another image
of that length is accepted with the same row only if it agrees outside of what is left out:
when the bytes of the one are covered once and its section headers are hashed with the
headers, or when both are ordinary. -/
theorem pe_digest_coverage {crates : PeCrates} {hashes : Hashes} {image : List UInt8}
    {result : PeDigestConsistencyResult} {ranges : List FileRange} {layout : PeLayout}
    (hstored : StoresSizeOfHeaders crates.parser)
    (hverify : verifyPeAuthenticodeDigestConsistency crates hashes image = .ok result)
    (hlayout : HasLayout crates.parser image layout)
    (hranges : peAuthenticodeDigestFileRanges crates.parser image = .ok ranges) :
    (CoveredOnce image ranges layout ↔ FitsCount image layout) ∧
    (Ordinary image layout → FitsCount image layout) ∧
    ∀ image' result' layout' attr,
      verifyPeAuthenticodeDigestConsistency crates hashes image' = .ok result' →
      HasLayout crates.parser image' layout' → image'.length = image.length →
      HasPkcs7Row image attr → HasPkcs7Row image' attr →
      NoCollision crates.parser hashes image image' →
      CoveredOnce image ranges layout ∧ layout.headersEnd ≤ layout.sizeOfHeaders ∨
        Ordinary image layout ∧ Ordinary image' layout' →
      SameElsewhere image image' layout.excluded := by
  have hva := va_ne_zero_of_verify hverify hlayout
  obtain ⟨hshape, hfit⟩ := ranges_eq hlayout hva hranges
  obtain ⟨_, _, _, _, _, _, _, _, hholds, attr, hattr, htype⟩ :=
    verifyPeAuthenticodeDigestConsistency_eq_ok hverify
  obtain ⟨_, _, stream, _, _, hstream, _⟩ := hholds attr hattr htype
  obtain ⟨hconcat, _⟩ := concatRanges_of_stream hlayout hva hstream
  rw [hshape]
  refine ⟨coveredOnce_iff hconcat hfit, fitsCount_of_ordinary hfit, ?_⟩
  intro image' result' layout' attr' hverify' hlayout' hlen hrow hrow' hcollision hcases
  obtain ⟨common, hcommon, hcommon'⟩ := stream_eq_of_row hverify hverify' hrow hrow' hcollision
  obtain ⟨h, _⟩ := concatRanges_of_stream hlayout hva hcommon
  obtain ⟨h', hfit'⟩ :=
    concatRanges_of_stream hlayout' (va_ne_zero_of_verify hverify' hlayout') hcommon'
  rcases hcases with ⟨hcovered, hheaders⟩ | ⟨hordinary, hordinary'⟩
  · have hhashed := hashed_eq_of_stream hstored hlayout hlayout' hlen hheaders hfit hfit' h h'
    exact sameElsewhere_of_coveredOnce hlen hhashed h h' hcovered
  · exact sameElsewhere_of_ordinary hlayout.hasSlot hlayout'.hasSlot hlen hfit hfit' h h' hordinary
      hordinary'

/-! ## An image that is all headers -/

/-- The crates as far as they can be evaluated. -/
def PeCrates.headers : PeCrates where
  parser := PeParser.headers
  signature := AuthenticodeParser.octetString
  display _ := ""

/-- The hashed bytes of `tinyPe`. -/
def tinyStream : List UInt8 :=
  (tinyPe 0 0).take 152 ++ ((tinyPe 0 0).take 216).drop 156

/-- `tinyPe` with a row that holds a digest, and the bytes that follow the table. -/
def tinyPeWithRow (digest trailing : List UInt8) : List UInt8 :=
  tinyPe 224 48 ++ (u32le 42 ++ u16le 0x0200 ++ u16le 0x0002 ++ (0x04 :: 32 :: digest) ++
    List.replicate 6 0) ++ trailing

/-- The layout of these images. -/
def tinyLayout : PeLayout where
  slot := ⟨152, 216, by decide, by decide⟩
  sizeOfHeaders := 224
  headersEnd := 224
  sections := []
  va := 224
  size := 48

/-- Nothing follows the table, and the digest is that of the headers. -/
def ordinaryPe : List UInt8 :=
  tinyPeWithRow (Hashes.mixing.hash .sha256 tinyStream) []

/-- Bytes follow the table.  The headers and the start of the row are hashed. -/
def trailingRowPe (byte : UInt8) : List UInt8 :=
  tinyPeWithRow (Hashes.mixing.hash .sha256 (tinyStream ++ [42, 0, 0, 0, 0, 2, 2, 0]))
    (List.replicate 8 byte)

theorem storesSizeOfHeaders_headers : StoresSizeOfHeaders PeParser.headers := by
  intro image pe offsets slot hparse hoffsets hslot
  obtain ⟨optionalStart, magic, ddOff, hstart, _, _, _, hoff, _⟩ := parseHeaders_eq_ok hparse
  obtain ⟨_, _, hstart', hcheck, _, _⟩ := hslot
  obtain ⟨rfl, rfl⟩ := Prod.mk.inj (Except.ok.inj (hstart.symm.trans hstart'))
  obtain rfl := Option.some.inj (hoffsets.symm.trans hoff)
  rw [hcheck, show optionalStart + 64 - 4 = optionalStart + 60 by omega]

theorem hasLayout_of_tiny {image : List UInt8}
    (hdir : readSecurityDataDirectory image = .ok (224, 48))
    (hparse : PeParser.headers.parse image =
      .ok ⟨some ⟨152, 156, 216, 224, 224⟩, [], some (some (224, 272)), 224⟩)
    (hstart : peOptionalHeaderStart image = .ok (88, 0x10b)) (hlen : 224 ≤ image.length) :
    HasLayout PeParser.headers image tinyLayout where
  hasSlot := ⟨88, 0x10b, hstart, rfl, rfl, hlen⟩
  directory := hdir
  parsed := ⟨_, _, [], hparse, rfl, rfl, rfl, rfl, rfl⟩

set_option maxRecDepth 6000

theorem hasLayout_ordinaryPe : HasLayout PeParser.headers ordinaryPe tinyLayout :=
  hasLayout_of_tiny (by decide) (by decide) (by decide) (by decide)

theorem pe_digest_coverage_ordinaryPe :
    CoveredOnce ordinaryPe (tinyLayout.hashed 272) tinyLayout ↔ FitsCount ordinaryPe tinyLayout :=
  (@pe_digest_coverage PeCrates.headers Hashes.mixing ordinaryPe
    ⟨hexLower (Hashes.mixing.hash .sha256 tinyStream), 0, 1⟩ (tinyLayout.hashed 272) tinyLayout
    storesSizeOfHeaders_headers (by decide) hasLayout_ordinaryPe (by decide)).1

/-- Two images that are accepted with the same row are not the same behind the table: the
start of the table is hashed, and what follows it is not. -/
theorem trailing_bytes_not_covered :
    (∃ result, verifyPeAuthenticodeDigestConsistency PeCrates.headers Hashes.mixing
      (trailingRowPe 0x11) = .ok result) ∧
    (∃ result, verifyPeAuthenticodeDigestConsistency PeCrates.headers Hashes.mixing
      (trailingRowPe 0x22) = .ok result) ∧
    HasLayout PeParser.headers (trailingRowPe 0x11) tinyLayout ∧
    peAuthenticodeDigestFileRanges PeParser.headers (trailingRowPe 0x11) =
      .ok (tinyLayout.hashed 280) ∧
    ¬ CoveredOnce (trailingRowPe 0x11) (tinyLayout.hashed 280) tinyLayout ∧
    (∃ attr, HasPkcs7Row (trailingRowPe 0x11) attr ∧ HasPkcs7Row (trailingRowPe 0x22) attr) ∧
    NoCollision PeParser.headers Hashes.mixing (trailingRowPe 0x11) (trailingRowPe 0x22) ∧
    ¬ SameElsewhere (trailingRowPe 0x11) (trailingRowPe 0x22) tinyLayout.excluded := by
  refine ⟨?_, ?_, ?_, ?_, ?_, ?_, ?_, ?_⟩
  · exact ⟨⟨hexLower (Hashes.mixing.hash .sha256 (tinyStream ++ [42, 0, 0, 0, 0, 2, 2, 0])), 0, 1⟩,
      by decide⟩
  · exact ⟨⟨hexLower (Hashes.mixing.hash .sha256 (tinyStream ++ [42, 0, 0, 0, 0, 2, 2, 0])), 0, 1⟩,
      by decide⟩
  · exact hasLayout_of_tiny (by decide) (by decide) (by decide)
      (by decide)
  · decide
  · intro h
    have hlast := h 279 (by decide)
    exact absurd hlast (by decide)
  · refine ⟨⟨0x200, 2, 0x04 :: 32 ::
      Hashes.mixing.hash .sha256 (tinyStream ++ [42, 0, 0, 0, 0, 2, 2, 0])⟩, ?_, ?_⟩
    · exact ⟨224, 48, ((trailingRowPe 0x11).take 272).drop 224, [_],
        ⟨by decide, by decide⟩, by decide, List.mem_cons_self, rfl⟩
    · exact ⟨224, 48, ((trailingRowPe 0x22).take 272).drop 224, [_],
        ⟨by decide, by decide⟩, by decide, List.mem_cons_self, rfl⟩
  · intro kind stream stream' hstream hstream' _
    have hsame : digestStream PeParser.headers (trailingRowPe 0x11) =
        digestStream PeParser.headers (trailingRowPe 0x22) := by decide
    exact Except.ok.inj (hstream.symm.trans (hsame.trans hstream'))
  · intro h
    have hlast := h.2 279 (by decide)
    exact absurd hlast (by decide)

end Psign.Sip
