import Psign.Sip.PeDigest

/-!
# Embedding a signature in a PE image

`pe_embed.rs`: `pePrepareForAuthenticodeSigning` pads an unsigned image so that
a certificate table can start at its end, and
`peAppendAuthenticodePkcs7Certificate` adds a PKCS#7 to the table.

`sign_pe` hashes the prepared image and embeds the signature of that hash, so
the hashed stream (`digestStream`) has to survive the embedding.  It does when
the certificate table, if there is one, ends at the end of the file.  When
bytes follow the table, the layout of the prepared image hashes as many bytes
past the sections as there are outside of the table, that is, the start of the
table itself, and the embedding cuts the following bytes off.
-/

namespace Psign.Sip

open CodeLib CodeLib.Bytes

/-! ## The image checksum -/

/-- The loop of `pe_compute_image_checksum` from the byte `i` on. -/
def checksumLoop (image : List UInt8) (checkOff : Nat) : Nat → Nat → Nat → Nat
  | 0, _, sum => sum
  | fuel + 1, i, sum =>
      if i < image.length then
        if checkOff ≤ i ∧ i < checkOff + 4 then checksumLoop image checkOff fuel (checkOff + 4) sum
        else
          let sum := sum + if i + 1 < image.length then u16At image i else byteAt image i
          let sum := sum / 65536 + sum % 65536
          checksumLoop image checkOff fuel (i + 2) sum
      else sum

/-- The fold of the carries that follows. -/
def foldCarries : Nat → Nat → Nat
  | 0, sum => sum
  | fuel + 1, sum =>
      if sum / 65536 = 0 then sum else foldCarries fuel (sum / 65536 + sum % 65536)

/-- `pe_compute_image_checksum`.  Each round of the loop moves on by a byte at
least, and a 64-bit sum is folded after six rounds at the latest. -/
def peComputeImageChecksum (image : List UInt8) : Outcome Nat := do
  let checkOff ← peChecksumFieldFileOffset image
  let sum := foldCarries 64 (checksumLoop image checkOff image.length 0 0)
  return (sum % 2 ^ 32 + image.length % 2 ^ 32) % 2 ^ 32

/-- `pe_write_image_checksum`. -/
def peWriteImageChecksum (image : List UInt8) (checksum : Nat) : Outcome (List UInt8) := do
  let off ← peChecksumFieldFileOffset image
  return patch image off (u32le checksum)

/-- `pe_refresh_image_checksum`. -/
def peRefreshImageChecksum (image : List UInt8) : Outcome (List UInt8) := do
  let c ← peComputeImageChecksum image
  peWriteImageChecksum image c

/-! ## The certificate table -/

/-- `wrap_pkcs7_der_authenticode_win_certificate`: length, revision 2.0, type
PKCS signed data, the PKCS#7 and zeros up to a multiple of eight. -/
def wrapPkcs7DerAuthenticodeWinCertificate (pkcs7Der : List UInt8) : List UInt8 :=
  let padding := (8 - (8 + pkcs7Der.length) % 8) % 8
  let total := 8 + pkcs7Der.length + padding
  u32le (total % 2 ^ 32) ++ u16le 0x0200 ++ u16le 0x0002 ++ pkcs7Der ++ List.replicate padding 0

/-- `validate_attribute_certificate_table_alignment`. -/
def validateAttributeCertificateTableAlignment (certFilePtr certSize : Nat) : Outcome Unit :=
  if certFilePtr = 0 ∧ certSize = 0 then .ok ()
  else if certFilePtr = 0 ∨ certSize = 0 then
    Outcome.bail
      s!"incomplete PE certificate table directory: offset {certFilePtr}, size {certSize}"
  else if certFilePtr % 8 ≠ 0 then
    Outcome.bail s!"PE certificate table offset {certFilePtr} is not 8-byte aligned"
  else if certSize % 8 ≠ 0 then
    Outcome.bail s!"PE certificate table size {certSize} is not 8-byte aligned"
  else .ok ()

/-- `pe_prepare_for_authenticode_signing`. -/
def pePrepareForAuthenticodeSigning (peImage : List UInt8) : Outcome (List UInt8) := do
  let (certFilePtr, certSize) ← readSecurityDataDirectory peImage
  validateAttributeCertificateTableAlignment certFilePtr certSize
  if certFilePtr ≠ 0 then
    return peImage
  let remainder := peImage.length % 8
  let padding := (8 - remainder) % 8
  Outcome.guardThat (peImage.length + padding < 2 ^ 64)
    "PE image length overflow while aligning certificate table"
  return peImage ++ List.replicate padding 0

/-- `pe_append_authenticode_pkcs7_certificate`. -/
def peAppendAuthenticodePkcs7Certificate (peImage pkcs7Der : List UInt8) :
    Outcome (List UInt8) := do
  let wrapped := wrapPkcs7DerAuthenticodeWinCertificate pkcs7Der
  let (va, size) ← readSecurityDataDirectory peImage
  validateAttributeCertificateTableAlignment va size
  if va = 0 ∧ size = 0 then
    Outcome.guardThat (peImage.length % 8 = 0)
      s!"PE image length {peImage.length} is not 8-byte aligned; prepare it before computing the Authenticode digest"
    Outcome.guardThat (peImage.length < 2 ^ 32) "PE certificate table offset exceeds u32"
    Outcome.guardThat (wrapped.length < 2 ^ 32) "WIN_CERTIFICATE size exceeds u32"
    let out ← writeSecurityDataDirectory (peImage ++ wrapped) peImage.length wrapped.length
    peRefreshImageChecksum out
  else
    let start := va
    Outcome.guardThat (start + size < 2 ^ 64) "security directory size overflow"
    let stop := start + size
    Outcome.guardThat (start ≤ peImage.length)
      s!"security directory pointer {start} past EOF {peImage.length}"
    Outcome.guardThat (stop ≤ peImage.length)
      s!"security directory end {stop} beyond EOF {peImage.length}"
    let kept := peImage.take stop
    Outcome.guardThat (wrapped.length < 2 ^ 32) "WIN_CERTIFICATE size exceeds u32"
    Outcome.guardThat (size + wrapped.length < 2 ^ 32) "certificate table size overflow"
    let out ← writeSecurityDataDirectory (kept ++ wrapped) va (size + wrapped.length)
    peRefreshImageChecksum out

/-! ## What the functions do -/

/-- A certificate table directory that is valid: none, or a table that is not
empty and does not start at zero. -/
theorem validateAttributeCertificateTableAlignment_eq_ok {va size : Nat} {u : Unit}
    (h : validateAttributeCertificateTableAlignment va size = .ok u) :
    va = 0 ∧ size = 0 ∨ va ≠ 0 ∧ size ≠ 0 := by
  unfold validateAttributeCertificateTableAlignment at h
  by_cases hnone : va = 0 ∧ size = 0
  · exact Or.inl hnone
  · rw [if_neg hnone] at h
    by_cases hbad : va = 0 ∨ size = 0
    · rw [if_pos hbad] at h
      exact absurd h Outcome.bail_ne_ok
    · exact Or.inr ⟨fun hva => hbad (Or.inl hva), fun hsize => hbad (Or.inr hsize)⟩

/-- Where the new row of the certificate table goes. -/
def appendAt (image : List UInt8) (va size : Nat) : Nat :=
  if va = 0 then image.length else va + size

/-- Where the certificate table starts after the embedding. -/
def tableAt (image : List UInt8) (va : Nat) : Nat :=
  if va = 0 then image.length else va

/-- Refreshing the checksum writes four bytes at its place. -/
theorem peRefreshImageChecksum_of_slot {image : List UInt8} {slot : SecuritySlot}
    (h : HasSlot image slot) :
    ∃ c, peRefreshImageChecksum image = .ok (patch image slot.checkSum (u32le c)) := by
  simp only [peRefreshImageChecksum, peComputeImageChecksum, peWriteImageChecksum,
    peChecksumFieldFileOffset_of_slot h, Outcome.ok_bind, Outcome.pure_eq_ok]
  exact ⟨_, rfl⟩

/-- Writing the directory and the checksum changes the two fields only, and the
directory says what was written. -/
theorem rewrite_fields {base out : List UInt8} {slot : SecuritySlot} {ptr size : Nat}
    (hslot : HasSlot base slot) (hptr : ptr < 2 ^ 32) (hsize : size < 2 ^ 32)
    (h : (writeSecurityDataDirectory base ptr size >>= peRefreshImageChecksum) = .ok out) :
    out.length = base.length ∧ SameHeader slot base.length base out ∧
      u32At out slot.dataDir = ptr ∧ u32At out (slot.dataDir + 4) = size := by
  have hle := slot.checkSum_le
  have hfits : slot.dataDir + 8 ≤ base.length := hslot.choose_spec.choose_spec.2.2.2
  have hl1 : slot.dataDir + (u32le ptr).length ≤ base.length := by rw [length_u32le]; omega
  rw [writeSecurityDataDirectory_of_slot hslot, Outcome.ok_bind] at h
  generalize hd1 : patch base slot.dataDir (u32le ptr) = d1 at h
  have hlen1 : d1.length = base.length := hd1 ▸ length_patch hl1
  have hl2 : slot.dataDir + 4 + (u32le size).length ≤ d1.length := by rw [length_u32le]; omega
  generalize hd2 : patch d1 (slot.dataDir + 4) (u32le size) = d2 at h
  have hlen2 : d2.length = base.length := by rw [← hd2, length_patch hl2, hlen1]
  have hsame1 : ∀ {lo hi}, hi ≤ slot.dataDir ∨ slot.dataDir + 4 ≤ lo → SameOn base d1 lo hi :=
    fun hout => hd1 ▸ sameOn_patch hl1 hout
  have hsame2 : ∀ {lo hi}, hi ≤ slot.dataDir + 4 ∨ slot.dataDir + 4 + 4 ≤ lo → SameOn d1 d2 lo hi :=
    fun hout => hd2 ▸ sameOn_patch hl2 hout
  have hheader2 : SameHeader slot base.length base d2 :=
    ⟨(hsame1 (Or.inl (by omega))).trans (hsame2 (Or.inl (by omega))),
      (hsame1 (Or.inl (by omega))).trans (hsame2 (Or.inl (by omega))),
      (hsame1 (Or.inr (by omega))).trans (hsame2 (Or.inr (by omega)))⟩
  have hslot2 : HasSlot d2 slot := hslot.congr hheader2 (by omega)
  obtain ⟨c, hc⟩ := peRefreshImageChecksum_of_slot hslot2
  have hout : out = patch d2 slot.checkSum (u32le c) := Except.ok.inj (h.symm.trans hc)
  have hl3 : slot.checkSum + (u32le c).length ≤ d2.length := by rw [length_u32le]; omega
  have hsame3 : ∀ {lo hi}, hi ≤ slot.checkSum ∨ slot.checkSum + 4 ≤ lo → SameOn d2 out lo hi :=
    fun ho => hout ▸ sameOn_patch hl3 ho
  refine ⟨by rw [hout, length_patch hl3, hlen2], ⟨?_, ?_, ?_⟩, ?_, ?_⟩
  · exact ((hsame1 (Or.inl (by omega))).trans (hsame2 (Or.inl (by omega)))).trans
      (hsame3 (Or.inl (Nat.le_refl _)))
  · exact ((hsame1 (Or.inl (Nat.le_refl _))).trans (hsame2 (Or.inl (by omega)))).trans
      (hsame3 (Or.inr (Nat.le_refl _)))
  · exact ((hsame1 (Or.inr (by omega))).trans (hsame2 (Or.inr (by omega)))).trans
      (hsame3 (Or.inr (by omega)))
  · rw [← u32At_congr (hsame3 (Or.inr (by omega))), ← u32At_congr (hsame2 (Or.inl (by omega))),
      ← hd1]
    exact u32At_patch 0 hl1 hptr rfl
  · rw [← u32At_congr (hsame3 (Or.inr (by omega))), ← hd2]
    exact u32At_patch 0 hl2 hsize rfl

/-- Both branches of an embedding write the table directory into the kept bytes followed by
the row. -/
theorem exists_write_of_append {image pkcs7Der wrapped out : List UInt8} {va size : Nat}
    (h : peAppendAuthenticodePkcs7Certificate image pkcs7Der = .ok out)
    (hread : readSecurityDataDirectory image = .ok (va, size))
    (hw : wrapPkcs7DerAuthenticodeWinCertificate pkcs7Der = wrapped) :
    (va = 0 → size = 0) ∧ appendAt image va size ≤ image.length ∧ tableAt image va < 2 ^ 32 ∧
      size + wrapped.length < 2 ^ 32 ∧
      (writeSecurityDataDirectory (image.take (appendAt image va size) ++ wrapped)
        (tableAt image va) (size + wrapped.length) >>= peRefreshImageChecksum) = .ok out := by
  simp only [peAppendAuthenticodePkcs7Certificate, hw, hread, Outcome.ok_bind] at h
  obtain ⟨u, hvalid, h⟩ := Outcome.bind_eq_ok.mp h
  rcases validateAttributeCertificateTableAlignment_eq_ok hvalid with ⟨rfl, rfl⟩ | ⟨hva, hsize⟩
  · simp only [and_self, if_true, Outcome.guardThat_bind_eq_ok] at h
    obtain ⟨-, hlen, hwrapped, h⟩ := h
    refine ⟨fun _ => rfl, Nat.le_refl _, hlen, by omega, ?_⟩
    simpa [appendAt, tableAt] using h
  · simp only [hva, false_and, if_false, Outcome.guardThat_bind_eq_ok] at h
    obtain ⟨-, -, hstop, -, hfit, h⟩ := h
    obtain ⟨slot', -, hva32, -⟩ := exists_slot_of_read hread
    have hptr : va < 2 ^ 32 := hva32 ▸ u32At_lt _ _
    simp only [appendAt, tableAt, if_neg hva]
    exact ⟨fun hzero => absurd hzero hva, hstop, hptr, hfit, h⟩

/-- The kept bytes followed by the row have the header of the image. -/
theorem sameHeader_kept {image : List UInt8} {slot : SecuritySlot} {stop : Nat}
    (hfront : slot.dataDir + 8 ≤ stop) (hkept : stop ≤ image.length) (wrapped : List UInt8) :
    SameHeader slot stop image (image.take stop ++ wrapped) := by
  have htake := sameOn_append (image.take stop) wrapped 0
  rw [List.length_take_of_le hkept] at htake
  have hbase : SameOn image (image.take stop ++ wrapped) 0 stop := (sameOn_take _ 0).trans htake
  have hle := slot.checkSum_le
  exact ⟨hbase.mono (Nat.zero_le _) (by omega), hbase.mono (Nat.zero_le _) (by omega),
    hbase.mono (Nat.zero_le _) (Nat.le_refl _)⟩

/-- What an embedding does to an image whose security slot lies in front of the
new row: the row is added behind what is kept of the image, and of the kept
bytes only the two fields change. -/
theorem peAppendAuthenticodePkcs7Certificate_eq_ok {image pkcs7Der out : List UInt8}
    {va size : Nat} {slot : SecuritySlot}
    (h : peAppendAuthenticodePkcs7Certificate image pkcs7Der = .ok out)
    (hread : readSecurityDataDirectory image = .ok (va, size)) (hslot : HasSlot image slot)
    (hfront : slot.dataDir + 8 ≤ appendAt image va size) :
    (va = 0 → size = 0) ∧ appendAt image va size ≤ image.length ∧
      out.length = appendAt image va size +
        (wrapPkcs7DerAuthenticodeWinCertificate pkcs7Der).length ∧
      SameHeader slot (appendAt image va size) image out ∧
      readSecurityDataDirectory out = .ok (tableAt image va,
        size + (wrapPkcs7DerAuthenticodeWinCertificate pkcs7Der).length) := by
  generalize hw : wrapPkcs7DerAuthenticodeWinCertificate pkcs7Der = wrapped
  obtain ⟨hnone, hkept, hptr, hfit, hwrite⟩ := exists_write_of_append h hread hw
  have hlenBase : (image.take (appendAt image va size) ++ wrapped).length =
      appendAt image va size + wrapped.length := by
    rw [List.length_append, List.length_take_of_le hkept]
  have hle := slot.checkSum_le
  have hheaderBase := sameHeader_kept hfront hkept wrapped
  have hslotBase : HasSlot (image.take (appendAt image va size) ++ wrapped) slot :=
    hslot.congr hheaderBase (by omega)
  obtain ⟨hlenOut, hsameOut, hptrOut, hsizeOut⟩ := rewrite_fields hslotBase hptr hfit hwrite
  have hheader : SameHeader slot (appendAt image va size) image out :=
    ⟨hheaderBase.1.trans hsameOut.1, hheaderBase.2.1.trans hsameOut.2.1,
      hheaderBase.2.2.trans (hsameOut.2.2.mono (Nat.le_refl _) (by omega))⟩
  refine ⟨hnone, hkept, by omega, hheader, ?_⟩
  rw [readSecurityDataDirectory_congr hread hslot hheader (by omega), hptrOut, hsizeOut]

/-- Preparing an image leaves its table directory, and the whole image when
there is a table. -/
theorem pePrepareForAuthenticodeSigning_eq_ok {image prepared : List UInt8} {va size : Nat}
    (h : pePrepareForAuthenticodeSigning image = .ok prepared)
    (hread : readSecurityDataDirectory image = .ok (va, size)) :
    readSecurityDataDirectory prepared = .ok (va, size) ∧ (va ≠ 0 → prepared = image) := by
  simp only [pePrepareForAuthenticodeSigning, hread, Outcome.ok_bind] at h
  obtain ⟨u, -, h⟩ := Outcome.bind_eq_ok.mp h
  by_cases hva : va = 0
  · simp only [hva, ne_eq, not_true, if_false, Outcome.bind_eq_ok, Outcome.guardThat_eq_ok,
      exists_const, Outcome.pure_eq_ok, Except.ok.injEq] at h
    obtain ⟨-, -, rfl⟩ := h
    refine ⟨?_, fun hne => absurd hva hne⟩
    obtain ⟨slot, hslot, rfl, rfl⟩ := exists_slot_of_read hread
    have hle := slot.checkSum_le
    have hfits : slot.dataDir + 8 ≤ image.length := hslot.choose_spec.choose_spec.2.2.2
    have hsame := sameOn_append image (List.replicate ((8 - image.length % 8) % 8) 0) 0
    have hheader : SameHeader slot image.length image
        (image ++ List.replicate ((8 - image.length % 8) % 8) 0) :=
      ⟨hsame.mono (Nat.zero_le _) (by omega), hsame.mono (Nat.zero_le _) (by omega),
        hsame.mono (Nat.zero_le _) (Nat.le_refl _)⟩
    rw [readSecurityDataDirectory_congr hread hslot hheader (by rw [List.length_append]; omega),
      u32At_congr (hsame.mono (Nat.zero_le _) (by omega)),
      u32At_congr (hsame.mono (Nat.zero_le _) (by omega))]
  · simp only [ne_eq, hva, not_false_eq_true, if_true, Outcome.pure_eq_ok, Except.ok.injEq] at h
    subst h
    exact ⟨hread, fun _ => rfl⟩

/-! ## The hashed stream after the embedding -/

section Stream

variable {parser : PeParser} {image stream pkcs7Der out : List UInt8} {pe : ParsedPe}
  {va size : Nat}

/-- The raw data of the sections lies past the headers. -/
def SectionsPastHeaders (pe : ParsedPe) : Prop :=
  ∀ offsets, pe.offsets = some offsets → ∀ r, some r ∈ pe.sections → r.1 < r.2 →
    offsets.afterHeader ≤ r.1

@[simp] theorem tableSize_some (start size : Nat) :
    tableSize (some (start, start + size)) = some size := by
  simp [tableSize, checkedSub]

theorem mem_of_mapM_id {sections : List (Option FileRange)} {ranges : List FileRange}
    (h : sections.mapM id = some ranges) : ∀ r ∈ ranges, some r ∈ sections := by
  induction sections generalizing ranges with
  | nil =>
    obtain rfl : [] = ranges := by simpa using h
    simp
  | cons section_ sections ih =>
    simp only [List.mapM_cons, id_eq, Option.bind_eq_bind, Option.bind_eq_some_iff, Option.pure_def,
      Option.some.injEq] at h
    obtain ⟨r, rfl, rest, hrest, rfl⟩ := h
    intro r' hr'
    rcases List.mem_cons.mp hr' with rfl | hmem
    · exact List.mem_cons_self
    · exact List.mem_cons_of_mem _ (ih hrest r' hmem)

theorem mem_sortByStart {sections : List FileRange} {r : FileRange} :
    r ∈ sortByStart sections ↔ r ∈ sections :=
  (List.perm_insertionSort _ sections).mem_iff

/-- The size that the layout subtracts is the size in the directory. -/
theorem tableSize_of_parse (hparse : parser.parse image = .ok pe)
    (hread : readSecurityDataDirectory image = .ok (va, size)) (hnone : va = 0 → size = 0)
    {table : Option FileRange} {tsize : Nat} (htable : pe.certificateTableRange = some table)
    (htsize : tableSize table = some tsize) : tsize = size := by
  rw [parser.table_of_parse hparse hread] at htable
  obtain rfl := Option.some.inj htable
  by_cases hva : va = 0
  · rw [if_pos hva] at htsize
    rw [hnone hva]
    exact (Option.some.inj htsize).symm
  · rw [if_neg hva, tableSize_some] at htsize
    exact (Option.some.inj htsize).symm

/-- Nothing of the hashed stream changes when the new row is added at the end of
the file. -/
theorem digestStream_append (happend : peAppendAuthenticodePkcs7Certificate image pkcs7Der = .ok out)
    (hread : readSecurityDataDirectory image = .ok (va, size)) (hparse : parser.parse image = .ok pe)
    (hsections : SectionsPastHeaders pe) (hstream : digestStream parser image = .ok stream)
    (hend : appendAt image va size = image.length) : digestStream parser out = .ok stream := by
  obtain ⟨pe', ranges, hpe', hranges, hconcat⟩ := (digestStream_eq_ok parser).mp hstream
  obtain rfl := Except.ok.inj (hparse.symm.trans hpe')
  obtain ⟨offsets, sections, sum, table, tsize, hoffsets, hmapM, hsum, htable, htsize, hfit, h64,
    hshape⟩ := authenticodeDigestFileRanges_eq_some.mp hranges
  obtain ⟨slot, hslot, hcheck, hafterCheck, hdir, hafterDir⟩ := parser.offsets_of_parse hparse hoffsets
  have hheaders := parser.headers_of_parse hparse
  have hfront := parser.slot_of_parse hparse hslot
  obtain ⟨hnone, -, hlenOut, hsame, hreadOut⟩ :=
    peAppendAuthenticodePkcs7Certificate_eq_ok happend hread hslot (by omega)
  rw [hend] at hlenOut hsame
  obtain ⟨peOut, hparseOut, hoffsetsOut, hsectionsOut, -⟩ := parser.parse_congr hparse hslot
    ⟨hsame.1, hsame.2.1, hsame.2.2.mono (Nat.le_refl _) hheaders⟩ (by omega)
  -- the table grows by what the file grows
  have htableOut := parser.table_of_parse hparseOut hreadOut
  have hat : tableAt image va ≠ 0 := by
    unfold tableAt
    split <;> omega
  rw [if_neg hat] at htableOut
  obtain rfl := tableSize_of_parse hparse hread hnone htable htsize
  have hvalid := valid_of_concatRanges hconcat
  have hhead : slot.dataDir + 8 ≤ offsets.afterHeader ∧ offsets.afterHeader ≤ image.length := by
    have := hvalid (offsets.afterSecurityDataDir, offsets.afterHeader) (by simp [hshape])
    rw [hafterDir] at this
    exact this
  have hsumLe := (sumSections_eq_some hsum).1
  refine (digestStream_eq_ok parser).mpr ⟨peOut, ranges, hparseOut, ?_, ?_⟩
  · refine authenticodeDigestFileRanges_eq_some.mpr ⟨offsets, sections, sum, _, _,
      hoffsetsOut.trans hoffsets, hsectionsOut ▸ hmapM, sumSections_mono (by omega) hsum, htableOut,
      tableSize_some _ _, by omega, by omega, ?_⟩
    rw [hshape, hlenOut, Nat.add_sub_add_right]
  · rw [← hconcat]
    refine (concatRanges_congr fun r hr => ?_).symm
    have hr' := hvalid r hr
    refine slice_congr ?_ hr'.2 (by omega)
    -- every range stays clear of the two rewritten fields
    simp only [hshape, List.mem_append, List.mem_cons, List.not_mem_nil, or_false] at hr
    rcases hr with ((rfl | rfl | rfl) | hsection) | rfl
    · exact hcheck ▸ hsame.1
    · exact hafterCheck ▸ hdir ▸ hsame.2.1
    · exact hafterDir ▸ hsame.2.2.mono (Nat.le_refl _) hr'.2
    · by_cases hempty : r.1 < r.2
      · have hpast := hsections offsets hoffsets r
          (mem_of_mapM_id hmapM r (mem_sortByStart.mp hsection)) hempty
        exact hsame.2.2.mono (by omega) hr'.2
      · intro i hl hh
        omega
    · exact hsame.2.2.mono (by omega) hr'.2

/-- Cutting bytes off behind the table changes the length of the hashed stream. -/
theorem digestStream_append_ne
    (happend : peAppendAuthenticodePkcs7Certificate image pkcs7Der = .ok out)
    (hread : readSecurityDataDirectory image = .ok (va, size)) (hparse : parser.parse image = .ok pe)
    (hheaders : pe.headersEnd ≤ appendAt image va size)
    (hstream : digestStream parser image = .ok stream)
    (hend : appendAt image va size ≠ image.length) : digestStream parser out ≠ .ok stream := by
  intro hstreamOut
  obtain ⟨pe', ranges, hpe', hranges, hconcat⟩ := (digestStream_eq_ok parser).mp hstream
  obtain rfl := Except.ok.inj (hparse.symm.trans hpe')
  obtain ⟨offsets, sections, sum, table, tsize, hoffsets, hmapM, hsum, htable, htsize, hfit, h64,
    rfl⟩ := authenticodeDigestFileRanges_eq_some.mp hranges
  obtain ⟨slot, hslot, -⟩ := parser.offsets_of_parse hparse hoffsets
  have hfront := parser.slot_of_parse hparse hslot
  obtain ⟨hnone, hkept, hlenOut, hsame, hreadOut⟩ :=
    peAppendAuthenticodePkcs7Certificate_eq_ok happend hread hslot (by omega)
  obtain ⟨peOut, hparseOut, hoffsetsOut, hsectionsOut, -⟩ := parser.parse_congr hparse hslot
    ⟨hsame.1, hsame.2.1, hsame.2.2.mono (Nat.le_refl _) hheaders⟩ (by omega)
  obtain ⟨peOut', rangesOut, hpeOut', hrangesOut, hconcatOut⟩ :=
    (digestStream_eq_ok parser).mp hstreamOut
  obtain rfl := Except.ok.inj (hparseOut.symm.trans hpeOut')
  obtain ⟨offsets', sections', sum', table', tsize', hoffsets', hmapM', hsum', htable', htsize',
    hfit', -, rfl⟩ := authenticodeDigestFileRanges_eq_some.mp hrangesOut
  obtain rfl := Option.some.inj ((hoffsetsOut.trans hoffsets).symm.trans hoffsets')
  obtain rfl := Option.some.inj (hmapM.symm.trans (hsectionsOut ▸ hmapM'))
  obtain rfl := tableSize_of_parse hparse hread hnone htable htsize
  have hat : tableAt image va = 0 → tsize + (wrapPkcs7DerAuthenticodeWinCertificate pkcs7Der).length
      = 0 := by
    unfold tableAt
    split <;> omega
  obtain rfl := tableSize_of_parse hparseOut hreadOut hat htable' htsize'
  have hsumEq : sum = sum' := by
    rw [(sumSections_eq_some hsum).1, (sumSections_eq_some hsum').1]
  have hlength := (length_concatRanges hconcat).symm.trans (length_concatRanges hconcatOut)
  simp only [totalLength, List.map_append, List.sum_append, List.map_cons, List.map_nil,
    List.sum_cons, List.sum_nil] at hlength
  omega

end Stream

/-- Signing a PE image keeps the bytes that were hashed exactly when no bytes
follow an existing certificate table. -/
theorem sign_pe_stream_iff {parser : PeParser} {image prepared out stream pkcs7Der : List UInt8}
    {pe : ParsedPe} {va size : Nat} (hread : readSecurityDataDirectory image = .ok (va, size))
    (hprepare : pePrepareForAuthenticodeSigning image = .ok prepared)
    (happend : peAppendAuthenticodePkcs7Certificate prepared pkcs7Der = .ok out)
    (hparse : parser.parse prepared = .ok pe) (hsections : SectionsPastHeaders pe)
    (hheaders : va ≠ 0 → pe.headersEnd ≤ va + size)
    (hstream : digestStream parser prepared = .ok stream) :
    digestStream parser out = .ok stream ↔ va = 0 ∨ va + size = image.length := by
  obtain ⟨hreadPrepared, hkeep⟩ := pePrepareForAuthenticodeSigning_eq_ok hprepare hread
  by_cases hend : appendAt prepared va size = prepared.length
  · refine iff_of_true
      (digestStream_append happend hreadPrepared hparse hsections hstream hend) ?_
    by_cases hva : va = 0
    · exact Or.inl hva
    · rw [appendAt, if_neg hva, hkeep hva] at hend
      exact Or.inr hend
  · have hva : va ≠ 0 := fun hva => hend (if_pos hva)
    obtain rfl := hkeep hva
    have hat : appendAt prepared va size = va + size := if_neg hva
    refine iff_of_false ?_ (by omega)
    exact digestStream_append_ne happend hread hparse (hat ▸ hheaders hva) hstream hend

/-- A PE32 image of 224 bytes that is all headers, with a security data directory. -/
def tinyPe (va size : Nat) : List UInt8 :=
  [0x4d, 0x5a] ++ List.replicate 58 0 ++ u32le 0x40 ++ [0x50, 0x45, 0, 0] ++
    List.replicate 16 0 ++ u16le 136 ++ u16le 0 ++ u16le 0x10b ++ List.replicate 58 0 ++
    u32le 224 ++ List.replicate 28 0 ++ u32le 5 ++ List.replicate 32 0 ++ u32le va ++ u32le size

/-- The image after a signature was embedded. -/
def signedTinyPe : List UInt8 :=
  (peAppendAuthenticodePkcs7Certificate (tinyPe 0 0) [0x30, 0x00]).toOption.getD []

/-- A PE32 image with a section of eight bytes, and a row of sixteen bytes in its certificate
table. -/
def sectionPe : List UInt8 :=
  [0x4d, 0x5a] ++ List.replicate 58 0 ++ u32le 0x40 ++ [0x50, 0x45, 0, 0] ++ u16le 0x14c ++
    u16le 1 ++ List.replicate 12 0 ++ u16le 136 ++ u16le 0 ++ u16le 0x10b ++ List.replicate 58 0 ++
    u32le 264 ++ List.replicate 28 0 ++ u32le 5 ++ List.replicate 32 0 ++ u32le 272 ++ u32le 16 ++
    ([0x2e, 0x74, 0x65, 0x78, 0x74, 0, 0, 0] ++ u32le 8 ++ u32le 0x1000 ++ u32le 8 ++ u32le 264 ++
      List.replicate 16 0) ++
    [1, 2, 3, 4, 5, 6, 7, 8] ++ wrapPkcs7DerAuthenticodeWinCertificate [0x30, 0x02, 0x05, 0x00]

/-- What is hashed of it. -/
def sectionStream : List UInt8 :=
  sectionPe.take 152 ++ (sectionPe.take 216).drop 156 ++ (sectionPe.take 272).drop 224

/-- The image after a second signature was embedded. -/
def signedSectionPe : List UInt8 :=
  (peAppendAuthenticodePkcs7Certificate sectionPe [0x30, 0x00]).toOption.getD []

set_option maxRecDepth 4000

theorem sign_pe_stream_iff_section :
    digestStream PeParser.headers signedSectionPe = .ok sectionStream ↔
      272 = 0 ∨ 272 + 16 = sectionPe.length :=
  @sign_pe_stream_iff PeParser.headers sectionPe sectionPe signedSectionPe _ [0x30, 0x00]
    ⟨some ⟨152, 156, 216, 224, 264⟩, [some (264, 272)], some (some (272, 288)), 264⟩ 272 16
    (by decide +kernel) (by decide +kernel) (by decide +kernel) (by decide +kernel)
    (by
      intro offsets hoffsets r hr _
      rw [← Option.some.inj hoffsets, Option.some.inj (List.mem_singleton.mp hr)])
    (fun _ => by decide) (by decide +kernel)

/-- An image with a certificate table of eight bytes and eight bytes after it. -/
def trailingPe : List UInt8 :=
  tinyPe 224 8 ++ List.replicate 8 0x11 ++ List.replicate 8 0x22

/-- The image is accepted and signed, and what is hashed before and after is not
the same. -/
theorem sign_pe_stream_trailing_fails :
    pePrepareForAuthenticodeSigning trailingPe = .ok trailingPe ∧
    (digestStream PeParser.headers trailingPe).toOption.isSome ∧
    ((peAppendAuthenticodePkcs7Certificate trailingPe [0x30, 0x00]) >>=
      digestStream PeParser.headers).toOption.isSome ∧
    digestStream PeParser.headers trailingPe ≠
      ((peAppendAuthenticodePkcs7Certificate trailingPe [0x30, 0x00]) >>=
        digestStream PeParser.headers) := by
  refine ⟨?_, ?_, ?_, ?_⟩ <;> decide

end Psign.Sip
