import Psign.Sip.VerifyPe

/-!
# Signing an image again and again

What the embedding does to the rows of the certificate table, and what
`peRemoveAuthenticodeCertificates` takes away.

An embedding adds one row behind the table (`hasTable_append`), so after any number of them
the table is the old one followed by the new rows (`hasTable_appendAll`).  The verifier finds
them when it walks through the old table without an error.  The old table is looked at only
for its alignment: in a table that ends in a broken row the new rows are not found, or are
taken for the data of that row (`walks_of_appendKeepsRows`).
-/

namespace Psign.Sip

open CodeLib CodeLib.Bytes

/-! ## Definitions -/

/-- `der_tlv_total_len_from_start`. -/
def derTlvTotalLenFromStart (data : List UInt8) : Option Nat :=
  match data with
  | [] => none
  | tag :: rest =>
      if tag ≠ 0x30 then none
      else (parseDerDefiniteLength rest).map fun (contentLen, hdr) => 1 + hdr + contentLen

/-- `pkcs7_outer_sequence_prefix`. -/
def pkcs7OuterSequencePrefix (data : List UInt8) : Option (List UInt8) := do
  let n ← derTlvTotalLenFromStart data
  slice data 0 n

/-- `pe_remove_authenticode_certificates`. -/
def peRemoveAuthenticodeCertificates (image : List UInt8) : Outcome (List UInt8 × Nat) := do
  let (va, size) ← readSecurityDataDirectory image
  if va = 0 ∨ size = 0 then return (image, 0)
  Outcome.guardThat (va + size < 2 ^ 64) "security directory size overflow"
  Outcome.guardThat (¬ (image.length < va ∨ image.length < va + size))
    s!"security directory range {va}..{va + size} is outside PE length {image.length}"
  let out ← writeSecurityDataDirectory (image.take va ++ image.drop (va + size)) 0 0
  let out ← peRefreshImageChecksum out
  return (out, size)

/-- One signature after the other. -/
def peAppendAll (image : List UInt8) (signatures : List (List UInt8)) : Outcome (List UInt8) :=
  signatures.foldlM peAppendAuthenticodePkcs7Certificate image

/-- The items of the iterator on an image; none where there is no table. -/
def certificateItems (image : List UInt8) : List CertificateEntry :=
  match readSecurityDataDirectory image with
  | .error _ => [.error .outOfBounds]
  | .ok (va, size) =>
      if va = 0 then []
      else
        match slice image va (va + size) with
        | none => [.error .outOfBounds]
        | some table => attributeCertificates table

/-- The rows among the items. -/
def yieldedRows (items : List CertificateEntry) : List AttributeCertificate :=
  items.filterMap Except.toOption

/-- One SEQUENCE with a definite length. -/
def IsSequence (p : List UInt8) : Prop :=
  ∃ lenBytes content, p = 0x30 :: (lenBytes ++ content) ∧
    parseDerDefiniteLength lenBytes = some (content.length, lenBytes.length)

/-- A row holds a PKCS#7. -/
def IsPkcs7RowOf (p : List UInt8) (attr : AttributeCertificate) : Prop :=
  attr.certificateType = winCertTypePkcsSignedData ∧ pkcs7OuterSequencePrefix attr.data = some p

/-- After any number of signatures the verifier finds the earlier rows and a row for each
signature. -/
def AppendKeepsRows (image : List UInt8) : Prop :=
  ∀ signatures out, signatures ≠ [] → (∀ p ∈ signatures, IsSequence p) →
    peAppendAll image signatures = .ok out →
    ∃ rows, certificateItems out = (yieldedRows (certificateItems image) ++ rows).map .ok ∧
      List.Forall₂ IsPkcs7RowOf signatures rows

/-- Removing the table after any number of signatures gives back the image, `CheckSum` apart,
and says how many bytes were added. -/
def RemoveUndoes (image : List UInt8) (slot : SecuritySlot) : Prop :=
  ∀ signatures out, (∀ p ∈ signatures, IsSequence p) → peAppendAll image signatures = .ok out →
    ∃ restored, peRemoveAuthenticodeCertificates out = .ok (restored, out.length - image.length) ∧
      SameOutside image restored slot.checkSum (slot.checkSum + 4)

/-! ## The iterator on an image -/

section items

variable {parser : PeParser} {image table : List UInt8} {pe : ParsedPe} {va size : Nat}

/-- The items are those of the iterator on the parsed image. -/
theorem attributeCertificateIterator_eq (hparse : parser.parse image = .ok pe)
    (hread : readSecurityDataDirectory image = .ok (va, size)) :
    (match attributeCertificateIterator image pe with
      | .error e => [.error e]
      | .ok none => []
      | .ok (some items) => items) = certificateItems image := by
  have hrange := parser.table_of_parse hparse hread
  simp only [certificateItems, hread]
  by_cases hva : va = 0
  · rw [if_pos hva] at hrange
    simp only [attributeCertificateIterator, hrange, if_pos hva]
  · rw [if_neg hva] at hrange
    simp only [attributeCertificateIterator, hrange, if_neg hva]
    cases slice image va (va + size) with
    | none => rfl
    | some table => rfl

theorem certificateItems_of_table (h : HasTable image va size table) (hva : va ≠ 0) :
    certificateItems image = attributeCertificates table := by
  simp only [certificateItems, h.1, if_neg hva, h.2]

theorem yieldedRows_map_ok (rows : List AttributeCertificate) : yieldedRows (rows.map .ok) = rows := by
  rw [yieldedRows, List.filterMap_map]
  exact List.filterMap_some

/-- A table is a sequence of rows, and behind them nothing or a broken row. -/
theorem exists_rows_and_rest (table : List UInt8) :
    ∃ (chunks : List (List UInt8)) (rest : List UInt8), table = chunks.flatten ++ rest ∧
      (∀ chunk ∈ chunks, IsRow chunk) ∧ (rest ≠ [] → ∃ e, attributeCertificates rest = [.error e]) := by
  induction hlen : table.length using Nat.strong_induction_on generalizing table with
  | _ n ih =>
    cases hitems : attributeCertificates table with
    | nil =>
      have hmap : attributeCertificates table = ([] : List AttributeCertificate).map .ok := hitems
      obtain ⟨chunks, hrows, rfl, _⟩ := attributeCertificates_eq_map_ok.mp hmap
      exact ⟨chunks, [], (List.append_nil _).symm, hrows, fun hne => absurd rfl hne⟩
    | cons item items =>
      cases item with
      | error e =>
        refine ⟨[], table, rfl, by simp, fun _ => ⟨e, ?_⟩⟩
        have hstop := hitems
        rw [attributeCertificates] at hstop
        cases hfuel : table.length with
        | zero =>
          rw [hfuel] at hstop
          cases hstop
        | succ fuel =>
          rw [hfuel] at hstop
          simp only [attributeCertificatesFrom] at hstop
          rw [hitems]
          split_ifs at hstop
          · injection hstop with _ hnone
            rw [← hnone]
          · injection hstop with _ hnone
            rw [← hnone]
          · injection hstop with hitem _
            cases hitem
      | ok attr =>
        obtain ⟨chunk, rest, rfl, hrow, _, _⟩ := exists_row_of_cons hitems
        have hpos := hrow.length_ge
        rw [List.length_append] at hlen
        obtain ⟨chunks, rest', rfl, hrows, hrest⟩ := ih rest.length (by omega) rest rfl
        refine ⟨chunk :: chunks, rest', by rw [List.flatten_cons, List.append_assoc], ?_, hrest⟩
        intro c hc
        rcases List.mem_cons.mp hc with rfl | hmem
        · exact hrow
        · exact hrows c hmem

end items

/-! ## The new row -/

section wrap

variable {p : List UInt8}

/-- The padding of a row. -/
def rowPadding (len : Nat) : Nat :=
  (8 - (8 + len) % 8) % 8

theorem wrap_eq (p : List UInt8) : wrapPkcs7DerAuthenticodeWinCertificate p =
    u32le ((8 + p.length + rowPadding p.length) % 2 ^ 32) ++ u16le 0x0200 ++ u16le 0x0002 ++ p ++
      List.replicate (rowPadding p.length) 0 := rfl

theorem length_wrap (p : List UInt8) :
    (wrapPkcs7DerAuthenticodeWinCertificate p).length = 8 + p.length + rowPadding p.length := by
  simp only [wrap_eq, List.length_append, length_u32le, List.length_replicate]
  rfl

theorem length_wrap_mod (p : List UInt8) :
    (wrapPkcs7DerAuthenticodeWinCertificate p).length % 8 = 0 := by
  rw [length_wrap, rowPadding]
  omega

theorem size_of_wrap (hfit : (wrapPkcs7DerAuthenticodeWinCertificate p).length < 2 ^ 32) :
    u32At (wrapPkcs7DerAuthenticodeWinCertificate p) 0 =
      (wrapPkcs7DerAuthenticodeWinCertificate p).length := by
  rw [length_wrap] at hfit ⊢
  rw [wrap_eq, Nat.mod_eq_of_lt hfit]
  simp only [List.append_assoc]
  exact u32At_u32le hfit _

theorem isRow_wrap (hfit : (wrapPkcs7DerAuthenticodeWinCertificate p).length < 2 ^ 32) :
    IsRow (wrapPkcs7DerAuthenticodeWinCertificate p) := by
  have hsize := size_of_wrap hfit
  refine ⟨?_, ?_⟩
  · rw [hsize, length_wrap]
    omega
  · rw [hsize, roundUp8_of_mod (length_wrap_mod p)]

theorem rowOf_wrap (hfit : (wrapPkcs7DerAuthenticodeWinCertificate p).length < 2 ^ 32) :
    rowOf (wrapPkcs7DerAuthenticodeWinCertificate p) =
      ⟨0x0200, winCertTypePkcsSignedData, p ++ List.replicate (rowPadding p.length) 0⟩ := by
  have hlen := hfit
  rw [length_wrap] at hlen
  have hshape : wrapPkcs7DerAuthenticodeWinCertificate p =
      u32le (8 + p.length + rowPadding p.length) ++ (u16le 0x0200 ++ (u16le 0x0002 ++
        (p ++ List.replicate (rowPadding p.length) 0))) := by
    rw [wrap_eq, Nat.mod_eq_of_lt hlen]
    simp only [List.append_assoc]
  have hrevision : u16At (wrapPkcs7DerAuthenticodeWinCertificate p) 4 = 0x0200 := by
    rw [hshape]
    exact (u16At_append_right (u32le _) _ 0).trans (u16At_u16le (by decide) _)
  have htype : u16At (wrapPkcs7DerAuthenticodeWinCertificate p) 6 = 0x0002 := by
    rw [hshape, ← List.append_assoc]
    exact (u16At_append_right (u32le _ ++ u16le 0x0200) _ 0).trans (u16At_u16le (by decide) _)
  rw [rowOf, hrevision, htype, size_of_wrap hfit, List.take_length]
  rfl

/-- The PKCS#7 of a row is what its SEQUENCE says, without the padding. -/
theorem pkcs7OuterSequencePrefix_append (h : IsSequence p) (rest : List UInt8) :
    pkcs7OuterSequencePrefix (p ++ rest) = some p := by
  obtain ⟨lenBytes, content, rfl, hlen⟩ := h
  have hread : parseDerDefiniteLength (lenBytes ++ content ++ rest) =
      some (content.length, lenBytes.length) := by
    rw [List.append_assoc]
    exact Der.readLength_append hlen _
  have htotal : derTlvTotalLenFromStart (0x30 :: (lenBytes ++ content) ++ rest) =
      some (1 + lenBytes.length + content.length) := by
    show (if (0x30 : UInt8) ≠ 0x30 then none
      else (parseDerDefiniteLength (lenBytes ++ content ++ rest)).map _) = _
    rw [if_neg (by decide), hread]
    rfl
  have hsize : (0x30 :: (lenBytes ++ content)).length = 1 + lenBytes.length + content.length := by
    rw [List.length_cons, List.length_append]
    omega
  rw [pkcs7OuterSequencePrefix, htotal, Option.bind_eq_bind, Option.bind_some, ← hsize]
  exact slice_eq_some.mpr ⟨Nat.zero_le _, by rw [List.length_append]; omega,
    by rw [List.take_left, List.drop_zero]⟩

theorem isPkcs7RowOf_wrap (h : IsSequence p)
    (hfit : (wrapPkcs7DerAuthenticodeWinCertificate p).length < 2 ^ 32) :
    IsPkcs7RowOf p (rowOf (wrapPkcs7DerAuthenticodeWinCertificate p)) := by
  rw [rowOf_wrap hfit]
  exact ⟨rfl, pkcs7OuterSequencePrefix_append h _⟩

end wrap

/-! ## Any number of signatures -/

section run

variable {image out p table : List UInt8} {signatures : List (List UInt8)} {va size : Nat}
  {slot : SecuritySlot}

/-- The bytes of the rows that are added. -/
def newRows (signatures : List (List UInt8)) : List UInt8 :=
  (signatures.map wrapPkcs7DerAuthenticodeWinCertificate).flatten

/-- The certificate table of an image, empty where it has none. -/
def oldTable (image : List UInt8) (va size : Nat) : List UInt8 :=
  (image.take (appendAt image va size)).drop (tableAt image va)

/-- One signature adds its row to the table. -/
theorem hasTable_append (h : peAppendAuthenticodePkcs7Certificate image p = .ok out)
    (hread : readSecurityDataDirectory image = .ok (va, size)) (hslot : HasSlot image slot)
    (hfront : slot.dataDir + 8 ≤ tableAt image va) :
    HasTable out (tableAt image va) (size + (wrapPkcs7DerAuthenticodeWinCertificate p).length)
        (oldTable image va size ++ wrapPkcs7DerAuthenticodeWinCertificate p) ∧
      out.length = tableAt image va + (size + (wrapPkcs7DerAuthenticodeWinCertificate p).length) ∧
      SameHeader slot (tableAt image va) image out ∧
      (wrapPkcs7DerAuthenticodeWinCertificate p).length < 2 ^ 32 := by
  obtain ⟨hnone, hkept, hptr, hfit, hwrite⟩ := exists_write_of_append h hread rfl
  have hat : tableAt image va + size = appendAt image va size := by
    unfold tableAt appendAt
    split_ifs with hva
    · rw [hnone hva, Nat.add_zero]
    · rfl
  obtain ⟨_, _, hlen, hsame, hreadOut⟩ :=
    peAppendAuthenticodePkcs7Certificate_eq_ok h hread hslot (by omega)
  have hheader := sameHeader_kept (show slot.dataDir + 8 ≤ appendAt image va size by omega) hkept
    (wrapPkcs7DerAuthenticodeWinCertificate p)
  have hlenBase : (image.take (appendAt image va size) ++
      wrapPkcs7DerAuthenticodeWinCertificate p).length =
        appendAt image va size + (wrapPkcs7DerAuthenticodeWinCertificate p).length := by
    rw [List.length_append, List.length_take_of_le hkept]
  obtain ⟨_, hfields, _, _⟩ := rewrite_fields (hslot.congr hheader (by omega)) hptr hfit hwrite
  refine ⟨⟨hreadOut, ?_⟩, by omega, ⟨hsame.1, hsame.2.1, hsame.2.2.mono (Nat.le_refl _) (by omega)⟩,
    by omega⟩
  -- behind the directory the result is what was kept and the row
  rw [← slice_congr (hfields.2.2.mono hfront (by omega)) (by omega) (by omega)]
  refine slice_eq_some.mpr ⟨by omega, by omega, ?_⟩
  rw [List.take_of_length_le (by omega), oldTable,
    List.drop_append_of_le_length (by rw [List.length_take_of_le hkept]; omega)]

theorem peAppendAll_cons (image p : List UInt8) (signatures : List (List UInt8)) :
    peAppendAll image (p :: signatures) =
      peAppendAuthenticodePkcs7Certificate image p >>= fun next => peAppendAll next signatures :=
  List.foldlM_cons

theorem oldTable_of_hasTable (h : HasTable image va size table) (hva : va ≠ 0) :
    oldTable image va size = table := by
  rw [oldTable, appendAt, tableAt, if_neg hva, if_neg hva]
  exact (slice_eq_some.mp h.2).2.2.symm

/-- The table of an image that is signed again: the old one followed by the new rows. -/
theorem hasTable_appendAll_of_table (h : peAppendAll image signatures = .ok out)
    (htable : HasTable image va size table) (hslot : HasSlot image slot)
    (hfront : slot.dataDir + 8 ≤ va) (hlen : image.length = va + size) :
    HasTable out va (size + (newRows signatures).length) (table ++ newRows signatures) ∧
      out.length = va + (size + (newRows signatures).length) ∧ SameHeader slot va image out ∧
      ∀ p ∈ signatures, (wrapPkcs7DerAuthenticodeWinCertificate p).length < 2 ^ 32 := by
  induction signatures generalizing image size table with
  | nil =>
    obtain rfl := Except.ok.inj h
    refine ⟨?_, hlen, ⟨fun _ _ _ => rfl, fun _ _ _ => rfl, fun _ _ _ => rfl⟩, by simp⟩
    rw [show newRows [] = [] from rfl, List.append_nil]
    exact htable
  | cons p signatures ih =>
    rw [peAppendAll_cons] at h
    obtain ⟨next, hnext, h⟩ := Outcome.bind_eq_ok.mp h
    have hva : va ≠ 0 := by omega
    have hat : tableAt image va = va := if_neg hva
    obtain ⟨htableNext, hlenNext, hsameNext, hfit⟩ :=
      hasTable_append hnext htable.1 hslot (hat.symm ▸ hfront)
    rw [hat, oldTable_of_hasTable htable hva] at htableNext
    rw [hat] at hlenNext hsameNext
    have hdir := slot.checkSum_le
    obtain ⟨htableOut, hlenOut, hsameOut, hfits⟩ :=
      ih h htableNext (hslot.congr hsameNext (by omega)) hlenNext
    have hrows : newRows (p :: signatures) =
        wrapPkcs7DerAuthenticodeWinCertificate p ++ newRows signatures := rfl
    rw [hrows, List.length_append, ← List.append_assoc, ← Nat.add_assoc]
    refine ⟨htableOut, hlenOut, ⟨hsameNext.1.trans hsameOut.1, hsameNext.2.1.trans hsameOut.2.1,
      hsameNext.2.2.trans hsameOut.2.2⟩, ?_⟩
    intro q hq
    rcases List.mem_cons.mp hq with rfl | hmem
    · exact hfit
    · exact hfits q hmem

/-- The same for any image that is signed once at least. -/
theorem hasTable_appendAll (h : peAppendAll image signatures = .ok out) (hne : signatures ≠ [])
    (hread : readSecurityDataDirectory image = .ok (va, size)) (hslot : HasSlot image slot)
    (hfront : slot.dataDir + 8 ≤ tableAt image va) :
    HasTable out (tableAt image va) (size + (newRows signatures).length)
        (oldTable image va size ++ newRows signatures) ∧
      out.length = tableAt image va + (size + (newRows signatures).length) ∧
      SameHeader slot (tableAt image va) image out ∧
      ∀ p ∈ signatures, (wrapPkcs7DerAuthenticodeWinCertificate p).length < 2 ^ 32 := by
  cases signatures with
  | nil => exact absurd rfl hne
  | cons p signatures =>
    rw [peAppendAll_cons] at h
    obtain ⟨next, hnext, h⟩ := Outcome.bind_eq_ok.mp h
    obtain ⟨htableNext, hlenNext, hsameNext, hfit⟩ := hasTable_append hnext hread hslot hfront
    obtain ⟨htableOut, hlenOut, hsameOut, hfits⟩ := hasTable_appendAll_of_table h htableNext
      (hslot.congr hsameNext (by omega)) hfront hlenNext
    have hrows : newRows (p :: signatures) =
        wrapPkcs7DerAuthenticodeWinCertificate p ++ newRows signatures := rfl
    rw [hrows, List.length_append, ← List.append_assoc, ← Nat.add_assoc]
    refine ⟨htableOut, hlenOut, ⟨hsameNext.1.trans hsameOut.1, hsameNext.2.1.trans hsameOut.2.1,
      hsameNext.2.2.trans hsameOut.2.2⟩, ?_⟩
    intro q hq
    rcases List.mem_cons.mp hq with rfl | hmem
    · exact hfit
    · exact hfits q hmem

end run

/-! ## What the verifier finds -/

section keeps

variable {image out : List UInt8} {va size : Nat} {slot : SecuritySlot}

theorem length_wrap_ge {p : List UInt8} (h : IsSequence p) :
    16 ≤ (wrapPkcs7DerAuthenticodeWinCertificate p).length := by
  obtain ⟨lenBytes, content, rfl, hlen⟩ := h
  have hmod := length_wrap_mod (0x30 :: (lenBytes ++ content))
  rw [length_wrap, List.length_cons] at hmod ⊢
  omega

theorem forall₂_isPkcs7RowOf {signatures : List (List UInt8)} (hseq : ∀ p ∈ signatures, IsSequence p)
    (hfits : ∀ p ∈ signatures, (wrapPkcs7DerAuthenticodeWinCertificate p).length < 2 ^ 32) :
    List.Forall₂ IsPkcs7RowOf signatures
      (signatures.map fun p => rowOf (wrapPkcs7DerAuthenticodeWinCertificate p)) := by
  rw [List.forall₂_map_right_iff, List.forall₂_same]
  exact fun p hp => isPkcs7RowOf_wrap (hseq p hp) (hfits p hp)

/-- The rows of a table that is a sequence of rows and is signed again. -/
theorem appendKeepsRows_of_chunks {chunks : List (List UInt8)}
    (hread : readSecurityDataDirectory image = .ok (va, size)) (hslot : HasSlot image slot)
    (hfront : slot.dataDir + 8 ≤ tableAt image va) (hchunks : ∀ chunk ∈ chunks, IsRow chunk)
    (hold : oldTable image va size = chunks.flatten)
    (hitems : yieldedRows (certificateItems image) = chunks.map rowOf) : AppendKeepsRows image := by
  intro signatures out hne hseq happend
  obtain ⟨htable, _, _, hfits⟩ := hasTable_appendAll happend hne hread hslot hfront
  have hva : tableAt image va ≠ 0 := by omega
  refine ⟨signatures.map fun p => rowOf (wrapPkcs7DerAuthenticodeWinCertificate p), ?_,
    forall₂_isPkcs7RowOf hseq hfits⟩
  rw [certificateItems_of_table htable hva, hold, hitems]
  refine attributeCertificates_eq_map_ok.mpr
    ⟨chunks ++ signatures.map wrapPkcs7DerAuthenticodeWinCertificate, ?_, ?_, ?_⟩
  · intro chunk hchunk
    rcases List.mem_append.mp hchunk with hmem | hmem
    · exact hchunks chunk hmem
    · obtain ⟨p, hp, rfl⟩ := List.mem_map.mp hmem
      exact isRow_wrap (hfits p hp)
  · rw [List.flatten_append]
    rfl
  · rw [List.map_append, List.map_map]
    rfl

/-- An image without a table. -/
theorem appendKeepsRows_of_none (hread : readSecurityDataDirectory image = .ok (0, size))
    (hslot : HasSlot image slot) : AppendKeepsRows image := by
  have hfits : slot.dataDir + 8 ≤ image.length := hslot.choose_spec.choose_spec.2.2.2
  refine @appendKeepsRows_of_chunks image 0 size slot [] hread hslot hfits (by simp) ?_ ?_
  · rw [oldTable, appendAt, tableAt, if_pos rfl, if_pos rfl, List.take_length, List.drop_length]
    rfl
  · rw [certificateItems, hread]
    rfl

/-- An image whose table is walked through. -/
theorem appendKeepsRows_of_walk {rows : List AttributeCertificate} (hva : va ≠ 0)
    (hread : readSecurityDataDirectory image = .ok (va, size)) (hslot : HasSlot image slot)
    (hfront : slot.dataDir + 8 ≤ va) (hwalk : certificateItems image = rows.map .ok) :
    AppendKeepsRows image := by
  have hyielded : yieldedRows (certificateItems image) = rows := by
    rw [hwalk, yieldedRows_map_ok]
  simp only [certificateItems, hread, if_neg hva] at hwalk
  cases htable : slice image va (va + size) with
  | none =>
    rw [htable] at hwalk
    cases rows with
    | nil => cases hwalk
    | cons attr rows => injection hwalk with hitem _; cases hitem
  | some table =>
    rw [htable] at hwalk
    obtain ⟨chunks, hchunks, rfl, rfl⟩ := attributeCertificates_eq_map_ok.mp hwalk
    refine appendKeepsRows_of_chunks hread hslot ?_ hchunks ?_ hyielded
    · rw [tableAt, if_neg hva]
      exact hfront
    · exact oldTable_of_hasTable ⟨hread, htable⟩ hva

/-- A table that is not in the file, or has no room for a row, is not extended. -/
theorem appendKeepsRows_of_full (hva : va ≠ 0)
    (hread : readSecurityDataDirectory image = .ok (va, size))
    (hfull : image.length < va + size ∨ 2 ^ 32 ≤ size + 16) : AppendKeepsRows image := by
  intro signatures out hne hseq happend
  cases signatures with
  | nil => exact absurd rfl hne
  | cons p signatures =>
    rw [peAppendAll_cons] at happend
    obtain ⟨next, hnext, _⟩ := Outcome.bind_eq_ok.mp happend
    obtain ⟨_, hkept, _, hfit, _⟩ := exists_write_of_append hnext hread rfl
    have hlong := length_wrap_ge (hseq p List.mem_cons_self)
    rw [appendAt, if_neg hva] at hkept
    omega

theorem mod_of_valid (h : validateAttributeCertificateTableAlignment va size = .ok ())
    (hva : va ≠ 0) : va % 8 = 0 ∧ size % 8 = 0 := by
  unfold validateAttributeCertificateTableAlignment at h
  by_cases hbad : va = 0 ∨ size = 0
  · rw [if_neg (fun hnone => hva hnone.1), if_pos hbad] at h
    exact absurd h Outcome.bail_ne_ok
  rw [if_neg (fun hnone => hva hnone.1), if_neg hbad] at h
  by_cases hoffset : va % 8 ≠ 0
  · rw [if_pos hoffset] at h
    exact absurd h Outcome.bail_ne_ok
  rw [if_neg hoffset] at h
  by_cases hsize : size % 8 ≠ 0
  · rw [if_pos hsize] at h
    exact absurd h Outcome.bail_ne_ok
  exact ⟨not_not.mp hoffset, not_not.mp hsize⟩

/-- The directory and the checksum of an image with a slot can be written. -/
theorem exists_rewrite {base : List UInt8} (h : HasSlot base slot) (ptr size : Nat) :
    ∃ out, (writeSecurityDataDirectory base ptr size >>= peRefreshImageChecksum) = .ok out := by
  have hfits : slot.dataDir + 8 ≤ base.length := h.choose_spec.choose_spec.2.2.2
  have hl1 : slot.dataDir + (u32le ptr).length ≤ base.length := by rw [length_u32le]; omega
  rw [writeSecurityDataDirectory_of_slot h, Outcome.ok_bind]
  generalize hd1 : patch base slot.dataDir (u32le ptr) = d1
  have hlen1 : d1.length = base.length := hd1 ▸ length_patch hl1
  have hl2 : slot.dataDir + 4 + (u32le size).length ≤ d1.length := by rw [length_u32le]; omega
  have hle := slot.checkSum_le
  -- the slot is still there when the directory is written
  have hsame : SameOn base (patch d1 (slot.dataDir + 4) (u32le size)) 0 slot.dataDir :=
    (hd1 ▸ sameOn_patch hl1 (Or.inl (Nat.le_refl _))).trans
      (sameOn_patch hl2 (Or.inl (Nat.le_add_right _ _)))
  have hslot : HasSlot (patch d1 (slot.dataDir + 4) (u32le size)) slot := by
    refine @HasSlot.congr _ _ _ (slot.dataDir + 8) h ⟨hsame.mono (Nat.le_refl _) (by omega),
      hsame.mono (Nat.zero_le _) (Nat.le_refl _), fun i hl hh => by omega⟩ ?_
    rw [length_patch hl2, hlen1]
    exact hfits
  obtain ⟨c, hc⟩ := peRefreshImageChecksum_of_slot hslot
  exact ⟨_, hc⟩

/-- A table with room behind it takes another row. -/
theorem exists_append {p : List UInt8} (hva : va ≠ 0)
    (hvalid : validateAttributeCertificateTableAlignment va size = .ok ())
    (hread : readSecurityDataDirectory image = .ok (va, size)) (hslot : HasSlot image slot)
    (hfront : slot.dataDir + 8 ≤ va) (hin : va + size ≤ image.length)
    (hfit : size + (wrapPkcs7DerAuthenticodeWinCertificate p).length < 2 ^ 32) :
    ∃ out, peAppendAuthenticodePkcs7Certificate image p = .ok out := by
  obtain ⟨slot', _, hva32, _⟩ := exists_slot_of_read hread
  have hptr : va < 2 ^ 32 := hva32 ▸ u32At_lt _ _
  have hheader := sameHeader_kept (show slot.dataDir + 8 ≤ va + size by omega) hin
    (wrapPkcs7DerAuthenticodeWinCertificate p)
  have hbase := hslot.congr hheader (by rw [List.length_append, List.length_take_of_le hin]; omega)
  simp only [peAppendAuthenticodePkcs7Certificate, hread, Outcome.ok_bind, hvalid, hva, false_and,
    if_false, Outcome.guardThat_of (show va + size < 2 ^ 64 by omega),
    Outcome.guardThat_of (show va ≤ image.length by omega), Outcome.guardThat_of hin,
    Outcome.guardThat_of (show (wrapPkcs7DerAuthenticodeWinCertificate p).length < 2 ^ 32 by omega),
    Outcome.guardThat_of hfit]
  exact exists_rewrite hbase va (size + (wrapPkcs7DerAuthenticodeWinCertificate p).length)

/-- A row whose data is a PKCS#7 has its bytes behind the header. -/
theorem getElem?_of_row {table p : List UInt8}
    (h : pkcs7OuterSequencePrefix (rowOf table).data = some p) {i : Nat} (hi : i < p.length) :
    table[8 + i]? = p[i]? := by
  simp only [pkcs7OuterSequencePrefix, Option.bind_eq_bind, Option.bind_eq_some_iff] at h
  obtain ⟨n, _, hslice⟩ := h
  have hlen := length_of_slice hslice
  obtain ⟨_, hle, rfl⟩ := slice_eq_some.mp hslice
  have hshort : (rowOf table).data.length ≤ u32At table 0 - 8 := by
    rw [rowOf, List.length_drop, List.length_take]
    omega
  rw [List.drop_zero, List.getElem?_take_of_lt (by omega), rowOf, List.getElem?_drop,
    List.getElem?_take_of_lt (by omega)]

/-- What is found behind a broken row does not depend on the signature: where the new rows
are found, no row was broken. -/
theorem walks_of_appendKeepsRows (hva : va ≠ 0)
    (hvalid : validateAttributeCertificateTableAlignment va size = .ok ())
    (hread : readSecurityDataDirectory image = .ok (va, size)) (hslot : HasSlot image slot)
    (hfront : slot.dataDir + 8 ≤ va) (hin : va + size ≤ image.length) (hroom : size + 16 < 2 ^ 32)
    (h : AppendKeepsRows image) :
    ∃ rows : List AttributeCertificate, certificateItems image = rows.map .ok := by
  have htable : HasTable image va size ((image.take (va + size)).drop va) :=
    ⟨hread, slice_eq_some.mpr ⟨Nat.le_add_right _ _, hin, rfl⟩⟩
  have hat : tableAt image va = va := if_neg hva
  obtain ⟨chunks, rest, hsplit, hchunks, hrest⟩ :=
    exists_rows_and_rest ((image.take (va + size)).drop va)
  rw [certificateItems_of_table htable hva]
  by_cases hnone : rest = []
  · rw [hnone, List.append_nil] at hsplit
    exact ⟨chunks.map rowOf, attributeCertificates_eq_map_ok.mpr ⟨chunks, hchunks, hsplit, rfl⟩⟩
  obtain ⟨e, hbroken⟩ := hrest hnone
  have hyielded : yieldedRows (certificateItems image) = chunks.map rowOf := by
    rw [certificateItems_of_table htable hva, hsplit, attributeCertificates_flatten hchunks, hbroken,
      yieldedRows, List.filterMap_append]
    have hmap : chunks.map (fun chunk => (.ok (rowOf chunk) : CertificateEntry)) =
        (chunks.map rowOf).map .ok := by
      rw [List.map_map]
      rfl
    show yieldedRows _ ++ [] = _
    rw [List.append_nil, hmap, yieldedRows_map_ok]
  -- behind the broken row stands the new one, and both are read as one row
  have hswallowed : ∀ p, IsSequence p → (wrapPkcs7DerAuthenticodeWinCertificate p).length = 16 →
      pkcs7OuterSequencePrefix (rowOf (rest ++ wrapPkcs7DerAuthenticodeWinCertificate p)).data =
        some p := by
    intro p hseq hlen
    obtain ⟨out, hout⟩ := exists_append hva hvalid hread hslot hfront hin (hlen.symm ▸ hroom)
    have hall : peAppendAll image [p] = .ok out := by
      rw [peAppendAll_cons, hout]
      rfl
    obtain ⟨rows, hitems, hrows⟩ := h [p] out (by simp) (by simpa using hseq) hall
    obtain ⟨htableOut, _⟩ := hasTable_append hout hread hslot (hat.symm ▸ hfront)
    rw [oldTable_of_hasTable htable hva] at htableOut
    rw [certificateItems_of_table htableOut (hat.symm ▸ hva), hsplit, List.append_assoc,
      attributeCertificates_flatten hchunks, hyielded, List.map_append, List.map_map] at hitems
    have hbehind := List.append_cancel_left hitems
    cases hrows with
    | cons hrow hmore =>
      cases hmore
      obtain ⟨chunk, others, hchunk, hisRow, hattr, hothers⟩ := exists_row_of_cons hbehind
      have hempty : others = [] := by
        have hmap : attributeCertificates others = ([] : List AttributeCertificate).map .ok := hothers
        obtain ⟨more, _, rfl, hmore⟩ := attributeCertificates_eq_map_ok.mp hmap
        rw [List.map_eq_nil_iff.mp hmore.symm]
        rfl
      rw [hempty, List.append_nil] at hchunk
      rw [hchunk, ← hattr]
      exact hrow.2
  obtain ⟨_, hsizeMod⟩ := mod_of_valid hvalid hva
  have hmod : rest.length % 8 = 0 := by
    have hlen := length_of_slice htable.2
    have hchunksMod := length_mod_of_rows hchunks
    rw [hsplit, List.length_append] at hlen
    omega
  have hpos := List.length_pos_of_ne_nil hnone
  have hempty : IsSequence [0x30, 0x00] := ⟨[0x00], [], rfl, rfl⟩
  have hbyte : IsSequence [0x30, 0x01, 0x00] := ⟨[0x01], [0x00], rfl, rfl⟩
  have hfirst := hswallowed _ hempty rfl
  have hsecond := hswallowed _ hbyte rfl
  exfalso
  by_cases hheader : rest.length = 8
  · -- the data of the broken row starts with the length of the new one
    have hat8 := getElem?_of_row hfirst (show 0 < 2 by decide)
    rw [List.getElem?_append_right (by omega), hheader] at hat8
    exact absurd hat8 (by decide)
  · -- the length octet of the new PKCS#7 would stand in the old table
    have hat9 := getElem?_of_row hfirst (show 1 < 2 by decide)
    have hat9' := getElem?_of_row hsecond (show 1 < 3 by decide)
    rw [List.getElem?_append_left (by omega)] at hat9 hat9'
    exact absurd (hat9.symm.trans hat9') (by decide)

/-! ## Removing the table -/

theorem sameOn_of_u32At {image image' : List UInt8} {offset : Nat}
    (hlen : offset + 4 ≤ image.length) (hlen' : offset + 4 ≤ image'.length)
    (h : u32At image offset = u32At image' offset) : SameOn image image' offset (offset + 4) := by
  have hbytes : (image.drop offset).take 4 = (image'.drop offset).take 4 := by
    rw [← u32le_u32At hlen, ← u32le_u32At hlen', h]
  intro i hl hh
  obtain ⟨k, rfl⟩ := Nat.exists_eq_add_of_le hl
  have hat : ((image.drop offset).take 4)[k]? = ((image'.drop offset).take 4)[k]? := by rw [hbytes]
  rwa [List.getElem?_take_of_lt (by omega), List.getElem?_take_of_lt (by omega), List.getElem?_drop,
    List.getElem?_drop] at hat

/-- A signed image that had no table is restored. -/
theorem removeUndoes_of_none (hread : readSecurityDataDirectory image = .ok (0, 0))
    (hslot : HasSlot image slot) : RemoveUndoes image slot := by
  intro signatures out hseq happend
  by_cases hne : signatures = []
  · rw [hne] at happend
    obtain rfl := Except.ok.inj happend
    refine ⟨image, ?_, SameOutside.refl _ _ _⟩
    simp only [peRemoveAuthenticodeCertificates, hread, Outcome.ok_bind, true_or, if_true,
      Outcome.pure_eq_ok, Nat.sub_self]
  have hfits : slot.dataDir + 8 ≤ image.length := hslot.choose_spec.choose_spec.2.2.2
  obtain ⟨⟨hreadOut, _⟩, hlenOut, hsame, _⟩ := hasTable_appendAll happend hne hread hslot hfits
  have hat : tableAt image 0 = image.length := rfl
  rw [hat, Nat.zero_add] at hreadOut
  rw [hat, Nat.zero_add] at hlenOut
  rw [hat] at hsame
  have hpos : (newRows signatures).length ≠ 0 := by
    obtain ⟨p, more, rfl⟩ := List.exists_cons_of_ne_nil hne
    have hlong := length_wrap_ge (hseq p List.mem_cons_self)
    show (wrapPkcs7DerAuthenticodeWinCertificate p ++ newRows more).length ≠ 0
    rw [List.length_append]
    omega
  obtain ⟨slotOut, _, hva32, hsize32⟩ := exists_slot_of_read hreadOut
  have hva := u32At_lt out slotOut.dataDir
  have hsize := u32At_lt out (slotOut.dataDir + 4)
  have hkept : out.take image.length ++ out.drop (image.length + (newRows signatures).length) =
      out.take image.length := by
    rw [← hlenOut, List.drop_length, List.append_nil]
  have htake : SameOn out (out.take image.length) 0 image.length := sameOn_take _ 0
  have hlenTake : (out.take image.length).length = image.length :=
    List.length_take_of_le (by omega)
  have hle := slot.checkSum_le
  have hheader : SameHeader slot image.length image (out.take image.length) :=
    ⟨hsame.1.trans (htake.mono (Nat.zero_le _) (by omega)),
      hsame.2.1.trans (htake.mono (Nat.zero_le _) (by omega)),
      hsame.2.2.trans (htake.mono (Nat.zero_le _) (Nat.le_refl _))⟩
  have hslotTake : HasSlot (out.take image.length) slot := hslot.congr hheader (by omega)
  obtain ⟨restored, hwrite⟩ := exists_rewrite hslotTake 0 0
  obtain ⟨hlenRestored, hfields, hptr, hsizeZero⟩ :=
    rewrite_fields hslotTake (by decide) (by decide) hwrite
  refine ⟨restored, ?_, by omega, ?_⟩
  · obtain ⟨d, hd, hrefresh⟩ := Outcome.bind_eq_ok.mp hwrite
    have hin : ¬ (out.length < image.length ∨
        out.length < image.length + (newRows signatures).length) := by omega
    rw [show out.length - image.length = (newRows signatures).length by omega]
    simp only [peRemoveAuthenticodeCertificates, hreadOut, Outcome.ok_bind,
      if_neg (show ¬ (image.length = 0 ∨ (newRows signatures).length = 0) by omega),
      Outcome.guardThat_of (show image.length + (newRows signatures).length < 2 ^ 64 by omega),
      Outcome.guardThat_of hin, hkept, hd, hrefresh, Outcome.pure_eq_ok]
  · intro i hi
    obtain ⟨slot', hslot', hzero, hzero'⟩ := exists_slot_of_read hread
    obtain rfl := hslot.unique hslot'
    rw [hlenTake] at hlenRestored hfields
    have hdirectory : SameOn image restored slot.dataDir (slot.dataDir + 4) :=
      sameOn_of_u32At (by omega) (by omega) (hzero.symm.trans hptr.symm)
    have hdirectory' : SameOn image restored (slot.dataDir + 4) (slot.dataDir + 4 + 4) :=
      sameOn_of_u32At (by omega) (by omega) (hzero'.symm.trans hsizeZero.symm)
    by_cases hfront : i < slot.checkSum
    · exact (hheader.1.trans hfields.1) i (Nat.zero_le _) hfront
    by_cases hmiddle : i < slot.dataDir
    · exact (hheader.2.1.trans hfields.2.1) i (by omega) hmiddle
    by_cases hfirst : i < slot.dataDir + 4
    · exact hdirectory i (by omega) hfirst
    by_cases hsecond : i < slot.dataDir + 8
    · exact hdirectory' i (by omega) (by omega)
    by_cases hbehind : i < image.length
    · exact (hheader.2.2.trans hfields.2.2) i (by omega) hbehind
    · rw [List.getElem?_eq_none (by omega), List.getElem?_eq_none (by omega)]

end keeps

/-- What a prepared image says about its table. -/
theorem valid_of_prepare {image prepared : List UInt8} {va size : Nat}
    (h : pePrepareForAuthenticodeSigning image = .ok prepared)
    (hread : readSecurityDataDirectory prepared = .ok (va, size)) :
    validateAttributeCertificateTableAlignment va size = .ok () := by
  have hprepare := h
  simp only [pePrepareForAuthenticodeSigning, Outcome.bind_eq_ok] at h
  obtain ⟨⟨va', size'⟩, hread', ⟨⟩, hvalid, _⟩ := h
  obtain ⟨hreadPrepared, _⟩ := pePrepareForAuthenticodeSigning_eq_ok hprepare hread'
  obtain ⟨rfl, rfl⟩ := Prod.mk.inj (Except.ok.inj (hread.symm.trans hreadPrepared))
  exact hvalid

/-- The verifier finds the rows of a prepared image and those that are added to it, and the
added ones are removed without a trace, exactly when the image has no table, or its table
is not extended, or the verifier walks through the table without an error; a table that is
extended is to start behind its directory entry. -/
theorem pe_signed_again_iff {image prepared : List UInt8} {va size : Nat} {slot : SecuritySlot}
    (hprepare : pePrepareForAuthenticodeSigning image = .ok prepared)
    (hread : readSecurityDataDirectory prepared = .ok (va, size)) (hslot : HasSlot prepared slot)
    (hfront : va = 0 ∨ prepared.length < va + size ∨ 2 ^ 32 ≤ size + 16 ∨
      slot.dataDir + 8 ≤ va) :
    AppendKeepsRows prepared ∧ (va = 0 → RemoveUndoes prepared slot) ↔
      va = 0 ∨ prepared.length < va + size ∨ 2 ^ 32 ≤ size + 16 ∨
        ∃ rows : List AttributeCertificate, certificateItems prepared = rows.map .ok := by
  have hvalid := valid_of_prepare hprepare hread
  by_cases hva : va = 0
  · refine iff_of_true ?_ (Or.inl hva)
    have hsize : size = 0 := by
      have := validateAttributeCertificateTableAlignment_eq_ok hvalid
      omega
    rw [hva, hsize] at hread
    exact ⟨appendKeepsRows_of_none hread hslot, fun _ => removeUndoes_of_none hread hslot⟩
  by_cases hin : prepared.length < va + size
  · exact iff_of_true ⟨appendKeepsRows_of_full hva hread (Or.inl hin), fun h => absurd h hva⟩
      (Or.inr (Or.inl hin))
  by_cases hroom : 2 ^ 32 ≤ size + 16
  · exact iff_of_true ⟨appendKeepsRows_of_full hva hread (Or.inr hroom), fun h => absurd h hva⟩
      (Or.inr (Or.inr (Or.inl hroom)))
  have hbehind : slot.dataDir + 8 ≤ va := by omega
  constructor
  · intro h
    exact Or.inr (Or.inr (Or.inr (walks_of_appendKeepsRows hva hvalid hread hslot hbehind
      (Nat.le_of_not_lt hin) (Nat.lt_of_not_le hroom) h.1)))
  · intro h
    refine ⟨?_, fun hzero => absurd hzero hva⟩
    rcases h with hzero | hin' | hroom' | ⟨rows, hwalk⟩
    · exact absurd hzero hva
    · exact absurd hin' hin
    · exact absurd hroom' hroom
    · exact appendKeepsRows_of_walk hva hread hslot hbehind hwalk

set_option maxRecDepth 2000

theorem hasSlot_signedTinyPe : HasSlot signedTinyPe ⟨152, 216, by decide, by decide⟩ :=
  ⟨88, 0x10b, by decide, by decide, by decide, by decide⟩

theorem pe_signed_again_iff_signedTinyPe :
    AppendKeepsRows signedTinyPe ∧
        (224 = 0 → RemoveUndoes signedTinyPe ⟨152, 216, by decide, by decide⟩) ↔
      224 = 0 ∨ signedTinyPe.length < 224 + 16 ∨ 2 ^ 32 ≤ 16 + 16 ∨
        ∃ rows : List AttributeCertificate, certificateItems signedTinyPe = rows.map .ok :=
  @pe_signed_again_iff signedTinyPe signedTinyPe 224 16 ⟨152, 216, by decide, by decide⟩
    (by decide) (by decide) hasSlot_signedTinyPe (Or.inr (Or.inr (Or.inr (by decide))))

/-- An image with a table of one row whose `dwLength` is zero. -/
def brokenRowPe : List UInt8 :=
  tinyPe 224 8 ++ List.replicate 8 0

/-- The image is prepared and signed, and the verifier does not find the signature. -/
theorem broken_row_hides_signature :
    pePrepareForAuthenticodeSigning brokenRowPe = .ok brokenRowPe ∧ IsSequence [0x30, 0x00] ∧
    (∃ out, peAppendAuthenticodePkcs7Certificate brokenRowPe [0x30, 0x00] = .ok out ∧
      certificateItems out = [.error (.invalidCertificateSize 0)]) ∧
    ¬ AppendKeepsRows brokenRowPe := by
  have hout : (peAppendAuthenticodePkcs7Certificate brokenRowPe [0x30, 0x00]).toOption.map
      certificateItems = some [.error (.invalidCertificateSize 0)] := by decide
  obtain ⟨out, happend, hitems⟩ := Option.map_eq_some_iff.mp hout
  have happend := Outcome.toOption_eq_some.mp happend
  have hseq : IsSequence [0x30, 0x00] := ⟨[0x00], [], rfl, rfl⟩
  refine ⟨by decide, hseq, ⟨out, happend, hitems⟩, ?_⟩
  intro h
  have hall : peAppendAll brokenRowPe [[0x30, 0x00]] = .ok out := by
    rw [peAppendAll_cons, happend]
    rfl
  obtain ⟨rows, hrows, hforall⟩ := h _ _ (by simp) (by simpa using hseq) hall
  cases hforall with
  | cons hrow _ =>
    rw [hitems] at hrows
    have hmem := List.mem_of_mem_head? (congrArg List.head? hrows.symm)
    obtain ⟨attr, _, hattr⟩ := List.mem_map.mp hmem
    cases hattr

end Psign.Sip
