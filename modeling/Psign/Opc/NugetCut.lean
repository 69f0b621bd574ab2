import Psign.Opc.Nuget

/-!
# The cut of a NuGet signature

A signed package in parts (`SignedLayout`): what stands before the local record of the
signature, this record, the directory records of the other entries, the directory
record of the signature, and the end record.  The cut joins the first, the third and
the last, with the numbers of the end record adjusted (`unsigned_of_locateSignature`).

The parts can be read off the result.  Records that follow each other are determined by
the bytes (`flatten_records_inj`), and the numbers of the end record are those of the
parts, so packages with the same cut and the same two records are the same
(`layout_eq_of_unsigned_eq`).

Everything from the offset of the local record up to the directory is dropped.  It is
the local record where this reaches the directory (`ReachesDirectory`), as it does in
the packages that NuGet writes.
-/

namespace Psign.Opc

open CodeLib CodeLib.Bytes Psign.Sip

/-! ## Directory records -/

/-- A directory record: its signature, and the length that its header says. -/
structure IsRecord (record : List UInt8) : Prop where
  sig : record.take 4 = cdfhSig
  length_eq : record.length = 46 + u16At record 28 + u16At record 30 + u16At record 32

/-- The name in a directory record. -/
def recordName (record : List UInt8) : List UInt8 :=
  (record.take (46 + u16At record 28)).drop 46

/-- What the walk remembers of records that follow each other. -/
def describe : Nat → List (List UInt8) → List CdRecord
  | _, [] => []
  | pos, record :: records =>
    ⟨pos, record.length, decide (recordName record = packageSignatureFileName), u32At record 42⟩ ::
      describe (pos + record.length) records

theorem describe_append (pos : Nat) (records : List (List UInt8)) (last : List UInt8) :
    describe pos (records ++ [last]) = describe pos records ++
      [⟨pos + records.flatten.length, last.length,
        decide (recordName last = packageSignatureFileName), u32At last 42⟩] := by
  induction records generalizing pos with
  | nil => rfl
  | cons record records ih =>
    rw [List.cons_append, describe, ih, List.flatten_cons, List.length_append, Nat.add_assoc]
    rfl

@[simp] theorem length_describe (pos : Nat) (records : List (List UInt8)) :
    (describe pos records).length = records.length := by
  induction records generalizing pos with
  | nil => rfl
  | cons record records ih => rw [describe, List.length_cons, ih, List.length_cons]

/-- Records that follow each other and do not go on are determined by the bytes. -/
theorem flatten_records_inj {records records' : List (List UInt8)} {rest rest' : List UInt8}
    (h : ∀ record ∈ records, IsRecord record) (h' : ∀ record ∈ records', IsRecord record)
    (hrest : rest.take 4 ≠ cdfhSig) (hrest' : rest'.take 4 ≠ cdfhSig)
    (heq : records.flatten ++ rest = records'.flatten ++ rest') : records = records' ∧ rest = rest' := by
  have hstart : ∀ {record tail : List UInt8}, IsRecord record → (record ++ tail).take 4 = cdfhSig := by
    intro record tail hrecord
    have hlen := hrecord.length_eq
    rw [List.take_append_of_le_length (by omega), hrecord.sig]
  induction records generalizing records' with
  | nil =>
    cases records' with
    | nil => exact ⟨rfl, heq⟩
    | cons record' records' =>
      rw [List.flatten_nil, List.nil_append, List.flatten_cons, List.append_assoc] at heq
      exact absurd (heq ▸ hstart (h' record' List.mem_cons_self)) hrest
  | cons record records ih =>
    cases records' with
    | nil =>
      rw [List.flatten_nil, List.nil_append, List.flatten_cons, List.append_assoc] at heq
      exact absurd (heq ▸ hstart (h record List.mem_cons_self)) hrest'
    | cons record' records' =>
      rw [List.flatten_cons, List.flatten_cons, List.append_assoc, List.append_assoc] at heq
      have hrecord := h record List.mem_cons_self
      have hrecord' := h' record' List.mem_cons_self
      -- both lengths are read at the same place
      have hsame : ∀ offset, offset + 2 ≤ 46 → u16At record offset = u16At record' offset := by
        intro offset hoffset
        have hlen := hrecord.length_eq
        have hlen' := hrecord'.length_eq
        rw [← u16At_append_left (records.flatten ++ rest) (by omega), heq,
          u16At_append_left _ (by omega)]
      have hlength : record.length = record'.length := by
        rw [hrecord.length_eq, hrecord'.length_eq, hsame 28 (by decide), hsame 30 (by decide),
          hsame 32 (by decide)]
      obtain ⟨rfl, htail⟩ := List.append_inj heq hlength
      obtain ⟨rfl, hrests⟩ := ih (fun other hother => h other (List.mem_cons_of_mem _ hother))
        (fun other hother => h' other (List.mem_cons_of_mem _ hother)) htail
      exact ⟨rfl, hrests⟩

/-! ## The walk -/

section walk

variable {bytes : List UInt8} {offset value : Nat}

theorem le16_eq_ok : le16 bytes offset = .ok value ↔
    offset + 2 ≤ bytes.length ∧ value = u16At bytes offset := by
  rw [le16, Outcome.ofOption_eq_ok, Option.map_eq_some_iff]
  simp only [slice_eq_some]
  constructor
  · intro h
    obtain ⟨_, ⟨-, hlen, -⟩, hvalue⟩ := h
    exact ⟨hlen, hvalue.symm⟩
  · intro h
    exact ⟨_, ⟨by omega, h.1, rfl⟩, h.2.symm⟩

theorem le32_eq_ok : le32 bytes offset = .ok value ↔
    offset + 4 ≤ bytes.length ∧ value = u32At bytes offset := by
  rw [le32, Outcome.ofOption_eq_ok, Option.map_eq_some_iff]
  simp only [slice_eq_some]
  constructor
  · intro h
    obtain ⟨_, ⟨-, hlen, -⟩, hvalue⟩ := h
    exact ⟨hlen, hvalue.symm⟩
  · intro h
    exact ⟨_, ⟨by omega, h.1, rfl⟩, h.2.symm⟩

/-- The walk reads records that follow each other. -/
theorem walkRecords_spec {entries pos stop : Nat} {found : List CdRecord}
    (h : walkRecords bytes entries pos = .ok (found, stop)) (hstop : stop ≤ bytes.length) :
    ∃ records : List (List UInt8), records.length = entries ∧ (∀ record ∈ records, IsRecord record) ∧
      found = describe pos records ∧ stop = pos + records.flatten.length ∧
      bytes.drop pos = records.flatten ++ bytes.drop stop := by
  induction entries generalizing pos found with
  | zero =>
    simp only [walkRecords, Except.ok.injEq, Prod.mk.injEq] at h
    obtain ⟨rfl, rfl⟩ := h
    exact ⟨[], rfl, by simp, rfl, rfl, rfl⟩
  | succ entries ih =>
    simp only [walkRecords, Outcome.bind_eq_ok, Outcome.guardThat_eq_ok, le16_eq_ok, le32_eq_ok,
      Outcome.ofOption_eq_ok, Prod.exists, Outcome.pure_eq_ok, Except.ok.injEq, Prod.mk.injEq] at h
    obtain ⟨_, hsig, _, ⟨-, rfl⟩, _, ⟨-, rfl⟩, _, ⟨-, rfl⟩, name, hname, _, ⟨-, rfl⟩, rest, last, hrest,
      rfl, rfl⟩ := h
    obtain ⟨records, hlength, hrecords, rfl, hlast, hbytes⟩ := ih hrest
    obtain ⟨-, -, rfl⟩ := slice_eq_some.mp hname
    let tail := bytes.drop pos
    let len := 46 + u16At bytes (pos + 28) + u16At bytes (pos + 30) + u16At bytes (pos + 32)
    have hlenTake : (tail.take len).length = len :=
      List.length_take_of_le (by rw [List.length_drop]; omega)
    have hfield : ∀ offset, offset + 2 ≤ 46 →
        u16At (tail.take len) offset = u16At bytes (pos + offset) := by
      intro offset hoffset
      rw [u16At_take (by omega), u16At_drop]
    have hrecord : IsRecord (tail.take len) := by
      refine ⟨?_, ?_⟩
      · rw [List.take_take, Nat.min_eq_left (by omega)]
        obtain ⟨-, -, hsigEq⟩ := slice_eq_some.mp hsig
        rw [hsigEq, List.drop_take, Nat.add_sub_cancel_left]
      · rw [hlenTake, hfield 28 (by decide), hfield 30 (by decide), hfield 32 (by decide)]
    have hrecordName : recordName (tail.take len) =
        (bytes.take (pos + 46 + u16At bytes (pos + 28))).drop (pos + 46) := by
      rw [recordName, hfield 28 (by decide), List.take_take, Nat.min_eq_left (by omega), List.drop_take,
        List.drop_take, Nat.add_sub_cancel_left, Nat.add_sub_cancel_left, List.drop_drop]
    have hoffset : u32At (tail.take len) 42 = u32At bytes (pos + 42) := by
      rw [u32At_take (by omega), u32At_drop]
    refine ⟨tail.take len :: records, by rw [List.length_cons, hlength], ?_, ?_, ?_, ?_⟩
    · exact List.forall_mem_cons.mpr ⟨hrecord, hrecords⟩
    · rw [describe, hlenTake, hrecordName, hoffset]
    · rw [List.flatten_cons, List.length_append, hlenTake, hlast, Nat.add_assoc]
    · rw [List.flatten_cons, List.append_assoc, ← hbytes, ← List.drop_drop, List.take_append_drop]

end walk

/-! ## A signed package in parts -/

/-- The parts of a package whose last entry is the signature. -/
structure SignedLayout where
  before : List UInt8
  /-- The local record of the signature. -/
  localRecord : List UInt8
  /-- The directory records of the other entries. -/
  directory : List (List UInt8)
  /-- The directory record of the signature. -/
  record : List UInt8
  endRecord : List UInt8

/-- The package. -/
def SignedLayout.bytes (layout : SignedLayout) : List UInt8 :=
  layout.before ++ layout.localRecord ++ layout.directory.flatten ++ layout.record ++ layout.endRecord

/-- The package without the two records of the signature, with the numbers of the end
record adjusted. -/
def SignedLayout.unsigned (layout : SignedLayout) : List UInt8 :=
  layout.before ++ layout.directory.flatten ++
    adjustEnd layout.endRecord layout.directory.length layout.directory.flatten.length
      layout.before.length

/-- What the parts of an accepted package are. -/
structure SignedLayout.Valid (layout : SignedLayout) : Prop where
  directory : ∀ record ∈ layout.directory, IsRecord record
  record : IsRecord layout.record
  name : recordName layout.record = packageSignatureFileName
  offset : u32At layout.record 42 = layout.before.length
  sig : layout.endRecord.take 4 = eocdSig
  end_length : layout.endRecord.length = 22 + u16At layout.endRecord 20
  end_disk : u16At layout.endRecord 8 = layout.directory.length + 1
  end_total : u16At layout.endRecord 10 = layout.directory.length + 1
  end_size : u32At layout.endRecord 12 = layout.directory.flatten.length + layout.record.length
  end_offset : u32At layout.endRecord 16 = layout.before.length + layout.localRecord.length

/-- The length of a local record: its header, name, extra field and data, and behind
them the data descriptor that the flags may announce. -/
def localRecordLength (localRecord record : List UInt8) : Nat :=
  let dataEnd := 30 + u16At localRecord 26 + u16At localRecord 28 + u32At record 20
  if u16At localRecord 6 &&& 0x0008 = 0 then dataEnd
  else if slice localRecord dataEnd (dataEnd + 4) = some [0x50, 0x4B, 0x07, 0x08] then dataEnd + 16
  else dataEnd + 12

/-- The local record of the signature reaches up to the directory. -/
def ReachesDirectory (bytes : List UInt8) : Prop :=
  ∀ found, locateSignature bytes = .ok found →
    found.record.localOffset + localRecordLength (bytes.drop found.record.localOffset)
      (bytes.drop found.record.pos) = found.cdOffset

theorem lastWindow_spec {bytes sig : List UInt8} {first count offset : Nat}
    (h : lastWindow bytes sig first count = some offset) :
    slice bytes offset (offset + 4) = some sig := by
  induction count with
  | zero => exact absurd h (by simp [lastWindow])
  | succ count ih =>
    rw [lastWindow] at h
    split at h
    · rename_i hsig
      rwa [← Option.some.inj h]
    · exact ih h

/-- An accepted package in parts. -/
theorem locateSignature_spec {bytes : List UInt8} {found : Located}
    (h : locateSignature bytes = .ok found) (hle : found.record.localOffset ≤ found.cdOffset) :
    ∃ layout : SignedLayout, layout.Valid ∧ layout.bytes = bytes ∧
      layout.before = bytes.take found.record.localOffset ∧
      layout.before.length = found.record.localOffset ∧
      layout.before.length + layout.localRecord.length = found.cdOffset ∧
      found.record.pos = found.cdOffset + layout.directory.flatten.length ∧
      layout.endRecord = bytes.drop found.eocd ∧ found.totalEntries = layout.directory.length + 1 := by
  simp only [locateSignature, Outcome.bind_eq_ok, Outcome.guardThat_eq_ok, le16_eq_ok, le32_eq_ok,
    Outcome.ofOption_eq_ok, Prod.exists, Outcome.pure_eq_ok, Except.ok.injEq] at h
  obtain ⟨eocd, heocd, _, ⟨-, rfl⟩, _, hcomment, _, ⟨-, rfl⟩, _, ⟨-, rfl⟩, _, ⟨-, rfl⟩, _, ⟨-, rfl⟩, _,
    hzip64, _, hsize, records, stop, hwalk, _, rfl, index, hindex, _, hlast, record, hrecord, _, -,
    rfl⟩ := h
  have hstop : stop ≤ bytes.length := by omega
  obtain ⟨all, hentries, hall, rfl, hend, hdrop⟩ := walkRecords_spec hwalk hstop
  rw [length_describe] at hlast
  rcases all.eq_nil_or_concat with rfl | ⟨directory, last, rfl⟩
  · simp at hlast
  rw [List.concat_eq_append] at *
  have hindexEq : index = directory.length := by
    rw [List.length_append, List.length_singleton] at hlast
    omega
  rw [describe_append] at hrecord hindex
  have hrecordEq : record = ⟨u32At bytes (stop + 16) + directory.flatten.length, last.length,
      decide (recordName last = packageSignatureFileName), u32At last 42⟩ := by
    rw [hindexEq, List.getElem?_append_right (Nat.le_of_eq (length_describe _ _)), length_describe,
      Nat.sub_self, List.getElem?_cons_zero] at hrecord
    exact (Option.some.inj hrecord).symm
  have hname : recordName last = packageSignatureFileName := by
    obtain ⟨hlt, hsignature, -⟩ := List.findIdx?_eq_some_iff_getElem.mp hindex
    have hat := List.getElem?_eq_getElem hlt
    rw [hrecord] at hat
    rw [← Option.some.inj hat, hrecordEq] at hsignature
    exact of_decide_eq_true hsignature
  subst hrecordEq
  have hflat : (directory ++ [last]).flatten = directory.flatten ++ last := by
    rw [List.flatten_append, List.flatten_singleton]
  rw [hflat, List.length_append] at hend
  rw [hflat] at hdrop
  have hcd : u32At bytes (stop + 16) ≤ bytes.length := by omega
  have hbefore : (bytes.take (u32At last 42)).length = u32At last 42 :=
    List.length_take_of_le (Nat.le_trans hle hcd)
  have hlocal : ((bytes.take (u32At bytes (stop + 16))).drop (u32At last 42)).length =
      u32At bytes (stop + 16) - u32At last 42 := by
    rw [List.length_drop, List.length_take_of_le hcd]
  have htotal : u16At bytes (stop + 10) = directory.length + 1 := by
    rw [← hentries, List.length_append, List.length_singleton]
  refine ⟨⟨bytes.take (u32At last 42), (bytes.take (u32At bytes (stop + 16))).drop (u32At last 42),
    directory, last, bytes.drop stop⟩, ?_, ?_, rfl, hbefore, ?_, rfl, rfl, ?_⟩
  · exact
      { directory := fun other hother => hall other (List.mem_append_left _ hother)
        record := hall last (List.mem_append_right _ (List.mem_singleton_self last))
        name := hname
        offset := hbefore.symm
        sig := by
          obtain ⟨-, -, hsig⟩ := slice_eq_some.mp (lastWindow_spec heocd)
          show (bytes.drop stop).take 4 = eocdSig
          rw [hsig, List.drop_take, Nat.add_sub_cancel_left]
        end_length := by
          rw [List.length_drop, u16At_drop]
          omega
        end_disk := by
          rw [u16At_drop, ← htotal]
          by_contra hne
          exact hzip64 (Or.inl hne)
        end_total := by
          rw [u16At_drop]
          exact htotal
        end_size := by
          rw [u32At_drop]
          show _ = directory.flatten.length + last.length
          omega
        end_offset := by
          rw [u32At_drop]
          show _ = (bytes.take (u32At last 42)).length +
            ((bytes.take (u32At bytes (stop + 16))).drop (u32At last 42)).length
          rw [hbefore, hlocal]
          show u32At bytes (stop + 16) = u32At last 42 + (u32At bytes (stop + 16) - u32At last 42)
          have hle' : u32At last 42 ≤ u32At bytes (stop + 16) := hle
          omega }
  · show bytes.take (u32At last 42) ++ (bytes.take (u32At bytes (stop + 16))).drop (u32At last 42) ++
      directory.flatten ++ last ++ bytes.drop stop = bytes
    have htake : bytes.take (u32At last 42) =
        (bytes.take (u32At bytes (stop + 16))).take (u32At last 42) := by
      rw [List.take_take, Nat.min_eq_left hle]
    rw [htake, List.take_append_drop, List.append_assoc, List.append_assoc, ← List.append_assoc _ last,
      ← hdrop, List.take_append_drop]
  · show (bytes.take (u32At last 42)).length +
      ((bytes.take (u32At bytes (stop + 16))).drop (u32At last 42)).length = u32At bytes (stop + 16)
    rw [hbefore, hlocal]
    have hle' : u32At last 42 ≤ u32At bytes (stop + 16) := hle
    omega
  · exact htotal

/-- The end record is found again from its numbers. -/
theorem adjustEnd_adjustEnd {endRecord : List UInt8} (entries cdSize cdOffset : Nat)
    (hlen : 20 ≤ endRecord.length) (hdisk : u16At endRecord 8 = u16At endRecord 10) :
    adjustEnd (adjustEnd endRecord entries cdSize cdOffset) (u16At endRecord 10)
      (u32At endRecord 12) (u32At endRecord 16) = endRecord := by
  have hlength : (u16le entries ++ u16le entries ++ u32le cdSize ++ u32le cdOffset).length =
      (u16le (u16At endRecord 10) ++ u16le (u16At endRecord 10) ++ u32le (u32At endRecord 12) ++
        u32le (u32At endRecord 16)).length := rfl
  rw [adjustEnd, adjustEnd, patch_patch (by show 8 + 12 ≤ _; omega) hlength]
  refine patch_self ?_
  show _ = (endRecord.drop 8).take (2 + 2 + 4 + 4)
  nth_rewrite 1 [← hdisk]
  rw [u16le_u16At (by omega), u16le_u16At (by omega), u32le_u32At (by omega), u32le_u32At (by omega),
    take_drop_add _ _ (2 + 2 + 4), take_drop_add _ _ (2 + 2), take_drop_add _ _ 2]

theorem take_adjustEnd {endRecord : List UInt8} (entries cdSize cdOffset : Nat)
    (hlen : 20 ≤ endRecord.length) :
    (adjustEnd endRecord entries cdSize cdOffset).take 4 = endRecord.take 4 := by
  rw [adjustEnd, patch, List.append_assoc,
    List.take_append_of_le_length (by rw [List.length_take]; omega), List.take_take]
  rfl

/-- The cut leaves all of a package but the two records of its signature. -/
theorem unsigned_of_locateSignature {bytes out : List UInt8} {found : Located}
    (hfound : locateSignature bytes = .ok found) (h : signedPackageUnsignedBytes bytes = .ok out)
    (hle : found.record.localOffset ≤ found.cdOffset) :
    ∃ layout : SignedLayout, layout.Valid ∧ layout.bytes = bytes ∧ layout.unsigned = out ∧
      layout.before.length = found.record.localOffset ∧
      layout.before.length + layout.localRecord.length = found.cdOffset ∧
      found.record.pos = found.cdOffset + layout.directory.flatten.length := by
  obtain ⟨layout, hvalid, hbytes, hbefore, hoffset, hcd, hpos, hend, htotal⟩ :=
    locateSignature_spec hfound hle
  refine ⟨layout, hvalid, hbytes, ?_, hoffset, hcd, hpos⟩
  simp only [signedPackageUnsignedBytes, hfound, Outcome.ok_bind, Outcome.bind_eq_ok,
    Outcome.ofOption_eq_ok, slice_eq_some, Outcome.pure_eq_ok, Except.ok.injEq] at h
  obtain ⟨_, ⟨-, -, rfl⟩, _, ⟨-, -, rfl⟩, rfl⟩ := h
  have hkept : (bytes.take (found.cdOffset + (found.record.pos - found.cdOffset))).drop found.cdOffset =
      layout.directory.flatten := by
    have hstart : (layout.before ++ layout.localRecord).length = found.cdOffset := by
      rw [List.length_append, hcd]
    rw [List.drop_take, Nat.add_sub_cancel_left, hpos, Nat.add_sub_cancel_left, ← hbytes,
      SignedLayout.bytes, List.append_assoc, List.append_assoc, List.drop_left' hstart,
      List.take_left' rfl]
  rw [hkept, List.drop_zero, ← hbefore, ← hend, htotal, hpos, Nat.add_sub_cancel_left,
    Nat.add_sub_cancel, ← hoffset]
  rfl

/-- Packages with the same unsigned bytes and the same records of the signature are
the same. -/
theorem layout_eq_of_unsigned_eq {layout layout' : SignedLayout} (hvalid : layout.Valid)
    (hvalid' : layout'.Valid) (hunsigned : layout.unsigned = layout'.unsigned)
    (hlocal : layout.localRecord = layout'.localRecord) (hrecord : layout.record = layout'.record) :
    layout = layout' := by
  have hoffset : layout.before.length = layout'.before.length := by
    rw [← hvalid.offset, hrecord, hvalid'.offset]
  have hlong : 20 ≤ layout.endRecord.length := by have := hvalid.end_length; omega
  have hlong' : 20 ≤ layout'.endRecord.length := by have := hvalid'.end_length; omega
  rw [SignedLayout.unsigned, SignedLayout.unsigned, List.append_assoc, List.append_assoc] at hunsigned
  obtain ⟨hbefore, htail⟩ := List.append_inj hunsigned hoffset
  obtain ⟨hdirectory, hend⟩ := flatten_records_inj hvalid.directory hvalid'.directory
    (by rw [take_adjustEnd _ _ _ hlong, hvalid.sig]; decide)
    (by rw [take_adjustEnd _ _ _ hlong', hvalid'.sig]; decide) htail
  have hendRecord : layout.endRecord = layout'.endRecord := by
    have hdisk := hvalid.end_disk.trans hvalid.end_total.symm
    have hdisk' := hvalid'.end_disk.trans hvalid'.end_total.symm
    rw [← adjustEnd_adjustEnd _ _ _ hlong hdisk, ← adjustEnd_adjustEnd _ _ _ hlong' hdisk', hend,
      hvalid.end_total, hvalid.end_size, hvalid.end_offset, hvalid'.end_total, hvalid'.end_size,
      hvalid'.end_offset, hdirectory, hrecord, hoffset, hlocal]
  obtain ⟨before, localRecord, directory, record, endRecord⟩ := layout
  obtain ⟨before', localRecord', directory', record', endRecord'⟩ := layout'
  subst hbefore hlocal hdirectory hrecord hendRecord
  rfl

/-! ## The cut -/

/-- The result is the package without the two records of the signature: the local
record that stands in front of the directory, and the last record of the directory. -/
structure IsCut (layout : SignedLayout) (bytes out : List UInt8) : Prop where
  valid : layout.Valid
  bytes_eq : layout.bytes = bytes
  unsigned_eq : layout.unsigned = out
  local_length : layout.localRecord.length = localRecordLength (bytes.drop layout.before.length)
    (bytes.drop (layout.before ++ layout.localRecord ++ layout.directory.flatten).length)

theorem exists_isCut {bytes out : List UInt8} (h : signedPackageUnsignedBytes bytes = .ok out)
    (hreach : ReachesDirectory bytes) : ∃ layout, IsCut layout bytes out := by
  have hfound : ∃ found, locateSignature bytes = .ok found := by
    rw [signedPackageUnsignedBytes, Outcome.bind_eq_ok] at h
    exact h.imp fun _ hboth => hboth.1
  obtain ⟨found, hfound⟩ := hfound
  have hlength := hreach found hfound
  obtain ⟨layout, hvalid, hbytes, hunsigned, hoffset, hcd, hpos⟩ :=
    unsigned_of_locateSignature hfound h (by omega)
  refine ⟨layout, hvalid, hbytes, hunsigned, ?_⟩
  rw [List.length_append, List.length_append, hcd, hoffset, ← hpos]
  omega

/-- Where the local record of the signature reaches the directory, the cut removes the
two records of the signature and nothing else, and two packages with the same package
hash and the same records of the signature are the same. -/
theorem nuget_cut_exact (hashes : Hashes) (algorithm : NuGetHashAlgorithm)
    {bytes bytes' out out' : List UInt8} (h : signedPackageUnsignedBytes bytes = .ok out)
    (h' : signedPackageUnsignedBytes bytes' = .ok out') (hreach : ReachesDirectory bytes)
    (hreach' : ReachesDirectory bytes') :
    (∃ layout, IsCut layout bytes out) ∧ (∃ layout', IsCut layout' bytes' out') ∧
      ∀ layout layout', IsCut layout bytes out → IsCut layout' bytes' out' →
        algorithm.hash hashes out = algorithm.hash hashes out' →
        (algorithm.hash hashes out = algorithm.hash hashes out' → out = out') →
        layout.localRecord = layout'.localRecord → layout.record = layout'.record →
        bytes = bytes' := by
  refine ⟨exists_isCut h hreach, exists_isCut h' hreach', ?_⟩
  intro layout layout' hcut hcut' hhash hcollision hlocal hrecord
  have hunsigned : layout.unsigned = layout'.unsigned := by
    rw [hcut.unsigned_eq, hcut'.unsigned_eq, hcollision hhash]
  rw [← hcut.bytes_eq, ← hcut'.bytes_eq,
    layout_eq_of_unsigned_eq hcut.valid hcut'.valid hunsigned hlocal hrecord]

/-- A package of one signature of one byte: the time of the signature entry, and what
stands between its local record and the directory. -/
def signatureOnly (time : UInt8) (gap : List UInt8) : List UInt8 :=
  [0x50, 0x4B, 0x03, 0x04, 20, 0, 0, 0, 0, 0, time, 0, 0x21, 0, 0, 0, 0, 0] ++ u32le 1 ++ u32le 1 ++
    u16le 14 ++ u16le 0 ++ packageSignatureFileName ++ [0x53] ++ gap ++
  cdfhSig ++ [20, 0, 20, 0, 0, 0, 0, 0, time, 0, 0x21, 0, 0, 0, 0, 0] ++ u32le 1 ++ u32le 1 ++
    u16le 14 ++ List.replicate 16 0 ++ packageSignatureFileName ++
  eocdSig ++ u32le 0 ++ u16le 1 ++ u16le 1 ++ u32le 60 ++ u32le (45 + gap.length) ++ u16le 0

/-- What is left of such a package. -/
def emptyPackage : List UInt8 :=
  eocdSig ++ List.replicate 18 0

theorem reachesDirectory_of_locate {bytes : List UInt8} {found : Located}
    (hlocate : locateSignature bytes = .ok found)
    (hlength : found.record.localOffset + localRecordLength (bytes.drop found.record.localOffset)
      (bytes.drop found.record.pos) = found.cdOffset) : ReachesDirectory bytes := by
  intro other hother
  obtain rfl := Except.ok.inj (hlocate.symm.trans hother)
  exact hlength

set_option maxRecDepth 2000

/-- The parts of a package with a file `a` of one byte in front of its signature. -/
def twoEntriesLayout : SignedLayout where
  before := [0x50, 0x4B, 0x03, 0x04, 20, 0, 0, 0, 0, 0, 0, 0, 0x21, 0, 0, 0, 0, 0] ++ u32le 1 ++
    u32le 1 ++ u16le 1 ++ u16le 0 ++ [0x61, 0x2a]
  localRecord := [0x50, 0x4B, 0x03, 0x04, 20, 0, 0, 0, 0, 0, 0, 0, 0x21, 0, 0, 0, 0, 0] ++
    u32le 1 ++ u32le 1 ++ u16le 14 ++ u16le 0 ++ packageSignatureFileName ++ [0x53]
  directory := [cdfhSig ++ [20, 0, 20, 0, 0, 0, 0, 0, 0, 0, 0x21, 0, 0, 0, 0, 0] ++ u32le 1 ++
    u32le 1 ++ u16le 1 ++ List.replicate 16 0 ++ [0x61]]
  record := cdfhSig ++ [20, 0, 20, 0, 0, 0, 0, 0, 0, 0, 0x21, 0, 0, 0, 0, 0] ++ u32le 1 ++
    u32le 1 ++ u16le 14 ++ List.replicate 12 0 ++ u32le 32 ++ packageSignatureFileName
  endRecord := eocdSig ++ u32le 0 ++ u16le 2 ++ u16le 2 ++ u32le 107 ++ u32le 77 ++ u16le 0

theorem valid_twoEntriesLayout : twoEntriesLayout.Valid where
  directory record hrecord := by
    rw [List.mem_singleton.mp hrecord]
    exact ⟨by decide, by decide⟩
  record := ⟨by decide, by decide⟩
  name := by decide
  offset := by decide
  sig := by decide
  end_length := by decide
  end_disk := by decide
  end_total := by decide
  end_size := by decide
  end_offset := by decide

/-- A package with a file in front of its signature is cut, and so is one with nothing else.  The
first is the package of the same parts. -/
theorem nuget_cut_exact_twoEntries :
    IsCut twoEntriesLayout twoEntriesLayout.bytes twoEntriesLayout.unsigned ∧
    (∃ layout, IsCut layout twoEntriesLayout.bytes twoEntriesLayout.unsigned) ∧
    (∃ layout, IsCut layout (signatureOnly 0 []) emptyPackage) ∧
    ∃ bytes, signedPackageUnsignedBytes bytes = .ok twoEntriesLayout.unsigned ∧
      bytes = twoEntriesLayout.bytes := by
  have hlocate : locateSignature twoEntriesLayout.bytes = .ok ⟨184, 2, 77, ⟨124, 60, true, 32⟩⟩ := by
    decide
  have hlocate' : locateSignature (signatureOnly 0 []) = .ok ⟨105, 1, 45, ⟨45, 60, true, 0⟩⟩ := by
    decide
  have hcut : IsCut twoEntriesLayout twoEntriesLayout.bytes twoEntriesLayout.unsigned :=
    ⟨valid_twoEntriesLayout, rfl, rfl, by decide⟩
  have hunsigned : signedPackageUnsignedBytes twoEntriesLayout.bytes =
      .ok twoEntriesLayout.unsigned := by decide
  have hreach := reachesDirectory_of_locate hlocate (by decide)
  have hexact := nuget_cut_exact Hashes.truncating .sha256 hunsigned hunsigned hreach hreach
  have hother := nuget_cut_exact Hashes.truncating .sha256 hunsigned
    (show signedPackageUnsignedBytes (signatureOnly 0 []) = .ok emptyPackage by decide) hreach
    (reachesDirectory_of_locate hlocate' (by decide))
  exact ⟨hcut, hexact.1, hother.2.1, _, hunsigned,
    hexact.2.2 twoEntriesLayout twoEntriesLayout hcut hcut rfl (fun _ => rfl) rfl rfl⟩

/-- A byte between the local record and the directory is dropped with the records,
which have 105 bytes, and neither it nor the time of the signature entry is seen in
what is hashed. -/
theorem cut_drops_gap_and_ignores_time :
    signedPackageUnsignedBytes (signatureOnly 0 []) = .ok emptyPackage ∧
    signedPackageUnsignedBytes (signatureOnly 0 [0xAA]) = .ok emptyPackage ∧
    emptyPackage.length + 105 ≠ (signatureOnly 0 [0xAA]).length ∧
    signedPackageUnsignedBytes (signatureOnly 1 []) = .ok emptyPackage ∧
    signatureOnly 0 [] ≠ signatureOnly 0 [0xAA] ∧ signatureOnly 0 [] ≠ signatureOnly 1 [] := by
  refine ⟨?_, ?_, ?_, ?_, ?_, ?_⟩ <;> decide

end Psign.Opc
