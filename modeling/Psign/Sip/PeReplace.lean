import Psign.Sip.PeRows

/-!
# Replacing a row of the certificate table

`pe_replace_authenticode_pkcs7_certificate_at` puts another PKCS#7 in the place of one.  It
rebuilds the table with a walk of its own, which advances by `dwLength` and not by `dwLength`
rounded up to a multiple of eight.

The rebuilt table is the old one with one segment of that walk replaced
(`replaceLoop_eq_ok`).  The verifier finds the new row in the place of the old one when the
segment is a row of the verifier too, with the same number (`replacesEach_of_passesRows`).
Otherwise there is a PKCS#7 for which it does not: the bytes of the new row show through in
what has to be one of the other rows (`passesRows_of_replacesEach`).
-/

namespace Psign.Sip

open CodeLib CodeLib.Bytes

/-! ## Definitions -/

/-- `rebuilt`, `pkcs7_seen` and `replaced`. -/
structure ReplaceState where
  rebuilt : List UInt8
  seen : Nat
  replaced : Bool

/-- What the loop does with one row. -/
def ReplaceState.step (replacement : List UInt8) (pkcs7Index : Nat) (st : ReplaceState)
    (row : List UInt8) : ReplaceState :=
  if u16At row 6 = winCertTypePkcsSignedData then
    if st.seen = pkcs7Index then ⟨st.rebuilt ++ replacement, st.seen + 1, true⟩
    else ⟨st.rebuilt ++ row, st.seen + 1, st.replaced⟩
  else ⟨st.rebuilt ++ row, st.seen, st.replaced⟩

/-- The loop of `pe_replace_authenticode_pkcs7_certificate_at`; `rest` is the table from
`offset` on. -/
def replaceLoop (replacement : List UInt8) (pkcs7Index : Nat) :
    Nat → Nat → List UInt8 → ReplaceState → Outcome ReplaceState
  | 0, _, rest, st => if rest = [] then .ok st else .error .outOfFuel
  | fuel + 1, offset, rest, st =>
      if rest = [] then .ok st
      else do
        Outcome.guardThat (8 ≤ rest.length)
          s!"truncated WIN_CERTIFICATE header at table offset {offset}"
        let len := u32At rest 0
        Outcome.guardThat (¬ (len < 8 ∨ rest.length < len))
          s!"invalid WIN_CERTIFICATE length {len} at table offset {offset}"
        replaceLoop replacement pkcs7Index fuel (offset + len) (rest.drop len)
          (st.step replacement pkcs7Index (rest.take len))

/-- `pe_replace_authenticode_pkcs7_certificate_at`. -/
def peReplaceAuthenticodePkcs7CertificateAt (image : List UInt8) (pkcs7Index : Nat)
    (pkcs7Der : List UInt8) : Outcome (List UInt8) := do
  let replacement := wrapPkcs7DerAuthenticodeWinCertificate pkcs7Der
  let (va, size) ← readSecurityDataDirectory image
  Outcome.guardThat (¬ (va = 0 ∨ size = 0)) "PE has no certificate table"
  Outcome.guardThat (va + size < 2 ^ 64) "security directory size overflow"
  Outcome.guardThat (¬ (image.length < va ∨ image.length < va + size))
    s!"security directory range {va}..{va + size} is outside PE length {image.length}"
  let table := (image.take (va + size)).drop va
  let st ← replaceLoop replacement pkcs7Index table.length 0 table ⟨[], 0, false⟩
  Outcome.guardThat (st.replaced = true)
    s!"no PKCS#7 Authenticode entry at index {pkcs7Index} (found {st.seen})"
  let out ← writeSecurityDataDirectory (image.take va ++ st.rebuilt) va (st.rebuilt.length % 2 ^ 32)
  peRefreshImageChecksum out

/-- A row of the walk by `dwLength`. -/
structure IsSegment (row : List UInt8) : Prop where
  size_ge : 8 ≤ u32At row 0
  length_eq : row.length = u32At row 0

/-- The row is a PKCS#7. -/
abbrev IsPkcs7 (row : List UInt8) : Prop :=
  u16At row 6 = winCertTypePkcsSignedData

/-- How many of the rows are a PKCS#7. -/
def pkcs7Count (rows : List (List UInt8)) : Nat :=
  rows.countP fun row => IsPkcs7 row

/-- The PKCS#7 with the number `k` is `row`, at `offset`. -/
def Pkcs7RowAt (rows : List (List UInt8)) (k : Nat) (row : List UInt8) (offset : Nat) : Prop :=
  ∃ before after, rows = before ++ row :: after ∧ IsPkcs7 row ∧ pkcs7Count before = k ∧
    before.flatten.length = offset

/-- Every PKCS#7 row that the verifier finds, with its padding, is one that the replacement
passes, at the same offset and with the same number. -/
def PassesRows (table : List UInt8) : Prop :=
  ∃ segments chunks : List (List UInt8),
    (∀ row ∈ segments, IsSegment row) ∧ (∀ row ∈ chunks, IsRow row) ∧
    table = segments.flatten ∧ table = chunks.flatten ∧
    ∀ k row offset, Pkcs7RowAt chunks k row offset → Pkcs7RowAt segments k row offset

/-- One PKCS#7 row is replaced, and the others are as before. -/
def ReplacesRow (rows rows' : List AttributeCertificate) (k : Nat) (new : List UInt8) : Prop :=
  ∃ before attr attr' after, rows = before ++ attr :: after ∧ rows' = before ++ attr' :: after ∧
    before.countP (fun attr => attr.certificateType = winCertTypePkcsSignedData) = k ∧
    attr.certificateType = winCertTypePkcsSignedData ∧
    attr'.certificateType = winCertTypePkcsSignedData ∧
    attr'.data = new ++ List.replicate (rowPadding new.length) 0

/-- Whichever PKCS#7 row is replaced, and by which PKCS#7 that has room in a table: the
verifier finds it in the place of the old one, the table is aligned, and the bytes in front
of it are as before, the directory and `CheckSum` apart. -/
def ReplacesEach (image : List UInt8) (va size : Nat) (slot : SecuritySlot)
    (rows : List AttributeCertificate) : Prop :=
  ∀ k < rows.countP (fun attr => attr.certificateType = winCertTypePkcsSignedData),
    ∀ new, IsSequence new → size + (wrapPkcs7DerAuthenticodeWinCertificate new).length < 2 ^ 32 →
      ∃ (out : List UInt8) (rows' : List AttributeCertificate),
        peReplaceAuthenticodePkcs7CertificateAt image k new = .ok out ∧
        certificateItems out = rows'.map .ok ∧ ReplacesRow rows rows' k new ∧
        peValidateAttributeCertificateTableAlignment out = .ok () ∧ SameHeader slot va image out

/-! ## What the loop computes -/

section loop

variable {replacement : List UInt8} {idx : Nat} {st st' : ReplaceState}

theorem pkcs7Count_cons (row : List UInt8) (rows : List (List UInt8)) :
    pkcs7Count (row :: rows) = pkcs7Count rows + if IsPkcs7 row then 1 else 0 := by
  rw [pkcs7Count, List.countP_cons]
  simp only [decide_eq_true_eq]
  rfl

theorem pkcs7Count_append (rows rows' : List (List UInt8)) :
    pkcs7Count (rows ++ rows') = pkcs7Count rows + pkcs7Count rows' :=
  List.countP_append

/-- Rows with other numbers are kept. -/
theorem foldl_step_keep {segments : List (List UInt8)}
    (h : st.seen + pkcs7Count segments ≤ idx ∨ idx < st.seen) :
    segments.foldl (ReplaceState.step replacement idx) st =
      ⟨st.rebuilt ++ segments.flatten, st.seen + pkcs7Count segments, st.replaced⟩ := by
  induction segments generalizing st with
  | nil =>
    rw [List.flatten_nil, List.append_nil]
    rfl
  | cons row rest ih =>
    rw [pkcs7Count_cons] at h ⊢
    by_cases htype : IsPkcs7 row
    · rw [if_pos htype] at h ⊢
      have hstep : st.step replacement idx row = ⟨st.rebuilt ++ row, st.seen + 1, st.replaced⟩ := by
        rw [ReplaceState.step, if_pos htype, if_neg (by omega)]
      rw [List.foldl_cons, hstep, ih (by show st.seen + 1 + _ ≤ idx ∨ idx < st.seen + 1; omega),
        List.flatten_cons, ← List.append_assoc]
      show (⟨_, st.seen + 1 + pkcs7Count rest, _⟩ : ReplaceState) = _
      rw [show st.seen + 1 + pkcs7Count rest = st.seen + (pkcs7Count rest + 1) by omega]
    · rw [if_neg htype] at h ⊢
      have hstep : st.step replacement idx row = ⟨st.rebuilt ++ row, st.seen, st.replaced⟩ := by
        rw [ReplaceState.step, if_neg htype]
      rw [List.foldl_cons, hstep, ih (by show st.seen + _ ≤ idx ∨ idx < st.seen; omega),
        List.flatten_cons, ← List.append_assoc]
      rfl

/-- The row with the number is replaced. -/
theorem foldl_step_replace {before after : List (List UInt8)} {row : List UInt8} (htype : IsPkcs7 row)
    (hnumber : st.seen + pkcs7Count before = idx) :
    (before ++ row :: after).foldl (ReplaceState.step replacement idx) st =
      ⟨st.rebuilt ++ before.flatten ++ replacement ++ after.flatten,
        st.seen + pkcs7Count (before ++ row :: after), true⟩ := by
  rw [List.foldl_append, foldl_step_keep (Or.inl (Nat.le_of_eq hnumber)), List.foldl_cons,
    ReplaceState.step, if_pos htype, if_pos hnumber, foldl_step_keep
      (Or.inr (by show idx < st.seen + pkcs7Count before + 1; omega)), pkcs7Count_append,
    pkcs7Count_cons, if_pos htype]
  show (⟨_, st.seen + pkcs7Count before + 1 + pkcs7Count after, _⟩ : ReplaceState) = _
  rw [show st.seen + pkcs7Count before + 1 + pkcs7Count after =
    st.seen + (pkcs7Count before + (pkcs7Count after + 1)) by omega]

/-- The PKCS#7 with a number, where there are enough. -/
theorem exists_pkcs7RowAt {rows : List (List UInt8)} {k : Nat} (h : k < pkcs7Count rows) :
    ∃ row offset, Pkcs7RowAt rows k row offset := by
  induction rows generalizing k with
  | nil => exact absurd h (Nat.not_lt_zero k)
  | cons first rest ih =>
    rw [pkcs7Count_cons] at h
    by_cases htype : IsPkcs7 first
    · rw [if_pos htype] at h
      cases k with
      | zero => exact ⟨first, 0, [], rest, rfl, htype, rfl, rfl⟩
      | succ k =>
        obtain ⟨row, offset, before, after, rfl, hrow, hcount, _⟩ := ih (Nat.lt_of_succ_lt_succ h)
        refine ⟨row, _, first :: before, after, rfl, hrow, ?_, rfl⟩
        rw [pkcs7Count_cons, if_pos htype, hcount]
    · rw [if_neg htype] at h
      obtain ⟨row, offset, before, after, rfl, hrow, hcount, _⟩ := ih h
      refine ⟨row, _, first :: before, after, rfl, hrow, ?_, rfl⟩
      rw [pkcs7Count_cons, if_neg htype, hcount, Nat.add_zero]

theorem IsSegment.length_ge {row : List UInt8} (h : IsSegment row) : 8 ≤ row.length :=
  h.length_eq ▸ h.size_ge

/-- The loop passes a sequence of segments one after the other. -/
theorem replaceLoop_flatten {segments : List (List UInt8)} {fuel offset : Nat}
    (h : ∀ row ∈ segments, IsSegment row) (hfuel : segments.flatten.length ≤ fuel) :
    replaceLoop replacement idx fuel offset segments.flatten st =
      .ok (segments.foldl (ReplaceState.step replacement idx) st) := by
  induction segments generalizing fuel offset st with
  | nil => cases fuel <;> rfl
  | cons row rest ih =>
    have hrow := h row List.mem_cons_self
    have hlen := hrow.length_ge
    rw [List.flatten_cons, List.length_append] at hfuel
    obtain ⟨fuel, rfl⟩ : ∃ fuel', fuel = fuel' + 1 := ⟨fuel - 1, by omega⟩
    have hne : (row :: rest).flatten ≠ [] := by
      intro hnil
      have hzero := congrArg List.length hnil
      rw [List.flatten_cons, List.length_append, List.length_nil] at hzero
      omega
    have hread : u32At (row :: rest).flatten 0 = row.length := by
      rw [List.flatten_cons, u32At_append_left _ (by omega), hrow.length_eq]
    have hlong : row.length ≤ (row :: rest).flatten.length := by
      rw [List.flatten_cons, List.length_append]
      omega
    simp only [replaceLoop]
    rw [if_neg hne, Outcome.guardThat_of (by omega), Outcome.ok_bind, hread,
      Outcome.guardThat_of (by omega), Outcome.ok_bind, List.flatten_cons, List.drop_left,
      List.take_left, ih (fun r hr => h r (List.mem_cons_of_mem _ hr)) (by omega), List.foldl_cons]

/-- When the loop ends, the table is a sequence of segments. -/
theorem exists_segments_of_replaceLoop {fuel offset : Nat} {rest : List UInt8}
    (h : replaceLoop replacement idx fuel offset rest st = .ok st') :
    ∃ segments : List (List UInt8), (∀ row ∈ segments, IsSegment row) ∧ rest = segments.flatten ∧
      st' = segments.foldl (ReplaceState.step replacement idx) st := by
  induction fuel generalizing offset rest st with
  | zero =>
    simp only [replaceLoop] at h
    by_cases hrest : rest = []
    · rw [if_pos hrest] at h
      exact ⟨[], by simp, hrest, (Except.ok.inj h).symm⟩
    · rw [if_neg hrest] at h
      cases h
  | succ fuel ih =>
    simp only [replaceLoop] at h
    by_cases hrest : rest = []
    · rw [if_pos hrest] at h
      exact ⟨[], by simp, hrest, (Except.ok.inj h).symm⟩
    · rw [if_neg hrest, Outcome.guardThat_bind_eq_ok, Outcome.guardThat_bind_eq_ok] at h
      obtain ⟨hlong, hlen, h⟩ := h
      obtain ⟨segments, hsegments, hbehind, rfl⟩ := ih h
      refine ⟨rest.take (u32At rest 0) :: segments, ?_, ?_, rfl⟩
      · intro row hrow
        rcases List.mem_cons.mp hrow with rfl | hmem
        · have hread : u32At (rest.take (u32At rest 0)) 0 = u32At rest 0 := u32At_take (by omega)
          exact ⟨by rw [hread]; omega, by rw [hread, List.length_take_of_le (by omega)]⟩
        · exact hsegments row hmem
      · rw [List.flatten_cons, ← hbehind, List.take_append_drop]

end loop

/-! ## The rebuilt image -/

section rebuilt

variable {image out table rebuilt new : List UInt8} {va size k : Nat} {slot : SecuritySlot}

/-- The rebuilt table is the one the directory of the result points to, and in front of it
only the two fields change. -/
theorem hasTable_rebuilt (hread : readSecurityDataDirectory image = .ok (va, size))
    (hslot : HasSlot image slot) (hfront : slot.dataDir + 8 ≤ va) (hin : va ≤ image.length)
    (hfit : rebuilt.length < 2 ^ 32)
    (h : (writeSecurityDataDirectory (image.take va ++ rebuilt) va rebuilt.length >>=
      peRefreshImageChecksum) = .ok out) :
    HasTable out va rebuilt.length rebuilt ∧ SameHeader slot va image out := by
  obtain ⟨slot', _, hva32, _⟩ := exists_slot_of_read hread
  have hptr : va < 2 ^ 32 := hva32 ▸ u32At_lt _ _
  have hheader := sameHeader_kept hfront hin rebuilt
  have hlenBase : (image.take va ++ rebuilt).length = va + rebuilt.length := by
    rw [List.length_append, List.length_take_of_le hin]
  have hbase : HasSlot (image.take va ++ rebuilt) slot := hslot.congr hheader (by omega)
  obtain ⟨hlenOut, hfields, hptrOut, hsizeOut⟩ := rewrite_fields hbase hptr hfit h
  have hsame : SameHeader slot va image out :=
    ⟨hheader.1.trans hfields.1, hheader.2.1.trans hfields.2.1,
      hheader.2.2.trans (hfields.2.2.mono (Nat.le_refl _) (by omega))⟩
  refine ⟨⟨?_, ?_⟩, hsame⟩
  · rw [readSecurityDataDirectory_congr hread hslot hsame (by omega), hptrOut, hsizeOut]
  · rw [← slice_congr (hfields.2.2.mono hfront (by omega)) (by omega) (by omega)]
    refine slice_eq_some.mpr ⟨by omega, by omega, ?_⟩
    rw [List.take_of_length_le (by omega), List.drop_left' (List.length_take_of_le hin)]

/-- Where the walk of the replacement finds the PKCS#7, its row is replaced. -/
theorem exists_replace {segments : List (List UInt8)} {row : List UInt8} {offset : Nat}
    (htable : HasTable image va size table) (hslot : HasSlot image slot)
    (hfront : slot.dataDir + 8 ≤ va) (hsegments : ∀ row ∈ segments, IsSegment row)
    (hsplit : table = segments.flatten) (hat : Pkcs7RowAt segments k row offset)
    (hfit : size + (wrapPkcs7DerAuthenticodeWinCertificate new).length < 2 ^ 32) :
    ∃ out, peReplaceAuthenticodePkcs7CertificateAt image k new = .ok out ∧
      HasTable out va (table.take offset ++ wrapPkcs7DerAuthenticodeWinCertificate new ++
          table.drop (offset + row.length)).length
        (table.take offset ++ wrapPkcs7DerAuthenticodeWinCertificate new ++
          table.drop (offset + row.length)) ∧
      SameHeader slot va image out := by
  obtain ⟨before, after, rfl, htype, rfl, rfl⟩ := hat
  have hlong := (hsegments row (by simp)).length_ge
  obtain ⟨_, hin, hcut⟩ := slice_eq_some.mp htable.2
  have hlenTable := length_of_slice htable.2
  have htake : table.take before.flatten.length = before.flatten := by
    rw [hsplit, List.flatten_append, List.take_left]
  have hdrop : table.drop (before.flatten.length + row.length) = after.flatten := by
    rw [hsplit, List.flatten_append, List.flatten_cons, ← List.append_assoc]
    exact List.drop_left' (List.length_append ..)
  rw [htake, hdrop]
  have hlenSplit : table.length = before.flatten.length + (row.length + after.flatten.length) := by
    rw [hsplit, List.flatten_append, List.flatten_cons, List.length_append, List.length_append]
  have hfitRebuilt : (before.flatten ++ wrapPkcs7DerAuthenticodeWinCertificate new ++
      after.flatten).length < 2 ^ 32 := by
    rw [List.length_append, List.length_append]
    omega
  have hloop : replaceLoop (wrapPkcs7DerAuthenticodeWinCertificate new) (pkcs7Count before)
      table.length 0 table ⟨[], 0, false⟩ =
        .ok ⟨before.flatten ++ wrapPkcs7DerAuthenticodeWinCertificate new ++ after.flatten,
          pkcs7Count (before ++ row :: after), true⟩ := by
    have hfold := @foldl_step_replace (wrapPkcs7DerAuthenticodeWinCertificate new) _ ⟨[], 0, false⟩
      before after row htype (Nat.zero_add (pkcs7Count before))
    rw [List.nil_append, Nat.zero_add] at hfold
    rw [hsplit, replaceLoop_flatten hsegments (Nat.le_refl _), hfold]
  generalize hrebuilt : before.flatten ++ wrapPkcs7DerAuthenticodeWinCertificate new ++
    after.flatten = rebuilt at *
  have hlenBase : (image.take va ++ rebuilt).length = va + rebuilt.length := by
    rw [List.length_append, List.length_take_of_le (by omega)]
  have hheader := sameHeader_kept hfront (show va ≤ image.length by omega) rebuilt
  obtain ⟨out, hout⟩ := exists_rewrite (hslot.congr hheader (by omega)) va rebuilt.length
  obtain ⟨slot', _, hva32, hsize32⟩ := exists_slot_of_read htable.1
  have hva := u32At_lt image slot'.dataDir
  have hsize := u32At_lt image (slot'.dataDir + 4)
  refine ⟨out, ?_, hasTable_rebuilt htable.1 hslot hfront (by omega) hfitRebuilt hout⟩
  simp only [peReplaceAuthenticodePkcs7CertificateAt, htable.1, Outcome.ok_bind,
    Outcome.guardThat_of (show ¬ (va = 0 ∨ size = 0) by omega),
    Outcome.guardThat_of (show va + size < 2 ^ 64 by omega),
    Outcome.guardThat_of (show ¬ (image.length < va ∨ image.length < va + size) by omega), ← hcut,
    hloop, Nat.mod_eq_of_lt hfitRebuilt, hout]
  rfl

/-- The result of a replacement. -/
theorem exists_segments_of_replace (htable : HasTable image va size table)
    (h : peReplaceAuthenticodePkcs7CertificateAt image k new = .ok out) :
    ∃ segments : List (List UInt8), (∀ row ∈ segments, IsSegment row) ∧ table = segments.flatten ∧
      ∃ row offset, Pkcs7RowAt segments k row offset := by
  obtain ⟨_, _, hcut⟩ := slice_eq_some.mp htable.2
  simp only [peReplaceAuthenticodePkcs7CertificateAt, htable.1, Outcome.ok_bind,
    Outcome.guardThat_bind_eq_ok, ← hcut] at h
  obtain ⟨_, _, _, h⟩ := h
  obtain ⟨st, hloop, h⟩ := Outcome.bind_eq_ok.mp h
  obtain ⟨hreplaced, _⟩ := Outcome.guardThat_bind_eq_ok.mp h
  obtain ⟨segments, hsegments, hsplit, rfl⟩ := exists_segments_of_replaceLoop hloop
  refine ⟨segments, hsegments, hsplit, ?_⟩
  apply exists_pkcs7RowAt
  by_contra hfew
  rw [foldl_step_keep (Or.inl (by show 0 + pkcs7Count segments ≤ k; omega))] at hreplaced
  cases hreplaced

/-- The rows of a rebuilt table whose replaced segment is a row of the verifier. -/
theorem replacesEach_of_passesRows {rows : List AttributeCertificate}
    (htable : HasTable image va size table) (hslot : HasSlot image slot)
    (hfront : slot.dataDir + 8 ≤ va) (hwalk : attributeCertificates table = rows.map .ok)
    (haligned : va % 8 = 0) (h : PassesRows table) : ReplacesEach image va size slot rows := by
  obtain ⟨segments, chunks, hsegments, hchunks, hsplit, hsplit', hpasses⟩ := h
  have hrows : rows = chunks.map rowOf := by
    have hmap := hwalk.symm.trans (attributeCertificates_eq_map_ok.mpr ⟨chunks, hchunks, hsplit', rfl⟩)
    exact List.map_injective_iff.mpr (fun _ _ => Except.ok.inj) hmap
  have hcount : ∀ chunks : List (List UInt8), (chunks.map rowOf).countP
      (fun attr => attr.certificateType = winCertTypePkcsSignedData) = pkcs7Count chunks := by
    intro chunks
    rw [List.countP_map]
    rfl
  intro k hk new hseq hfit
  rw [hrows, hcount] at hk
  obtain ⟨row, offset, hat⟩ := exists_pkcs7RowAt hk
  obtain ⟨out, hout, htableOut, hsame⟩ :=
    exists_replace htable hslot hfront hsegments hsplit (hpasses k row offset hat) hfit
  obtain ⟨before, after, hchunksEq, htype, rfl, rfl⟩ := hat
  have htake : table.take before.flatten.length = before.flatten := by
    rw [hsplit', hchunksEq, List.flatten_append, List.take_left]
  have hdrop : table.drop (before.flatten.length + row.length) = after.flatten := by
    rw [hsplit', hchunksEq, List.flatten_append, List.flatten_cons, ← List.append_assoc]
    exact List.drop_left' (List.length_append ..)
  have hwrapFit : (wrapPkcs7DerAuthenticodeWinCertificate new).length < 2 ^ 32 := by omega
  have hnew := isPkcs7RowOf_wrap hseq hwrapFit
  have hrebuilt : table.take before.flatten.length ++ wrapPkcs7DerAuthenticodeWinCertificate new ++
      table.drop (before.flatten.length + row.length) =
        (before ++ wrapPkcs7DerAuthenticodeWinCertificate new :: after).flatten := by
    rw [htake, hdrop, List.flatten_append, List.flatten_cons, List.append_assoc]
  have hnewChunks : ∀ chunk ∈ before ++ wrapPkcs7DerAuthenticodeWinCertificate new :: after,
      IsRow chunk := by
    intro chunk hchunk
    rcases List.mem_append.mp hchunk with hmem | hmem
    · exact hchunks chunk (hchunksEq ▸ List.mem_append_left _ hmem)
    · rcases List.mem_cons.mp hmem with rfl | hmem
      · exact isRow_wrap hwrapFit
      · exact hchunks chunk (hchunksEq ▸ List.mem_append_right _ (List.mem_cons_of_mem _ hmem))
  rw [hrebuilt] at htableOut
  refine ⟨out, (before ++ wrapPkcs7DerAuthenticodeWinCertificate new :: after).map rowOf, hout, ?_, ?_,
    ?_, hsame⟩
  · rw [certificateItems_of_table htableOut (by omega)]
    exact attributeCertificates_eq_map_ok.mpr ⟨_, hnewChunks, rfl, rfl⟩
  · refine ⟨before.map rowOf, rowOf row, rowOf (wrapPkcs7DerAuthenticodeWinCertificate new),
      after.map rowOf, ?_, ?_, hcount before, htype, hnew.1, ?_⟩
    · rw [hrows, hchunksEq, List.map_append, List.map_cons]
    · rw [List.map_append, List.map_cons]
    · rw [rowOf_wrap hwrapFit]
  · have hmod := length_mod_of_rows hnewChunks
    have hpos : (before ++ wrapPkcs7DerAuthenticodeWinCertificate new :: after).flatten.length ≠ 0 := by
      have hlong := length_wrap_ge hseq
      rw [List.flatten_append, List.flatten_cons, List.length_append, List.length_append]
      omega
    simp only [peValidateAttributeCertificateTableAlignment, htableOut.1, Outcome.ok_bind,
      validateAttributeCertificateTableAlignment]
    rw [if_neg (fun hnone => hpos hnone.2), if_neg (by omega), if_neg (by omega), if_neg (by omega)]

end rebuilt

/-! ## Where the walks differ -/

section converse

variable {table : List UInt8}

/-- A table is a sequence of segments in one way. -/
theorem segments_unique {segments segments' : List (List UInt8)}
    (h : ∀ row ∈ segments, IsSegment row) (h' : ∀ row ∈ segments', IsSegment row)
    (hsame : segments.flatten = segments'.flatten) : segments = segments' := by
  have hlong : ∀ {row : List UInt8} {rest : List (List UInt8)}, IsSegment row →
      (row :: rest).flatten ≠ [] := by
    intro row rest hrow hnil
    have hpos := hrow.length_ge
    have hzero := congrArg List.length hnil
    rw [List.flatten_cons, List.length_append, List.length_nil] at hzero
    omega
  induction segments generalizing segments' with
  | nil =>
    cases segments' with
    | nil => rfl
    | cons row' rest' => exact absurd hsame.symm (hlong (h' row' List.mem_cons_self))
  | cons row rest ih =>
    cases segments' with
    | nil => exact absurd hsame (hlong (h row List.mem_cons_self))
    | cons row' rest' =>
      have hrow := h row List.mem_cons_self
      have hrow' := h' row' List.mem_cons_self
      have hpos := hrow.length_ge
      have hpos' := hrow'.length_ge
      have hread : u32At row 0 = u32At row' 0 := by
        have hfirst := u32At_append_left rest.flatten (show 0 + 4 ≤ row.length by omega)
        have hfirst' := u32At_append_left rest'.flatten (show 0 + 4 ≤ row'.length by omega)
        exact hfirst.symm.trans ((congrArg (fun bytes => u32At bytes 0) hsame).trans hfirst')
      obtain ⟨rfl, hrest⟩ := List.append_inj hsame (by rw [hrow.length_eq, hrow'.length_eq, hread])
      rw [ih (fun r hr => h r (List.mem_cons_of_mem _ hr))
        (fun r hr => h' r (List.mem_cons_of_mem _ hr)) hrest]

/-- The row says how long it is. -/
theorem size_eq_of_row {chunk : List UInt8} (h : IsRow chunk) :
    u32At chunk 0 = 8 + (rowOf chunk).data.length := by
  have hsize := h.size_ge
  rw [rowOf, List.length_drop, List.length_take_of_le h.size_le]
  omega

/-- Rows that read the same have the same bytes, the padding apart. -/
theorem take_eq_of_rowOf_eq {chunk chunk' : List UInt8} (h : IsRow chunk) (h' : IsRow chunk')
    (hsame : rowOf chunk = rowOf chunk') :
    u32At chunk 0 = u32At chunk' 0 ∧
      chunk.take (u32At chunk 0) = chunk'.take (u32At chunk 0) := by
  have hsize : u32At chunk 0 = u32At chunk' 0 := by
    rw [size_eq_of_row h, size_eq_of_row h', hsame]
  have hread := hsame
  simp only [rowOf, AttributeCertificate.mk.injEq] at hread
  obtain ⟨hrevision, htype, hdata⟩ := hread
  have hge := h.size_ge
  have hlen := h.length_ge
  have hlen' := h'.length_ge
  refine ⟨hsize, ?_⟩
  -- a row is its length, its revision, its type and its data
  have hcut : ∀ {row : List UInt8}, 8 ≤ row.length → ∀ n, 8 ≤ n → row.take n =
      u32le (u32At row 0) ++ (u16le (u16At row 4) ++ (u16le (u16At row 6) ++ (row.take n).drop 8)) := by
    intro row hrow n hn
    rw [u32le_u32At (by omega), u16le_u16At (by omega), u16le_u16At (by omega), List.drop_zero,
      List.drop_take]
    have hfirst := take_drop_add row 0 4 (n - 4)
    have hsecond := take_drop_add row 4 2 (n - 6)
    have hthird := take_drop_add row 6 2 (n - 8)
    rw [List.drop_zero, Nat.zero_add, show 4 + (n - 4) = n by omega] at hfirst
    rw [show 2 + (n - 6) = n - 4 by omega, show 4 + 2 = 6 by rfl] at hsecond
    rw [show 2 + (n - 8) = n - 6 by omega, show 6 + 2 = 8 by rfl] at hthird
    rw [hfirst, hsecond, hthird]
  rw [hcut hlen _ hge, hcut hlen' _ hge, hrevision, htype, ← hsize]
  rw [← hsize] at hdata
  rw [hdata, hsize]

/-- Tables of rows that read the same have rows of the same lengths. -/
theorem length_flatten_of_map_eq {chunks chunks' : List (List UInt8)}
    (h : ∀ chunk ∈ chunks, IsRow chunk) (h' : ∀ chunk ∈ chunks', IsRow chunk)
    (hsame : chunks'.map rowOf = chunks.map rowOf) :
    chunks'.flatten.length = chunks.flatten.length := by
  induction chunks generalizing chunks' with
  | nil => rw [List.map_eq_nil_iff.mp hsame]
  | cons chunk chunks ih =>
    obtain ⟨chunk', rest', rfl, hfirst, hrest⟩ := List.map_eq_cons_iff.mp hsame
    have hrow := h chunk List.mem_cons_self
    have hrow' := h' chunk' List.mem_cons_self
    rw [List.flatten_cons, List.flatten_cons, List.length_append, List.length_append,
      hrow.length_eq, hrow'.length_eq, (take_eq_of_rowOf_eq hrow hrow' hfirst.symm).1,
      ih (fun c hc => h c (List.mem_cons_of_mem _ hc)) (fun c hc => h' c (List.mem_cons_of_mem _ hc))
        hrest]

/-- The chunk that an offset is in. -/
theorem exists_chunk_at {chunks : List (List UInt8)} {x : Nat} (h : x < chunks.flatten.length) :
    ∃ before chunk after, chunks = before ++ chunk :: after ∧ before.flatten.length ≤ x ∧
      x < before.flatten.length + chunk.length := by
  induction chunks generalizing x with
  | nil => exact absurd h (Nat.not_lt_zero x)
  | cons chunk chunks ih =>
    by_cases hfirst : x < chunk.length
    · exact ⟨[], chunk, chunks, rfl, Nat.zero_le _, by simpa using hfirst⟩
    · rw [List.flatten_cons, List.length_append] at h
      obtain ⟨before, c, after, rfl, hle, hlt⟩ := ih (show x - chunk.length < _ by omega)
      refine ⟨chunk :: before, c, after, rfl, ?_, ?_⟩
      · rw [List.flatten_cons, List.length_append]
        omega
      · rw [List.flatten_cons, List.length_append]
        omega

/-- A list is cut at its element with a number in one way. -/
theorem split_unique {α : Type} {p : α → Bool} {before before' after after' : List α} {x x' : α}
    (hx : p x = true) (hx' : p x' = true)
    (h : before ++ x :: after = before' ++ x' :: after')
    (hcount : before.countP p = before'.countP p) : before = before' ∧ x = x' ∧ after = after' := by
  have hlonger : ∀ {front front' back back' : List α} {y y' : α}, p y = true →
      front ++ y :: back = front' ++ y' :: back' → front.countP p = front'.countP p →
      ¬ front.length < front'.length := by
    intro front front' back back' y y' hy hsame hcounts hlt
    obtain ⟨t, rfl, ht⟩ | ⟨t, rfl, _⟩ := List.append_eq_append_iff.mp hsame
    · cases t with
      | nil =>
        rw [List.append_nil] at hlt
        exact Nat.lt_irrefl _ hlt
      | cons head t =>
        obtain ⟨rfl, _⟩ := List.cons.inj ht
        rw [List.countP_append, List.countP_cons_of_pos hy] at hcounts
        omega
    · rw [List.length_append] at hlt
      omega
  have hle := hlonger hx h hcount
  have hge := hlonger hx' h.symm hcount.symm
  obtain ⟨rfl, hrest⟩ := List.append_inj h (by omega)
  exact ⟨rfl, List.cons.inj hrest⟩

/-- A table with one segment replaced reads as the rows before and after, and the new row
between them. -/
def RebuiltRows (table : List UInt8) (x len : Nat) (before after : List (List UInt8))
    (new : List UInt8) : Prop :=
  ∃ (before' after' : List (List UInt8)) (row : List UInt8),
    (∀ chunk ∈ before' ++ row :: after', IsRow chunk) ∧
    table.take x ++ (wrapPkcs7DerAuthenticodeWinCertificate new ++ table.drop (x + len)) =
      (before' ++ row :: after').flatten ∧
    before'.map rowOf = before.map rowOf ∧ after'.map rowOf = after.map rowOf ∧
    u16At row 6 = winCertTypePkcsSignedData ∧
    (rowOf row).data = new ++ List.replicate (rowPadding new.length) 0

section rebuiltRows

variable {x len : Nat} {before after : List (List UInt8)} {new : List UInt8}

/-- What the replacement writes is a table that reads so. -/
theorem rebuiltRows_of_replacesEach {image : List UInt8} {va size k : Nat} {slot : SecuritySlot}
    {segments : List (List UInt8)} {chunk segment : List UInt8}
    (htable : HasTable image va size table) (hslot : HasSlot image slot)
    (hfront : slot.dataDir + 8 ≤ va) (hsegments : ∀ row ∈ segments, IsSegment row)
    (hsplit : table = segments.flatten) (hat : Pkcs7RowAt segments k segment x)
    (htype : IsPkcs7 chunk) (hnumber : pkcs7Count before = k)
    (h : ReplacesEach image va size slot ((before ++ chunk :: after).map rowOf))
    (hseq : IsSequence new)
    (hfit : size + (wrapPkcs7DerAuthenticodeWinCertificate new).length < 2 ^ 32) :
    RebuiltRows table x segment.length before after new := by
  have hcount : ∀ rows : List (List UInt8), (rows.map rowOf).countP
      (fun attr => attr.certificateType = winCertTypePkcsSignedData) = pkcs7Count rows := by
    intro rows
    rw [List.countP_map]
    rfl
  have hk : k < ((before ++ chunk :: after).map rowOf).countP
      (fun attr => attr.certificateType = winCertTypePkcsSignedData) := by
    rw [hcount, pkcs7Count_append, pkcs7Count_cons, if_pos htype]
    omega
  obtain ⟨out, rows', hout, hitems, hreplaced, _⟩ := h k hk new hseq hfit
  obtain ⟨out', hout', htableOut, _⟩ :=
    exists_replace htable hslot hfront hsegments hsplit hat hfit
  obtain rfl := Except.ok.inj (hout.symm.trans hout')
  rw [certificateItems_of_table htableOut (by omega)] at hitems
  obtain ⟨chunks, hchunks', hflatten, rfl⟩ := attributeCertificates_eq_map_ok.mp hitems
  obtain ⟨front, attr, attr', back, hrows, hrows', hnumber', hattr, hattr', hdata⟩ := hreplaced
  rw [List.map_append, List.map_cons] at hrows
  obtain ⟨rfl, rfl, rfl⟩ := split_unique
    (p := fun attr => attr.certificateType = winCertTypePkcsSignedData) (decide_eq_true htype)
    (decide_eq_true hattr) hrows (by rw [hcount, hnumber, hnumber'])
  obtain ⟨before', rest, rfl, hbefore, hrest⟩ := List.map_eq_append_iff.mp hrows'
  obtain ⟨row, after', rfl, rfl, hafter⟩ := List.map_eq_cons_iff.mp hrest
  exact ⟨before', after', row, hchunks', by rw [← List.append_assoc]; exact hflatten, hbefore, hafter,
    hattr', hdata⟩

/-- The new row takes the place of one of the same length. -/
theorem RebuiltRows.length_eq (h : RebuiltRows table x len before after new)
    (hchunks : ∀ chunk ∈ before ++ after, IsRow chunk) (hlen : x + len ≤ table.length) :
    before.flatten.length + after.flatten.length + len = table.length := by
  obtain ⟨before', after', row, hrows, hflatten, hbefore, hafter, _, hdata⟩ := h
  have hrow := hrows row (by simp)
  have hsize := size_eq_of_row hrow
  have hrowLen : row.length = (wrapPkcs7DerAuthenticodeWinCertificate new).length := by
    rw [hrow.length_eq, hsize, hdata, List.length_append, List.length_replicate, ← Nat.add_assoc,
      ← length_wrap, roundUp8_of_mod (length_wrap_mod new)]
  have hbeforeLen := length_flatten_of_map_eq (fun c hc => hchunks c (List.mem_append_left _ hc))
    (fun c hc => hrows c (List.mem_append_left _ hc)) hbefore
  have hafterLen := length_flatten_of_map_eq (fun c hc => hchunks c (List.mem_append_right _ hc))
    (fun c hc => hrows c (List.mem_append_right _ (List.mem_cons_of_mem _ hc))) hafter
  have hall := congrArg List.length hflatten
  simp only [List.length_append, List.length_take, List.length_drop, List.flatten_append,
    List.flatten_cons] at hall
  omega

/-- The new row starts with its length. -/
theorem RebuiltRows.size_at (h : RebuiltRows table x len before after new)
    (hchunks : ∀ chunk ∈ before, IsRow chunk) :
    u32At (table.take x ++ (wrapPkcs7DerAuthenticodeWinCertificate new ++ table.drop (x + len)))
      before.flatten.length = (wrapPkcs7DerAuthenticodeWinCertificate new).length := by
  obtain ⟨before', after', row, hrows, hflatten, hbefore, _, _, hdata⟩ := h
  have hrow := hrows row (by simp)
  have hbeforeLen := length_flatten_of_map_eq hchunks
    (fun c hc => hrows c (List.mem_append_left _ hc)) hbefore
  have hlong := hrow.length_ge
  rw [hflatten, List.flatten_append, ← hbeforeLen, List.flatten_cons]
  have hat := u32At_append_right before'.flatten (row ++ after'.flatten) 0
  rw [Nat.add_zero] at hat
  rw [hat, u32At_append_left _ (by omega), size_eq_of_row hrow, hdata, List.length_append,
    List.length_replicate, length_wrap, Nat.add_assoc]

/-- A byte of a row in front, behind which the new row cannot start. -/
theorem RebuiltRows.byte_in_front {front back : List (List UInt8)} {chunk : List UInt8}
    (h : RebuiltRows table x len (front ++ chunk :: back) after new)
    (hchunks : ∀ row ∈ front ++ chunk :: back, IsRow row) (hx : x ≤ table.length)
    (hle : front.flatten.length ≤ x) (hlt : x < front.flatten.length + u32At chunk 0) :
    (wrapPkcs7DerAuthenticodeWinCertificate new)[0]? = chunk[x - front.flatten.length]? := by
  obtain ⟨before', after', row, hrows, hflatten, hbefore, _, _, _⟩ := h
  rw [List.map_append, List.map_cons] at hbefore
  obtain ⟨front', rest, rfl, hfront, hrest⟩ := List.map_eq_append_iff.mp hbefore
  obtain ⟨chunk', back', rfl, hchunk, _⟩ := List.map_eq_cons_iff.mp hrest
  have hrow := hchunks chunk (by simp)
  have hrow' := hrows chunk' (by simp)
  have hlen := length_flatten_of_map_eq (fun c hc => hchunks c (List.mem_append_left _ hc))
    (fun c hc => hrows c (List.mem_append_left _ (List.mem_append_left _ hc))) hfront
  obtain ⟨hsize, htake⟩ := take_eq_of_rowOf_eq hrow hrow' hchunk.symm
  have hsizeLe := hrow'.size_le
  have hpos : 0 < (wrapPkcs7DerAuthenticodeWinCertificate new).length := by
    rw [length_wrap]
    omega
  have hat := congrArg (fun bytes => bytes[x]?) hflatten
  have hleft : (table.take x ++ (wrapPkcs7DerAuthenticodeWinCertificate new ++
      table.drop (x + len)))[x]? = (wrapPkcs7DerAuthenticodeWinCertificate new)[0]? := by
    rw [List.getElem?_append_right (by rw [List.length_take]; omega), List.length_take_of_le hx,
      Nat.sub_self, List.getElem?_append_left hpos]
  rw [← hleft, hflatten, List.flatten_append, List.flatten_append, List.flatten_cons,
    List.append_assoc, List.append_assoc, List.getElem?_append_right (by omega), hlen,
    List.getElem?_append_left (by omega), ← List.getElem?_take_of_lt (show x - front.flatten.length <
      u32At chunk 0 by omega), ← htake, List.getElem?_take_of_lt (by omega)]

/-- The type of the row that follows. -/
def nextType (back : List (List UInt8)) : Nat :=
  match back with
  | [] => winCertTypePkcsSignedData
  | row :: _ => (rowOf row).certificateType

/-- When the new row starts in the padding of a row in front, the header of the next row is
read from it. -/
theorem RebuiltRows.header_in_row {front back : List (List UInt8)} {chunk : List UInt8}
    (h : RebuiltRows table x len (front ++ chunk :: back) after new)
    (hchunks : ∀ row ∈ front ++ chunk :: back, IsRow row) (hx : x ≤ table.length) {d : Nat}
    (hd : x + d = front.flatten.length + chunk.length) :
    8 ≤ u32At (wrapPkcs7DerAuthenticodeWinCertificate new ++ table.drop (x + len)) d ∧
      u16At (wrapPkcs7DerAuthenticodeWinCertificate new ++ table.drop (x + len)) (d + 6) =
        nextType back := by
  obtain ⟨before', after', row, hrows, hflatten, hbefore, _, hrowType, _⟩ := h
  rw [List.map_append, List.map_cons] at hbefore
  obtain ⟨front', rest, rfl, hfront, hrest⟩ := List.map_eq_append_iff.mp hbefore
  obtain ⟨chunk', back', rfl, hchunk, hback⟩ := List.map_eq_cons_iff.mp hrest
  have hlen := length_flatten_of_map_eq (fun c hc => hchunks c (List.mem_append_left _ hc))
    (fun c hc => hrows c (List.mem_append_left _ (List.mem_append_left _ hc))) hfront
  have hlenChunk : chunk'.length = chunk.length := by
    rw [(hchunks chunk (by simp)).length_eq, (hrows chunk' (by simp)).length_eq,
      (take_eq_of_rowOf_eq (hchunks chunk (by simp)) (hrows chunk' (by simp)) hchunk.symm).1]
  -- the row that follows, whichever it is
  obtain ⟨next, more, hnext, hnextRow, hnextType⟩ : ∃ next more,
      (back' ++ row :: after').flatten = next ++ more ∧ IsRow next ∧
        u16At next 6 = nextType back := by
    cases back with
    | nil =>
      rw [List.map_eq_nil_iff.mp hback]
      exact ⟨row, after'.flatten, rfl, hrows row (by simp), hrowType⟩
    | cons follower back =>
      obtain ⟨follower', rest', rfl, hfollower, _⟩ := List.map_eq_cons_iff.mp hback
      refine ⟨follower', (rest' ++ row :: after').flatten, rfl, hrows follower' (by simp), ?_⟩
      exact congrArg AttributeCertificate.certificateType hfollower
  have hlong := hnextRow.length_ge
  have htake : (table.take x).length = x := List.length_take_of_le hx
  have hshape : table.take x ++ (wrapPkcs7DerAuthenticodeWinCertificate new ++ table.drop (x + len)) =
      (front'.flatten ++ chunk') ++ (next ++ more) := by
    rw [hflatten, ← hnext, List.append_assoc, List.flatten_append, List.append_assoc]
    simp only [List.flatten_cons, List.flatten_append, List.cons_append]
  have hbound : (front'.flatten ++ chunk').length = x + d := by
    rw [List.length_append, hlen, hlenChunk, hd]
  have hsize := u32At_append_right (front'.flatten ++ chunk') (next ++ more) 0
  have hsize' := u32At_append_right (table.take x)
    (wrapPkcs7DerAuthenticodeWinCertificate new ++ table.drop (x + len)) d
  have htype := u16At_append_right (front'.flatten ++ chunk') (next ++ more) 6
  have htype' := u16At_append_right (table.take x)
    (wrapPkcs7DerAuthenticodeWinCertificate new ++ table.drop (x + len)) (d + 6)
  rw [hbound, ← hshape, u32At_append_left more (show 0 + 4 ≤ next.length by omega),
    Nat.add_zero] at hsize
  rw [hbound, ← hshape, u16At_append_left more (show 6 + 2 ≤ next.length by omega)] at htype
  rw [htake] at hsize' htype'
  refine ⟨?_, ?_⟩
  · rw [← hsize', hsize]
    exact hnextRow.size_ge
  · rw [← htype', ← Nat.add_assoc, htype, hnextType]

theorem u32At_mod (image : List UInt8) (offset : Nat) :
    u32At image offset % 256 = byteAt image offset := by
  have hlow := byteAt_lt image offset
  rw [u32At, u16At]
  omega

/-- The new row does not start behind the row that it replaces. -/
theorem le_of_rebuiltRows {new' : List UInt8} (h : RebuiltRows table x len before after new)
    (h' : RebuiltRows table x len before after new') (hchunks : ∀ chunk ∈ before, IsRow chunk)
    (hx : x ≤ table.length) (hne : (wrapPkcs7DerAuthenticodeWinCertificate new).length % 256 ≠
      (wrapPkcs7DerAuthenticodeWinCertificate new').length % 256) : x ≤ before.flatten.length := by
  by_contra hlt
  have hsize := h.size_at hchunks
  have hsize' := h'.size_at hchunks
  -- the length octet of the row is one of the bytes in front of what is replaced
  have hbyte : ∀ rest : List UInt8, byteAt (table.take x ++ rest) before.flatten.length =
      byteAt (table.take x) before.flatten.length := by
    intro rest
    refine (byteAt_congr ((sameOn_append (table.take x) rest 0).mono (Nat.zero_le _) ?_)).symm
    rw [List.length_take_of_le hx]
    omega
  have hmod := u32At_mod (table.take x ++ (wrapPkcs7DerAuthenticodeWinCertificate new ++
    table.drop (x + len))) before.flatten.length
  have hmod' := u32At_mod (table.take x ++ (wrapPkcs7DerAuthenticodeWinCertificate new' ++
    table.drop (x + len))) before.flatten.length
  rw [hsize, hbyte] at hmod
  rw [hsize', hbyte] at hmod'
  exact hne (hmod.trans hmod'.symm)

/-- PKCS#7s with rows of 16, 16, 24 and 16 bytes, of which the second differs from the first
in its content and the last in its length octets. -/
def probes : List (List UInt8) :=
  [[0x30, 0x06, 0, 0, 0, 0, 0, 0], [0x30, 0x06, 1, 1, 1, 1, 1, 1],
    0x30 :: 0x0e :: List.replicate 14 0, [0x30, 0x81, 0x05, 0, 0, 0, 0, 0]]

theorem isSequence_of_mem_probes {p : List UInt8} (h : p ∈ probes) : IsSequence p := by
  simp only [probes, List.mem_cons, List.not_mem_nil, or_false] at h
  rcases h with rfl | rfl | rfl | rfl
  · exact ⟨[0x06], List.replicate 6 0, rfl, rfl⟩
  · exact ⟨[0x06], List.replicate 6 1, rfl, rfl⟩
  · exact ⟨[0x0e], List.replicate 14 0, rfl, rfl⟩
  · exact ⟨[0x81, 0x05], List.replicate 5 0, rfl, rfl⟩

theorem length_wrap_of_mem_probes {p : List UInt8} (h : p ∈ probes) :
    (wrapPkcs7DerAuthenticodeWinCertificate p).length ≤ 24 := by
  simp only [probes, List.mem_cons, List.not_mem_nil, or_false] at h
  rcases h with rfl | rfl | rfl | rfl <;> decide

/-- The new row does not start in front of the row that it replaces. -/
theorem ge_of_rebuiltRows (h : ∀ p ∈ probes, RebuiltRows table x len before after p)
    (hchunks : ∀ chunk ∈ before, IsRow chunk) (hx : x ≤ table.length) :
    before.flatten.length ≤ x := by
  by_contra hlt
  obtain ⟨front, chunk, back, rfl, hle, hin⟩ := exists_chunk_at (Nat.lt_of_not_le hlt)
  by_cases hfront : x < front.flatten.length + u32At chunk 0
  · have hbyte := (h [0x30, 0x06, 0, 0, 0, 0, 0, 0] (by decide)).byte_in_front hchunks hx hle hfront
    have hbyte' := (h (0x30 :: 0x0e :: List.replicate 14 0) (by decide)).byte_in_front hchunks hx hle
      hfront
    exact absurd (hbyte.trans hbyte'.symm) (by decide)
  have hrow := hchunks chunk (by simp)
  have hround := roundUp8_spec (u32At chunk 0)
  have hrowLen := hrow.length_eq
  obtain ⟨d, hd⟩ := Nat.exists_eq_add_of_le (Nat.le_of_lt hin)
  -- `d` bytes of the new row are in the padding, and the next header starts behind them
  have hheader : ∀ p ∈ probes,
      8 ≤ u32At (wrapPkcs7DerAuthenticodeWinCertificate p ++ table.drop (x + len)) d ∧
        u16At (wrapPkcs7DerAuthenticodeWinCertificate p ++ table.drop (x + len)) (d + 6) =
          nextType back :=
    fun p hp => (h p hp).header_in_row hchunks hx hd.symm
  have hzeros := hheader [0x30, 0x06, 0, 0, 0, 0, 0, 0] (by decide)
  have hones := hheader [0x30, 0x06, 1, 1, 1, 1, 1, 1] (by decide)
  have hlong := hheader [0x30, 0x81, 0x05, 0, 0, 0, 0, 0] (by decide)
  have hlen16 : ∀ p : List UInt8, p.length = 8 →
      (wrapPkcs7DerAuthenticodeWinCertificate p).length = 16 := by
    intro p hp
    rw [length_wrap, hp]
    rfl
  rw [u32At_append_left _ (by rw [hlen16 _ rfl]; omega),
    u16At_append_left _ (by rw [hlen16 _ rfl]; omega)] at hzeros hones hlong
  have hcases : d = 1 ∨ d = 2 ∨ d = 3 ∨ d = 4 ∨ d = 5 ∨ d = 6 ∨ d = 7 := by omega
  rcases hcases with rfl | rfl | rfl | rfl | rfl | rfl | rfl
  · exact absurd hzeros.1 (by decide)
  · exact absurd (hzeros.2.trans hlong.2.symm) (by decide)
  · exact absurd (hzeros.2.trans hones.2.symm) (by decide)
  · exact absurd (hzeros.2.trans hones.2.symm) (by decide)
  · exact absurd (hzeros.2.trans hones.2.symm) (by decide)
  · exact absurd (hzeros.2.trans hones.2.symm) (by decide)
  · exact absurd (hzeros.2.trans hones.2.symm) (by decide)

end rebuiltRows

end converse

/-- When every replacement is found, the replacement passes the rows of the verifier. -/
theorem passesRows_of_replacesEach {image table : List UInt8} {va size : Nat} {slot : SecuritySlot}
    {rows : List AttributeCertificate} (htable : HasTable image va size table)
    (hslot : HasSlot image slot) (hfront : slot.dataDir + 8 ≤ va)
    (hwalk : attributeCertificates table = rows.map .ok) (hroom : size + 24 < 2 ^ 32)
    (hsome : ∃ attr ∈ rows, attr.certificateType = winCertTypePkcsSignedData)
    (h : ReplacesEach image va size slot rows) : va % 8 = 0 ∧ PassesRows table := by
  obtain ⟨chunks, hchunks, hsplit, rfl⟩ := attributeCertificates_eq_map_ok.mp hwalk
  have hcount : ((chunks.map rowOf).countP
      fun attr => attr.certificateType = winCertTypePkcsSignedData) = pkcs7Count chunks := by
    rw [List.countP_map]
    rfl
  have hpos : 0 < pkcs7Count chunks := by
    obtain ⟨attr, hattr, htype⟩ := hsome
    rw [← hcount, List.countP_pos_iff]
    exact ⟨attr, hattr, decide_eq_true htype⟩
  have hprobe : ∀ p ∈ probes, size + (wrapPkcs7DerAuthenticodeWinCertificate p).length < 2 ^ 32 := by
    intro p hp
    have := length_wrap_of_mem_probes hp
    omega
  have hfirst : [0x30, 0x06, 0, 0, 0, 0, 0, 0] ∈ probes := by decide
  have hfound : ∀ k < pkcs7Count chunks, ∃ segments : List (List UInt8),
      (∀ row ∈ segments, IsSegment row) ∧ table = segments.flatten ∧
      ∃ row offset, Pkcs7RowAt segments k row offset := by
    intro k hk
    obtain ⟨out, _, hout, _⟩ := h k (hcount ▸ hk) _ (isSequence_of_mem_probes hfirst) (hprobe _ hfirst)
    exact exists_segments_of_replace htable hout
  obtain ⟨segments, hsegments, hsegmentsSplit, first, start, hatFirst⟩ := hfound 0 hpos
  refine ⟨?_, segments, chunks, hsegments, hchunks, hsegmentsSplit, hsplit, ?_⟩
  · obtain ⟨out, _, hout, _, _, hvalid, _⟩ :=
      h 0 (hcount ▸ hpos) _ (isSequence_of_mem_probes hfirst) (hprobe _ hfirst)
    obtain ⟨out', hout', htableOut, _⟩ :=
      exists_replace htable hslot hfront hsegments hsegmentsSplit hatFirst (hprobe _ hfirst)
    obtain rfl := Except.ok.inj (hout.symm.trans hout')
    simp only [peValidateAttributeCertificateTableAlignment, htableOut.1, Outcome.ok_bind] at hvalid
    exact (mod_of_valid hvalid (by omega)).1
  · rintro k row offset ⟨before, after, hcut, htype, hnumber, hoffset⟩
    obtain ⟨segments', hsegments', hsplit', segment, x, hat⟩ := hfound k (by
      rw [hcut, pkcs7Count_append, pkcs7Count_cons, if_pos htype]
      omega)
    obtain rfl := segments_unique hsegments' hsegments (hsplit'.symm.trans hsegmentsSplit)
    rw [hcut] at h hchunks hsplit
    have hrebuilt : ∀ p ∈ probes, RebuiltRows table x segment.length before after p :=
      fun p hp => rebuiltRows_of_replacesEach htable hslot hfront hsegments hsegmentsSplit hat htype
        hnumber h (isSequence_of_mem_probes hp) (hprobe p hp)
    obtain ⟨before', after', hsegmentsCut, htype', hnumber', hoffset'⟩ := hat
    have hlenTable : table.length = x + (segment.length + after'.flatten.length) := by
      rw [hsegmentsSplit, hsegmentsCut, List.flatten_append, List.flatten_cons, List.length_append,
        List.length_append, hoffset']
    have hlenTable' : table.length = before.flatten.length +
        (row.length + after.flatten.length) := by
      rw [hsplit, List.flatten_append, List.flatten_cons, List.length_append, List.length_append]
    have hbefore : ∀ chunk ∈ before, IsRow chunk := fun c hc => hchunks c (List.mem_append_left _ hc)
    have hboth : ∀ chunk ∈ before ++ after, IsRow chunk := by
      intro c hc
      rcases List.mem_append.mp hc with hmem | hmem
      · exact hbefore c hmem
      · exact hchunks c (List.mem_append_right _ (List.mem_cons_of_mem _ hmem))
    have hlen := (hrebuilt _ hfirst).length_eq hboth (by omega)
    have hle := le_of_rebuiltRows (hrebuilt _ hfirst)
      (hrebuilt (0x30 :: 0x0e :: List.replicate 14 0) (by decide)) hbefore (by omega) (by decide)
    have hge := ge_of_rebuiltRows hrebuilt hbefore (by omega)
    -- at one offset, and of one length, the row and the segment are the same bytes
    have hsame : before'.flatten ++ (segment ++ after'.flatten) =
        before.flatten ++ (row ++ after.flatten) := by
      rw [← List.flatten_cons, ← List.flatten_append, ← List.flatten_cons, ← List.flatten_append,
        ← hsegmentsCut, ← hsegmentsSplit, ← hsplit]
    obtain ⟨_, hbehind⟩ := List.append_inj hsame (by omega)
    obtain ⟨rfl, _⟩ := List.append_inj hbehind (by omega)
    exact ⟨before', after', hsegmentsCut, htype', hnumber', by omega⟩

/-- Every replacement of a PKCS#7 row is found by the verifier when the table is aligned and
the replacement passes the rows of the verifier; in a table with room for another row and
with a PKCS#7 row, only then. -/
theorem pe_replace_iff {image table : List UInt8} {va size : Nat} {slot : SecuritySlot}
    {rows : List AttributeCertificate} (htable : HasTable image va size table)
    (hslot : HasSlot image slot) (hfront : slot.dataDir + 8 ≤ va)
    (hwalk : attributeCertificates table = rows.map .ok) (hroom : size + 24 < 2 ^ 32) :
    ReplacesEach image va size slot rows ↔
      (∀ attr ∈ rows, attr.certificateType ≠ winCertTypePkcsSignedData) ∨
        va % 8 = 0 ∧ PassesRows table := by
  by_cases hsome : ∃ attr ∈ rows, attr.certificateType = winCertTypePkcsSignedData
  · constructor
    · exact fun h => Or.inr (passesRows_of_replacesEach htable hslot hfront hwalk hroom hsome h)
    · intro h
      rcases h with hnone | ⟨haligned, hpasses⟩
      · obtain ⟨attr, hattr, htype⟩ := hsome
        exact absurd htype (hnone attr hattr)
      · exact replacesEach_of_passesRows htable hslot hfront hwalk haligned hpasses
  · have hnone : ∀ attr ∈ rows, attr.certificateType ≠ winCertTypePkcsSignedData :=
      fun attr hattr htype => hsome ⟨attr, hattr, htype⟩
    refine iff_of_true ?_ (Or.inl hnone)
    intro k hk
    obtain ⟨attr, hattr, htype⟩ := List.countP_pos_iff.mp (Nat.lt_of_le_of_lt (Nat.zero_le k) hk)
    exact absurd (of_decide_eq_true htype) (hnone attr hattr)

set_option maxRecDepth 2000

theorem pe_replace_iff_signedTinyPe :
    ReplacesEach signedTinyPe 224 16 ⟨152, 216, by decide, by decide⟩
        [⟨0x0200, 2, [0x30, 0x00, 0, 0, 0, 0, 0, 0]⟩] ↔
      (∀ attr ∈ [(⟨0x0200, 2, [0x30, 0x00, 0, 0, 0, 0, 0, 0]⟩ : AttributeCertificate)],
        attr.certificateType ≠ winCertTypePkcsSignedData) ∨
        224 % 8 = 0 ∧ PassesRows (wrapPkcs7DerAuthenticodeWinCertificate [0x30, 0x00]) :=
  pe_replace_iff ⟨by decide, by decide⟩ hasSlot_signedTinyPe (by decide)
    (by decide) (by decide)

/-- An image with a row of 13 bytes, which the padding fills up to 16. -/
def unpaddedRowPe : List UInt8 :=
  tinyPe 224 16 ++ (u32le 13 ++ u16le 0x0200 ++ u16le 0x0002 ++ [0x30, 0x03, 0, 0, 0] ++ [0, 0, 0])

/-- The verifier finds the row, and the replacement takes the padding for the start of
another one. -/
theorem unpadded_row_not_replaced :
    peValidateAttributeCertificateTableAlignment unpaddedRowPe = .ok () ∧
    certificateItems unpaddedRowPe = [.ok ⟨0x0200, 2, [0x30, 0x03, 0, 0, 0]⟩] ∧
    IsSequence [0x30, 0x00] ∧
    peReplaceAuthenticodePkcs7CertificateAt unpaddedRowPe 0 [0x30, 0x00] =
      Outcome.bail "truncated WIN_CERTIFICATE header at table offset 13" ∧
    ¬ ReplacesEach unpaddedRowPe 224 16 ⟨152, 216, by decide, by decide⟩
      [⟨0x0200, 2, [0x30, 0x03, 0, 0, 0]⟩] := by
  have hseq : IsSequence [0x30, 0x00] := ⟨[0x00], [], rfl, rfl⟩
  have hfails : peReplaceAuthenticodePkcs7CertificateAt unpaddedRowPe 0 [0x30, 0x00] =
      Outcome.bail "truncated WIN_CERTIFICATE header at table offset 13" := by decide
  refine ⟨by decide, by decide, hseq, hfails, ?_⟩
  intro h
  obtain ⟨out, _, hout, _⟩ := h 0 (by decide) [0x30, 0x00] hseq (by decide)
  rw [hfails] at hout
  exact Outcome.bail_ne_ok hout

end Psign.Sip
