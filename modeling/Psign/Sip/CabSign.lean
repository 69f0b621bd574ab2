import Psign.Sip.CabDigest

/-!
# Signing cabinets

Preparing a cabinet inserts a reserve area, writes the position and the length of the
signature into it and moves every folder.  Of this only the length depends on the
signature (`prepare_sameOutside`), and the digest depends neither on the length nor on
what is behind the position (`cabDigestInput_of_sameOn`).  So the verifier computes the
digest that was signed, whatever names of a next cabinet and whatever folders there are.

The position is checked to fit 32 bits, the length of the signed file is not: a signed
cabinet is verified exactly if it does (`signed_cab_verifies_iff`).
-/

namespace Psign.Sip.Cab

open CodeLib CodeLib.Bytes

/-! ## One lemma for each read and write -/

section access

variable {buf out : List UInt8} {off value : Nat}

theorem readU16Le_eq_ok : readU16Le buf off = .ok value ↔
    off + 2 ≤ buf.length ∧ value = u16At buf off := by
  rw [readU16Le, Outcome.ofOption_eq_ok, Option.map_eq_some_iff]
  simp only [slice_eq_some]
  constructor
  · intro h
    obtain ⟨_, ⟨-, hlen, -⟩, hvalue⟩ := h
    exact ⟨hlen, hvalue.symm⟩
  · intro h
    exact ⟨_, ⟨by omega, h.1, rfl⟩, h.2.symm⟩

theorem readU32Le_eq_ok : readU32Le buf off = .ok value ↔
    off + 4 ≤ buf.length ∧ value = u32At buf off := by
  rw [readU32Le, Outcome.ofOption_eq_ok, Option.map_eq_some_iff]
  simp only [slice_eq_some]
  constructor
  · intro h
    obtain ⟨_, ⟨-, hlen, -⟩, hvalue⟩ := h
    exact ⟨hlen, hvalue.symm⟩
  · intro h
    exact ⟨_, ⟨by omega, h.1, rfl⟩, h.2.symm⟩

theorem writeU16Le_eq_ok : writeU16Le buf off value = .ok out ↔
    off + 2 ≤ buf.length ∧ out = patch buf off (u16le value) := by
  rw [writeU16Le]
  split
  · rename_i h
    simp only [h, true_and, Except.ok.injEq, eq_comm]
  · rename_i h
    simp only [h, false_and, Outcome.bail_eq_ok_iff]

theorem writeU32Le_eq_ok : writeU32Le buf off value = .ok out ↔
    off + 4 ≤ buf.length ∧ out = patch buf off (u32le value) := by
  rw [writeU32Le]
  split
  · rename_i h
    simp only [h, true_and, Except.ok.injEq, eq_comm]
  · rename_i h
    simp only [h, false_and, Outcome.bail_eq_ok_iff]

theorem checkedU32Add_eq_ok {a b : Nat} {what : String} : checkedU32Add a b what = .ok value ↔
    a + b < 2 ^ 32 ∧ value = a + b := by
  rw [checkedU32Add]
  split
  · rename_i h
    simp only [h, true_and, Except.ok.injEq, eq_comm]
  · rename_i h
    simp only [h, false_and, Outcome.bail_eq_ok_iff]

theorem index_eq_ok {start stop : Nat} : index buf start stop = .ok out ↔
    start ≤ stop ∧ stop ≤ buf.length ∧ out = (buf.take stop).drop start := by
  rw [index, Outcome.ofOption_eq_ok, slice_eq_some]

end access

/-! ## The folder table -/

/-- The loop keeps what is before the table, and the length. -/
theorem shiftFolders_frame {out out' : List UInt8} {entry count : Nat}
    (h : shiftFolders out entry count = .ok out') :
    out'.length = out.length ∧ SameOn out out' 0 entry := by
  induction count generalizing out entry with
  | zero =>
    obtain rfl := Except.ok.inj h
    exact ⟨rfl, fun _ _ _ => rfl⟩
  | succ count ih =>
    simp only [shiftFolders, Outcome.bind_eq_ok, writeU32Le_eq_ok] at h
    obtain ⟨start, -, shifted, -, next, ⟨hlen, rfl⟩, h⟩ := h
    obtain ⟨hlength, hsame⟩ := ih h
    have hpatch := sameOutside_patch (u32le shifted) hlen
    refine ⟨hlength.trans hpatch.length_eq, ?_⟩
    exact (hpatch.sameOn (Or.inl (Nat.le_refl _))).trans
      (hsame.mono (Nat.le_refl _) (Nat.le_add_right _ _))

/-- The loop does the same on images that agree on the table, and keeps what they
agree on. -/
theorem shiftFolders_congr {image image' out : List UInt8} {lo hi entry count : Nat}
    (hsame : SameOutside image image' lo hi) (hentry : hi ≤ entry)
    (h : shiftFolders image entry count = .ok out) :
    ∃ out', shiftFolders image' entry count = .ok out' ∧ SameOutside out out' lo hi := by
  induction count generalizing image image' entry with
  | zero =>
    obtain rfl := Except.ok.inj h
    exact ⟨image', rfl, hsame⟩
  | succ count ih =>
    simp only [shiftFolders, Outcome.bind_eq_ok, readU32Le_eq_ok, checkedU32Add_eq_ok,
      writeU32Le_eq_ok] at h
    obtain ⟨start, ⟨hlen, rfl⟩, shifted, ⟨hfit, rfl⟩, next, ⟨-, rfl⟩, h⟩ := h
    have hread : u32At image' entry = u32At image entry := hsame.u32At (Or.inr hentry)
    have hnext := hsame.patch (u32le (u32At image entry + 24)) hlen
    obtain ⟨out', hout', hagree⟩ := ih hnext (by omega) h
    refine ⟨out', ?_, hagree⟩
    simp only [shiftFolders, Outcome.bind_eq_ok, readU32Le_eq_ok, checkedU32Add_eq_ok,
      writeU32Le_eq_ok]
    have hlen' : entry + 4 ≤ image'.length := hsame.length_eq ▸ hlen
    exact ⟨_, ⟨hlen', rfl⟩, _, ⟨hread.symm ▸ hfit, rfl⟩, _, ⟨hlen', rfl⟩, hread.symm ▸ hout'⟩

/-! ## Room for a signature -/

/-- A cabinet with a reserve area for a signature of no known length yet, and the
folder table that is still to be moved. -/
structure Room where
  image : List UInt8
  table : Nat
  folders : Nat

/-- The steps of the preparation before the length of the signature is written. -/
def roomForSignature (data : List UInt8) : Outcome Room := do
  let ctx ← parseCabContext data
  Outcome.guardThat (ctx.flags &&& flagReservePresent = 0)
    "CAB already has a reserve header; replacing CAB signatures is not implemented"
  let sigpos ← checkedU32Add data.length 24 "signed CAB header"
  let originalCbCabinet ← readU32Le data 8
  Outcome.guardThat (originalCbCabinet = data.length) "unsupported CAB cbCabinet"
  let originalCoffFiles ← readU32Le data 16
  let folderCount ← readU16Le data 26
  let originalFolderTable ← cffolderTableOffset data ctx.flags
  Outcome.guardThat (originalFolderTable + folderCount * 8 ≤ originalCoffFiles)
    "CFFOLDER table extends past coffFiles"
  let out ← writeU32Le (data.take 36 ++ reserveArea ++ data.drop 36) 8 sigpos
  let coffFiles ← checkedU32Add originalCoffFiles 24 "coffFiles"
  let out ← writeU32Le out 16 coffFiles
  let out ← writeU16Le out 30 (ctx.flags ||| flagReservePresent)
  let out ← writeU32Le out 44 sigpos
  return ⟨out, originalFolderTable + 24, folderCount⟩

theorem parseCabContext_eq_ok {data : List UInt8} {ctx : CabCtx} :
    parseCabContext data = .ok ctx ↔
      44 ≤ data.length ∧ data.take 4 = mscf ∧ u32At data 4 = 0 ∧
      u16At data 30 &&& flagPrevCabinet = 0 ∧ data.length < 2 ^ 32 ∧
      (if u16At data 30 &&& flagReservePresent ≠ 0 then parseReserve data (u16At data 30)
        else .ok ⟨0, 0, 0, data.length, u16At data 30⟩) = .ok ctx := by
  simp only [parseCabContext, Outcome.bind_eq_ok, Outcome.guardThat_eq_ok, readU32Le_eq_ok,
    readU16Le_eq_ok]
  constructor
  · intro h
    obtain ⟨_, hlen, _, hmscf, _, ⟨-, rfl⟩, _, hreserved, _, ⟨-, rfl⟩, _, hprev, _, hsize, h⟩ := h
    exact ⟨hlen, hmscf, hreserved, hprev, hsize, h⟩
  · intro h
    obtain ⟨hlen, hmscf, hreserved, hprev, hsize, h⟩ := h
    exact ⟨(), hlen, (), hmscf, _, ⟨by omega, rfl⟩, (), hreserved, _, ⟨by omega, rfl⟩, (), hprev, (),
      hsize, h⟩

/-- A cabinet without a reserve area has no signature. -/
theorem parseCabContext_unsigned {data : List UInt8} {ctx : CabCtx}
    (h : parseCabContext data = .ok ctx) (hflags : ctx.flags &&& flagReservePresent = 0) :
    u16At data 30 &&& flagReservePresent = 0 ∧ ctx = ⟨0, 0, 0, data.length, u16At data 30⟩ := by
  obtain ⟨-, -, -, -, -, h⟩ := parseCabContext_eq_ok.mp h
  by_cases hreserve : u16At data 30 &&& flagReservePresent = 0
  · rw [if_neg (not_not.mpr hreserve)] at h
    exact ⟨hreserve, (Except.ok.inj h).symm⟩
  · rw [if_pos hreserve] at h
    simp only [parseReserve, Outcome.bind_eq_ok, Outcome.pure_eq_ok, Except.ok.injEq] at h
    obtain ⟨_, -, _, -, _, -, _, -, _, -, _, -, _, -, _, -, _, -, rfl⟩ := h
    exact absurd hflags hreserve

/-- The preparation makes room and writes the length of the signature into it. -/
theorem prepare_eq_ok {data out : List UInt8} {signatureLen : Nat} :
    prepareUnsignedCabForAuthenticodeSignature data signatureLen = .ok out ↔
      signatureLen < 2 ^ 32 ∧ ∃ room, roomForSignature data = .ok room ∧
        52 ≤ room.image.length ∧
        shiftFolders (patch room.image 48 (u32le signatureLen)) room.table room.folders = .ok out := by
  simp only [prepareUnsignedCabForAuthenticodeSignature, roomForSignature, Outcome.bind_eq_ok,
    Outcome.guardThat_eq_ok, Outcome.pure_eq_ok, Except.ok.injEq]
  constructor
  · intro h
    obtain ⟨ctx, hctx, _, hreserve, _, -, _, hfit, _, -, sigpos, hsigpos, cb, hcb, _, hcbEq, coff, hcoff,
      folders, hfolders, table, htable, _, hend, a, ha, coffNew, hcoffNew, b, hb, c, hc, d, hd, e, he,
      hshift⟩ := h
    obtain ⟨hlen, rfl⟩ := writeU32Le_eq_ok.mp he
    exact ⟨hfit, ⟨d, table + 24, folders⟩, ⟨ctx, hctx, (), hreserve, sigpos, hsigpos, cb, hcb, (), hcbEq,
      coff, hcoff, folders, hfolders, table, htable, (), hend, a, ha, coffNew, hcoffNew, b, hb, c, hc,
      d, hd, rfl⟩, hlen, hshift⟩
  · intro h
    obtain ⟨hfit, room, ⟨ctx, hctx, _, hreserve, sigpos, hsigpos, cb, hcb, _, hcbEq, coff, hcoff, folders,
      hfolders, table, htable, _, hend, a, ha, coffNew, hcoffNew, b, hb, c, hc, d, hd, rfl⟩, hlen,
      hshift⟩ := h
    have hunsigned := (parseCabContext_unsigned hctx hreserve).2
    have hsize := (parseCabContext_eq_ok.mp hctx).2.2.2.2.1
    refine ⟨ctx, hctx, (), hreserve, (), ?_, (), hfit, (), hsize, sigpos, hsigpos, cb, hcb, (), hcbEq, coff,
      hcoff, folders, hfolders, table, htable, (), hend, a, ha, coffNew, hcoffNew, b, hb, c, hc, d, hd,
      _, writeU32Le_eq_ok.mpr ⟨hlen, rfl⟩, hshift⟩
    rw [hunsigned]
    simp

/-- What the header of a cabinet with room says. -/
structure Room.Spec (data : List UInt8) (room : Room) : Prop where
  length_eq : room.image.length = data.length + 24
  table_ge : 60 ≤ room.table
  size : data.length + 24 < 2 ^ 32
  long : 44 ≤ data.length
  mscf_eq : room.image.take 4 = mscf
  reserved : u32At room.image 4 = 0
  prev : u16At room.image 30 &&& flagPrevCabinet = 0
  reserve : u16At room.image 30 &&& flagReservePresent ≠ 0
  flags_eq : u16At room.image 30 = u16At data 30 ||| flagReservePresent
  coffFiles_eq : u32At room.image 16 = u32At data 16 + 24
  folders_eq : room.folders = u16At data 26
  folderCount_eq : u16At room.image 26 = u16At data 26
  header : u32At room.image 36 = signedHeaderExtra
  abReserve : u32At room.image 40 = abReserveExpected
  sigpos : u32At room.image 44 = data.length + 24

theorem le_of_skipCabSzFrom {bytes : List UInt8} {idx stop : Nat}
    (h : skipCabSzFrom bytes idx = .ok stop) : idx ≤ stop := by
  induction bytes generalizing idx with
  | nil => exact absurd h Outcome.bail_ne_ok
  | cons b rest ih =>
    rw [skipCabSzFrom] at h
    split at h
    · exact Except.ok.inj h ▸ Nat.le_succ idx
    · exact Nat.le_of_succ_le (ih h)

theorem le_of_cffolderTableOffset {data : List UInt8} {flags table : Nat}
    (h : cffolderTableOffset data flags = .ok table) : 36 ≤ table := by
  simp only [cffolderTableOffset, Outcome.bind_eq_ok, Outcome.guardThat_eq_ok] at h
  obtain ⟨_, -, h⟩ := h
  split at h
  · simp only [Outcome.bind_eq_ok] at h
    obtain ⟨first, hfirst, hsecond⟩ := h
    exact Nat.le_trans (le_of_skipCabSzFrom hfirst) (le_of_skipCabSzFrom hsecond)
  · exact Nat.le_of_eq (Except.ok.inj h)

/-- The flags of a signed cabinet. -/
theorem signedFlags {flags : Nat} (hlt : flags < 2 ^ 16) (hprev : flags &&& flagPrevCabinet = 0) :
    flags ||| flagReservePresent < 2 ^ 16 ∧
      (flags ||| flagReservePresent) &&& flagPrevCabinet = 0 ∧
      (flags ||| flagReservePresent) &&& flagReservePresent ≠ 0 := by
  refine ⟨Nat.or_lt_two_pow hlt (by decide), ?_, ?_⟩
  · rw [Nat.and_or_distrib_right, hprev]
    rfl
  · rw [Nat.and_or_distrib_right, Nat.and_self]
    intro h
    exact absurd (Nat.or_eq_zero_iff.mp h).2 (by decide)

theorem roomForSignature_spec {data : List UInt8} {room : Room}
    (h : roomForSignature data = .ok room) : room.Spec data := by
  simp only [roomForSignature, Outcome.bind_eq_ok, Outcome.guardThat_eq_ok, Outcome.pure_eq_ok,
    Except.ok.injEq, writeU32Le_eq_ok, writeU16Le_eq_ok, readU32Le_eq_ok, readU16Le_eq_ok,
    checkedU32Add_eq_ok] at h
  obtain ⟨ctx, hctx, _, hreserve, _, ⟨hsize, rfl⟩, cb, -, _, -, coff, ⟨-, rfl⟩, folders, ⟨-, rfl⟩, table,
    htable, _, -, a, ⟨ha, haEq⟩, _, ⟨hcoff, rfl⟩, b, ⟨hb, hbEq⟩, c, ⟨hc, hcEq⟩, d, ⟨hd, hdEq⟩, rfl⟩ := h
  obtain ⟨-, hunsigned⟩ := parseCabContext_unsigned hctx hreserve
  obtain ⟨hlen, hmscf, hreserved, hprev, -, -⟩ := parseCabContext_eq_ok.mp hctx
  obtain ⟨hflags, hnoPrev, hnoReserve⟩ := signedFlags (u16At_lt data 30) hprev
  rw [hunsigned] at hcEq
  have htake : (data.take 36).length = 36 := List.length_take_of_le (by omega)
  have hbase : (data.take 36 ++ reserveArea ++ data.drop 36).length = data.length + 24 := by
    rw [List.length_append, List.length_append, htake, List.length_drop]
    show 36 + 24 + _ = _
    omega
  have hstart : SameOn data (data.take 36 ++ reserveArea ++ data.drop 36) 0 36 := by
    rw [List.append_assoc]
    intro i _ hi
    rw [List.getElem?_append_left (by omega), List.getElem?_take_of_lt hi]
  have hheader : u32At (data.take 36 ++ reserveArea ++ data.drop 36) 36 = signedHeaderExtra := by
    have hat := u32At_append_right (data.take 36) (reserveArea ++ data.drop 36) 0
    have harea : u32At reserveArea 0 = signedHeaderExtra := by decide
    have hleft := u32At_append_left (data.drop 36) (show 0 + 4 ≤ reserveArea.length by decide)
    rw [htake, hleft, harea] at hat
    rw [List.append_assoc]
    exact hat
  have habReserve : u32At (data.take 36 ++ reserveArea ++ data.drop 36) 40 = abReserveExpected := by
    have hat := u32At_append_right (data.take 36) (reserveArea ++ data.drop 36) 4
    have harea : u32At reserveArea 4 = abReserveExpected := by decide
    have hleft := u32At_append_left (data.drop 36) (show 4 + 4 ≤ reserveArea.length by decide)
    rw [htake, hleft, harea] at hat
    rw [List.append_assoc]
    exact hat
  generalize data.take 36 ++ reserveArea ++ data.drop 36 = base at *
  have fa : SameOutside base a 8 12 := haEq ▸ sameOutside_patch _ ha
  have fb : SameOutside a b 16 20 := hbEq ▸ sameOutside_patch _ hb
  have fc : SameOutside b c 30 32 := hcEq ▸ sameOutside_patch _ hc
  have fd : SameOutside c d 44 48 := hdEq ▸ sameOutside_patch _ hd
  have hfirst : SameOn data d 0 8 :=
    (((hstart.mono (Nat.le_refl _) (by decide)).trans (fa.sameOn (Or.inl (Nat.le_refl _)))).trans
      ((fb.sameOn (Or.inl (by decide))).trans (fc.sameOn (Or.inl (by decide))))).trans
      (fd.sameOn (Or.inl (by decide)))
  have hdFlags : u16At d 30 = u16At data 30 ||| flagReservePresent := by
    rw [fd.u16At (Or.inl (by decide)), hcEq]
    exact u16At_patch_self hc hflags
  exact
    { length_eq := by
        show d.length = _
        rw [fd.length_eq, fc.length_eq, fb.length_eq, fa.length_eq, hbase]
      table_ge := by
        show 60 ≤ table + 24
        have := le_of_cffolderTableOffset htable
        omega
      size := hsize
      long := hlen
      mscf_eq := by
        rw [← hmscf]
        exact (take_eq_of_sameOn (hfirst.mono (Nat.le_refl _) (by decide))).symm
      reserved := by
        rw [← hreserved]
        exact (u32At_congr (hfirst.mono (Nat.zero_le _) (by decide))).symm
      prev := hdFlags ▸ hnoPrev
      reserve := hdFlags ▸ hnoReserve
      flags_eq := hdFlags
      coffFiles_eq := by
        show u32At d 16 = _
        rw [fd.u32At (Or.inl (by decide)), fc.u32At (Or.inl (by decide)), hbEq]
        exact u32At_patch_self hb hcoff
      folders_eq := rfl
      folderCount_eq := by
        show u16At d 26 = _
        rw [fd.u16At (Or.inl (by decide)), fc.u16At (Or.inl (by decide)), fb.u16At (Or.inr (by decide)),
          fa.u16At (Or.inr (by decide))]
        exact (u16At_congr (hstart.mono (Nat.zero_le _) (by decide))).symm
      header := by
        show u32At d 36 = _
        rw [fd.u32At (Or.inl (by decide)), fc.u32At (Or.inr (by decide)), fb.u32At (Or.inr (by decide)),
          fa.u32At (Or.inr (by decide)), hheader]
      abReserve := by
        show u32At d 40 = _
        rw [fd.u32At (Or.inl (by decide)), fc.u32At (Or.inr (by decide)), fb.u32At (Or.inr (by decide)),
          fa.u32At (Or.inr (by decide)), habReserve]
      sigpos := by
        show u32At d 44 = _
        rw [hdEq]
        exact u32At_patch_self hd hsize }

/-! ## What the digest depends on -/

section congr

variable {data data' out : List UInt8} {sigpos : Nat}

theorem index_of_sameOn {start stop : Nat} (h : index data start stop = .ok out)
    (hsame : SameOn data data' start stop) (hlen : stop ≤ data'.length) :
    index data' start stop = .ok out := by
  obtain ⟨hle, hlen', rfl⟩ := index_eq_ok.mp h
  rw [index, ← slice_congr hsame hlen' hlen]
  exact h

theorem hashSzField_of_sameOn {idx count stop : Nat}
    (h : hashSzField data idx count = .ok (out, stop)) (hsame : SameOn data data' idx (idx + count)) :
    hashSzField data' idx count = .ok (out, stop) ∧ idx ≤ stop := by
  induction count generalizing idx out stop with
  | zero =>
    simp only [hashSzField, Except.ok.injEq, Prod.mk.injEq] at h ⊢
    exact ⟨h, Nat.le_of_eq h.2⟩
  | succ count ih =>
    simp only [hashSzField, Outcome.bind_eq_ok, Outcome.ofOption_eq_ok] at h ⊢
    obtain ⟨b, hb, h⟩ := h
    rw [hsame idx (Nat.le_refl _) (by omega)] at hb
    by_cases hzero : b = 0
    · rw [if_pos hzero] at h
      refine ⟨⟨b, hb, by rw [if_pos hzero, h]⟩, ?_⟩
      have hstop := congrArg Prod.snd (Except.ok.inj h)
      show idx ≤ (out, stop).2
      rw [← hstop]
      exact Nat.le_succ idx
    · rw [if_neg hzero, Outcome.bind_eq_ok] at h
      obtain ⟨⟨rest, last⟩, hrest, h⟩ := h
      obtain ⟨hrest', hle⟩ := ih hrest (hsame.mono (Nat.le_succ _) (by omega))
      simp only [Outcome.pure_eq_ok, Except.ok.injEq, Prod.mk.injEq] at h
      obtain ⟨rfl, rfl⟩ := h
      refine ⟨⟨b, hb, ?_⟩, by omega⟩
      rw [if_neg hzero, hrest']
      rfl

theorem hashNextCabinet_of_sameOn {flags stop : Nat}
    (h : hashNextCabinet data sigpos flags = .ok (out, stop)) (hsigpos : 60 ≤ sigpos)
    (hsame : SameOn data data' 60 sigpos) :
    hashNextCabinet data' sigpos flags = .ok (out, stop) ∧ 60 ≤ stop := by
  simp only [hashNextCabinet] at h ⊢
  by_cases hflag : flags &&& flagNextCabinet ≠ 0
  · simp only [if_pos hflag, Outcome.bind_eq_ok, Prod.exists, Outcome.pure_eq_ok, Except.ok.injEq,
      Prod.mk.injEq] at h ⊢
    obtain ⟨cabinet, middle, hfirst, disk, last, hsecond, rfl, rfl⟩ := h
    obtain ⟨hfirst', hle⟩ := hashSzField_of_sameOn hfirst
      (hsame.mono (Nat.le_refl _) (by omega))
    obtain ⟨hsecond', hle'⟩ := hashSzField_of_sameOn hsecond
      fun i hl hh => hsame i (by omega) (by omega)
    exact ⟨⟨cabinet, middle, hfirst', disk, last, hsecond', rfl, rfl⟩, by omega⟩
  · rw [if_neg hflag] at h ⊢
    simp only [Outcome.pure_eq_ok, Except.ok.injEq, Prod.mk.injEq] at h ⊢
    exact ⟨h, Nat.le_of_eq h.2⟩

theorem hashFolders_of_sameOn {idx remaining stop : Nat}
    (h : hashFolders data sigpos idx remaining = .ok (out, stop))
    (hsame : SameOn data data' idx sigpos) (hlen : sigpos ≤ data'.length) :
    hashFolders data' sigpos idx remaining = .ok (out, stop) ∧ idx ≤ stop := by
  induction remaining generalizing idx out with
  | zero =>
    simp only [hashFolders, Except.ok.injEq, Prod.mk.injEq] at h ⊢
    exact ⟨h, Nat.le_of_eq h.2⟩
  | succ remaining ih =>
    simp only [hashFolders, Outcome.bind_eq_ok, Outcome.guardThat_eq_ok, Prod.exists,
      Outcome.pure_eq_ok, Except.ok.injEq, Prod.mk.injEq] at h ⊢
    obtain ⟨_, hlt, _, hfit, entry, hentry, rest, last, hrest, rfl, rfl⟩ := h
    obtain ⟨hrest', hle⟩ := ih hrest (hsame.mono (Nat.le_add_right _ _) (Nat.le_refl _))
    have hentry' := index_of_sameOn hentry (hsame.mono (Nat.le_refl _) hfit) (by omega)
    exact ⟨⟨(), hlt, (), hfit, entry, hentry', rest, last, hrest', rfl, rfl⟩, by omega⟩

theorem headerInput_of_sameOn (h : headerInput data = .ok out) (hlow : SameOn data data' 0 48)
    (hhigh : SameOn data data' 52 60) (hlen : 60 ≤ data'.length) : headerInput data' = .ok out := by
  simp only [headerInput, Outcome.bind_eq_ok] at h ⊢
  obtain ⟨a, ha, b, hb, c, hc, d, hd, e, he, f, hf, g, hg, i, hi, h⟩ := h
  have hat : ∀ {start stop bytes}, index data start stop = .ok bytes → stop ≤ 48 →
      index data' start stop = .ok bytes := by
    intro start stop bytes hindex hstop
    exact index_of_sameOn hindex (hlow.mono (Nat.zero_le _) hstop) (by omega)
  exact ⟨a, hat ha (by decide), b, hat hb (by decide), c, hat hc (by decide), d, hat hd (by decide),
    e, hat he (by decide), f, hat hf (by decide), g, hat hg (by decide), i,
    index_of_sameOn hi (hhigh.mono (by decide) (Nat.le_refl _)) hlen, h⟩

/-- The digest does not depend on the length of the signature or on what is behind
its position. -/
theorem cabDigestInput_of_sameOn {ctx ctx' : CabCtx} (h : cabDigestInput data ctx = .ok out)
    (hsigpos : 60 ≤ ctx.sigpos) (hctx : ctx'.sigpos = ctx.sigpos) (hend : ctx'.sigpos ≤ ctx'.fileend)
    (hlow : SameOn data data' 0 48) (hhigh : SameOn data data' 52 ctx.sigpos)
    (hlen : ctx.sigpos ≤ data'.length) : cabDigestInput data' ctx' = .ok out := by
  have hne : ctx.sigpos ≠ 0 := by omega
  simp only [cabDigestInput, hctx, if_pos hne, Outcome.bind_eq_ok, Outcome.guardThat_eq_ok,
    readU32Le_eq_ok, readU16Le_eq_ok, Prod.exists] at h ⊢
  obtain ⟨signature, hsignature, coff, ⟨-, rfl⟩, nfolders, ⟨-, rfl⟩, flags, ⟨-, rfl⟩, header, hheader,
    names, idx, hnames, folders, stop, hfolders, _, hcoff, _, -, rest, hrest, h⟩ := h
  obtain ⟨hnames', hidx⟩ := hashNextCabinet_of_sameOn hnames hsigpos
    (hhigh.mono (by decide) (Nat.le_refl _))
  obtain ⟨hfolders', hstop⟩ := hashFolders_of_sameOn hfolders
    (hhigh.mono (by omega) (Nat.le_refl _)) hlen
  have h16 : u32At data 16 = u32At data' 16 := u32At_congr (hlow.mono (Nat.zero_le _) (by decide))
  have h26 : u16At data 26 = u16At data' 26 := u16At_congr (hlow.mono (Nat.zero_le _) (by decide))
  have h30 : u16At data 30 = u16At data' 30 := u16At_congr (hlow.mono (Nat.zero_le _) (by decide))
  rw [h16] at hcoff
  rw [h26] at hfolders'
  rw [h30] at hnames'
  exact ⟨signature, index_of_sameOn hsignature (hlow.mono (Nat.le_refl _) (by decide)) (by omega),
    _, ⟨by omega, rfl⟩, _, ⟨by omega, rfl⟩, _, ⟨by omega, rfl⟩, header,
    headerInput_of_sameOn hheader hlow (hhigh.mono (Nat.le_refl _) hsigpos) (by omega),
    names, idx, hnames', folders, stop, hfolders', (), hcoff, (), hctx ▸ hend, rest,
    index_of_sameOn hrest (hhigh.mono (by omega) (Nat.le_refl _)) hlen, h⟩

end congr

/-! ## A signed cabinet is verified -/

/-- What is prepared for two signatures differs in the length of the signature only. -/
theorem prepare_sameOutside {data out : List UInt8} {signatureLen : Nat} (other : Nat)
    (h : prepareUnsignedCabForAuthenticodeSignature data signatureLen = .ok out)
    (hother : other < 2 ^ 32) :
    ∃ out', prepareUnsignedCabForAuthenticodeSignature data other = .ok out' ∧
      SameOutside out out' 48 52 := by
  obtain ⟨-, room, hroom, hlen, hshift⟩ := prepare_eq_ok.mp h
  have hspec := roomForSignature_spec hroom
  have hfirst := sameOutside_patch (u32le signatureLen) hlen
  have hsecond := sameOutside_patch (u32le other) hlen
  obtain ⟨out', hout', hsame⟩ := shiftFolders_congr (hfirst.symm.trans hsecond)
    (Nat.le_trans (show 52 ≤ 60 by decide) hspec.table_ge) hshift
  exact ⟨out', prepare_eq_ok.mpr ⟨hother, room, hroom, hlen, hout'⟩, hsame⟩

/-- The header of what was prepared. -/
structure IsPrepared (data out : List UInt8) (signatureLen : Nat) : Prop where
  length_eq : out.length = data.length + 24
  size : data.length + 24 < 2 ^ 32
  long : 44 ≤ data.length
  mscf_eq : out.take 4 = mscf
  reserved : u32At out 4 = 0
  prev : u16At out 30 &&& flagPrevCabinet = 0
  reserve : u16At out 30 &&& flagReservePresent ≠ 0
  header : u32At out 36 = signedHeaderExtra
  abReserve : u32At out 40 = abReserveExpected
  sigpos : u32At out 44 = data.length + 24
  siglen : u32At out 48 = signatureLen

theorem isPrepared_of_prepare {data out : List UInt8} {signatureLen : Nat}
    (h : prepareUnsignedCabForAuthenticodeSignature data signatureLen = .ok out) :
    IsPrepared data out signatureLen := by
  obtain ⟨hfit, room, hroom, hlen, hshift⟩ := prepare_eq_ok.mp h
  have hspec := roomForSignature_spec hroom
  obtain ⟨hlength, hsame⟩ := shiftFolders_frame hshift
  have hpatch := sameOutside_patch (u32le signatureLen) hlen
  have hbefore : SameOn room.image out 0 48 :=
    (hpatch.sameOn (Or.inl (Nat.le_refl _))).trans
      (hsame.mono (Nat.le_refl _) (Nat.le_trans (by decide) hspec.table_ge))
  have h32 : ∀ offset, offset + 4 ≤ 48 → u32At out offset = u32At room.image offset :=
    fun offset hoffset => (u32At_congr (hbefore.mono (Nat.zero_le _) hoffset)).symm
  have h30 : u16At out 30 = u16At room.image 30 :=
    (u16At_congr (hbefore.mono (Nat.zero_le _) (by decide))).symm
  exact
    { length_eq := by rw [hlength, hpatch.length_eq, hspec.length_eq]
      size := hspec.size
      long := hspec.long
      mscf_eq := by
        rw [← hspec.mscf_eq]
        exact (take_eq_of_sameOn (hbefore.mono (Nat.le_refl _) (by decide))).symm
      reserved := (h32 4 (by decide)).trans hspec.reserved
      prev := h30 ▸ hspec.prev
      reserve := h30 ▸ hspec.reserve
      header := (h32 36 (by decide)).trans hspec.header
      abReserve := (h32 40 (by decide)).trans hspec.abReserve
      sigpos := (h32 44 (by decide)).trans hspec.sigpos
      siglen := by
        have hat := u32At_congr (hsame.mono (Nat.zero_le 48) (Nat.le_trans (by decide) hspec.table_ge))
        rw [← hat]
        exact u32At_patch_self hlen hfit }

section signed

variable {data out pkcs7 : List UInt8}

/-- A signed cabinet that fits 32 bits is parsed. -/
theorem parseCabContext_signed (h : IsPrepared data out pkcs7.length) (hne : pkcs7 ≠ [])
    (hfit : data.length + 24 + pkcs7.length < 2 ^ 32) :
    parseCabContext (out ++ pkcs7) = .ok ⟨signedHeaderExtra, data.length + 24, pkcs7.length,
      data.length + 24 + pkcs7.length, u16At out 30⟩ := by
  have hlong := h.long
  have hlength : (out ++ pkcs7).length = data.length + 24 + pkcs7.length := by
    rw [List.length_append, h.length_eq]
  have h32 : ∀ offset, offset + 4 ≤ 60 → u32At (out ++ pkcs7) offset = u32At out offset :=
    fun offset hoffset => u32At_append_left pkcs7 (by rw [h.length_eq]; omega)
  have h30 : u16At (out ++ pkcs7) 30 = u16At out 30 :=
    (u16At_congr ((sameOn_append out pkcs7 30).mono (Nat.le_refl _)
      (by rw [h.length_eq]; omega))).symm
  have hpos := List.length_pos_of_ne_nil hne
  rw [parseCabContext_eq_ok, h30, h32 4 (by decide), hlength, if_pos h.reserve]
  refine ⟨by omega, ?_, h.reserved, h.prev, hfit, ?_⟩
  · rw [List.take_append_of_le_length (by rw [h.length_eq]; omega), h.mscf_eq]
  · simp only [parseReserve, Outcome.bind_eq_ok, readU32Le_eq_ok, Outcome.guardThat_eq_ok,
      Outcome.pure_eq_ok, h32 36 (by decide), h32 40 (by decide), h32 44 (by decide),
      h32 48 (by decide), h.header, h.abReserve, h.sigpos, h.siglen, hlength]
    refine ⟨_, ⟨by omega, rfl⟩, (), rfl, _, ⟨by omega, rfl⟩, (), rfl, _, ⟨by omega, rfl⟩, _,
      ⟨by omega, rfl⟩, (), by omega, (), ?_, (), by omega, rfl⟩
    rw [Nat.min_eq_left (by omega)]
    exact fun hc => hc.2 rfl

/-- A cabinet that is signed is verified: it is parsed, the PKCS#7 is found, and the
verifier computes the digest. -/
def SignedCabVerifies (hashes : Hashes) (signed pkcs7 : List UInt8) (kind : PeAuthenticodeHashKind)
    (digest : List UInt8) : Prop :=
  (∃ ctx, parseCabContext signed = .ok ctx) ∧ cabSignaturePkcs7Der signed = .ok pkcs7 ∧
    cabVerifierDigest hashes signed kind = .ok digest

/-- A signed cabinet is verified exactly if its length fits 32 bits. -/
theorem signed_cab_verifies_iff {hashes : Hashes} {kind : PeAuthenticodeHashKind}
    {digest signed : List UInt8}
    (hdigest : cabAuthenticodeDigestForSigning hashes data kind = .ok digest)
    (hsigned : cabAppendAuthenticodePkcs7Signature data pkcs7 = .ok signed) (hne : pkcs7 ≠ []) :
    SignedCabVerifies hashes signed pkcs7 kind digest ↔
      data.length + 24 + pkcs7.length < 2 ^ 32 := by
  simp only [cabAppendAuthenticodePkcs7Signature, Outcome.bind_eq_ok, Outcome.pure_eq_ok,
    Except.ok.injEq] at hsigned
  obtain ⟨out, hout, rfl⟩ := hsigned
  have hprepared := isPrepared_of_prepare hout
  constructor
  · intro h
    obtain ⟨⟨ctx, hctx⟩, -, -⟩ := h
    have hsize := (parseCabContext_eq_ok.mp hctx).2.2.2.2.1
    rwa [List.length_append, hprepared.length_eq] at hsize
  · intro hfit
    have hpos := List.length_pos_of_ne_nil hne
    have hlong := hprepared.long
    have hparse := parseCabContext_signed hprepared hne hfit
    have hguard : ¬ (signedHeaderExtra ≠ signedHeaderExtra ∨ data.length + 24 = 0 ∨
        pkcs7.length = 0) := by omega
    refine ⟨⟨_, hparse⟩, ?_, ?_⟩
    · simp only [cabSignaturePkcs7Der, hparse, Outcome.ok_bind, Outcome.guardThat_of hguard,
        Outcome.ofOption_eq_ok, slice_eq_some]
      refine ⟨by omega, Nat.le_of_eq (by rw [List.length_append, hprepared.length_eq]), ?_⟩
      rw [← hprepared.length_eq, ← List.length_append, List.take_length, List.drop_left]
    · simp only [cabAuthenticodeDigestForSigning, computeCabAuthenticodeDigest, Outcome.bind_eq_ok,
        Outcome.pure_eq_ok, Except.ok.injEq] at hdigest
      obtain ⟨unsigned, hunsigned, _, -, flags, -, input, hinput, rfl⟩ := hdigest
      have hlength := (isPrepared_of_prepare hunsigned).length_eq
      obtain ⟨out', hout', hsame⟩ := prepare_sameOutside pkcs7.length hunsigned
        (prepare_eq_ok.mp hout).1
      obtain rfl := Except.ok.inj (hout'.symm.trans hout)
      have happend := sameOn_append out' pkcs7 0
      have hinput' : cabDigestInput (out' ++ pkcs7) ⟨signedHeaderExtra, data.length + 24,
          pkcs7.length, data.length + 24 + pkcs7.length, u16At out' 30⟩ = .ok input := by
        refine cabDigestInput_of_sameOn hinput ?_ hlength.symm (Nat.le_add_right _ _) ?_ ?_ ?_
        · show 60 ≤ unsigned.length
          omega
        · exact (hsame.sameOn (Or.inl (Nat.le_refl _))).trans
            (happend.mono (Nat.le_refl _) (by rw [hprepared.length_eq]; omega))
        · exact (hsame.sameOn (Or.inr (Nat.le_refl _))).trans
            (happend.mono (Nat.zero_le _) (by rw [hprepared.length_eq]; exact Nat.le_of_eq hlength))
        · rw [List.length_append, hprepared.length_eq]
          show unsigned.length ≤ _
          omega
      simp only [cabVerifierDigest, hparse, Outcome.ok_bind, Outcome.guardThat_of hguard,
        computeCabAuthenticodeDigest, hinput']
      rfl

end signed

/-! ## Cabinets without folders -/

/-- The header of a cabinet of that length, without folders. -/
def emptyHeader (length : Nat) : List UInt8 :=
  mscf ++ u32le 0 ++ u32le length ++ u32le 0 ++ u32le 36 ++ List.replicate 24 0

/-- An unsigned cabinet whose length and folder table agree with its header can be
given room. -/
theorem exists_roomForSignature {data : List UInt8} (table : Nat)
    (hparse : parseCabContext data = .ok ⟨0, 0, 0, data.length, u16At data 30⟩)
    (hreserve : u16At data 30 &&& flagReservePresent = 0) (hsize : data.length + 24 < 2 ^ 32)
    (hcb : u32At data 8 = data.length) (htable : cffolderTableOffset data (u16At data 30) = .ok table)
    (hend : table + u16At data 26 * 8 ≤ u32At data 16) (hcoff : u32At data 16 + 24 < 2 ^ 32) :
    ∃ room, roomForSignature data = .ok room := by
  have hlong := (parseCabContext_eq_ok.mp hparse).1
  have hbase : (data.take 36 ++ reserveArea ++ data.drop 36).length = data.length + 24 := by
    rw [List.length_append, List.length_append, List.length_take_of_le (by omega), List.length_drop]
    show 36 + 24 + _ = _
    omega
  have hwrite : ∀ {buf : List UInt8} (off value : Nat), buf.length = data.length + 24 → off ≤ 64 →
      ∃ out, writeU32Le buf off value = .ok out ∧ out.length = data.length + 24 := by
    intro buf off value hlen hoff
    have hfit : off + (u32le value).length ≤ buf.length := by
      show off + 4 ≤ buf.length
      omega
    exact ⟨_, writeU32Le_eq_ok.mpr ⟨hfit, rfl⟩, (length_patch hfit).trans hlen⟩
  obtain ⟨a, ha, hlena⟩ := hwrite 8 (data.length + 24) hbase (by decide)
  obtain ⟨b, hb, hlenb⟩ := hwrite 16 (u32At data 16 + 24) hlena (by decide)
  have hfit : 30 + (u16le (u16At data 30 ||| flagReservePresent)).length ≤ b.length := by
    show 30 + 2 ≤ b.length
    omega
  have hlenc := (length_patch hfit).trans hlenb
  obtain ⟨d, hd, -⟩ := hwrite 44 (data.length + 24) hlenc (by decide)
  refine ⟨⟨d, table + 24, u16At data 26⟩, ?_⟩
  simp only [roomForSignature, hparse, Outcome.ok_bind, Outcome.bind_eq_ok, Outcome.guardThat_eq_ok,
    readU32Le_eq_ok, readU16Le_eq_ok, checkedU32Add_eq_ok]
  exact ⟨(), hreserve, _, ⟨hsize, rfl⟩, _, ⟨by omega, rfl⟩, (), hcb, _, ⟨by omega, rfl⟩, _,
    ⟨by omega, rfl⟩, table, htable, (), hend, a, ha, _, ⟨hcoff, rfl⟩, b, hb, _,
    writeU16Le_eq_ok.mpr ⟨hfit, rfl⟩, d, hd, rfl⟩

theorem exists_roomForSignature_empty {rest : List UInt8} (hsize : 44 + rest.length + 24 < 2 ^ 32) :
    ∃ room, roomForSignature (emptyHeader (44 + rest.length) ++ rest) = .ok room := by
  have hlength : (emptyHeader (44 + rest.length) ++ rest).length = 44 + rest.length :=
    List.length_append
  have h8 : u32At (emptyHeader (44 + rest.length) ++ rest) 8 = 44 + rest.length := by
    have hat := u32At_append_right (mscf ++ u32le 0) (u32le (44 + rest.length) ++
      (u32le 0 ++ u32le 36 ++ List.replicate 24 0 ++ rest)) 0
    exact hat.trans (u32At_u32le (by omega) _)
  have h30 : u16At (emptyHeader (44 + rest.length) ++ rest) 30 = 0 := rfl
  have h26 : u16At (emptyHeader (44 + rest.length) ++ rest) 26 = 0 := rfl
  have h16 : u32At (emptyHeader (44 + rest.length) ++ rest) 16 = 36 := rfl
  refine exists_roomForSignature 36 ?_ ?_ ?_ ?_ ?_ ?_ ?_
  · rw [parseCabContext_eq_ok, hlength, h30, if_neg (by decide)]
    exact ⟨by omega, rfl, rfl, rfl, by omega, rfl⟩
  · rw [h30]
    rfl
  · omega
  · omega
  · rw [h30]
    rfl
  · omega
  · omega

theorem exists_cabDigestInput {out : List UInt8} {ctx : CabCtx}
    (hflags : u16At out 30 &&& flagNextCabinet = 0) (hfolders : u16At out 26 = 0)
    (hcoff : u32At out 16 = 60) (hsigpos : 60 ≤ ctx.sigpos) (hend : ctx.sigpos ≤ ctx.fileend)
    (hlen : ctx.sigpos ≤ out.length) : ∃ input, cabDigestInput out ctx = .ok input := by
  have hne : ctx.sigpos ≠ 0 := by omega
  have hindex : ∀ {start stop}, start ≤ stop → stop ≤ ctx.sigpos →
      index out start stop = .ok ((out.take stop).drop start) :=
    fun hle hstop => index_eq_ok.mpr ⟨hle, by omega, rfl⟩
  have hheader : ∃ header, headerInput out = .ok header := by
    simp only [headerInput, hindex (show 8 ≤ 16 by decide) (by omega),
      hindex (show 16 ≤ 20 by decide) (by omega), hindex (show 20 ≤ 26 by decide) (by omega),
      hindex (show 26 ≤ 28 by decide) (by omega), hindex (show 28 ≤ 30 by decide) (by omega),
      hindex (show 30 ≤ 32 by decide) (by omega), hindex (show 32 ≤ 34 by decide) (by omega),
      hindex (show 56 ≤ 60 by decide) (by omega), Outcome.ok_bind, Outcome.pure_eq_ok,
      Except.ok.injEq, exists_eq']
  obtain ⟨header, hheader⟩ := hheader
  have hnames : hashNextCabinet out ctx.sigpos (u16At out 30) = .ok ([], 60) := by
    rw [hashNextCabinet, if_neg (not_not.mpr hflags)]
    rfl
  have hfoldersEq : hashFolders out ctx.sigpos 60 (u16At out 26) = .ok ([], 60) := by
    rw [hfolders, hashFolders]
  refine ⟨(out.take 4).drop 0 ++ header ++ [] ++ [] ++ (out.take ctx.sigpos).drop 60, ?_⟩
  simp only [cabDigestInput, if_pos hne, Outcome.bind_eq_ok, Outcome.guardThat_eq_ok,
    readU32Le_eq_ok, readU16Le_eq_ok, Prod.exists]
  exact ⟨_, hindex (Nat.zero_le _) (by omega), _, ⟨by omega, rfl⟩, _, ⟨by omega, rfl⟩, _,
    ⟨by omega, rfl⟩, header, hheader, _, _, hnames, _, _, hfoldersEq, (), hcoff.symm, (), hend, _,
    hindex hsigpos (Nat.le_refl _), rfl⟩

/-- A cabinet without folders can be signed, however long it is. -/
theorem exists_signed_empty (hashes : Hashes) (kind : PeAuthenticodeHashKind) (rest pkcs7 : List UInt8)
    (hsize : 44 + rest.length + 24 < 2 ^ 32) (hfit : pkcs7.length < 2 ^ 32) :
    ∃ digest signed,
      cabAuthenticodeDigestForSigning hashes (emptyHeader (44 + rest.length) ++ rest) kind =
        .ok digest ∧
      cabAppendAuthenticodePkcs7Signature (emptyHeader (44 + rest.length) ++ rest) pkcs7 =
        .ok signed := by
  have hlength : (emptyHeader (44 + rest.length) ++ rest).length = 44 + rest.length :=
    List.length_append
  obtain ⟨room, hroom⟩ := exists_roomForSignature_empty hsize
  have hspec := roomForSignature_spec hroom
  have hlen := hspec.length_eq
  have hprepare : ∀ n < 2 ^ 32, prepareUnsignedCabForAuthenticodeSignature
      (emptyHeader (44 + rest.length) ++ rest) n = .ok (patch room.image 48 (u32le n)) := by
    intro n hn
    have hfolders : room.folders = 0 := hspec.folders_eq
    refine prepare_eq_ok.mpr ⟨hn, room, hroom, by omega, ?_⟩
    rw [hfolders, shiftFolders]
  have hunsigned := hprepare 0 (by decide)
  have hpatch : SameOutside room.image (patch room.image 48 (u32le 0)) 48 52 :=
    sameOutside_patch _ (by show 48 + 4 ≤ _; omega)
  have hinput : ∃ input, cabDigestInput (patch room.image 48 (u32le 0)) ⟨signedHeaderExtra,
      (patch room.image 48 (u32le 0)).length, 0, (patch room.image 48 (u32le 0)).length,
      u16At (patch room.image 48 (u32le 0)) 30⟩ = .ok input := by
    refine exists_cabDigestInput ?_ ?_ ?_ ?_ (Nat.le_refl _) (Nat.le_refl _)
    · have h30 : u16At (emptyHeader (44 + rest.length) ++ rest) 30 = 0 := rfl
      rw [hpatch.u16At (Or.inl (by decide)), hspec.flags_eq, h30]
      rfl
    · rw [hpatch.u16At (Or.inl (by decide)), hspec.folderCount_eq]
      rfl
    · rw [hpatch.u32At (Or.inl (by decide)), hspec.coffFiles_eq]
      rfl
    · show 60 ≤ (patch room.image 48 (u32le 0)).length
      rw [hpatch.length_eq]
      omega
  obtain ⟨input, hinput⟩ := hinput
  refine ⟨hashes.hash kind input, patch room.image 48 (u32le pkcs7.length) ++ pkcs7, ?_, ?_⟩
  · simp only [cabAuthenticodeDigestForSigning, hunsigned, Outcome.ok_bind, Outcome.bind_eq_ok,
      Outcome.guardThat_eq_ok, readU16Le_eq_ok, computeCabAuthenticodeDigest]
    exact ⟨(), by rw [hpatch.length_eq]; omega, _, ⟨by rw [hpatch.length_eq]; omega, rfl⟩, input,
      hinput, rfl⟩
  · rw [cabAppendAuthenticodePkcs7Signature, hprepare _ hfit]
    rfl

/-- A cabinet with a folder, a file in it and the name of the next cabinet. -/
def sampleCab : List UInt8 :=
  mscf ++ u32le 0 ++ u32le 75 ++ u32le 0 ++ u32le 48 ++ u32le 0 ++ [3, 1] ++ u16le 1 ++ u16le 1 ++
    u16le flagNextCabinet ++ u16le 7 ++ u16le 0 ++ [0x62, 0, 0x64, 0] ++
    u32le 66 ++ u16le 1 ++ u16le 0 ++
    u32le 1 ++ u32le 0 ++ u16le 0 ++ u16le 0x5a21 ++ u16le 0 ++ u16le 0x20 ++ [0x61, 0] ++
    u32le 0 ++ u16le 1 ++ u16le 1 ++ [0x2a]

theorem signed_cab_verifies_iff_oneFile : ∃ digest signed,
    cabAuthenticodeDigestForSigning Hashes.truncating sampleCab .sha256 = .ok digest ∧
    cabAppendAuthenticodePkcs7Signature sampleCab [1, 2, 3] = .ok signed ∧
    (SignedCabVerifies Hashes.truncating signed [1, 2, 3] .sha256 digest ↔
      sampleCab.length + 24 + 3 < 2 ^ 32) := by
  have hdigest : (cabAuthenticodeDigestForSigning Hashes.truncating sampleCab
      .sha256).toOption.isSome := by decide +kernel
  have hsigned : (cabAppendAuthenticodePkcs7Signature sampleCab [1, 2, 3]).toOption.isSome := by
    decide +kernel
  obtain ⟨digest, hdigest⟩ := Outcome.exists_ok_of_isSome hdigest
  obtain ⟨signed, hsigned⟩ := Outcome.exists_ok_of_isSome hsigned
  exact ⟨digest, signed, hdigest, hsigned, signed_cab_verifies_iff hdigest hsigned (by decide)⟩

/-- A cabinet of 2^32 - 25 bytes is signed with one byte and is too large then. -/
theorem signed_cab_too_large : ∃ data digest signed,
    cabAuthenticodeDigestForSigning Hashes.truncating data .sha256 = .ok digest ∧
    cabAppendAuthenticodePkcs7Signature data [1] = .ok signed ∧
    ¬ SignedCabVerifies Hashes.truncating signed [1] .sha256 digest := by
  have hrest : (List.replicate (2 ^ 32 - 25 - 44) (0 : UInt8)).length = 2 ^ 32 - 25 - 44 :=
    List.length_replicate
  generalize List.replicate (2 ^ 32 - 25 - 44) (0 : UInt8) = rest at hrest
  obtain ⟨digest, signed, hdigest, hsigned⟩ := exists_signed_empty Hashes.truncating .sha256
    rest [1] (by omega) (by decide)
  refine ⟨_, digest, signed, hdigest, hsigned, ?_⟩
  intro h
  simp only [cabAppendAuthenticodePkcs7Signature, Outcome.bind_eq_ok, Outcome.pure_eq_ok,
    Except.ok.injEq] at hsigned
  obtain ⟨out, hout, rfl⟩ := hsigned
  obtain ⟨⟨ctx, hctx⟩, -, -⟩ := h
  have hsize := (parseCabContext_eq_ok.mp hctx).2.2.2.2.1
  rw [List.length_append, (isPrepared_of_prepare hout).length_eq, List.length_append, hrest] at hsize
  exact absurd hsize (by show ¬ (44 + (2 ^ 32 - 25 - 44) + 24 + 1 < 2 ^ 32); omega)

end Psign.Sip.Cab
