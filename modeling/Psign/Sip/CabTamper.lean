import Psign.Sip.CabSign

/-!
# Changed cabinets

What `verify_cab_digest_consistency` accepts, and where it stops.  The digest covers a
signed cabinet except the reserved word at 4, which must be zero, the two bytes at 34 and
the reserve area (`cabDigestInput_signed`).  With the PKCS#7 behind it that is the whole
file outside of 34..56 (`sameOutside_of_accepted`).

The layout check looks at the end of the signature but not at its start.  The digest takes
the bytes 56..60 and the bytes between the folder table and the signature without asking
whether they are there; `Sliceable` says when they are.
-/

namespace Psign.Sip.Cab

open CodeLib CodeLib.Bytes

/-! ## Where the program stops -/

/-- The program stops: a range or an index is not in the data. -/
def Panics {α : Type} (result : Outcome α) : Prop :=
  result = Outcome.bail "range out of bounds" ∨ result = Outcome.bail "index out of bounds"

section panics

variable {α β : Type}

@[simp] theorem not_panics_ok {a : α} : ¬ Panics (.ok a : Outcome α) := by
  intro h
  rcases h with h | h
  · exact Outcome.bail_ne_ok h.symm
  · exact Outcome.bail_ne_ok h.symm

@[simp] theorem not_panics_outOfFuel : ¬ Panics (.error .outOfFuel : Outcome α) := by
  simp [Panics, Outcome.bail]

theorem panics_bail {message : String} : Panics (Outcome.bail message : Outcome α) ↔
    message = "range out of bounds" ∨ message = "index out of bounds" := by
  simp [Panics, Outcome.bail]

/-- An error whose text starts with another letter is an error of the program. -/
theorem not_panics_bail {message : String} {c : Char} (hhead : message.toList.head? = some c)
    (hrange : c ≠ 'r') (hindex : c ≠ 'i') : ¬ Panics (Outcome.bail message : Outcome α) := by
  intro h
  rcases panics_bail.mp h with h | h
  · rw [h] at hhead
    exact hrange (Option.some.inj hhead).symm
  · rw [h] at hhead
    exact hindex (Option.some.inj hhead).symm

/-- A sequence stops in its first part or behind its result. -/
theorem panics_bind {first : Outcome α} {next : α → Outcome β} :
    Panics (first >>= next) ↔ Panics first ∨ ∃ a, first = .ok a ∧ Panics (next a) := by
  cases first with
  | error failure => simp [Panics, Outcome.bail]
  | ok a => simp

theorem panics_guardThat {condition : Prop} [Decidable condition] {message : String} :
    Panics (Outcome.guardThat condition message) ↔
      ¬ condition ∧ Panics (Outcome.bail message : Outcome Unit) := by
  by_cases h : condition
  · rw [Outcome.guardThat_of h]
    exact iff_of_false not_panics_ok (fun hc => hc.1 h)
  · rw [Outcome.guardThat_of_not h]
    exact (and_iff_right h).symm

theorem panics_index {data : List UInt8} {start stop : Nat} :
    Panics (index data start stop) ↔ ¬ (start ≤ stop ∧ stop ≤ data.length) := by
  rw [index, slice]
  by_cases h : start ≤ stop ∧ stop ≤ data.length
  · rw [if_pos h]
    exact iff_of_false not_panics_ok (not_not.mpr h)
  · rw [if_neg h]
    exact iff_of_true (Or.inl rfl) h

end panics

/-! ## The verifier -/

/-- `verify_cab_digest_consistency`; what the PKCS#7 reader finds as the digest of the
cabinet is a parameter. -/
def verifyCabDigestConsistency (hashes : Hashes) (embeddedDigest : List UInt8 → Outcome (List UInt8))
    (data : List UInt8) : Outcome Unit := do
  let ctx ← parseCabContext data
  Outcome.guardThat (¬ (ctx.headerSize ≠ signedHeaderExtra ∨ ctx.sigpos = 0 ∨ ctx.siglen = 0))
    "CAB has no embedded Authenticode signature (expected 20-byte reserve header + PKCS#7)"
  let pkcs7 ← cabSignaturePkcs7Der data
  let embedded ← (embeddedDigest pkcs7).mapErr fun e => "CAB PKCS#7 parse failed: " ++ e
  let kind ← PeAuthenticodeHashKind.fromDigestByteLen embedded.length
  let computed ← computeCabAuthenticodeDigest hashes data ctx kind
  Outcome.guardThat (computed = embedded)
    "CAB Authenticode digest mismatch (Rust SIP vs PKCS#7 indirect digest)"

/-! ## The walk through a cabinet -/

section walk

variable {data out : List UInt8} {ctx : CabCtx} {sigpos idx stop : Nat}

theorem slice_join {a b c : Nat} (hab : a ≤ b) (hbc : b ≤ c) :
    (data.take b).drop a ++ (data.take c).drop b = (data.take c).drop a := by
  have hcut := take_drop_add data a (b - a) (c - b)
  rw [show a + (b - a) = b by omega, show b - a + (c - b) = c - a by omega] at hcut
  rw [List.drop_take, List.drop_take, List.drop_take, hcut]

/-- A field that ends before the end of the data is read without a stop. -/
theorem exists_hashSzField {count : Nat} (hlen : idx + count ≤ data.length) :
    ∃ stop, hashSzField data idx count = .ok ((data.take stop).drop idx, stop) ∧
      idx ≤ stop ∧ stop ≤ idx + count := by
  induction count generalizing idx with
  | zero =>
    refine ⟨idx, ?_, Nat.le_refl _, Nat.le_refl _⟩
    rw [hashSzField, List.drop_eq_nil_of_le (List.length_take_le _ _)]
  | succ count ih =>
    have hlt : idx < data.length := by omega
    have hone : [data[idx]] = (data.take (idx + 1)).drop idx := by
      rw [List.drop_take, Nat.add_sub_cancel_left, List.drop_eq_getElem_cons hlt]
      rfl
    have hget : (Outcome.ofOption data[idx]? "index out of bounds" : Outcome UInt8) =
        .ok data[idx] := by
      rw [List.getElem?_eq_getElem hlt]
      rfl
    simp only [hashSzField, hget, Outcome.ok_bind]
    by_cases hzero : data[idx] = 0
    · refine ⟨idx + 1, ?_, by omega, by omega⟩
      rw [if_pos hzero, ← hone]
      rfl
    · obtain ⟨stop, hrest, hle, hstop⟩ := ih (show idx + 1 + count ≤ data.length by omega)
      refine ⟨stop, ?_, by omega, by omega⟩
      rw [if_neg hzero, hrest, Outcome.ok_bind, ← slice_join (Nat.le_succ idx) hle, ← hone]
      rfl

/-- The names of the next cabinet end before the signature, where it is behind the
header. -/
theorem exists_hashNextCabinet (flags : Nat) (hsigpos : sigpos ≤ data.length) :
    ∃ stop, hashNextCabinet data sigpos flags = .ok ((data.take stop).drop 60, stop) ∧
      60 ≤ stop ∧ stop ≤ max 60 sigpos ∧ (sigpos < 60 → stop = 60) := by
  have hnone : (data.take 60).drop 60 = [] := List.drop_eq_nil_of_le (List.length_take_le _ _)
  by_cases hnext : flags &&& flagNextCabinet ≠ 0
  · by_cases hshort : sigpos < 60
    · refine ⟨60, ?_, Nat.le_refl _, by omega, fun _ => rfl⟩
      rw [hashNextCabinet, if_pos hnext, show sigpos - 60 = 0 by omega, hnone]
      show (hashSzField data 60 (sigpos - 60) >>= _) = _
      rw [show sigpos - 60 = 0 by omega]
      rfl
    · obtain ⟨first, hfirst, hge, hle⟩ :=
        exists_hashSzField (show 60 + (sigpos - 60) ≤ data.length by omega)
      obtain ⟨second, hsecond, hge', hle'⟩ :=
        exists_hashSzField (show first + (sigpos - first) ≤ data.length by omega)
      refine ⟨second, ?_, by omega, by omega, fun h => absurd h hshort⟩
      rw [hashNextCabinet, if_pos hnext, hfirst, Outcome.ok_bind]
      show (hashSzField data first (sigpos - first) >>= _) = _
      rw [hsecond, ← slice_join hge hge']
      rfl
  · refine ⟨60, ?_, Nat.le_refl _, by omega, fun _ => rfl⟩
    rw [hashNextCabinet, if_neg hnext, hnone]
    rfl

/-- The folder table is read without a stop. -/
theorem not_panics_hashFolders {remaining : Nat} (hsigpos : sigpos ≤ data.length) :
    ¬ Panics (hashFolders data sigpos idx remaining) := by
  induction remaining generalizing idx with
  | zero => exact not_panics_ok
  | succ remaining ih =>
    simp only [hashFolders, panics_bind, panics_guardThat, panics_index, panics_bail,
      Outcome.guardThat_eq_ok, Outcome.pure_eq_ok, not_panics_ok]
    intro h
    rcases h with ⟨_, h⟩ | ⟨_, _, ⟨_, h⟩ | ⟨_, hend, h | ⟨_, _, h | ⟨_, _, h⟩⟩⟩⟩
    · exact absurd h (by decide)
    · exact absurd h (by decide)
    · exact h ⟨by omega, by omega⟩
    · exact ih h
    · exact h

theorem hashFolders_eq_ok {remaining : Nat}
    (h : hashFolders data sigpos idx remaining = .ok (out, stop)) :
    stop = idx + 8 * remaining ∧ (remaining ≠ 0 → stop ≤ sigpos) ∧
      out = (data.take stop).drop idx := by
  induction remaining generalizing idx out with
  | zero =>
    obtain ⟨rfl, rfl⟩ := Prod.mk.inj (Except.ok.inj h)
    refine ⟨rfl, fun hne => absurd rfl hne, ?_⟩
    rw [List.drop_eq_nil_of_le (List.length_take_le _ _)]
  | succ remaining ih =>
    simp only [hashFolders, Outcome.bind_eq_ok, Outcome.guardThat_eq_ok, index_eq_ok, Prod.exists,
      Outcome.pure_eq_ok, Except.ok.injEq, Prod.mk.injEq] at h
    obtain ⟨_, _, _, hend, entry, ⟨hle, _, rfl⟩, rest, stop', hrest, rfl, rfl⟩ := h
    obtain ⟨hstop, hbound, rfl⟩ := ih hrest
    refine ⟨by omega, fun _ => ?_, slice_join hle (by omega)⟩
    by_cases hzero : remaining = 0
    · omega
    · exact hbound hzero

/-- What is hashed of a signed cabinet: all before the signature but the word at 4, the
two bytes at 34 and the reserve area. -/
theorem cabDigestInput_signed (h : cabDigestInput data ctx = .ok out) (hne : ctx.sigpos ≠ 0) :
    60 ≤ ctx.sigpos ∧ ctx.sigpos ≤ data.length ∧
      out = data.take 4 ++ (data.take 34).drop 8 ++ (data.take ctx.sigpos).drop 56 := by
  simp only [cabDigestInput, if_pos hne, headerInput, Outcome.bind_eq_ok, Outcome.guardThat_eq_ok,
    index_eq_ok, Prod.exists, Outcome.pure_eq_ok, Except.ok.injEq] at h
  obtain ⟨signature, ⟨_, _, rfl⟩, coffFiles, _, nfolders, _, flags, _, header, hheader, names, idx,
    hnames, folders, idx', hfolders, _, _, _, _, rest, ⟨hle, hlen, rfl⟩, rfl⟩ := h
  obtain ⟨a, ⟨_, _, rfl⟩, b, ⟨_, _, rfl⟩, c, ⟨_, _, rfl⟩, d, ⟨_, _, rfl⟩, e, ⟨_, _, rfl⟩, f,
    ⟨_, _, rfl⟩, g, ⟨_, _, rfl⟩, i, ⟨_, hlong, rfl⟩, rfl⟩ := hheader
  obtain ⟨stop, hnames', hge, hstop, hshort⟩ := exists_hashNextCabinet flags hlen
  obtain ⟨rfl, rfl⟩ := Prod.mk.inj (Except.ok.inj (hnames'.symm.trans hnames))
  obtain ⟨hend, _, rfl⟩ := hashFolders_eq_ok hfolders
  have hfields : (data.take 16).drop 8 ++ (data.take 20).drop 16 ++ (data.take 26).drop 20 ++
      (data.take 28).drop 26 ++ (data.take 30).drop 28 ++ (data.take 32).drop 30 ++
      (data.take 34).drop 32 = (data.take 34).drop 8 := by
    rw [slice_join (by decide) (by decide), slice_join (by decide) (by decide),
      slice_join (by decide) (by decide), slice_join (by decide) (by decide),
      slice_join (by decide) (by decide), slice_join (by decide) (by decide)]
  have htail : (data.take 60).drop 56 ++ (data.take stop).drop 60 ++ (data.take idx').drop stop ++
      (data.take ctx.sigpos).drop idx' = (data.take ctx.sigpos).drop 56 := by
    rw [slice_join (show 56 ≤ 60 by decide) hge, slice_join (by omega) (by omega),
      slice_join (by omega) hle]
  refine ⟨by omega, hlen, ?_⟩
  rw [hfields, ← htail]
  simp only [List.append_assoc, List.drop_zero]

/-- The layout of a cabinet that is accepted: one with a reserve area has its signature at
the end. -/
theorem parseCabContext_layout (h : parseCabContext data = .ok ctx) :
    44 ≤ data.length ∧ data.length < 2 ^ 32 ∧ u32At data 4 = 0 ∧ ctx.fileend = data.length ∧
      ctx.sigpos < data.length ∧
      (ctx.sigpos ≠ 0 → min (ctx.sigpos + ctx.siglen) (2 ^ 32 - 1) = data.length) := by
  obtain ⟨hlen, _, hreserved, _, hsize, h⟩ := parseCabContext_eq_ok.mp h
  split at h
  · simp only [parseReserve, Outcome.bind_eq_ok, Outcome.guardThat_eq_ok, Outcome.pure_eq_ok,
      Except.ok.injEq] at h
    obtain ⟨_, _, _, _, _, _, _, _, sigpos, _, siglen, _, _, _, _, hextent, _, hpos, rfl⟩ := h
    refine ⟨hlen, hsize, hreserved, rfl, hpos, fun _ => ?_⟩
    by_contra hne
    exact hextent ⟨hpos, hne⟩
  · obtain rfl := Except.ok.inj h
    exact ⟨hlen, hsize, hreserved, rfl, by show 0 < _; omega, fun hne => absurd rfl hne⟩

end walk

/-! ## When the digest does not stop -/

/-- The bytes that are hashed are in the data: the header is complete, and an empty folder
table with `coffFiles` right behind it does not end behind the signature. -/
def Sliceable (data : List UInt8) (ctx : CabCtx) : Prop :=
  ctx.sigpos = 0 ∨
    (60 ≤ data.length ∧ (60 ≤ ctx.sigpos ∨ u16At data 26 ≠ 0 ∨ u32At data 16 ≠ 60))

section stops

variable {data : List UInt8} {ctx : CabCtx}

theorem panics_headerInput (hlen : 44 ≤ data.length) :
    Panics (headerInput data) ↔ data.length < 60 := by
  have hindex : ∀ {start stop}, start ≤ stop → stop ≤ 44 →
      index data start stop = .ok ((data.take stop).drop start) :=
    fun hle hstop => index_eq_ok.mpr ⟨hle, by omega, rfl⟩
  rw [headerInput, hindex (show 8 ≤ 16 by decide) (by decide),
    hindex (show 16 ≤ 20 by decide) (by decide), hindex (show 20 ≤ 26 by decide) (by decide),
    hindex (show 26 ≤ 28 by decide) (by decide), hindex (show 28 ≤ 30 by decide) (by decide),
    hindex (show 30 ≤ 32 by decide) (by decide), hindex (show 32 ≤ 34 by decide) (by decide)]
  simp only [Outcome.ok_bind, panics_bind, panics_index, Outcome.pure_eq_ok, not_panics_ok]
  constructor
  · intro h
    rcases h with h | ⟨_, _, h⟩
    · omega
    · exact absurd h id
  · intro h
    exact Or.inl (by omega)

theorem exists_headerInput (hlen : 60 ≤ data.length) : ∃ header, headerInput data = .ok header := by
  simp only [headerInput, Outcome.bind_eq_ok, index_eq_ok]
  exact ⟨_, _, ⟨by decide, by omega, rfl⟩, _, ⟨by decide, by omega, rfl⟩, _,
    ⟨by decide, by omega, rfl⟩, _, ⟨by decide, by omega, rfl⟩, _, ⟨by decide, by omega, rfl⟩, _,
    ⟨by decide, by omega, rfl⟩, _, ⟨by decide, by omega, rfl⟩, _, ⟨by decide, hlen, rfl⟩, rfl⟩

theorem not_panics_coffFiles {expected got : String} :
    ¬ Panics (Outcome.bail ("corrupt CAB coffFiles: expected header to end at 0x" ++ expected ++
      ", got 0x" ++ got) : Outcome Unit) := by
  refine not_panics_bail (c := 'c') ?_ (by decide) (by decide)
  rw [String.toList_append, String.toList_append, String.toList_append]
  rfl

/-- The digest stops exactly where its bytes are not in the data. -/
theorem panics_cabDigestInput (hctx : parseCabContext data = .ok ctx) :
    Panics (cabDigestInput data ctx) ↔ ¬ Sliceable data ctx := by
  obtain ⟨hlen, _, _, hfileend, hpos, _⟩ := parseCabContext_layout hctx
  have hfour : index data 0 4 = .ok (data.take 4) := index_eq_ok.mpr ⟨by decide, by omega, rfl⟩
  by_cases hzero : ctx.sigpos = 0
  · have hrest : index data 8 ctx.fileend = .ok ((data.take ctx.fileend).drop 8) :=
      index_eq_ok.mpr ⟨by omega, by omega, rfl⟩
    have hok : cabDigestInput data ctx = .ok (data.take 4 ++ (data.take ctx.fileend).drop 8) := by
      rw [cabDigestInput, hfour, Outcome.ok_bind, if_neg (not_not.mpr hzero), hrest]
      rfl
    rw [hok]
    exact iff_of_false not_panics_ok (not_not.mpr (Or.inl hzero))
  have h16 : readU32Le data 16 = .ok (u32At data 16) := readU32Le_eq_ok.mpr ⟨by omega, rfl⟩
  have h26 : readU16Le data 26 = .ok (u16At data 26) := readU16Le_eq_ok.mpr ⟨by omega, rfl⟩
  have h30 : readU16Le data 30 = .ok (u16At data 30) := readU16Le_eq_ok.mpr ⟨by omega, rfl⟩
  rw [cabDigestInput, hfour, Outcome.ok_bind, if_pos hzero, h16, h26, h30]
  simp only [Outcome.ok_bind]
  by_cases hlong : data.length < 60
  · have hheader := (panics_headerInput hlen).mpr hlong
    refine iff_of_true (panics_bind.mpr (Or.inl hheader)) ?_
    intro h
    rcases h with h | h
    · exact hzero h
    · omega
  obtain ⟨header, hheader⟩ := exists_headerInput (Nat.le_of_not_lt hlong)
  obtain ⟨stop, hnames, hge, hstop, hshort⟩ :=
    exists_hashNextCabinet (u16At data 30) (Nat.le_of_lt hpos)
  have hfolders : ¬ Panics (hashFolders data ctx.sigpos stop (u16At data 26)) :=
    not_panics_hashFolders (Nat.le_of_lt hpos)
  rw [hheader, hnames]
  simp only [Outcome.ok_bind, panics_bind, hfolders, false_or, Prod.exists, panics_guardThat,
    not_panics_coffFiles, and_false, panics_index, Outcome.guardThat_eq_ok, Outcome.pure_eq_ok,
    not_panics_ok, or_false, exists_const]
  constructor
  · intro h
    obtain ⟨folders, idx, hidx, hcoff, h⟩ := h
    obtain ⟨hidxEq, hbound, _⟩ := hashFolders_eq_ok hidx
    intro hsliceable
    rcases h with ⟨_, h⟩ | ⟨_, h⟩
    · exact absurd (panics_bail.mp h) (by decide)
    · have hbehind : ctx.sigpos < idx := by omega
      have hnone : u16At data 26 = 0 := by
        by_contra hne
        exact absurd (hbound hne) (by omega)
      rcases hsliceable with hs | ⟨_, hs | hs | hs⟩
      · exact hzero hs
      · omega
      · exact hs hnone
      · have := hshort (by omega)
        omega
  · intro h
    have hbefore : ctx.sigpos < 60 := by
      by_contra hge60
      exact h (Or.inr ⟨by omega, Or.inl (by omega)⟩)
    have hnone : u16At data 26 = 0 := by
      by_contra hne
      exact h (Or.inr ⟨by omega, Or.inr (Or.inl hne)⟩)
    have hcoff : u32At data 16 = 60 := by
      by_contra hne
      exact h (Or.inr ⟨by omega, Or.inr (Or.inr hne)⟩)
    have hstop60 := hshort hbefore
    refine ⟨[], stop, ?_, by omega, Or.inr ⟨by omega, by omega⟩⟩
    rw [hnone, hashFolders]

variable {hashes : Hashes} {kind : PeAuthenticodeHashKind}
  {embeddedDigest : List UInt8 → Outcome (List UInt8)}

theorem panics_computeCabAuthenticodeDigest :
    Panics (computeCabAuthenticodeDigest hashes data ctx kind) ↔
      Panics (cabDigestInput data ctx) := by
  rw [computeCabAuthenticodeDigest, panics_bind]
  simp only [Outcome.pure_eq_ok, not_panics_ok, and_false, exists_false, or_false]

theorem not_panics_ofOption {α : Type} {value : Option α} {message : String}
    (h : ¬ Panics (Outcome.bail message : Outcome α)) :
    ¬ Panics (Outcome.ofOption value message) := by
  cases value with
  | none => exact h
  | some a => exact not_panics_ok

theorem not_panics_cabSignaturePkcs7Der (hctx : parseCabContext data = .ok ctx) :
    ¬ Panics (cabSignaturePkcs7Der data) := by
  rw [cabSignaturePkcs7Der, hctx, Outcome.ok_bind, panics_bind, panics_guardThat]
  intro h
  rcases h with ⟨_, h⟩ | ⟨_, _, h⟩
  · exact absurd (panics_bail.mp h) (by decide)
  · exact not_panics_ofOption (fun hc => absurd (panics_bail.mp hc) (by decide)) h

theorem not_panics_mapErr {α : Type} {result : Outcome α} :
    ¬ Panics (result.mapErr fun e => "CAB PKCS#7 parse failed: " ++ e) := by
  rcases result with (message | _) | a
  · refine not_panics_bail (c := 'C') ?_ (by decide) (by decide)
    rw [String.toList_append]
    rfl
  · exact not_panics_outOfFuel
  · exact not_panics_ok

theorem not_panics_fromDigestByteLen {len : Nat} :
    ¬ Panics (PeAuthenticodeHashKind.fromDigestByteLen len) := by
  unfold PeAuthenticodeHashKind.fromDigestByteLen
  split
  · exact not_panics_ok
  · exact not_panics_ok
  · exact not_panics_ok
  · exact not_panics_ok
  · refine not_panics_bail (c := 'u') ?_ (by decide) (by decide)
    rw [String.toList_append, String.toList_append]
    rfl

/-- The verifier stops only in the digest. -/
theorem not_panics_verifyCabDigestConsistency (hctx : parseCabContext data = .ok ctx)
    (hinput : ¬ Panics (cabDigestInput data ctx)) :
    ¬ Panics (verifyCabDigestConsistency hashes embeddedDigest data) := by
  rw [verifyCabDigestConsistency, hctx, Outcome.ok_bind]
  simp only [panics_bind, panics_guardThat, not_panics_cabSignaturePkcs7Der hctx, not_panics_mapErr,
    not_panics_fromDigestByteLen, panics_computeCabAuthenticodeDigest, hinput, false_or]
  intro h
  rcases h with ⟨_, h⟩ | ⟨_, _, _, _, _, _, _, _, _, _, _, h⟩
  · exact absurd (panics_bail.mp h) (by decide)
  · exact absurd (panics_bail.mp h) (by decide)

end stops

/-! ## Two cabinets with one PKCS#7 -/

/-- The bytes that are hashed of a cabinet. -/
def hashedBytes (data : List UInt8) : Outcome (List UInt8) := do
  let ctx ← parseCabContext data
  cabDigestInput data ctx

/-- The hash tells the two cabinets apart, if what is hashed of them differs. -/
def CollisionFree (hashes : Hashes) (data data' : List UInt8) : Prop :=
  ∀ kind input input', hashedBytes data = .ok input → hashedBytes data' = .ok input' →
    hashes.hash kind input = hashes.hash kind input' → input = input'

section tamper

variable {hashes : Hashes} {embeddedDigest : List UInt8 → Outcome (List UInt8)}
  {data data' pkcs7 : List UInt8}

/-- What an accepted cabinet is made of. -/
structure Accepted (hashes : Hashes) (embeddedDigest : List UInt8 → Outcome (List UInt8))
    (data pkcs7 : List UInt8) (input : List UInt8) (sigpos : Nat) : Prop where
  length_eq : data.length = sigpos + pkcs7.length
  sigpos_ge : 60 ≤ sigpos
  reserved : u32At data 4 = 0
  input_eq : input = data.take 4 ++ (data.take 34).drop 8 ++ (data.take sigpos).drop 56
  pkcs7_eq : pkcs7 = data.drop sigpos
  hashed : hashedBytes data = .ok input
  digest : ∃ kind digest, embeddedDigest pkcs7 = .ok digest ∧
    PeAuthenticodeHashKind.fromDigestByteLen digest.length = .ok kind ∧
    hashes.hash kind input = digest

theorem accepted_of_verify (hverify : verifyCabDigestConsistency hashes embeddedDigest data = .ok ())
    (hpkcs7 : cabSignaturePkcs7Der data = .ok pkcs7) :
    ∃ input sigpos, Accepted hashes embeddedDigest data pkcs7 input sigpos := by
  simp only [verifyCabDigestConsistency, Outcome.bind_eq_ok, Outcome.guardThat_eq_ok, hpkcs7,
    Except.ok.injEq, Outcome.mapErr_eq_ok, computeCabAuthenticodeDigest, Outcome.pure_eq_ok] at hverify
  obtain ⟨ctx, hctx, _, hsigned, _, rfl, digest, hdigest, kind, hkind, computed,
    ⟨input, hinput, rfl⟩, hequal⟩ := hverify
  simp only [cabSignaturePkcs7Der, hctx, Outcome.ok_bind, Outcome.bind_eq_ok, Outcome.guardThat_eq_ok,
    Outcome.ofOption_eq_ok, slice_eq_some] at hpkcs7
  obtain ⟨_, _, _, hend, rfl⟩ := hpkcs7
  obtain ⟨_, hsize, hreserved, _, _, hextent⟩ := parseCabContext_layout hctx
  have hne : ctx.sigpos ≠ 0 := fun hzero => hsigned (Or.inr (Or.inl hzero))
  obtain ⟨hge, hle, hinputEq⟩ := cabDigestInput_signed hinput hne
  have hlength : data.length = ctx.sigpos + ctx.siglen := by
    have := hextent hne
    omega
  refine ⟨input, ctx.sigpos, ?_⟩
  exact
    { length_eq := by
        rw [List.length_drop, List.length_take_of_le hend]
        omega
      sigpos_ge := hge
      reserved := hreserved
      input_eq := hinputEq
      pkcs7_eq := by rw [← hlength, List.take_length]
      hashed := by rw [hashedBytes, hctx, Outcome.ok_bind, hinput]
      digest := ⟨kind, digest, hdigest, hkind, hequal⟩ }

theorem sameOn_of_slice {a b : Nat} (h : (data.take b).drop a = (data'.take b).drop a) :
    SameOn data data' a b := by
  intro i hlo hhi
  have hat := congrArg (fun bytes => bytes[i - a]?) h
  simp only [List.getElem?_drop, show a + (i - a) = i by omega, List.getElem?_take_of_lt hhi] at hat
  exact hat

theorem sameOn_of_u32At {offset : Nat} (hlen : offset + 4 ≤ data.length)
    (hlen' : offset + 4 ≤ data'.length) (h : u32At data offset = u32At data' offset) :
    SameOn data data' offset (offset + 4) := by
  apply sameOn_of_slice
  rw [List.drop_take, List.drop_take, Nat.add_sub_cancel_left, ← u32le_u32At hlen, h,
    u32le_u32At hlen']

/-- Accepted cabinets with one PKCS#7 have the same bytes outside of 34..56. -/
theorem sameOutside_of_accepted {input input' : List UInt8} {sigpos sigpos' : Nat}
    (h : Accepted hashes embeddedDigest data pkcs7 input sigpos)
    (h' : Accepted hashes embeddedDigest data' pkcs7 input' sigpos')
    (hcollision : CollisionFree hashes data data') : SameOutside data data' 34 56 := by
  obtain ⟨kind, digest, hdigest, hkind, hhash⟩ := h.digest
  obtain ⟨kind', digest', hdigest', hkind', hhash'⟩ := h'.digest
  obtain rfl := Except.ok.inj (hdigest.symm.trans hdigest')
  obtain rfl := Except.ok.inj (hkind.symm.trans hkind')
  have hinput := hcollision kind input input' h.hashed h'.hashed (hhash.trans hhash'.symm)
  have hlen := h.length_eq
  have hlen' := h'.length_eq
  have hge := h.sigpos_ge
  have hge' := h'.sigpos_ge
  have hfour : (data.take 4).length = 4 := List.length_take_of_le (by omega)
  have hfour' : (data'.take 4).length = 4 := List.length_take_of_le (by omega)
  have hfields : ((data.take 34).drop 8).length = 26 := by
    rw [List.length_drop, List.length_take_of_le (by omega)]
  have hfields' : ((data'.take 34).drop 8).length = 26 := by
    rw [List.length_drop, List.length_take_of_le (by omega)]
  rw [h.input_eq, h'.input_eq, List.append_assoc, List.append_assoc] at hinput
  obtain ⟨hstart, hinput⟩ := List.append_inj hinput (hfour.trans hfour'.symm)
  obtain ⟨hheader, hbody⟩ := List.append_inj hinput (hfields.trans hfields'.symm)
  have hsigpos : sigpos' = sigpos := by
    have hat := congrArg List.length hbody
    rw [List.length_drop, List.length_take_of_le (by omega), List.length_drop,
      List.length_take_of_le (by omega)] at hat
    omega
  subst hsigpos
  have hmscf : SameOn data data' 0 4 := sameOn_of_slice hstart
  have hreserved : SameOn data data' 4 8 :=
    sameOn_of_u32At (by omega) (by omega) (h.reserved.trans h'.reserved.symm)
  have htail : data.drop sigpos' = data'.drop sigpos' := h.pkcs7_eq.symm.trans h'.pkcs7_eq
  refine ⟨hlen'.trans hlen.symm, ?_⟩
  intro i hi
  by_cases h4 : i < 4
  · exact hmscf i (Nat.zero_le _) h4
  by_cases h8 : i < 8
  · exact hreserved i (by omega) h8
  by_cases h34 : i < 34
  · exact sameOn_of_slice hheader i (by omega) h34
  by_cases hsig : i < sigpos'
  · exact sameOn_of_slice hbody i (by omega) hsig
  · have hat := congrArg (fun bytes => bytes[i - sigpos']?) htail
    simp only [List.getElem?_drop, show sigpos' + (i - sigpos') = i by omega] at hat
    exact hat

end tamper

/-! ## Total and tamper-evident -/

/-- Neither the digest nor the verifier stops at this cabinet. -/
def IsTotal (hashes : Hashes) (data : List UInt8) (ctx : CabCtx) : Prop :=
  (∀ kind, ¬ Panics (computeCabAuthenticodeDigest hashes data ctx kind)) ∧
    ∀ embeddedDigest, ¬ Panics (verifyCabDigestConsistency hashes embeddedDigest data)

/-- A cabinet that is accepted with the PKCS#7 of this one differs from it in the bytes
34..56 at most. -/
def TamperEvident (hashes : Hashes) (data data' : List UInt8) : Prop :=
  ∀ embeddedDigest pkcs7, cabSignaturePkcs7Der data = .ok pkcs7 →
    cabSignaturePkcs7Der data' = .ok pkcs7 →
    verifyCabDigestConsistency hashes embeddedDigest data = .ok () →
    verifyCabDigestConsistency hashes embeddedDigest data' = .ok () →
    CollisionFree hashes data data' → SameOutside data data' 34 56

/-- Verification of a cabinet that is parsed is total and tamper-evident exactly if the
bytes that are hashed are in it. -/
theorem cab_total_and_tamper_evident_iff {hashes : Hashes} {data : List UInt8} {ctx : CabCtx}
    (hctx : parseCabContext data = .ok ctx) :
    (IsTotal hashes data ctx ∧ ∀ data', TamperEvident hashes data data') ↔
      Sliceable data ctx := by
  constructor
  · intro h
    have hkind := h.1.1 .sha256
    rw [panics_computeCabAuthenticodeDigest, panics_cabDigestInput hctx] at hkind
    exact not_not.mp hkind
  · intro h
    have hinput : ¬ Panics (cabDigestInput data ctx) := by
      rw [panics_cabDigestInput hctx]
      exact not_not.mpr h
    refine ⟨⟨?_, ?_⟩, ?_⟩
    · intro kind
      rw [panics_computeCabAuthenticodeDigest]
      exact hinput
    · intro embeddedDigest
      exact not_panics_verifyCabDigestConsistency hctx hinput
    · intro data' embeddedDigest pkcs7 hpkcs7 hpkcs7' hverify hverify' hcollision
      obtain ⟨input, sigpos, haccepted⟩ := accepted_of_verify hverify hpkcs7
      obtain ⟨input', sigpos', haccepted'⟩ := accepted_of_verify hverify' hpkcs7'
      exact sameOutside_of_accepted haccepted haccepted' hcollision

/-- The header of a cabinet without folders, up to the length of the signature. -/
def reservedHeader (coffFiles sigpos : Nat) : List UInt8 :=
  mscf ++ List.replicate 12 0 ++ u32le coffFiles ++ List.replicate 10 0 ++
    u16le flagReservePresent ++ List.replicate 4 0 ++ u32le signedHeaderExtra ++
    u32le abReserveExpected ++ u32le sigpos

/-- A cabinet without folders: the header with the reserve area, and what is behind it. -/
def reservedCabinet (coffFiles sigpos siglen : Nat) (rest : List UInt8) : List UInt8 :=
  reservedHeader coffFiles sigpos ++ (u32le siglen ++ rest)

theorem cab_total_and_tamper_evident_iff_sample :
    (IsTotal Hashes.mixing (reservedCabinet 60 60 1 (List.replicate 9 0)) ⟨20, 60, 1, 61, 4⟩ ∧
        ∀ data', TamperEvident Hashes.mixing (reservedCabinet 60 60 1 (List.replicate 9 0)) data') ↔
      Sliceable (reservedCabinet 60 60 1 (List.replicate 9 0)) ⟨20, 60, 1, 61, 4⟩ :=
  cab_total_and_tamper_evident_iff (by decide)

theorem length_reservedCabinet (pkcs7 : List UInt8) :
    (reservedCabinet 60 52 pkcs7.length pkcs7).length = 52 + pkcs7.length := by
  rw [reservedCabinet, List.length_append, List.length_append, length_u32le]
  show 48 + _ = _
  omega

/-- The layout check accepts a signature right behind the reserve lengths. -/
theorem parseCabContext_reservedCabinet {pkcs7 : List UInt8} (hpos : pkcs7 ≠ [])
    (hfit : 52 + pkcs7.length < 2 ^ 32) :
    parseCabContext (reservedCabinet 60 52 pkcs7.length pkcs7) =
      .ok ⟨20, 52, pkcs7.length, 52 + pkcs7.length, 4⟩ := by
  have hlength := length_reservedCabinet pkcs7
  have hne := List.length_pos_of_ne_nil hpos
  have h16 : ∀ offset, offset + 2 ≤ 48 → u16At (reservedCabinet 60 52 pkcs7.length pkcs7) offset =
      u16At (reservedHeader 60 52) offset :=
    fun offset h => u16At_append_left (u32le pkcs7.length ++ pkcs7) h
  have h32 : ∀ offset, offset + 4 ≤ 48 → u32At (reservedCabinet 60 52 pkcs7.length pkcs7) offset =
      u32At (reservedHeader 60 52) offset :=
    fun offset h => u32At_append_left (u32le pkcs7.length ++ pkcs7) h
  have h4 : u32At (reservedHeader 60 52) 4 = 0 := by decide
  have h30 : u16At (reservedHeader 60 52) 30 = 4 := by decide
  have h36 : u32At (reservedHeader 60 52) 36 = signedHeaderExtra := by decide
  have h40 : u32At (reservedHeader 60 52) 40 = abReserveExpected := by decide
  have h44 : u32At (reservedHeader 60 52) 44 = 52 := by decide
  have h48 : u32At (reservedCabinet 60 52 pkcs7.length pkcs7) 48 = pkcs7.length :=
    (u32At_append_right (reservedHeader 60 52) (u32le pkcs7.length ++ pkcs7) 0).trans
      (u32At_u32le (by omega) pkcs7)
  rw [parseCabContext_eq_ok, h16 30 (by decide), h30, if_pos (by decide), hlength, h32 4 (by decide)]
  refine ⟨by omega, rfl, h4, by decide, hfit, ?_⟩
  simp only [parseReserve, Outcome.bind_eq_ok, readU32Le_eq_ok, Outcome.guardThat_eq_ok,
    Outcome.pure_eq_ok, h32 36 (by decide), h32 40 (by decide), h32 44 (by decide), h36, h40, h44,
    h48, hlength]
  refine ⟨_, ⟨by omega, rfl⟩, (), rfl, _, ⟨by omega, rfl⟩, (), rfl, _, ⟨by omega, rfl⟩, _,
    ⟨by omega, rfl⟩, (), by omega, (), by omega, (), by omega, rfl⟩

/-- The digest stops at a cabinet of 52 bytes, which is parsed.  And whatever PKCS#7 stands
right behind the reserve lengths, the cabinet is parsed, the PKCS#7 is found, and the
verifier stops if it has a SHA-256 digest. -/
theorem digest_range_out_of_bounds :
    (parseCabContext (reservedCabinet 60 51 1 []) = .ok ⟨20, 51, 1, 52, 4⟩ ∧
      Panics (computeCabAuthenticodeDigest Hashes.mixing (reservedCabinet 60 51 1 [])
        ⟨20, 51, 1, 52, 4⟩ .sha256)) ∧
    ∀ (embeddedDigest : List UInt8 → Outcome (List UInt8)) (pkcs7 digest : List UInt8),
      8 ≤ pkcs7.length → 52 + pkcs7.length < 2 ^ 32 → embeddedDigest pkcs7 = .ok digest →
      digest.length = 32 →
      cabSignaturePkcs7Der (reservedCabinet 60 52 pkcs7.length pkcs7) = .ok pkcs7 ∧
        Panics (verifyCabDigestConsistency Hashes.mixing embeddedDigest
          (reservedCabinet 60 52 pkcs7.length pkcs7)) := by
  constructor
  · have hshort : parseCabContext (reservedCabinet 60 51 1 []) = .ok ⟨20, 51, 1, 52, 4⟩ := by decide
    refine ⟨hshort, ?_⟩
    rw [panics_computeCabAuthenticodeDigest, panics_cabDigestInput hshort]
    intro h
    rcases h with h | h
    · exact absurd h (by decide)
    · exact absurd h.1 (by decide)
  · intro embeddedDigest pkcs7 digest hlen hfit hdigest hdigestLen
    have hne : pkcs7 ≠ [] := List.ne_nil_of_length_pos (by omega)
    have hlength := length_reservedCabinet pkcs7
    have hparse := parseCabContext_reservedCabinet hne hfit
    have hguard : ¬ (20 ≠ signedHeaderExtra ∨ 52 = 0 ∨ pkcs7.length = 0) := by
      intro h
      rcases h with h | h | h
      · exact h rfl
      · exact absurd h (by decide)
      · omega
    have hpkcs7 : cabSignaturePkcs7Der (reservedCabinet 60 52 pkcs7.length pkcs7) = .ok pkcs7 := by
      simp only [cabSignaturePkcs7Der, hparse, Outcome.ok_bind, Outcome.guardThat_of hguard,
        Outcome.ofOption_eq_ok, slice_eq_some]
      refine ⟨by omega, by omega, ?_⟩
      rw [← hlength, List.take_length, reservedCabinet, ← List.append_assoc]
      show pkcs7 = List.drop (reservedHeader 60 52 ++ u32le pkcs7.length).length _
      rw [List.drop_left]
    have hinput : Panics (cabDigestInput (reservedCabinet 60 52 pkcs7.length pkcs7)
        ⟨20, 52, pkcs7.length, 52 + pkcs7.length, 4⟩) := by
      rw [panics_cabDigestInput hparse]
      intro h
      have h26 : u16At (reservedCabinet 60 52 pkcs7.length pkcs7) 26 = 0 :=
        (u16At_append_left _ (show 26 + 2 ≤ 48 by decide)).trans (by decide)
      have h16 : u32At (reservedCabinet 60 52 pkcs7.length pkcs7) 16 = 60 :=
        (u32At_append_left _ (show 16 + 4 ≤ 48 by decide)).trans (by decide)
      rcases h with h | ⟨_, h | h | h⟩
      · exact absurd h (show 52 ≠ 0 by decide)
      · exact absurd h (show ¬ 60 ≤ 52 by decide)
      · exact h h26
      · exact h h16
    refine ⟨hpkcs7, ?_⟩
    have hkind : PeAuthenticodeHashKind.fromDigestByteLen digest.length = .ok .sha256 := by
      rw [hdigestLen]
      rfl
    simp only [verifyCabDigestConsistency, hparse, Outcome.ok_bind, Outcome.guardThat_of hguard,
      hpkcs7, Outcome.mapErr_eq_ok.mpr hdigest, hkind]
    exact panics_bind.mpr (Or.inl (panics_computeCabAuthenticodeDigest.mpr hinput))

end Psign.Sip.Cab
