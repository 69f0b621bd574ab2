import Psign.Sip.AppxArchive

/-!
# The blob of an APPX digest

The digest that is signed for an APPX package is a blob: the letters `APPX`, and behind them
the hashes of the parts of the package, each with a tag in front (`AppxDigestParts.blob`).

`parse_signed_appx_blob` of `msix_digest.rs` takes a blob apart.  It is not told how long a
hash is and tries the lengths that there are.  It reads exactly the blobs that are written,
each as the hashes it was written from (`parseSignedAppxBlob_eq_ok`): a blob of one length
has hashes of one length (`blobLength_inj`).
-/

namespace Psign.Sip.Appx

open CodeLib CodeLib.Bytes CodeLib.RustStr

/-! ## The blob -/

/-- `AppxDigestParts`. -/
structure AppxDigestParts where
  axpc : List UInt8
  axcd : List UInt8
  axct : List UInt8
  axbm : List UInt8
  axci : Option (List UInt8)
  deriving DecidableEq, Repr

/-- `SIG_APPX`. -/
def sigAppx : List UInt8 := asciiBytes "APPX"

/-- `TAG_AXPC`. -/
def tagAxpc : List UInt8 := asciiBytes "AXPC"

/-- `TAG_AXCD`. -/
def tagAxcd : List UInt8 := asciiBytes "AXCD"

/-- `TAG_AXCT`. -/
def tagAxct : List UInt8 := asciiBytes "AXCT"

/-- `TAG_AXBM`. -/
def tagAxbm : List UInt8 := asciiBytes "AXBM"

/-- `TAG_AXCI`. -/
def tagAxci : List UInt8 := asciiBytes "AXCI"

/-- The piece of a code integrity catalog. -/
def axciPiece : Option (List UInt8) → List UInt8
  | some axci => tagAxci ++ axci
  | none => []

/-- The digests with their tags. -/
def AppxDigestParts.pieces (parts : AppxDigestParts) : List UInt8 :=
  tagAxpc ++ (parts.axpc ++ (tagAxcd ++ (parts.axcd ++ (tagAxct ++ (parts.axct ++
    (tagAxbm ++ (parts.axbm ++ axciPiece parts.axci)))))))

/-- The blob that `msix_authenticode_digest_blob` puts together. -/
def AppxDigestParts.blob (parts : AppxDigestParts) : List UInt8 :=
  sigAppx ++ parts.pieces

/-- A tag with a digest behind it, at a position of the blob. -/
def TagAt (data : List UInt8) (mdLen : Nat) (tag : List UInt8) (pos : Nat) : Prop :=
  pos + 4 + mdLen ≤ data.length ∧ slice data pos (pos + 4) = some tag

instance (data : List UInt8) (mdLen : Nat) (tag : List UInt8) (pos : Nat) :
    Decidable (TagAt data mdLen tag pos) :=
  inferInstanceAs (Decidable (_ ∧ _))

/-- The loop of `parse_signed_appx_blob` over the tags that have to be there: the position
behind the last one. -/
def skipTags (data : List UInt8) (candidate : Nat) : List (List UInt8) → Nat → Option Nat
  | [], pos => some pos
  | tag :: tags, pos =>
    if TagAt data candidate tag pos then skipTags data candidate tags (pos + 4 + candidate)
    else none

/-- Whether a blob has digests of a length, and then whether it has an `AXCI` piece. -/
def fitsWidth (data : List UInt8) (candidate : Nat) : Option Bool :=
  match skipTags data candidate [tagAxpc, tagAxcd, tagAxct, tagAxbm] 4 with
  | none => none
  | some pos =>
    if pos = data.length then some false
    else if TagAt data candidate tagAxci pos ∧ pos + 4 + candidate = data.length then some true
    else none

/-- The loop of `parse_signed_appx_blob` over the lengths of a digest. -/
def findWidth (data : List UInt8) : List Nat → Option (Nat × Bool)
  | [] => none
  | candidate :: rest =>
    match fitsWidth data candidate with
    | some hasCi => some (candidate, hasCi)
    | none => findWidth data rest

/-- The closure `take` of `parse_signed_appx_blob`. -/
def takeTag (data : List UInt8) (mdLen : Nat) (tag : List UInt8) (pos : Nat) :
    Outcome (List UInt8 × Nat) := do
  Outcome.guardThat (TagAt data mdLen tag pos) "unexpected APPX digest tag"
  return ((data.take (pos + 4 + mdLen)).drop (pos + 4), pos + 4 + mdLen)

/-- The optional last piece. -/
def takeAxci (data : List UInt8) (mdLen : Nat) (hasCi : Bool) (pos : Nat) :
    Outcome (Option (List UInt8) × Nat) :=
  if hasCi then do
    let (axci, pos) ← takeTag data mdLen tagAxci pos
    return (some axci, pos)
  else return (none, pos)

/-- The lengths that `parse_signed_appx_blob` tries. -/
def blobWidths : List Nat := [20, 32, 48, 64]

/-- `parse_signed_appx_blob`. -/
def parseSignedAppxBlob (data : List UInt8) : Outcome (Nat × AppxDigestParts) := do
  Outcome.guardThat (slice data 0 4 = some sigAppx)
    "PKCS#7 indirect digest is not an APPX blob (missing APPX prefix)"
  let (mdLen, hasCi) ← Outcome.ofOption (findWidth data blobWidths)
    "could not parse APPX indirect digest blob (expected AXPC..AXBM [+ AXCI])"
  let (axpc, pos) ← takeTag data mdLen tagAxpc 4
  let (axcd, pos) ← takeTag data mdLen tagAxcd pos
  let (axct, pos) ← takeTag data mdLen tagAxct pos
  let (axbm, pos) ← takeTag data mdLen tagAxbm pos
  let (axci, pos) ← takeAxci data mdLen hasCi pos
  Outcome.guardThat (pos = data.length) "trailing bytes in APPX indirect digest blob"
  return (mdLen, ⟨axpc, axcd, axct, axbm, axci⟩)

/-! ## Reading the blob back -/

/-- The digests have one length. -/
structure AppxDigestParts.HasWidth (parts : AppxDigestParts) (mdLen : Nat) : Prop where
  axpc : parts.axpc.length = mdLen
  axcd : parts.axcd.length = mdLen
  axct : parts.axct.length = mdLen
  axbm : parts.axbm.length = mdLen
  axci : ∀ axci ∈ parts.axci, axci.length = mdLen

/-- The length of a blob. -/
def blobLength (mdLen : Nat) (hasCi : Bool) : Nat :=
  4 + (4 + hasCi.toNat) * (4 + mdLen)

/-- A blob of one length has one width, and one answer to whether it has an `AXCI` piece. -/
theorem blobLength_inj {mdLen mdLen' : Nat} {hasCi hasCi' : Bool} (hw : mdLen ∈ blobWidths)
    (hw' : mdLen' ∈ blobWidths) (h : blobLength mdLen hasCi = blobLength mdLen' hasCi') :
    mdLen = mdLen' ∧ hasCi = hasCi' := by
  have hall : ∀ a ∈ blobWidths, ∀ b ∈ blobWidths, ∀ c d : Bool,
      blobLength a c = blobLength b d → a = b ∧ c = d := by decide
  exact hall mdLen hw mdLen' hw' hasCi hasCi' h

theorem length_blob {parts : AppxDigestParts} {mdLen : Nat} (h : parts.HasWidth mdLen) :
    parts.blob.length = blobLength mdLen parts.axci.isSome := by
  have htags : sigAppx.length = 4 ∧ tagAxpc.length = 4 ∧ tagAxcd.length = 4 ∧
      tagAxct.length = 4 ∧ tagAxbm.length = 4 ∧ tagAxci.length = 4 := by decide
  obtain ⟨h0, h1, h2, h3, h4, h5⟩ := htags
  simp only [AppxDigestParts.blob, AppxDigestParts.pieces, blobLength, List.length_append, h0, h1, h2, h3, h4, h.axpc,
    h.axcd, h.axct, h.axbm]
  cases hci : parts.axci with
  | none =>
    show _ = 4 + (4 + 0) * (4 + mdLen)
    simp only [axciPiece, List.length_nil]
    omega
  | some axci =>
    show _ = 4 + (4 + 1) * (4 + mdLen)
    simp only [axciPiece, List.length_append, h5, h.axci axci hci]
    omega

variable {data tag digest rest : List UInt8} {mdLen pos pos' : Nat}

/-- A tag and a digest that stand at a position are read there. -/
theorem tagAt_of_drop (htag : tag.length = 4) (hdigest : digest.length = mdLen)
    (h : data.drop pos = tag ++ (digest ++ rest)) :
    TagAt data mdLen tag pos ∧ takeTag data mdLen tag pos = .ok (digest, pos + 4 + mdLen) ∧
      data.drop (pos + 4 + mdLen) = rest := by
  have hlen : data.length - pos = 4 + (mdLen + rest.length) := by
    rw [← List.length_drop, h]
    simp only [List.length_append, htag, hdigest]
  have hat : TagAt data mdLen tag pos := by
    refine ⟨by omega, slice_eq_some.mpr ⟨by omega, by omega, ?_⟩⟩
    rw [List.drop_take, show pos + 4 - pos = tag.length by omega, h, List.take_left]
  have hbehind : data.drop (pos + 4) = digest ++ rest := by
    rw [← List.drop_drop, h, ← htag, List.drop_left]
  refine ⟨hat, ?_, ?_⟩
  · rw [takeTag, Outcome.guardThat_of hat, Outcome.ok_bind, List.drop_take, hbehind,
      show pos + 4 + mdLen - (pos + 4) = digest.length by omega, List.take_left]
    rfl
  · rw [← List.drop_drop, hbehind, ← hdigest, List.drop_left]

/-- What is read at a position stands there. -/
theorem drop_of_takeTag (h : takeTag data mdLen tag pos = .ok (digest, pos')) :
    digest.length = mdLen ∧ data.drop pos = tag ++ (digest ++ data.drop pos') := by
  rw [takeTag, Outcome.guardThat_bind_eq_ok] at h
  obtain ⟨⟨hfits, hslice⟩, hread⟩ := h
  rw [slice_eq_some] at hslice
  obtain ⟨_, _, htag⟩ := hslice
  have hpair := Except.ok.inj hread
  obtain ⟨hdigest, hpos⟩ := Prod.mk.inj hpair
  rw [List.drop_take, show pos + 4 - pos = 4 by omega] at htag
  rw [List.drop_take, show pos + 4 + mdLen - (pos + 4) = mdLen by omega] at hdigest
  constructor
  · rw [← hdigest, List.length_take, List.length_drop]
    omega
  · have hbehind : data.drop pos' = (data.drop (pos + 4)).drop mdLen := by
      rw [List.drop_drop, hpos]
    rw [htag, ← hdigest, hbehind, List.take_append_drop, ← List.drop_drop, List.take_append_drop]

theorem pos_of_skipTags {candidate : Nat} {tags : List (List UInt8)}
    (h : skipTags data candidate tags pos = some pos') :
    pos' = pos + tags.length * (4 + candidate) := by
  induction tags generalizing pos with
  | nil =>
    have heq : pos = pos' := Option.some.inj h
    simp [heq]
  | cons tag tags ih =>
    rw [skipTags] at h
    by_cases hat : TagAt data candidate tag pos
    · rw [if_pos hat] at h
      rw [ih h, List.length_cons, Nat.add_mul]
      omega
    · rw [if_neg hat] at h
      exact absurd h (by simp)

/-- A blob only fits a width that its length allows. -/
theorem length_of_fitsWidth {candidate : Nat} {hasCi : Bool}
    (h : fitsWidth data candidate = some hasCi) : data.length = blobLength candidate hasCi := by
  unfold fitsWidth at h
  cases hskip : skipTags data candidate [tagAxpc, tagAxcd, tagAxct, tagAxbm] 4 with
  | none => simp [hskip] at h
  | some pos =>
    have hpos : pos = 4 + 4 * (4 + candidate) := pos_of_skipTags hskip
    simp only [hskip] at h
    by_cases hend : pos = data.length
    · rw [if_pos hend] at h
      obtain rfl := Option.some.inj h
      show data.length = 4 + (4 + 0) * (4 + candidate)
      omega
    · rw [if_neg hend] at h
      by_cases hci : TagAt data candidate tagAxci pos ∧ pos + 4 + candidate = data.length
      · rw [if_pos hci] at h
        obtain rfl := Option.some.inj h
        show data.length = 4 + (4 + 1) * (4 + candidate)
        have hstop := hci.2
        omega
      · rw [if_neg hci] at h
        exact absurd h (by simp)

theorem of_findWidth {widths : List Nat} {hasCi : Bool}
    (h : findWidth data widths = some (mdLen, hasCi)) :
    mdLen ∈ widths ∧ fitsWidth data mdLen = some hasCi := by
  induction widths with
  | nil => exact absurd h (by simp [findWidth])
  | cons candidate rest ih =>
    rw [findWidth] at h
    cases hfits : fitsWidth data candidate with
    | none =>
      simp only [hfits] at h
      exact ⟨List.mem_cons_of_mem _ (ih h).1, (ih h).2⟩
    | some found =>
      simp only [hfits, Option.some.injEq, Prod.mk.injEq] at h
      obtain ⟨rfl, rfl⟩ := h
      exact ⟨List.mem_cons_self, hfits⟩

/-- The width that fits is found when no other fits. -/
theorem findWidth_eq {widths : List Nat} {hasCi : Bool} (hmem : mdLen ∈ widths)
    (hfits : fitsWidth data mdLen = some hasCi)
    (honly : ∀ candidate ∈ widths, ∀ found, fitsWidth data candidate = some found →
      candidate = mdLen) :
    findWidth data widths = some (mdLen, hasCi) := by
  induction widths with
  | nil => exact absurd hmem (by simp)
  | cons candidate rest ih =>
    rw [findWidth]
    cases hfound : fitsWidth data candidate with
    | some found =>
      obtain rfl := honly candidate List.mem_cons_self found hfound
      rw [hfits] at hfound
      rw [Option.some.inj hfound]
    | none =>
      have hne : mdLen ≠ candidate := by
        intro heq
        rw [heq, hfound] at hfits
        exact absurd hfits (by simp)
      have hrest := (List.mem_cons.mp hmem).resolve_left hne
      exact ih hrest fun c hc => honly c (List.mem_cons_of_mem _ hc)

theorem takeAxci_eq_ok {hasCi : Bool} {axci : Option (List UInt8)}
    (h : takeAxci data mdLen hasCi pos = .ok (axci, pos')) :
    axci.isSome = hasCi ∧ (∀ digest ∈ axci, digest.length = mdLen) ∧
      data.drop pos = axciPiece axci ++ data.drop pos' := by
  cases hasCi with
  | false =>
    obtain ⟨rfl, rfl⟩ := Prod.mk.inj (Except.ok.inj h)
    exact ⟨rfl, by simp, rfl⟩
  | true =>
    simp only [takeAxci, if_true, Outcome.bind_eq_ok] at h
    obtain ⟨⟨digest, stop⟩, htake, hresult⟩ := h
    obtain ⟨rfl, rfl⟩ := Prod.mk.inj (Except.ok.inj hresult)
    obtain ⟨hlen, hdrop⟩ := drop_of_takeTag htake
    refine ⟨rfl, ?_, ?_⟩
    · intro other hother
      rw [← Option.some.inj hother, hlen]
    · rw [hdrop, axciPiece, List.append_assoc]

/-- The last piece of a blob is read up to its end. -/
theorem takeAxci_of_drop {axci : Option (List UInt8)}
    (hwidth : ∀ digest ∈ axci, digest.length = mdLen) (hpos : pos ≤ data.length)
    (h : data.drop pos = axciPiece axci) :
    takeAxci data mdLen axci.isSome pos = .ok (axci, data.length) := by
  have hlen : data.length - pos = (axciPiece axci).length := by rw [← h, List.length_drop]
  cases axci with
  | none =>
    have hend : pos = data.length := by
      rw [axciPiece, List.length_nil] at hlen
      omega
    rw [hend]
    rfl
  | some digest =>
    have hdigest := hwidth digest rfl
    have htag : tagAxci.length = 4 := by decide
    rw [axciPiece, List.length_append, htag, hdigest] at hlen
    rw [axciPiece, ← List.append_nil digest] at h
    obtain ⟨_, htake, _⟩ := tagAt_of_drop htag hdigest h
    rw [takeAxci, Option.isSome_some, if_pos rfl, htake, Outcome.ok_bind,
      show pos + 4 + mdLen = data.length by omega]
    rfl

theorem drop_blob (parts : AppxDigestParts) : parts.blob.drop 4 = parts.pieces :=
  List.drop_left' (by decide)

/-- The blob fits its own width. -/
theorem fitsWidth_blob {parts : AppxDigestParts} (h : parts.HasWidth mdLen) :
    fitsWidth parts.blob mdLen = some parts.axci.isSome := by
  have hlen := length_blob h
  obtain ⟨hat0, _, hdrop1⟩ := tagAt_of_drop (by decide) h.axpc (drop_blob parts)
  obtain ⟨hat1, _, hdrop2⟩ := tagAt_of_drop (by decide) h.axcd hdrop1
  obtain ⟨hat2, _, hdrop3⟩ := tagAt_of_drop (by decide) h.axct hdrop2
  obtain ⟨hat3, _, hdrop4⟩ := tagAt_of_drop (by decide) h.axbm hdrop3
  have hskip : skipTags parts.blob mdLen [tagAxpc, tagAxcd, tagAxct, tagAxbm] 4 =
      some (4 + 4 + mdLen + 4 + mdLen + 4 + mdLen + 4 + mdLen) := by
    rw [skipTags, if_pos hat0, skipTags, if_pos hat1, skipTags, if_pos hat2, skipTags,
      if_pos hat3, skipTags]
  simp only [fitsWidth, hskip]
  cases hci : parts.axci with
  | none =>
    have hstop : parts.blob.length = 4 + 4 * (4 + mdLen) := by rw [hlen, hci]; rfl
    rw [if_pos (by omega)]
    rfl
  | some axci =>
    have hstop : parts.blob.length = 4 + 5 * (4 + mdLen) := by rw [hlen, hci]; rfl
    rw [hci, axciPiece] at hdrop4
    rw [← List.append_nil axci] at hdrop4
    obtain ⟨hat4, _, _⟩ := tagAt_of_drop (by decide) (h.axci axci hci) hdrop4
    rw [if_neg (by omega), if_pos ⟨hat4, by omega⟩]
    rfl

/-- The pieces of the blob are read one after the other. -/
theorem parseSignedAppxBlob_blob {parts : AppxDigestParts} (hmem : mdLen ∈ blobWidths)
    (h : parts.HasWidth mdLen) : parseSignedAppxBlob parts.blob = .ok (mdLen, parts) := by
  have hlen := length_blob h
  have hfind : findWidth parts.blob blobWidths = some (mdLen, parts.axci.isSome) := by
    refine findWidth_eq hmem (fitsWidth_blob h) ?_
    intro candidate hcandidate found hfound
    have hsame := length_of_fitsWidth hfound
    rw [hlen] at hsame
    exact (blobLength_inj hcandidate hmem hsame.symm).1
  have hsig : slice parts.blob 0 4 = some sigAppx := by
    refine slice_eq_some.mpr ⟨by omega, ?_, (List.take_left' (by decide)).symm⟩
    rw [hlen, blobLength]
    omega
  obtain ⟨_, htake0, hdrop1⟩ := tagAt_of_drop (by decide) h.axpc (drop_blob parts)
  obtain ⟨_, htake1, hdrop2⟩ := tagAt_of_drop (by decide) h.axcd hdrop1
  obtain ⟨_, htake2, hdrop3⟩ := tagAt_of_drop (by decide) h.axct hdrop2
  obtain ⟨_, htake3, hdrop4⟩ := tagAt_of_drop (by decide) h.axbm hdrop3
  have hpos : 4 + 4 + mdLen + 4 + mdLen + 4 + mdLen + 4 + mdLen ≤ parts.blob.length := by
    rw [hlen, blobLength, Nat.add_mul]
    omega
  have htake4 := takeAxci_of_drop h.axci hpos hdrop4
  simp only [parseSignedAppxBlob, Outcome.guardThat_of hsig, hfind, Outcome.ofOption,
    Outcome.ok_bind, htake0, htake1, htake2, htake3, htake4, Outcome.guardThat_of]
  rfl

/-- The parser reads exactly the blobs that are written, each as its own pieces. -/
theorem parseSignedAppxBlob_eq_ok {parts : AppxDigestParts} :
    parseSignedAppxBlob data = .ok (mdLen, parts) ↔
      mdLen ∈ blobWidths ∧ parts.HasWidth mdLen ∧ data = parts.blob := by
  constructor
  · intro h
    simp only [parseSignedAppxBlob, Outcome.bind_eq_ok, Outcome.guardThat_eq_ok,
      Outcome.ofOption_eq_ok] at h
    obtain ⟨_, hsig, ⟨width, hasCi⟩, hfind, ⟨axpc, pos0⟩, htake0, ⟨axcd, pos1⟩, htake1,
      ⟨axct, pos2⟩, htake2, ⟨axbm, pos3⟩, htake3, ⟨axci, pos4⟩, hci, _, hend, hresult⟩ := h
    obtain ⟨rfl, rfl⟩ := Prod.mk.inj (Except.ok.inj hresult)
    obtain ⟨hlen0, hdrop0⟩ := drop_of_takeTag htake0
    obtain ⟨hlen1, hdrop1⟩ := drop_of_takeTag htake1
    obtain ⟨hlen2, hdrop2⟩ := drop_of_takeTag htake2
    obtain ⟨hlen3, hdrop3⟩ := drop_of_takeTag htake3
    obtain ⟨_, hlen4, hdrop4⟩ := takeAxci_eq_ok hci
    refine ⟨(of_findWidth hfind).1, ⟨hlen0, hlen1, hlen2, hlen3, hlen4⟩, ?_⟩
    obtain ⟨_, _, htake⟩ := slice_eq_some.mp hsig
    have hstart : data = sigAppx ++ data.drop 4 := by
      rw [htake, List.drop_zero, List.take_append_drop]
    have hstop : data.drop pos4 = [] := by
      rw [show pos4 = data.length from hend, List.drop_length]
    rw [hstart, hdrop0, hdrop1, hdrop2, hdrop3, hdrop4, hstop, List.append_nil]
    rfl
  · rintro ⟨hmem, hwidth, hdata⟩
    rw [hdata]
    exact parseSignedAppxBlob_blob hmem hwidth

end Psign.Sip.Appx
