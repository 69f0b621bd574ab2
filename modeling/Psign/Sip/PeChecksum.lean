import Psign.CodeLib.OnesComplement
import Psign.Sip.PeReplace

/-!
# The checksum of a PE image

`pe_compute_image_checksum` adds the 16-bit words of an image, with its own field left out,
and folds as it goes.  The field is left out by its position: the loop jumps over it when it
stands on it.  Where the field starts at an even offset, this is the sum of the words of the
image with zeros in the field (`peComputeImageChecksum_eq`).

What embedding, replacing and removing signatures write into the field is then the checksum
of the file that they return (`pe_image_checksum_stable`).
-/

namespace Psign.Sip

open CodeLib CodeLib.Bytes

/-! ## The sum of the words -/

/-- The little-endian 16-bit words; a last byte without a neighbour is a word of its own. -/
def wordsLe : List UInt8 → List Nat
  | [] => []
  | [a] => [a.toNat]
  | a :: b :: rest => (a.toNat + 256 * b.toNat) :: wordsLe rest

/-- The image with zeros in the `CheckSum` field. -/
def zeroedAt (image : List UInt8) (checkOff : Nat) : List UInt8 :=
  patch image checkOff [0, 0, 0, 0]

/-- The checksum that the words of an image have: their sum folded to 16 bits, and the
length of the file. -/
def imageChecksum (image : List UInt8) (checkOff : Nat) : Nat :=
  (endAround 65536 (wordsLe (zeroedAt image checkOff)).sum + image.length) % 2 ^ 32

/-- `pe_read_image_checksum`. -/
def peReadImageChecksum (image : List UInt8) : Outcome Nat := do
  let off ← peChecksumFieldFileOffset image
  return u32At image off

theorem getD_of_lt {image : List UInt8} {i : Nat} (h : i < image.length) :
    image.getD i 0 = image[i] := by
  rw [List.getD_eq_getElem?_getD, List.getElem?_eq_getElem h, Option.getD_some]

/-- A word and what follows it. -/
theorem wordsLe_drop {image : List UInt8} {i : Nat} (h : i + 1 < image.length) :
    wordsLe (image.drop i) = u16At image i :: wordsLe (image.drop (i + 2)) := by
  rw [List.drop_eq_getElem_cons (show i < image.length by omega), List.drop_eq_getElem_cons h,
    wordsLe, u16At, byteAt, byteAt, getD_of_lt (show i < image.length by omega), getD_of_lt h]

theorem wordsLe_drop_last {image : List UInt8} {i : Nat} (h : i + 1 = image.length) :
    wordsLe (image.drop i) = [byteAt image i] := by
  rw [List.drop_eq_getElem_cons (show i < image.length by omega),
    List.drop_eq_nil_of_le (show image.length ≤ i + 1 by omega), wordsLe, byteAt,
    getD_of_lt (show i < image.length by omega)]

variable {image : List UInt8} {checkOff : Nat}

theorem length_zeroedAt (hfits : checkOff + 4 ≤ image.length) :
    (zeroedAt image checkOff).length = image.length :=
  length_patch hfits

/-- The words of the zeroed image in front of and behind the field are those of the image. -/
theorem u16At_zeroedAt (hfits : checkOff + 4 ≤ image.length) {i : Nat}
    (hout : i + 2 ≤ checkOff ∨ checkOff + 4 ≤ i) :
    u16At (zeroedAt image checkOff) i = u16At image i :=
  (u16At_congr (sameOn_patch hfits hout)).symm

theorem byteAt_zeroedAt (hfits : checkOff + 4 ≤ image.length) {i : Nat}
    (hout : i + 1 ≤ checkOff ∨ checkOff + 4 ≤ i) :
    byteAt (zeroedAt image checkOff) i = byteAt image i :=
  (byteAt_congr (sameOn_patch hfits hout)).symm

/-- The words of the field are zero. -/
theorem u16At_field (hfits : checkOff + 4 ≤ image.length) {k : Nat} (hk : k ≤ 2) :
    u16At (zeroedAt image checkOff) (checkOff + k) = 0 := by
  have hbyte : ∀ j ≤ 3, byteAt (zeroedAt image checkOff) (checkOff + j) = 0 := by
    intro j hj
    have hinside : (zeroedAt image checkOff)[checkOff + j]? = ([0, 0, 0, 0] : List UInt8)[j]? :=
      getElem?_patch_of_inside hfits (show j < 4 by omega)
    have hcases : j = 0 ∨ j = 1 ∨ j = 2 ∨ j = 3 := by omega
    rw [byteAt, List.getD_eq_getElem?_getD, hinside]
    rcases hcases with rfl | rfl | rfl | rfl
    all_goals rfl
  rw [u16At, hbyte k (by omega), Nat.add_assoc, hbyte (k + 1) (by omega)]

theorem sum_wordsLe_field (hfits : checkOff + 4 ≤ image.length) :
    (wordsLe ((zeroedAt image checkOff).drop checkOff)).sum =
      (wordsLe ((zeroedAt image checkOff).drop (checkOff + 4))).sum := by
  have hlen := length_zeroedAt hfits
  have hstart := u16At_field hfits (Nat.zero_le 2)
  rw [Nat.add_zero] at hstart
  rw [wordsLe_drop (by omega), wordsLe_drop (by omega), hstart, u16At_field hfits (Nat.le_refl 2),
    List.sum_cons, List.sum_cons, Nat.zero_add, Nat.zero_add]

theorem le_of_peChecksumFieldFileOffset (h : peChecksumFieldFileOffset image = .ok checkOff) :
    checkOff + 4 ≤ image.length := by
  simp only [peChecksumFieldFileOffset, Outcome.bind_eq_ok, Outcome.guardThat_eq_ok] at h
  obtain ⟨⟨optionalStart, magic⟩, _, _, hfits, hoff⟩ := h
  obtain rfl := Except.ok.inj hoff
  exact hfits

/-! ## The loop -/

/-- One round of the loop folds the sum with the word it adds. -/
theorem endAround_round (sum word rest : Nat) :
    endAround 65536 ((sum + word) / 65536 + (sum + word) % 65536 + rest) =
      endAround 65536 (sum + (word + rest)) := by
  rw [← Nat.add_assoc]
  exact endAround_add_congr (by decide) rest (endAround_fold (by decide))

/-- From an even offset on, the loop adds the words of the zeroed image. -/
theorem checksumLoop_eq (heven : checkOff % 2 = 0) (hfits : checkOff + 4 ≤ image.length)
    {fuel i sum : Nat} (hi : i % 2 = 0) (hfuel : image.length ≤ i + fuel) (hsum : sum ≤ 65536) :
    checksumLoop image checkOff fuel i sum ≤ 65536 ∧
      endAround 65536 (checksumLoop image checkOff fuel i sum) =
        endAround 65536 (sum + (wordsLe ((zeroedAt image checkOff).drop i)).sum) := by
  have hlen := length_zeroedAt hfits
  induction fuel generalizing i sum with
  | zero =>
    rw [checksumLoop, List.drop_eq_nil_of_le (by omega)]
    exact ⟨hsum, rfl⟩
  | succ fuel ih =>
    rw [checksumLoop]
    by_cases hend : i < image.length
    · rw [if_pos hend]
      by_cases hfield : checkOff ≤ i ∧ i < checkOff + 4
      · rw [if_pos hfield]
        obtain ⟨hbound, hloop⟩ := @ih (checkOff + 4) sum (by omega) (by omega) hsum
        refine ⟨hbound, hloop.trans ?_⟩
        -- `i` is even, so it stands on a word of the field
        have hcases : i = checkOff ∨ i = checkOff + 2 := by omega
        rcases hcases with rfl | rfl
        · rw [sum_wordsLe_field hfits]
        · rw [wordsLe_drop (i := checkOff + 2) (by omega), u16At_field hfits (Nat.le_refl 2),
            List.sum_cons, Nat.zero_add]
      · rw [if_neg hfield]
        by_cases hword : i + 1 < image.length
        · rw [if_pos hword, wordsLe_drop (by omega), u16At_zeroedAt hfits (by omega), List.sum_cons]
          have hlt := u16At_lt image i
          obtain ⟨hbound, hloop⟩ := @ih (i + 2)
            ((sum + u16At image i) / 65536 + (sum + u16At image i) % 65536) (by omega) (by omega) (by omega)
          exact ⟨hbound, hloop.trans (endAround_round _ _ _)⟩
        · rw [if_neg hword, wordsLe_drop_last (by omega), byteAt_zeroedAt hfits (by omega)]
          have hlt := byteAt_lt image i
          obtain ⟨hbound, hloop⟩ := @ih (i + 2)
            ((sum + byteAt image i) / 65536 + (sum + byteAt image i) % 65536) (by omega) (by omega) (by omega)
          rw [List.drop_eq_nil_of_le (by omega)] at hloop
          exact ⟨hbound, hloop.trans (endAround_round _ _ _)⟩
    · rw [if_neg hend, List.drop_eq_nil_of_le (by omega)]
      exact ⟨hsum, rfl⟩

theorem foldCarries_eq {sum : Nat} (h : sum ≤ 65536) : foldCarries 64 sum = endAround 65536 sum := by
  rcases Nat.lt_or_ge sum 65536 with hlt | hge
  · rw [endAround_of_lt hlt, foldCarries, if_pos (Nat.div_eq_of_lt hlt)]
  · obtain rfl : sum = 65536 := Nat.le_antisymm h hge
    rw [← endAround_fold (by decide), endAround_of_lt (by decide)]
    rfl

/-- At an even offset, the checksum is that of the words with the field left out. -/
theorem peComputeImageChecksum_eq (hoff : peChecksumFieldFileOffset image = .ok checkOff)
    (heven : checkOff % 2 = 0) :
    peComputeImageChecksum image = .ok (imageChecksum image checkOff) := by
  have hfits := le_of_peChecksumFieldFileOffset hoff
  obtain ⟨hbound, hloop⟩ :=
    @checksumLoop_eq image checkOff heven hfits image.length 0 0 rfl (by omega) (Nat.zero_le _)
  rw [Nat.zero_add, List.drop_zero] at hloop
  rw [peComputeImageChecksum, hoff, Outcome.ok_bind, foldCarries_eq hbound, hloop]
  show Except.ok _ = _
  rw [← Nat.add_mod, imageChecksum]

/-! ## The field -/

/-- The field stays where it is whatever is written into it. -/
theorem peChecksumFieldFileOffset_patch {field : List UInt8} (hfield : field.length = 4)
    (hoff : peChecksumFieldFileOffset image = .ok checkOff) :
    peChecksumFieldFileOffset (patch image checkOff field) = .ok checkOff := by
  have hfits := le_of_peChecksumFieldFileOffset hoff
  simp only [peChecksumFieldFileOffset, Outcome.bind_eq_ok, Outcome.guardThat_eq_ok] at hoff
  obtain ⟨⟨optionalStart, magic⟩, hstart, _, _, hresult⟩ := hoff
  obtain rfl := Except.ok.inj hresult
  have hpatch : optionalStart + 64 + field.length ≤ image.length := by omega
  have hlen := length_patch hpatch
  have hstart' := peOptionalHeaderStart_congr hstart (sameOn_patch hpatch (Or.inl (Nat.le_refl _)))
    (by omega)
  simp only [peChecksumFieldFileOffset, hstart', Outcome.ok_bind,
    Outcome.guardThat_of (hlen.symm ▸ hfits)]
  rfl

theorem imageChecksum_patch {field : List UInt8} (hfield : field.length = 4)
    (hfits : checkOff + 4 ≤ image.length) :
    imageChecksum (patch image checkOff field) checkOff = imageChecksum image checkOff := by
  have hpatch : checkOff + field.length ≤ image.length := by omega
  have hzeroed : zeroedAt (patch image checkOff field) checkOff = zeroedAt image checkOff :=
    patch_patch hpatch hfield
  rw [imageChecksum, imageChecksum, length_patch hpatch, hzeroed]

/-- At an even offset, the checksum does not depend on what is in the field. -/
theorem peComputeImageChecksum_patch {field : List UInt8} (hfield : field.length = 4)
    (hoff : peChecksumFieldFileOffset image = .ok checkOff) (heven : checkOff % 2 = 0) :
    peComputeImageChecksum (patch image checkOff field) = peComputeImageChecksum image := by
  rw [peComputeImageChecksum_eq (peChecksumFieldFileOffset_patch hfield hoff) heven,
    peComputeImageChecksum_eq hoff heven,
    imageChecksum_patch hfield (le_of_peChecksumFieldFileOffset hoff)]

/-- A refreshed file holds its checksum. -/
theorem peRefreshImageChecksum_eq_ok {base out : List UInt8}
    (h : peRefreshImageChecksum base = .ok out)
    (hoff : peChecksumFieldFileOffset out = .ok checkOff) (heven : checkOff % 2 = 0) :
    peReadImageChecksum out = peComputeImageChecksum out := by
  simp only [peRefreshImageChecksum, peWriteImageChecksum, Outcome.bind_eq_ok] at h
  obtain ⟨c, hc, off, hbase, hresult⟩ := h
  obtain rfl := Except.ok.inj hresult
  obtain rfl := Except.ok.inj (hoff.symm.trans (peChecksumFieldFileOffset_patch rfl hbase))
  have hsum := peComputeImageChecksum_eq hbase heven
  obtain rfl := Except.ok.inj (hc.symm.trans hsum)
  have hlt : imageChecksum base checkOff < 2 ^ 32 := Nat.mod_lt _ (by decide)
  rw [peComputeImageChecksum_patch rfl hbase heven, hsum, peReadImageChecksum, hoff,
    Outcome.ok_bind, u32At_patch_self (le_of_peChecksumFieldFileOffset hbase) hlt]
  rfl

/-! ## Files that were rewritten -/

/-- The file is what embedding a signature, replacing one, or removing the signatures of an
image that has some returns. -/
def Rewrites (image out : List UInt8) : Prop :=
  (∃ pkcs7, peAppendAuthenticodePkcs7Certificate image pkcs7 = .ok out) ∨
  (∃ index pkcs7, peReplaceAuthenticodePkcs7CertificateAt image index pkcs7 = .ok out) ∨
  ∃ removed, 0 < removed ∧ peRemoveAuthenticodeCertificates image = .ok (out, removed)

/-- Each of the functions refreshes the checksum last. -/
theorem exists_refresh_of_rewrites {out : List UInt8} (h : Rewrites image out) :
    ∃ base, peRefreshImageChecksum base = .ok out := by
  rcases h with ⟨pkcs7, h⟩ | ⟨index, pkcs7, h⟩ | ⟨removed, hremoved, h⟩
  · simp only [peAppendAuthenticodePkcs7Certificate, Outcome.bind_eq_ok] at h
    obtain ⟨⟨va, size⟩, _, _, _, h⟩ := h
    by_cases hnone : va = 0 ∧ size = 0
    · rw [if_pos hnone] at h
      simp only [Outcome.bind_eq_ok] at h
      obtain ⟨_, _, _, _, _, _, base, _, h⟩ := h
      exact ⟨base, h⟩
    · rw [if_neg hnone] at h
      simp only [Outcome.bind_eq_ok] at h
      obtain ⟨_, _, _, _, _, _, _, _, _, _, base, _, h⟩ := h
      exact ⟨base, h⟩
  · simp only [peReplaceAuthenticodePkcs7CertificateAt, Outcome.bind_eq_ok] at h
    obtain ⟨_, _, _, _, _, _, _, _, _, _, _, _, base, _, h⟩ := h
    exact ⟨base, h⟩
  · simp only [peRemoveAuthenticodeCertificates, Outcome.bind_eq_ok] at h
    obtain ⟨⟨va, size⟩, _, h⟩ := h
    by_cases hnone : va = 0 ∨ size = 0
    · rw [if_pos hnone] at h
      have hzero : 0 = removed := (Prod.mk.inj (Except.ok.inj h)).2
      omega
    · rw [if_neg hnone] at h
      simp only [Outcome.bind_eq_ok] at h
      obtain ⟨_, _, _, _, base, _, out', hrefresh, h⟩ := h
      obtain rfl := (Prod.mk.inj (Except.ok.inj h)).1
      exact ⟨base, hrefresh⟩

/-- The checksum of a file with its field at an even offset is the folded sum of its other
words and its length; it does not depend on the field; and where the file was rewritten, the
field holds it. -/
theorem pe_image_checksum_stable {out : List UInt8}
    (hoff : peChecksumFieldFileOffset out = .ok checkOff) (heven : checkOff % 2 = 0) :
    peComputeImageChecksum out = .ok (imageChecksum out checkOff) ∧
    (∀ field : List UInt8, field.length = 4 →
      peComputeImageChecksum (patch out checkOff field) = peComputeImageChecksum out) ∧
    ∀ image, Rewrites image out → peReadImageChecksum out = peComputeImageChecksum out := by
  refine ⟨peComputeImageChecksum_eq hoff heven, ?_, ?_⟩
  · intro field hfield
    exact peComputeImageChecksum_patch hfield hoff heven
  · intro image h
    obtain ⟨base, hbase⟩ := exists_refresh_of_rewrites h
    exact peRefreshImageChecksum_eq_ok hbase hoff heven

set_option maxRecDepth 6000

theorem pe_image_checksum_stable_signedTinyPe :
    peReadImageChecksum signedTinyPe = peComputeImageChecksum signedTinyPe :=
  (@pe_image_checksum_stable 152 signedTinyPe (by decide) (by decide)).2.2 (tinyPe 0 0)
    (Or.inl ⟨[0x30, 0x00], by decide⟩)

/-- `tinyPe` with its headers at an odd offset, and a one in its `CheckSum` field. -/
def oddPe : List UInt8 :=
  patch ((tinyPe 0 0).take 60 ++ u32le 0x41 ++ [0] ++ (tinyPe 0 0).drop 64 ++
    List.replicate 7 0) 153 [1]

/-- An image without signatures is returned as it is, and the field of `tinyPe` is zero.  At
an odd offset, the word in front of the field takes a byte of it. -/
theorem checksum_not_refreshed :
    (∃ out removed, peRemoveAuthenticodeCertificates (tinyPe 0 0) = .ok (out, removed) ∧
      peReadImageChecksum out ≠ peComputeImageChecksum out) ∧
    ∃ out, peAppendAuthenticodePkcs7Certificate oddPe [0x30, 0x00] = .ok out ∧
      peReadImageChecksum out ≠ peComputeImageChecksum out := by
  constructor
  · exact ⟨tinyPe 0 0, 0, by decide, by decide⟩
  · exact ⟨(peAppendAuthenticodePkcs7Certificate oddPe [0x30, 0x00]).toOption.getD [],
      by decide, by decide⟩

end Psign.Sip
