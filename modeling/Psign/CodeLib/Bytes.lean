import Mathlib.Data.List.Basic
import Psign.CodeLib.Members

/-!
# Byte images

A file as a list of bytes: slices (`slice`), little-endian numbers at an offset
(`u16At`, `u32At`) and overwriting in place (`patch`).

Two images agree on a range of offsets (`SameOn`) when they have the same bytes
there.  Whatever is read from the range is the same in both, and a patch agrees
with the image it was made in everywhere outside of itself.
-/

namespace CodeLib.Bytes

/-! ## Definitions -/

/-- `data.get(start..stop)`: the bytes of a range that lies in the image. -/
def slice (image : List UInt8) (start stop : Nat) : Option (List UInt8) :=
  if start ≤ stop ∧ stop ≤ image.length then some ((image.take stop).drop start) else none

/-- The byte at an offset as a number, zero past the end. -/
def byteAt (image : List UInt8) (offset : Nat) : Nat :=
  (image.getD offset 0).toNat

/-- `u16::from_le_bytes` at an offset. -/
def u16At (image : List UInt8) (offset : Nat) : Nat :=
  byteAt image offset + 256 * byteAt image (offset + 1)

/-- `u32::from_le_bytes` at an offset. -/
def u32At (image : List UInt8) (offset : Nat) : Nat :=
  u16At image offset + 65536 * u16At image (offset + 2)

/-- `u16::to_le_bytes`. -/
def u16le (n : Nat) : List UInt8 :=
  [UInt8.ofNat (n % 256), UInt8.ofNat (n / 256)]

/-- `u32::to_le_bytes`. -/
def u32le (n : Nat) : List UInt8 :=
  u16le (n % 65536) ++ u16le (n / 65536)

/-- Overwrite bytes in place. -/
def patch (image : List UInt8) (offset : Nat) (data : List UInt8) : List UInt8 :=
  image.take offset ++ data ++ image.drop (offset + data.length)

/-- The bytes in lowercase hexadecimal. -/
def hexLower (bytes : List UInt8) : String :=
  String.ofList (bytes.flatMap fun b => [Nat.digitChar (b.toNat / 16), Nat.digitChar (b.toNat % 16)])

/-- `{:x}`. -/
def hex (n : Nat) : String :=
  String.ofList (Nat.toDigits 16 n)

/-- `{:08x}`. -/
def hex08 (n : Nat) : String :=
  let digits := Nat.toDigits 16 n
  String.ofList (List.replicate (8 - digits.length) '0' ++ digits)

/-- Two images have the same bytes from `lo` up to `hi`. -/
def SameOn (image image' : List UInt8) (lo hi : Nat) : Prop :=
  ∀ i, lo ≤ i → i < hi → image[i]? = image'[i]?

/-! ## Numbers -/

@[simp] theorem length_u32le (n : Nat) : (u32le n).length = 4 := rfl

theorem byteAt_lt (image : List UInt8) (offset : Nat) : byteAt image offset < 256 :=
  UInt8.toNat_lt _

theorem u16At_lt (image : List UInt8) (offset : Nat) : u16At image offset < 2 ^ 16 := by
  have h0 := byteAt_lt image offset
  have h1 := byteAt_lt image (offset + 1)
  simp only [u16At]
  omega

theorem u32At_lt (image : List UInt8) (offset : Nat) : u32At image offset < 2 ^ 32 := by
  have h0 := byteAt_lt image offset
  have h1 := byteAt_lt image (offset + 1)
  have h2 := byteAt_lt image (offset + 2)
  have h3 := byteAt_lt image (offset + 2 + 1)
  unfold u32At u16At
  omega

/-! ## Agreement -/

theorem SameOn.mono {image image' : List UInt8} {lo hi lo' hi' : Nat}
    (h : SameOn image image' lo hi) (hlo : lo ≤ lo') (hhi : hi' ≤ hi) :
    SameOn image image' lo' hi' :=
  fun i hl hh => h i (Nat.le_trans hlo hl) (Nat.lt_of_lt_of_le hh hhi)

theorem SameOn.symm {image image' : List UInt8} {lo hi : Nat} (h : SameOn image image' lo hi) :
    SameOn image' image lo hi :=
  fun i hl hh => (h i hl hh).symm

theorem SameOn.trans {image image' image'' : List UInt8} {lo hi : Nat}
    (h : SameOn image image' lo hi) (h' : SameOn image' image'' lo hi) :
    SameOn image image'' lo hi :=
  fun i hl hh => (h i hl hh).trans (h' i hl hh)

theorem sameOn_append (image more : List UInt8) (lo : Nat) :
    SameOn image (image ++ more) lo image.length :=
  fun _ _ hi => (List.getElem?_append_left hi).symm

theorem sameOn_take {image : List UInt8} (stop lo : Nat) :
    SameOn image (image.take stop) lo stop :=
  fun _ _ hi => (List.getElem?_take_of_lt hi).symm

theorem byteAt_congr {image image' : List UInt8} {offset : Nat}
    (h : SameOn image image' offset (offset + 1)) : byteAt image offset = byteAt image' offset := by
  rw [byteAt, byteAt, List.getD, List.getD, h offset (Nat.le_refl _) (Nat.lt_succ_self _)]

theorem u16At_congr {image image' : List UInt8} {offset : Nat}
    (h : SameOn image image' offset (offset + 2)) : u16At image offset = u16At image' offset := by
  rw [u16At, u16At, byteAt_congr (h.mono (Nat.le_refl _) (by omega)),
    byteAt_congr (h.mono (by omega) (Nat.le_refl _))]

theorem u32At_congr {image image' : List UInt8} {offset : Nat}
    (h : SameOn image image' offset (offset + 4)) : u32At image offset = u32At image' offset := by
  rw [u32At, u32At, u16At_congr (h.mono (Nat.le_refl _) (by omega)),
    u16At_congr (h.mono (by omega) (Nat.le_refl _))]

theorem slice_congr {image image' : List UInt8} {start stop : Nat}
    (h : SameOn image image' start stop) (hlen : stop ≤ image.length) (hlen' : stop ≤ image'.length) :
    slice image start stop = slice image' start stop := by
  unfold slice
  by_cases hle : start ≤ stop
  · rw [if_pos ⟨hle, hlen⟩, if_pos ⟨hle, hlen'⟩]
    congr 1
    apply List.ext_getElem?
    intro i
    rw [List.getElem?_drop, List.getElem?_drop]
    by_cases hi : start + i < stop
    · rw [List.getElem?_take_of_lt hi, List.getElem?_take_of_lt hi]
      exact h _ (Nat.le_add_right _ _) hi
    · rw [List.getElem?_eq_none (by rw [List.length_take]; omega),
        List.getElem?_eq_none (by rw [List.length_take]; omega)]
  · rw [if_neg (fun hc => hle hc.1), if_neg (fun hc => hle hc.1)]

/-! ## Slices -/

theorem slice_eq_some {image bytes : List UInt8} {start stop : Nat} :
    slice image start stop = some bytes ↔
      start ≤ stop ∧ stop ≤ image.length ∧ bytes = (image.take stop).drop start := by
  unfold slice
  split
  · rename_i h
    simp [h, eq_comm]
  · rename_i h
    simp only [reduceCtorEq, false_iff]
    exact fun hc => h ⟨hc.1, hc.2.1⟩

/-- The bytes between two others. -/
theorem slice_middle (before middle after : List UInt8) :
    slice (before ++ (middle ++ after)) before.length (before.length + middle.length) =
      some middle := by
  refine slice_eq_some.mpr ⟨Nat.le_add_right .., ?_, ?_⟩
  · simp only [List.length_append]
    omega
  · rw [List.take_length_add_append, List.drop_left, List.take_left]

theorem length_of_slice {image bytes : List UInt8} {start stop : Nat}
    (h : slice image start stop = some bytes) : bytes.length = stop - start := by
  obtain ⟨hle, hlen, rfl⟩ := slice_eq_some.mp h
  rw [List.length_drop, List.length_take, Nat.min_eq_left hlen]

/-- A slice of four bytes, byte by byte. -/
theorem slice_four {image : List UInt8} {start : Nat} {a b c d : UInt8} :
    slice image start (start + 4) = some [a, b, c, d] ↔
      image[start]? = some a ∧ image[start + 1]? = some b ∧ image[start + 2]? = some c ∧
        image[start + 3]? = some d := by
  rw [slice_eq_some]
  constructor
  · intro h
    obtain ⟨-, hlen, heq⟩ := h
    have hat : ∀ i, i < 4 → image[start + i]? = [a, b, c, d][i]? := by
      intro i hi
      rw [heq, List.getElem?_drop, List.getElem?_take_of_lt (by omega)]
    exact ⟨hat 0 (by decide), hat 1 (by decide), hat 2 (by decide), hat 3 (by decide)⟩
  · intro h
    obtain ⟨ha, hb, hc, hd⟩ := h
    obtain ⟨hlen, -⟩ := List.getElem?_eq_some_iff.mp hd
    refine ⟨by omega, by omega, ?_⟩
    apply List.ext_getElem?
    intro i
    rw [List.getElem?_drop]
    by_cases hi : i < 4
    · rw [List.getElem?_take_of_lt (by omega)]
      match i, hi with
      | 0, _ => exact ha.symm
      | 1, _ => exact hb.symm
      | 2, _ => exact hc.symm
      | 3, _ => exact hd.symm
    · rw [List.getElem?_eq_none (by simp only [List.length_cons, List.length_nil]; omega),
        List.getElem?_eq_none (by rw [List.length_take]; omega)]

/-! ## Patches -/

theorem length_patch {image data : List UInt8} {offset : Nat}
    (h : offset + data.length ≤ image.length) : (patch image offset data).length = image.length := by
  simp only [patch, List.length_append, List.length_take, List.length_drop]
  omega

theorem getElem?_patch_of_outside {image data : List UInt8} {offset i : Nat}
    (h : offset + data.length ≤ image.length) (hi : i < offset ∨ offset + data.length ≤ i) :
    (patch image offset data)[i]? = image[i]? := by
  have htake : (image.take offset).length = offset := List.length_take_of_le (by omega)
  rcases hi with hi | hi
  · rw [patch, List.append_assoc, List.getElem?_append_left (by omega),
      List.getElem?_take_of_lt hi]
  · rw [patch, List.getElem?_append_right (by rw [List.length_append]; omega),
      List.getElem?_drop, List.length_append, htake]
    congr 1
    omega

/-- A patch agrees with the image outside of itself. -/
theorem sameOn_patch {image data : List UInt8} {offset lo hi : Nat}
    (h : offset + data.length ≤ image.length) (hout : hi ≤ offset ∨ offset + data.length ≤ lo) :
    SameOn image (patch image offset data) lo hi := by
  intro i hl hh
  refine (getElem?_patch_of_outside h ?_).symm
  rcases hout with hout | hout
  · exact Or.inl (by omega)
  · exact Or.inr (by omega)

/-- The bytes of a patch are in it. -/
theorem getElem?_patch_of_inside {image data : List UInt8} {offset i : Nat}
    (h : offset + data.length ≤ image.length) (hi : i < data.length) :
    (patch image offset data)[offset + i]? = data[i]? := by
  have htake : (image.take offset).length = offset := List.length_take_of_le (by omega)
  rw [patch, List.append_assoc, List.getElem?_append_right (by omega), htake,
    Nat.add_sub_cancel_left, List.getElem?_append_left hi]

/-- A number written with `u32le` is read back. -/
theorem u32At_patch {image data : List UInt8} {offset n : Nat} (k : Nat)
    (h : offset + data.length ≤ image.length) (hn : n < 2 ^ 32)
    (hdata : (data.drop k).take 4 = u32le n) :
    u32At (patch image offset data) (offset + k) = n := by
  have hat : ∀ i (_ : i < 4), (patch image offset data)[offset + k + i]? = (u32le n)[i]? := by
    intro i hi
    rw [← hdata, List.getElem?_take_of_lt hi, List.getElem?_drop]
    have hlen : (u32le n).length ≤ data.length - k := by
      rw [← hdata, List.length_take, List.length_drop]
      omega
    rw [length_u32le] at hlen
    rw [Nat.add_assoc]
    exact getElem?_patch_of_inside h (by omega)
  have h0 := hat 0 (by decide)
  have h1 := hat 1 (by decide)
  have h2 := hat 2 (by decide)
  have h3 := hat 3 (by decide)
  simp only [u32At, u16At, byteAt, List.getD, Nat.add_assoc] at *
  simp only [Nat.add_zero] at h0
  rw [h0, h1, h2, h3]
  simp only [u32le, u16le, List.cons_append, List.nil_append, List.getElem?_cons_zero,
    List.getElem?_cons_succ, Option.getD_some, UInt8.toNat_ofNat']
  omega

/-- A patch in the middle of a file. -/
theorem patch_append_middle {before record after data : List UInt8} {k : Nat}
    (h : k + data.length ≤ record.length) :
    patch (before ++ record ++ after) (before.length + k) data =
      before ++ patch record k data ++ after := by
  have htake : (before ++ record ++ after).take (before.length + k) = before ++ record.take k := by
    rw [List.append_assoc, List.take_length_add_append, List.take_append_of_le_length (by omega)]
  have hdrop : (before ++ record ++ after).drop (before.length + k + data.length) =
      record.drop (k + data.length) ++ after := by
    rw [List.append_assoc, Nat.add_assoc, List.drop_length_add_append,
      List.drop_append_of_le_length h]
  rw [patch, htake, hdrop, patch]
  simp only [List.append_assoc]

/-! ## Numbers in what is written -/

theorem byteAt_append_right (before rest : List UInt8) (k : Nat) :
    byteAt (before ++ rest) (before.length + k) = byteAt rest k := by
  rw [byteAt, byteAt, List.getD, List.getD, List.getElem?_append_right (by omega),
    Nat.add_sub_cancel_left]

theorem u16At_append_right (before rest : List UInt8) (k : Nat) :
    u16At (before ++ rest) (before.length + k) = u16At rest k := by
  rw [u16At, u16At, byteAt_append_right, Nat.add_assoc, byteAt_append_right]

theorem u32At_append_right (before rest : List UInt8) (k : Nat) :
    u32At (before ++ rest) (before.length + k) = u32At rest k := by
  rw [u32At, u32At, u16At_append_right, Nat.add_assoc, u16At_append_right]

theorem u16At_u16le {n : Nat} (h : n < 2 ^ 16) (rest : List UInt8) :
    u16At (u16le n ++ rest) 0 = n := by
  show (UInt8.ofNat (n % 256)).toNat + 256 * (UInt8.ofNat (n / 256)).toNat = n
  simp only [UInt8.toNat_ofNat']
  omega

theorem u32At_u32le {n : Nat} (h : n < 2 ^ 32) (rest : List UInt8) :
    u32At (u32le n ++ rest) 0 = n := by
  have hlow : u16At (u32le n ++ rest) 0 = n % 65536 := by
    rw [u32le, List.append_assoc, u16At_u16le (by omega)]
  have hhigh : u16At (u32le n ++ rest) 2 = n / 65536 := by
    rw [u32le, List.append_assoc]
    exact (u16At_append_right (u16le (n % 65536)) _ 0).trans (u16At_u16le (by omega) rest)
  rw [u32At, hlow, Nat.zero_add, hhigh]
  omega
/-! ## Agreement outside of a range -/

/-- The same length and the same bytes outside of a range. -/
structure SameOutside (image image' : List UInt8) (lo hi : Nat) : Prop where
  length_eq : image'.length = image.length
  same : ∀ i, i < lo ∨ hi ≤ i → image[i]? = image'[i]?

section SameOutside

variable {image image' image'' : List UInt8} {lo hi lo' hi' : Nat}

theorem SameOutside.refl (image : List UInt8) (lo hi : Nat) : SameOutside image image lo hi :=
  ⟨rfl, fun _ _ => rfl⟩

theorem SameOutside.symm (h : SameOutside image image' lo hi) : SameOutside image' image lo hi :=
  ⟨h.length_eq.symm, fun i hi => (h.same i hi).symm⟩

theorem SameOutside.trans (h : SameOutside image image' lo hi)
    (h' : SameOutside image' image'' lo hi) : SameOutside image image'' lo hi :=
  ⟨h'.length_eq.trans h.length_eq, fun i hi => (h.same i hi).trans (h'.same i hi)⟩

theorem SameOutside.sameOn (h : SameOutside image image' lo hi) (hout : hi' ≤ lo ∨ hi ≤ lo') :
    SameOn image image' lo' hi' := by
  intro i hl hh
  exact h.same i (by omega)

theorem SameOutside.u16At (h : SameOutside image image' lo hi) {offset : Nat}
    (hout : offset + 2 ≤ lo ∨ hi ≤ offset) : u16At image' offset = u16At image offset :=
  (u16At_congr (h.sameOn hout)).symm

theorem SameOutside.u32At (h : SameOutside image image' lo hi) {offset : Nat}
    (hout : offset + 4 ≤ lo ∨ hi ≤ offset) : u32At image' offset = u32At image offset :=
  (u32At_congr (h.sameOn hout)).symm

/-- A patch changes nothing outside of itself. -/
theorem sameOutside_patch {image : List UInt8} (data : List UInt8) {offset : Nat}
    (h : offset + data.length ≤ image.length) :
    SameOutside image (patch image offset data) offset (offset + data.length) :=
  ⟨length_patch h, fun _ hi => (getElem?_patch_of_outside h hi).symm⟩

/-- Patches with the same data keep what two images agree on. -/
theorem SameOutside.patch (h : SameOutside image image' lo hi) (data : List UInt8) {offset : Nat}
    (hlen : offset + data.length ≤ image.length) :
    SameOutside (patch image offset data) (patch image' offset data) lo hi := by
  have hlen' : offset + data.length ≤ image'.length := h.length_eq ▸ hlen
  refine ⟨by rw [length_patch hlen, length_patch hlen', h.length_eq], ?_⟩
  intro i hi
  by_cases hinside : offset ≤ i ∧ i < offset + data.length
  · obtain ⟨k, rfl⟩ := Nat.exists_eq_add_of_le hinside.1
    rw [getElem?_patch_of_inside hlen (by omega), getElem?_patch_of_inside hlen' (by omega)]
  · rw [getElem?_patch_of_outside hlen (by omega), getElem?_patch_of_outside hlen' (by omega)]
    exact h.same i hi

end SameOutside

theorem u16At_patch_self {image : List UInt8} {offset n : Nat} (h : offset + 2 ≤ image.length)
    (hn : n < 2 ^ 16) : u16At (patch image offset (u16le n)) offset = n := by
  have htake : (image.take offset).length = offset := List.length_take_of_le (by omega)
  have hat := u16At_append_right (image.take offset) (u16le n ++ image.drop (offset + 2)) 0
  rw [htake] at hat
  rw [patch, List.append_assoc]
  exact hat.trans (u16At_u16le hn _)

theorem u32At_patch_self {image : List UInt8} {offset n : Nat} (h : offset + 4 ≤ image.length)
    (hn : n < 2 ^ 32) : u32At (patch image offset (u32le n)) offset = n := by
  have htake : (image.take offset).length = offset := List.length_take_of_le (by omega)
  have hat := u32At_append_right (image.take offset) (u32le n ++ image.drop (offset + 4)) 0
  rw [htake] at hat
  rw [patch, List.append_assoc]
  exact hat.trans (u32At_u32le hn _)

theorem byteAt_drop (image : List UInt8) (start offset : Nat) :
    byteAt (image.drop start) offset = byteAt image (start + offset) := by
  rw [byteAt, byteAt, List.getD, List.getD, List.getElem?_drop]

theorem u16At_drop (image : List UInt8) (start offset : Nat) :
    u16At (image.drop start) offset = u16At image (start + offset) := by
  rw [u16At, u16At, byteAt_drop, byteAt_drop, Nat.add_assoc]

theorem u32At_drop (image : List UInt8) (start offset : Nat) :
    u32At (image.drop start) offset = u32At image (start + offset) := by
  rw [u32At, u32At, u16At_drop, u16At_drop, Nat.add_assoc]

theorem u16At_take {image : List UInt8} {stop offset : Nat} (h : offset + 2 ≤ stop) :
    u16At (image.take stop) offset = u16At image offset :=
  (u16At_congr ((sameOn_take stop 0).mono (Nat.zero_le _) h)).symm

theorem u32At_take {image : List UInt8} {stop offset : Nat} (h : offset + 4 ≤ stop) :
    u32At (image.take stop) offset = u32At image offset :=
  (u32At_congr ((sameOn_take stop 0).mono (Nat.zero_le _) h)).symm

theorem take_eq_of_sameOn {image image' : List UInt8} {stop : Nat}
    (h : SameOn image image' 0 stop) : image.take stop = image'.take stop := by
  apply List.ext_getElem?
  intro i
  by_cases hi : i < stop
  · rw [List.getElem?_take_of_lt hi, List.getElem?_take_of_lt hi]
    exact h i (Nat.zero_le _) hi
  · rw [List.getElem?_take_eq_none (Nat.le_of_not_lt hi),
      List.getElem?_take_eq_none (Nat.le_of_not_lt hi)]

theorem u16At_append_left {image : List UInt8} (rest : List UInt8) {offset : Nat}
    (h : offset + 2 ≤ image.length) : u16At (image ++ rest) offset = u16At image offset :=
  u16At_congr ((sameOn_append image rest 0).symm.mono (Nat.zero_le _) h)

theorem u32At_append_left {image : List UInt8} (rest : List UInt8) {offset : Nat}
    (h : offset + 4 ≤ image.length) : u32At (image ++ rest) offset = u32At image offset :=
  u32At_congr ((sameOn_append image rest 0).symm.mono (Nat.zero_le _) h)

/-! ## Writing back what was read -/

/-- A number that is read is written back. -/
theorem u16le_u16At {image : List UInt8} {offset : Nat} (h : offset + 2 ≤ image.length) :
    u16le (u16At image offset) = (image.drop offset).take 2 := by
  have hoffset : offset < image.length := by omega
  have hnext : offset + 1 < image.length := by omega
  have hfirst : byteAt image offset = image[offset].toNat := by
    rw [byteAt, List.getD, List.getElem?_eq_getElem hoffset]
    rfl
  have hsecond : byteAt image (offset + 1) = image[offset + 1].toNat := by
    rw [byteAt, List.getD, List.getElem?_eq_getElem hnext]
    rfl
  have hlt := image[offset].toNat_lt
  have hlt' := image[offset + 1].toNat_lt
  rw [List.drop_eq_getElem_cons (by omega), List.drop_eq_getElem_cons (by omega), u16le, u16At, hfirst,
    hsecond, List.take_succ_cons, List.take_succ_cons, List.take_zero]
  congr 1
  · apply UInt8.toNat_inj.mp
    rw [UInt8.toNat_ofNat']
    omega
  · congr 1
    apply UInt8.toNat_inj.mp
    rw [UInt8.toNat_ofNat']
    omega

theorem take_drop_add (image : List UInt8) (start m n : Nat) :
    (image.drop start).take (m + n) = (image.drop start).take m ++ (image.drop (start + m)).take n := by
  rw [List.take_add, List.drop_drop]

theorem u32le_u32At {image : List UInt8} {offset : Nat} (h : offset + 4 ≤ image.length) :
    u32le (u32At image offset) = (image.drop offset).take 4 := by
  have hlow := u16At_lt image offset
  have hhigh := u16At_lt image (offset + 2)
  have hmod : u32At image offset % 65536 = u16At image offset := by
    rw [u32At]
    omega
  have hdiv : u32At image offset / 65536 = u16At image (offset + 2) := by
    rw [u32At]
    omega
  rw [u32le, hmod, hdiv, u16le_u16At (by omega), u16le_u16At (by omega)]
  exact (take_drop_add image offset 2 2).symm

theorem u32le_inj {m n : Nat} (hm : m < 2 ^ 32) (hn : n < 2 ^ 32) :
    u32le m = u32le n ↔ m = n := by
  constructor
  · intro h
    have hread := congrArg (fun bytes => u32At (bytes ++ []) 0) h
    simpa only [u32At_u32le hm, u32At_u32le hn] using hread
  · exact fun h => h ▸ rfl

/-- A signature of four bytes is a number. -/
theorem slice_four_eq_u32le {image : List UInt8} {start n : Nat} (hn : n < 2 ^ 32) :
    slice image start (start + 4) = some (u32le n) ↔
      start + 4 ≤ image.length ∧ u32At image start = n := by
  rw [slice_eq_some]
  constructor
  · intro ⟨_, hlen, heq⟩
    refine ⟨hlen, (u32le_inj (u32At_lt _ _) hn).mp ?_⟩
    rw [u32le_u32At hlen, heq, List.drop_take, Nat.add_sub_cancel_left]
  · intro ⟨hlen, heq⟩
    refine ⟨by omega, hlen, ?_⟩
    rw [← heq, u32le_u32At hlen, List.drop_take, Nat.add_sub_cancel_left]

/-- A second patch at the same place replaces the first. -/
theorem patch_patch {image data data' : List UInt8} {offset : Nat}
    (hlen : offset + data.length ≤ image.length) (hsame : data.length = data'.length) :
    patch (patch image offset data) offset data' = patch image offset data' := by
  have htake : (image.take offset).length = offset := List.length_take_of_le (by omega)
  have hstart : (patch image offset data).take offset = image.take offset := by
    rw [patch, List.append_assoc, List.take_left' htake]
  have hend : (patch image offset data).drop (offset + data'.length) =
      image.drop (offset + data'.length) := by
    rw [patch, List.drop_append_of_le_length (by rw [List.length_append]; omega),
      List.drop_eq_nil_of_le (by rw [List.length_append]; omega), List.nil_append, hsame]
  rw [patch, hstart, hend, ← patch]

/-- A patch with the bytes that are there changes nothing. -/
theorem patch_self {image data : List UInt8} {offset : Nat}
    (h : data = (image.drop offset).take data.length) : patch image offset data = image := by
  rw [patch, List.append_assoc, ← List.drop_drop]
  nth_rewrite 1 [h]
  rw [List.take_append_drop, List.take_append_drop]

end CodeLib.Bytes
