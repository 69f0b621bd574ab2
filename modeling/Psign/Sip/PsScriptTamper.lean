import Psign.CodeLib.Utf8
import Psign.Sip.PsScriptRegion

/-!
# Changed scripts

What the digest of a script protects.  It is taken over the code units that the file is
decoded to, so two files with the same code units are the same to the verifier
(`powershellClassDigestReport_congr`).  The decoding is lossy: an odd last byte of a UTF-16
file is dropped, and every malformed piece of a UTF-8 file becomes U+FFFD.

A `Cut` takes the block out of the bytes of a file.  What is left of an accepted file is
protected exactly if the file has no UTF-16 byte order mark and no U+FFFD in the text
outside of its block (`script_tamper_evident_iff`).
-/

namespace Psign.Sip

open CodeLib CodeLib.RustStr CodeLib.Subslice CodeLib.Unicode

/-! ## The bytes behind the code units -/

/-- The encoding that the start of a file announces. -/
inductive ByteOrderMark where
  | utf16le
  | utf16be
  | absent
  deriving DecidableEq, Repr

def byteOrderMark (raw : List UInt8) : ByteOrderMark :=
  if bomLe <+: raw then .utf16le
  else if bomBe <+: raw then .utf16be
  else .absent

/-- The bytes whose code units the verifier looks at. -/
def content (raw : List UInt8) : List UInt8 :=
  match byteOrderMark raw with
  | .utf16be => raw.drop 2
  | _ => raw

/-- The code units of bytes. -/
def ByteOrderMark.decode : ByteOrderMark → List UInt8 → List UInt16
  | utf16le, bytes => mapPairs fromLeBytes bytes
  | utf16be, bytes => mapPairs fromBeBytes bytes
  | absent, bytes => encodeUtf16 (utf8Lossy bytes)

theorem verifiedUnits_eq_decode (raw : List UInt8) :
    verifiedUnits raw = (byteOrderMark raw).decode (content raw) := by
  by_cases hle : bomLe <+: raw
  · have hbom : byteOrderMark raw = .utf16le := if_pos hle
    rw [verifiedUnits, if_pos hle, fileUtf16Units, if_pos hle, content, hbom]
    obtain ⟨rest, rfl⟩ := hle
    rfl
  · by_cases hbe : bomBe <+: raw
    · have hbom : byteOrderMark raw = .utf16be := by
        rw [byteOrderMark, if_neg hle, if_pos hbe]
      rw [verifiedUnits, if_neg hle, fileUtf16Units, if_neg hle, if_pos hbe, content, hbom]
      rfl
    · have hbom : byteOrderMark raw = .absent := by
        rw [byteOrderMark, if_neg hle, if_neg hbe]
      rw [verifiedUnits, if_neg hle, fileUtf16Units, if_neg hle, if_neg hbe, content, hbom]
      rfl

theorem length_mapPairs (read : UInt8 → UInt8 → UInt16) (bytes : List UInt8) :
    (mapPairs read bytes).length = bytes.length / 2 := by
  induction bytes using mapPairs.induct with
  | case1 a b rest ih =>
    rw [mapPairs, List.length_cons, ih, List.length_cons, List.length_cons]
    omega
  | case2 bytes hshort =>
    rcases bytes with _ | ⟨a, _ | ⟨b, rest⟩⟩
    · rfl
    · exact (show 0 = 1 / 2 by decide)
    · exact absurd rfl (hshort a b rest)

theorem mapPairs_take (read : UInt8 → UInt8 → UInt16) (bytes : List UInt8) (k : Nat) :
    mapPairs read (bytes.take (2 * k)) = (mapPairs read bytes).take k := by
  induction k generalizing bytes with
  | zero => rfl
  | succ k ih =>
    match bytes with
    | [] => rfl
    | [a] =>
      rw [List.take_of_length_le (by show 1 ≤ _; omega)]
      rfl
    | a :: b :: rest =>
      rw [show 2 * (k + 1) = 2 * k + 1 + 1 by omega, List.take_succ_cons, List.take_succ_cons, mapPairs,
        mapPairs, List.take_succ_cons, ih]

theorem mapPairs_drop (read : UInt8 → UInt8 → UInt16) (bytes : List UInt8) (k : Nat) :
    mapPairs read (bytes.drop (2 * k)) = (mapPairs read bytes).drop k := by
  induction k generalizing bytes with
  | zero => rfl
  | succ k ih =>
    match bytes with
    | [] => rfl
    | [a] =>
      rw [List.drop_eq_nil_of_le (by show 1 ≤ _; omega)]
      rfl
    | a :: b :: rest =>
      rw [show 2 * (k + 1) = 2 * k + 1 + 1 by omega, List.drop_succ_cons, List.drop_succ_cons, mapPairs,
        List.drop_succ_cons, ih]

/-- The last byte of an odd number is not in a code unit. -/
theorem mapPairs_dropLast (read : UInt8 → UInt8 → UInt16) {bytes : List UInt8}
    (hodd : bytes.length % 2 = 1) : mapPairs read bytes.dropLast = mapPairs read bytes := by
  have hlen := length_mapPairs read bytes
  rw [List.dropLast_eq_take, show bytes.length - 1 = 2 * (bytes.length / 2) by omega, mapPairs_take,
    List.take_of_length_le (by omega)]

/-! ## Cutting out the block -/

/-- The content of a file in three pieces: what decodes to the code units before the
removed region, to the region, and to those behind it. -/
structure Cut (raw : List UInt8) (family : MarkerFamily) (before block after : List UInt8) : Prop where
  content_eq : content raw = before ++ block ++ after
  whole : byteOrderMark raw ≠ .absent → 2 ∣ before.length ∧ 2 ∣ block.length
  region : ∃ start stop, signatureRegion (verifiedUnits raw) family = .ok (start, stop) ∧
    (byteOrderMark raw).decode before = (verifiedUnits raw).take start ∧
    (byteOrderMark raw).decode block = removedRegion (verifiedUnits raw) start stop ∧
    (byteOrderMark raw).decode after = (verifiedUnits raw).drop stop

theorem exists_head_marker {family : MarkerFamily} {first : List UInt16}
    (h : first = (markers family).beginCr ∨ first = (markers family).begin_) :
    ∃ c rest, IsAscii c ∧ first = unit c :: rest := by
  rcases h with rfl | rfl
  · refine ⟨'\r', (markers family).beginCr.tail, by decide, ?_⟩
    cases family <;> decide
  · cases family
    · exact ⟨'#', (markers .hash).begin_.tail, by decide, by decide⟩
    · exact ⟨'<', (markers .xml).begin_.tail, by decide, by decide⟩
    · exact ⟨'/', (markers .mof).begin_.tail, by decide, by decide⟩

theorem exists_last_marker {family : MarkerFamily} {last : List UInt16}
    (h : last = (markers family).endCr ∨ last = (markers family).end_) :
    ∃ init d, IsAscii d ∧ last = init ++ [unit d] := by
  rcases h with rfl | rfl
  · refine ⟨(markers family).endCr.dropLast, '\n', by decide, ?_⟩
    cases family <;> decide
  · cases family
    · exact ⟨(markers .hash).end_.dropLast, 'k', by decide, by decide⟩
    · exact ⟨(markers .xml).end_.dropLast, '>', by decide, by decide⟩
    · exact ⟨(markers .mof).end_.dropLast, '/', by decide, by decide⟩

/-- The removed region starts and ends with an ASCII character. -/
theorem exists_removedRegion {units : List UInt16} {family : MarkerFamily} {start stop : Nat}
    (h : signatureRegion units family = .ok (start, stop)) :
    ∃ c middle d, IsAscii c ∧ IsAscii d ∧
      removedRegion units start stop = unit c :: (middle ++ [unit d]) := by
  obtain ⟨hlong, hle⟩ := signatureRegion_bounds h
  obtain ⟨first, last, endRel, hfirstFound, hlastFound, hstop⟩ := signatureRegion_eq_ok.mp h
  obtain ⟨hfirst, hstart⟩ := hfirstFound.firstAt?
  obtain ⟨hlast, hend⟩ := hlastFound.firstAt?
  obtain ⟨c, more, hc, rfl⟩ := exists_head_marker hfirst
  obtain ⟨init, d, hd, rfl⟩ := exists_last_marker hlast
  obtain ⟨post, hsplit, hlen⟩ := exists_split_of_firstAt? hstart
  obtain ⟨post', hsplit', hlen'⟩ := exists_split_of_firstAt? hend
  have hregion : removedRegion units start stop =
      ((units.drop start).take endRel ++ init) ++ [unit d] := by
    have hcut : stop - start = ((units.drop start).take endRel ++ (init ++ [unit d])).length := by
      rw [List.length_append, hlen', hstop]
      omega
    rw [removedRegion, List.drop_take]
    conv_lhs => rw [hsplit', hcut]
    rw [List.take_left, List.append_assoc]
  have hlength : (removedRegion units start stop).length = stop - start := by
    rw [removedRegion, List.length_drop, List.length_take_of_le hle]
  have hhead : (removedRegion units start stop).head? = some (unit c) := by
    have hdrop : units.drop start = unit c :: (more ++ post) := by
      conv_lhs => rw [hsplit, List.append_assoc]
      exact List.drop_left' hlen
    rw [removedRegion, List.drop_take, hdrop, show stop - start = stop - start - 1 + 1 by omega]
    rfl
  cases hinit : (units.drop start).take endRel ++ init with
  | nil =>
    rw [hregion, hinit] at hlength
    have hone : 1 = stop - start := hlength
    omega
  | cons u middle =>
    rw [hregion, hinit] at hhead
    obtain rfl : u = unit c := Option.some.inj hhead
    exact ⟨c, middle, d, hc, hd, by rw [hregion, hinit, List.cons_append]⟩

theorem decode_between {c d : Char} (hc : IsAscii c) (hd : IsAscii d) (inner : List UInt8) :
    ByteOrderMark.absent.decode (asciiByte c :: (inner ++ [asciiByte d])) =
      unit c :: (ByteOrderMark.absent.decode inner ++ [unit d]) := by
  have hfirst := utf8Lossy_append_asciiByte hc [] (inner ++ [asciiByte d])
  have hlast := utf8Lossy_append_asciiByte hd inner []
  show encodeUtf16 (utf8Lossy (asciiByte c :: (inner ++ [asciiByte d]))) = _
  rw [List.nil_append] at hfirst
  have hone : ∀ {e : Char}, IsAscii e → encodeUtf16 [e] = [unit e] := by
    intro e he
    exact encodeUtf16_of_isAscii (by simpa using he)
  rw [hfirst, hlast]
  show encodeUtf16 ([c] ++ (utf8Lossy inner ++ [d])) = _
  rw [encodeUtf16_append, encodeUtf16_append, hone hc, hone hd]
  rfl

/-- The block of a file that has markers can be cut out. -/
theorem exists_cut {raw : List UInt8} {family : MarkerFamily} {start stop : Nat}
    (h : signatureRegion (verifiedUnits raw) family = .ok (start, stop)) :
    ∃ before block after, Cut raw family before block after := by
  have hbounds := signatureRegion_bounds h
  have hpieces : ∀ read : UInt8 → UInt8 → UInt16, verifiedUnits raw = mapPairs read (content raw) →
      (∀ bytes, (byteOrderMark raw).decode bytes = mapPairs read bytes) →
      ∃ before block after, Cut raw family before block after := by
    intro read hunits hdecode
    have hlen : stop ≤ (content raw).length / 2 := by
      rw [← length_mapPairs read, ← hunits]
      exact hbounds.2
    refine ⟨(content raw).take (2 * start), ((content raw).take (2 * stop)).drop (2 * start),
      (content raw).drop (2 * stop), ?_⟩
    exact
      { content_eq := by
          rw [List.append_assoc, List.drop_take]
          conv_lhs => rw [← List.take_append_drop (2 * start) (content raw),
            ← List.take_append_drop (2 * stop - 2 * start) ((content raw).drop (2 * start)),
            List.drop_drop, show 2 * start + (2 * stop - 2 * start) = 2 * stop by omega]
        whole := fun _ => by
          rw [List.length_drop, List.length_take_of_le (by omega), List.length_take_of_le (by omega)]
          omega
        region := by
          refine ⟨start, stop, h, ?_, ?_, ?_⟩
          · rw [hdecode, mapPairs_take, hunits]
          · rw [hdecode, mapPairs_drop, mapPairs_take, ← hunits]
            rfl
          · rw [hdecode, mapPairs_drop, hunits] }
  have hunits := verifiedUnits_eq_decode raw
  cases hbom : byteOrderMark raw with
  | utf16le => exact hpieces fromLeBytes (by rw [hunits, hbom]; rfl) (fun bytes => by rw [hbom]; rfl)
  | utf16be => exact hpieces fromBeBytes (by rw [hunits, hbom]; rfl) (fun bytes => by rw [hbom]; rfl)
  | absent =>
    obtain ⟨c, middle, d, hc, hd, hregion⟩ := exists_removedRegion h
    have hsplit : verifiedUnits raw = (verifiedUnits raw).take start ++
        unit c :: (middle ++ unit d :: (verifiedUnits raw).drop stop) := by
      have hjoin : removedRegion (verifiedUnits raw) start stop ++ (verifiedUnits raw).drop stop =
          (verifiedUnits raw).drop start := by
        rw [removedRegion, List.drop_take]
        conv_rhs => rw [← List.take_append_drop (stop - start) ((verifiedUnits raw).drop start),
          List.drop_drop, show start + (stop - start) = stop by omega]
      conv_lhs => rw [← List.take_append_drop start (verifiedUnits raw), ← hjoin, hregion]
      simp only [List.cons_append, List.append_assoc, List.nil_append]
    rw [hbom] at hunits
    obtain ⟨before, rest, hcontent, hbefore, hrest⟩ :=
      exists_split_of_units hc (hunits.symm.trans hsplit)
    obtain ⟨inner, after, rfl, hinner, hafter⟩ := exists_split_of_units hd hrest
    refine ⟨before, asciiByte c :: (inner ++ [asciiByte d]), after, ?_⟩
    exact
      { content_eq := by
          rw [hcontent]
          simp only [List.append_assoc, List.cons_append, List.nil_append]
        whole := fun hne => absurd hbom hne
        region := by
          refine ⟨start, stop, h, ?_, ?_, ?_⟩
          · rw [hbom]
            exact hbefore
          · rw [hbom, hregion, ← hinner]
            exact decode_between hc hd inner
          · rw [hbom]
            exact hafter }

/-! ## Other bytes with the same code units -/

theorem mapPairs_append_even (read : UInt8 → UInt8 → UInt16) {bytes : List UInt8}
    (heven : 2 ∣ bytes.length) (more : List UInt8) :
    mapPairs read (bytes ++ more) = mapPairs read bytes ++ mapPairs read more := by
  have htake := mapPairs_take read (bytes ++ more) (bytes.length / 2)
  have hdrop := mapPairs_drop read (bytes ++ more) (bytes.length / 2)
  rw [show 2 * (bytes.length / 2) = bytes.length by omega, List.take_left] at htake
  rw [show 2 * (bytes.length / 2) = bytes.length by omega, List.drop_left] at hdrop
  rw [htake, hdrop, List.take_append_drop]

theorem eq_nil_of_decode_absent {bytes : List UInt8} (h : ByteOrderMark.absent.decode bytes = []) :
    bytes = [] := by
  have htext : utf8Lossy bytes = [] := by
    rw [← fromUtf16Lossy_encodeUtf16 (utf8Lossy bytes)]
    exact (congrArg fromUtf16Lossy h).trans rfl
  have hnone : replacement ∉ utf8Lossy bytes := by
    rw [htext]
    exact List.not_mem_nil
  have hencode := utf8Encode_utf8Lossy hnone
  rw [htext] at hencode
  exact hencode.symm

section cut

variable {raw before block after : List UInt8} {family : MarkerFamily}

/-- Without a byte order mark the block starts and ends with an ASCII byte. -/
theorem Cut.exists_block (h : Cut raw family before block after) (hbom : byteOrderMark raw = .absent) :
    ∃ c inner d, IsAscii c ∧ IsAscii d ∧ block = asciiByte c :: (inner ++ [asciiByte d]) := by
  obtain ⟨start, stop, hregion, _, hblock, _⟩ := h.region
  obtain ⟨c, middle, d, hc, hd, hshape⟩ := exists_removedRegion hregion
  rw [hbom, hshape] at hblock
  obtain ⟨lead, rest, hlead, hleadNil, hrest⟩ :=
    exists_split_of_units hc (show _ = [] ++ unit c :: (middle ++ [unit d]) from hblock)
  obtain rfl := eq_nil_of_decode_absent hleadNil
  obtain ⟨inner, trail, rfl, _, htrail⟩ := exists_split_of_units hd hrest
  obtain rfl := eq_nil_of_decode_absent htrail
  exact ⟨c, inner, d, hc, hd, hlead⟩

/-- The pieces around a block are decoded on their own. -/
theorem Cut.decode_append (h : Cut raw family before block after) {before' : List UInt8}
    (hwhole : byteOrderMark raw ≠ .absent → 2 ∣ before'.length) (after' : List UInt8) :
    (byteOrderMark raw).decode (before' ++ block ++ after') =
      (byteOrderMark raw).decode before' ++ (byteOrderMark raw).decode block ++
        (byteOrderMark raw).decode after' := by
  have hpairs : ∀ read : UInt8 → UInt8 → UInt16, byteOrderMark raw ≠ .absent →
      mapPairs read (before' ++ block ++ after') =
        mapPairs read before' ++ mapPairs read block ++ mapPairs read after' := by
    intro read hne
    rw [List.append_assoc, mapPairs_append_even read (hwhole hne),
      mapPairs_append_even read (h.whole hne).2, List.append_assoc]
  cases hbom : byteOrderMark raw with
  | utf16le => exact hpairs fromLeBytes (by rw [hbom]; decide)
  | utf16be => exact hpairs fromBeBytes (by rw [hbom]; decide)
  | absent =>
    obtain ⟨c, inner, d, hc, hd, rfl⟩ := h.exists_block hbom
    have hfirst := utf8Lossy_append_asciiByte hc before' (inner ++ asciiByte d :: after')
    have hlast := utf8Lossy_append_asciiByte hd inner after'
    have hshape : before' ++ asciiByte c :: (inner ++ [asciiByte d]) ++ after' =
        before' ++ asciiByte c :: (inner ++ asciiByte d :: after') := by simp
    have hone : ∀ {e : Char}, IsAscii e → encodeUtf16 [e] = [unit e] := by
      intro e he
      exact encodeUtf16_of_isAscii (by simpa using he)
    rw [decode_between hc hd, hshape]
    show encodeUtf16 (utf8Lossy _) = _
    rw [hfirst, hlast]
    show encodeUtf16 (utf8Lossy before' ++ ([c] ++ (utf8Lossy inner ++ ([d] ++ utf8Lossy after')))) = _
    rw [encodeUtf16_append, encodeUtf16_append, encodeUtf16_append, encodeUtf16_append, hone hc,
      hone hd]
    simp only [ByteOrderMark.decode, List.append_assoc, List.cons_append, List.nil_append]

/-- A file with other bytes around the block, but the same code units, is cut at the same
block. -/
theorem Cut.of_decode_eq {raw' before' after' : List UInt8} (h : Cut raw family before block after)
    (hbom : byteOrderMark raw' = byteOrderMark raw) (hcontent : content raw' = before' ++ block ++ after')
    (hwhole : byteOrderMark raw ≠ .absent → 2 ∣ before'.length)
    (hbefore : (byteOrderMark raw).decode before' = (byteOrderMark raw).decode before)
    (hafter : (byteOrderMark raw).decode after' = (byteOrderMark raw).decode after) :
    verifiedUnits raw' = verifiedUnits raw ∧ Cut raw' family before' block after' := by
  have hunits : verifiedUnits raw' = verifiedUnits raw := by
    rw [verifiedUnits_eq_decode, verifiedUnits_eq_decode, hbom, hcontent, h.content_eq,
      h.decode_append hwhole, h.decode_append (fun hne => (h.whole hne).1), hbefore, hafter]
  refine ⟨hunits, hcontent, ?_, ?_⟩
  · intro hne
    rw [hbom] at hne
    exact ⟨hwhole hne, (h.whole hne).2⟩
  · rw [hunits, hbom, hbefore, hafter]
    exact h.region

/-- The block is more than a byte order mark. -/
theorem Cut.two_le_block (h : Cut raw family before block after) : 2 ≤ block.length := by
  have hbounds : ∀ read, mapPairs read block = (byteOrderMark raw).decode block →
      2 ≤ block.length := by
    intro read hdecode
    obtain ⟨start, stop, hregion, _, hblock, _⟩ := h.region
    obtain ⟨hlong, hle⟩ := signatureRegion_bounds hregion
    have hlength := congrArg List.length (hdecode.trans hblock)
    rw [length_mapPairs, removedRegion, List.length_drop, List.length_take_of_le hle] at hlength
    omega
  cases hbom : byteOrderMark raw with
  | utf16le => exact hbounds fromLeBytes (by rw [hbom]; rfl)
  | utf16be => exact hbounds fromBeBytes (by rw [hbom]; rfl)
  | absent =>
    obtain ⟨c, inner, d, _, _, rfl⟩ := h.exists_block hbom
    rw [List.length_cons, List.length_append, List.length_singleton]
    omega

/-- The byte order mark is in the first two bytes. -/
theorem byteOrderMark_append {bytes : List UInt8} (hlen : 2 ≤ bytes.length) (more : List UInt8) :
    byteOrderMark (bytes ++ more) = byteOrderMark bytes := by
  have hprefixed : ∀ {bom : List UInt8}, bom.length = 2 → (bom <+: bytes ++ more ↔ bom <+: bytes) := by
    intro bom hbom
    constructor
    · intro h
      exact List.prefix_of_prefix_length_le h (List.prefix_append _ _) (hbom ▸ hlen)
    · intro h
      exact h.trans (List.prefix_append _ _)
  rw [byteOrderMark, byteOrderMark]
  simp only [hprefixed (show bomLe.length = 2 from rfl), hprefixed (show bomBe.length = 2 from rfl)]

theorem byteOrderMark_of_head {bytes : List UInt8} (h : ∀ b ∈ bytes.head?, b.toNat < 0xF8) :
    byteOrderMark bytes = .absent := by
  have hne : ∀ {bom : List UInt8} {b : UInt8}, bom.head? = some b → 0xF8 ≤ b.toNat →
      ¬ bom <+: bytes := by
    intro bom b hbom hb hprefixed
    obtain ⟨rest, rfl⟩ := hprefixed
    have := h b (by rw [List.head?_append, hbom]; rfl)
    omega
  rw [byteOrderMark, if_neg (hne (show bomLe.head? = some 0xFF from rfl) (by decide)),
    if_neg (hne (show bomBe.head? = some 0xFE from rfl) (by decide))]

/-- A last byte can be added or taken away without a change of the code units. -/
theorem exists_other_mapPairs (bytes : List UInt8) :
    ∃ bytes' : List UInt8, bytes'.length ≠ bytes.length ∧
      ∀ read, mapPairs read bytes' = mapPairs read bytes := by
  by_cases hodd : bytes.length % 2 = 1
  · refine ⟨bytes.dropLast, ?_, fun read => mapPairs_dropLast read hodd⟩
    rw [List.length_dropLast]
    omega
  · have hodd' : (bytes ++ [0]).length % 2 = 1 := by
      rw [List.length_append, List.length_singleton]
      omega
    refine ⟨bytes ++ [0], by simp, fun read => ?_⟩
    have hsame := mapPairs_dropLast read hodd'
    rw [List.dropLast_concat] at hsame
    exact hsame.symm

/-- What a file and the bytes outside of its block can be changed to, unseen by the
verifier. -/
def Unseen (raw : List UInt8) (family : MarkerFamily) (before block after : List UInt8) : Prop :=
  ∃ raw' before' after', byteOrderMark raw' = byteOrderMark raw ∧
    verifiedUnits raw' = verifiedUnits raw ∧ Cut raw' family before' block after' ∧
    before ++ after ≠ before' ++ after'

theorem unseen_of_utf16 (h : Cut raw family before block after) (hbom : byteOrderMark raw ≠ .absent) :
    Unseen raw family before block after := by
  obtain ⟨after', hlength, hpairs⟩ := exists_other_mapPairs after
  have hlong : 2 ≤ (before ++ block).length := by
    have := h.two_le_block
    rw [List.length_append]
    omega
  have hne : before ++ after ≠ before ++ after' := fun hsame =>
    hlength (congrArg List.length (List.append_cancel_left hsame)).symm
  have hcontent := h.content_eq
  cases hmark : byteOrderMark raw with
  | utf16le =>
    have hraw : content raw = raw := by rw [content, hmark]
    have hmark' : byteOrderMark (before ++ block ++ after') = .utf16le := by
      rw [byteOrderMark_append hlong, ← byteOrderMark_append hlong after, ← hcontent, hraw, hmark]
    have hcut := h.of_decode_eq (hmark'.trans hmark.symm) (by rw [content, hmark'])
      (fun hn => (h.whole hn).1) rfl (by rw [hmark]; exact hpairs fromLeBytes)
    exact ⟨_, before, after', hmark'.trans hmark.symm, hcut.1, hcut.2, hne⟩
  | utf16be =>
    have hmark' : byteOrderMark (bomBe ++ (before ++ block ++ after')) = .utf16be :=
      byteOrderMark_append (show 2 ≤ bomBe.length by decide) _
    have hcut := h.of_decode_eq (hmark'.trans hmark.symm) (by rw [content, hmark']; rfl)
      (fun hn => (h.whole hn).1) rfl (by rw [hmark]; exact hpairs fromBeBytes)
    exact ⟨_, before, after', hmark'.trans hmark.symm, hcut.1, hcut.2, hne⟩
  | absent => exact absurd hmark hbom

theorem unseen_of_replacement (h : Cut raw family before block after)
    (hbom : byteOrderMark raw = .absent)
    (hmem : replacement ∈ utf8Lossy before ++ utf8Lossy after) :
    Unseen raw family before block after := by
  have hcontent : raw = before ++ block ++ after := by
    have := h.content_eq
    rwa [content, hbom] at this
  have habsent : ∀ {raw'}, byteOrderMark raw' = .absent → content raw' = raw' := by
    intro raw' hraw'
    rw [content, hraw']
  rcases List.mem_append.mp hmem with hbefore | hafter
  · obtain ⟨before', hne, hsame, hhead⟩ := exists_other_utf8Lossy hbefore
    obtain ⟨c, inner, d, hc, _, hblock⟩ := h.exists_block hbom
    have hmark' : byteOrderMark (before' ++ block ++ after) = .absent := by
      apply byteOrderMark_of_head
      intro b hb
      rw [List.append_assoc, List.head?_append, hblock] at hb
      cases hbefore' : before'.head? with
      | none =>
        rw [hbefore'] at hb
        obtain rfl : asciiByte c = b := Option.some.inj hb
        have := toNat_asciiByte hc
        unfold IsAscii at hc
        omega
      | some first =>
        rw [hbefore'] at hb
        obtain rfl : first = b := Option.some.inj hb
        exact hhead first hbefore'
    have hcut := h.of_decode_eq (hmark'.trans hbom.symm) (habsent hmark')
      (fun hn => absurd hbom hn) (by rw [hbom]; exact congrArg encodeUtf16 hsame) rfl
    refine ⟨_, before', after, hmark'.trans hbom.symm, hcut.1, hcut.2, ?_⟩
    exact fun heq => hne (List.append_cancel_right heq).symm
  · obtain ⟨after', hne, hsame, _⟩ := exists_other_utf8Lossy hafter
    have hlong : 2 ≤ (before ++ block).length := by
      have := h.two_le_block
      rw [List.length_append]
      omega
    have hmark' : byteOrderMark (before ++ block ++ after') = .absent := by
      rw [byteOrderMark_append hlong, ← byteOrderMark_append hlong after, ← hcontent, hbom]
    have hcut := h.of_decode_eq (hmark'.trans hbom.symm) (habsent hmark')
      (fun hn => absurd hbom hn) rfl (by rw [hbom]; exact congrArg encodeUtf16 hsame)
    refine ⟨_, before, after', hmark'.trans hbom.symm, hcut.1, hcut.2, ?_⟩
    exact fun heq => hne (List.append_cancel_left heq).symm

/-- What is hashed of a file without a byte order mark is the text outside of its block. -/
theorem Cut.stripped_eq (h : Cut raw family before block after) (hbom : byteOrderMark raw = .absent)
    {units : List UInt16} (hunits : stripSignatureRegionUtf16 (verifiedUnits raw) family = .ok units) :
    units = encodeUtf16 (utf8Lossy before ++ utf8Lossy after) := by
  obtain ⟨⟨start, stop⟩, hregion, hstripped⟩ := Outcome.bind_eq_ok.mp hunits
  obtain ⟨start', stop', hregion', hbefore, _, hafter⟩ := h.region
  obtain ⟨rfl, rfl⟩ := Prod.mk.inj (Except.ok.inj (hregion.symm.trans hregion'))
  obtain rfl := Except.ok.inj hstripped
  rw [hbom] at hbefore hafter
  rw [encodeUtf16_append]
  show (verifiedUnits raw).take start ++ (verifiedUnits raw).drop stop = _
  rw [← hbefore, ← hafter]
  rfl

/-- Files without a byte order mark that agree in what is hashed agree in the bytes outside
of their blocks, if no replacement character is there. -/
theorem Cut.outside_eq {raw' before' block' after' : List UInt8} {units : List UInt16}
    (h : Cut raw family before block after) (h' : Cut raw' family before' block' after')
    (hbom : byteOrderMark raw = .absent) (hbom' : byteOrderMark raw' = .absent)
    (hunits : stripSignatureRegionUtf16 (verifiedUnits raw) family = .ok units)
    (hunits' : stripSignatureRegionUtf16 (verifiedUnits raw') family = .ok units)
    (hnone : replacement ∉ utf8Lossy before ++ utf8Lossy after) :
    before ++ after = before' ++ after' := by
  have htext : utf8Lossy before ++ utf8Lossy after = utf8Lossy before' ++ utf8Lossy after' := by
    rw [← fromUtf16Lossy_encodeUtf16 (utf8Lossy before ++ utf8Lossy after),
      ← h.stripped_eq hbom hunits, h'.stripped_eq hbom' hunits', fromUtf16Lossy_encodeUtf16]
  have hbytes : ∀ {a b : List UInt8}, replacement ∉ utf8Lossy a ++ utf8Lossy b →
      utf8Encode (utf8Lossy a ++ utf8Lossy b) = a ++ b := by
    intro a b hab
    rw [List.mem_append, not_or] at hab
    rw [utf8Encode_append, utf8Encode_utf8Lossy hab.1, utf8Encode_utf8Lossy hab.2]
  rw [← hbytes hnone, htext, hbytes (htext ▸ hnone)]

end cut

/-! ## Tamper evidence -/

variable {base64 : Base64Engine} {hashes : Hashes} {authenticode : AuthenticodeParser}

/-- The report is about the code units of a file. -/
theorem powershellClassDigestReport_congr {raw raw' : List UInt8} (ext : List Char)
    (h : verifiedUnits raw' = verifiedUnits raw) :
    powershellClassDigestReport base64 hashes authenticode raw' ext =
      powershellClassDigestReport base64 hashes authenticode raw ext := by
  simp only [powershellClassDigestReport, extractPkcs7DerFromScript, h]

/-- The hash tells what is hashed of the two files apart. -/
def ScriptsCollisionFree (hashes : Hashes) (family : MarkerFamily) (raw raw' : List UInt8) : Prop :=
  ∀ kind units units', stripSignatureRegionUtf16 (verifiedUnits raw) family = .ok units →
    stripSignatureRegionUtf16 (verifiedUnits raw') family = .ok units' →
    hashes.hash kind (utf16leBytes units) = hashes.hash kind (utf16leBytes units') →
    utf16leBytes units = utf16leBytes units'

/-- Every accepted file of the same extension and byte order mark that has the PKCS#7 of
this one has the same bytes outside of its block. -/
def ScriptTamperEvident (base64 : Base64Engine) (hashes : Hashes) (authenticode : AuthenticodeParser)
    (raw : List UInt8) (ext : List Char) : Prop :=
  ∀ raw' family report report' before block after before' block' after',
    powershellClassDigestReport base64 hashes authenticode raw ext = .ok report →
    powershellClassDigestReport base64 hashes authenticode raw' ext = .ok report' →
    report'.pkcs7Der = report.pkcs7Der → byteOrderMark raw' = byteOrderMark raw →
    markerFamily (toAsciiLowercase ext) = .ok family → ScriptsCollisionFree hashes family raw raw' →
    Cut raw family before block after → Cut raw' family before' block' after' →
    before ++ after = before' ++ after'

/-- The file is in UTF-8, and the text outside of its block has no replacement character. -/
def ReadsWithoutLoss (raw : List UInt8) (ext : List Char) : Prop :=
  byteOrderMark raw = .absent ∧ ∀ family before block after,
    markerFamily (toAsciiLowercase ext) = .ok family → Cut raw family before block after →
    replacement ∉ utf8Lossy before ++ utf8Lossy after

theorem utf16leBytes_inj {units units' : List UInt16} (h : utf16leBytes units = utf16leBytes units') :
    units = units' := by
  rw [← mapPairs_utf16leBytes units, h, mapPairs_utf16leBytes]

/-- What is hashed of two accepted files with one PKCS#7 is the same. -/
theorem stripped_eq_of_accepted {raw raw' : List UInt8} {ext : List Char} {family : MarkerFamily}
    {report report' : ScriptAuthenticodeDigestReport}
    (hreport : powershellClassDigestReport base64 hashes authenticode raw ext = .ok report)
    (hreport' : powershellClassDigestReport base64 hashes authenticode raw' ext = .ok report')
    (hpkcs7 : report'.pkcs7Der = report.pkcs7Der)
    (hfamily : markerFamily (toAsciiLowercase ext) = .ok family)
    (hcollision : ScriptsCollisionFree hashes family raw raw') :
    ∃ units, stripSignatureRegionUtf16 (verifiedUnits raw) family = .ok units ∧
      stripSignatureRegionUtf16 (verifiedUnits raw') family = .ok units := by
  obtain ⟨family₁, kind, units, _, hfamily₁, _, hdigest, hkind, hunits, hhash, _⟩ :=
    (powershellClassDigestReport_eq_ok base64 hashes authenticode).mp hreport
  obtain ⟨family₂, kind', units', _, hfamily₂, _, hdigest', hkind', hunits', hhash', _⟩ :=
    (powershellClassDigestReport_eq_ok base64 hashes authenticode).mp hreport'
  obtain rfl := Except.ok.inj (hfamily.symm.trans hfamily₁)
  obtain rfl := Except.ok.inj (hfamily.symm.trans hfamily₂)
  rw [hpkcs7, hdigest] at hdigest'
  have hembedded := Except.ok.inj hdigest'
  rw [← hembedded] at hkind' hhash'
  obtain rfl := Except.ok.inj (hkind.symm.trans hkind')
  have hsame := utf16leBytes_inj (hcollision kind units units' hunits hunits' (hhash.trans hhash'.symm))
  exact ⟨units, hunits, hsame ▸ hunits'⟩

/-- The bytes outside of the block of an accepted file are protected exactly if the file is
read without loss. -/
theorem script_tamper_evident_iff {raw : List UInt8} {ext : List Char}
    {report : ScriptAuthenticodeDigestReport}
    (hreport : powershellClassDigestReport base64 hashes authenticode raw ext = .ok report) :
    ScriptTamperEvident base64 hashes authenticode raw ext ↔ ReadsWithoutLoss raw ext := by
  obtain ⟨family, _, stripped, _, hfamily, _, _, _, hstripped, _, _⟩ :=
    (powershellClassDigestReport_eq_ok base64 hashes authenticode).mp hreport
  constructor
  · intro h
    -- a change that the verifier does not see contradicts the evidence
    have hseen : ∀ family before block after, markerFamily (toAsciiLowercase ext) = .ok family →
        Cut raw family before block after → ¬ Unseen raw family before block after := by
      intro family before block after hfamily hcut hunseen
      obtain ⟨raw', before', after', hbom, hunits, hcut', hne⟩ := hunseen
      refine hne (h raw' family report report before block after before' block after' hreport ?_ rfl
        hbom hfamily ?_ hcut hcut')
      · rw [powershellClassDigestReport_congr ext hunits]
        exact hreport
      · intro kind units units' hu hu' _
        rw [hunits] at hu'
        rw [Except.ok.inj (hu.symm.trans hu')]
    obtain ⟨⟨start, stop⟩, hregion, _⟩ := Outcome.bind_eq_ok.mp hstripped
    obtain ⟨before, block, after, hcut⟩ := exists_cut hregion
    have hbom : byteOrderMark raw = .absent := by
      by_contra hne
      exact hseen family before block after hfamily hcut (unseen_of_utf16 hcut hne)
    refine ⟨hbom, ?_⟩
    intro family before block after hfamily hcut hmem
    exact hseen family before block after hfamily hcut (unseen_of_replacement hcut hbom hmem)
  · intro h raw' family report report' before block after before' block' after' hreport hreport' hpkcs7
      hbom hfamily hcollision hcut hcut'
    obtain ⟨units, hunits, hunits'⟩ :=
      stripped_eq_of_accepted hreport hreport' hpkcs7 hfamily hcollision
    exact hcut.outside_eq hcut' h.1 (hbom.trans h.1) hunits hunits' (h.2 family _ _ _ hfamily hcut)

/-- A byte that is no UTF-8, and a block with a signature over U+FFFD. -/
def malformedScript (byte : UInt8) : List UInt8 :=
  byte :: utf8Encode ("\r\n# SIG # Begin signature block\r\n# ".toList ++
    Base64Engine.standard.encode (0x04 :: 32 :: 0xFD :: 0xFF :: List.replicate 30 0) ++
    "\r\n# SIG # End signature block\r\n".toList)

set_option maxRecDepth 2000

theorem script_tamper_evident_iff_malformed :
    ScriptTamperEvident Base64Engine.standard Hashes.truncating AuthenticodeParser.octetString
        (malformedScript 0xC0) "ps1".toList ↔
      ReadsWithoutLoss (malformedScript 0xC0) "ps1".toList :=
  @script_tamper_evident_iff Base64Engine.standard Hashes.truncating AuthenticodeParser.octetString
    (malformedScript 0xC0) "ps1".toList
    ⟨0x04 :: 32 :: 0xFD :: 0xFF :: List.replicate 30 0, 0xFD :: 0xFF :: List.replicate 30 0,
      0xFD :: 0xFF :: List.replicate 30 0⟩ (by decide)

theorem byteOrderMark_malformedScript :
    byteOrderMark (malformedScript 0xC0) = .absent ∧ byteOrderMark (malformedScript 0xC1) = .absent := by
  constructor <;> decide

theorem verifiedUnits_malformedScript :
    verifiedUnits (malformedScript 0xC1) = verifiedUnits (malformedScript 0xC0) := by
  decide

theorem cut_malformedScript :
    Cut (malformedScript 0xC0) .hash [0xC0] (malformedScript 0xC0).tail [] where
  content_eq := by decide
  whole hne := absurd byteOrderMark_malformedScript.1 hne
  region := ⟨1, 115, by decide, by decide, by decide, by decide⟩

theorem cut_malformedScript' :
    Cut (malformedScript 0xC1) .hash [0xC1] (malformedScript 0xC0).tail [] := by
  obtain ⟨hbom, hbom'⟩ := byteOrderMark_malformedScript
  have hsame : ByteOrderMark.absent.decode [0xC1] = ByteOrderMark.absent.decode [0xC0] := by
    decide
  refine (cut_malformedScript.of_decode_eq (hbom'.trans hbom.symm) ?_ (fun hne => absurd hbom hne) ?_
    rfl).2
  · decide
  · rw [hbom]
    exact hsame

/-- The byte in front of the block is changed: both files are accepted with one PKCS#7, and
the bytes outside of their blocks are not the same. -/
theorem malformed_byte_changed :
    powershellClassDigestReport Base64Engine.standard Hashes.truncating
        AuthenticodeParser.octetString (malformedScript 0xC0) "ps1".toList =
      .ok ⟨0x04 :: 32 :: 0xFD :: 0xFF :: List.replicate 30 0, 0xFD :: 0xFF :: List.replicate 30 0,
        0xFD :: 0xFF :: List.replicate 30 0⟩ ∧
    powershellClassDigestReport Base64Engine.standard Hashes.truncating
        AuthenticodeParser.octetString (malformedScript 0xC1) "ps1".toList =
      .ok ⟨0x04 :: 32 :: 0xFD :: 0xFF :: List.replicate 30 0, 0xFD :: 0xFF :: List.replicate 30 0,
        0xFD :: 0xFF :: List.replicate 30 0⟩ ∧
    ¬ ScriptTamperEvident Base64Engine.standard Hashes.truncating AuthenticodeParser.octetString
      (malformedScript 0xC0) "ps1".toList := by
  have hreport : powershellClassDigestReport Base64Engine.standard Hashes.truncating
      AuthenticodeParser.octetString (malformedScript 0xC0) "ps1".toList =
      .ok ⟨0x04 :: 32 :: 0xFD :: 0xFF :: List.replicate 30 0, 0xFD :: 0xFF :: List.replicate 30 0,
        0xFD :: 0xFF :: List.replicate 30 0⟩ := by decide
  have hreport' := (powershellClassDigestReport_congr "ps1".toList
    verifiedUnits_malformedScript).trans hreport
  refine ⟨hreport, hreport', ?_⟩
  intro h
  have hbom := byteOrderMark_malformedScript.2.trans byteOrderMark_malformedScript.1.symm
  have hequal := h _ .hash _ _ _ _ _ _ _ _ hreport hreport' rfl hbom rfl ?_ cut_malformedScript
    cut_malformedScript'
  · exact absurd hequal (by decide)
  · intro kind units units' hu hu' _
    rw [verifiedUnits_malformedScript] at hu'
    rw [Except.ok.inj (hu.symm.trans hu')]

end Psign.Sip
