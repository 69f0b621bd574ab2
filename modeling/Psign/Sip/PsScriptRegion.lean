import Psign.CodeLib.Utf8
import Psign.Sip.PsScript

/-!
# What the verifier of a script leaves out

Before hashing, `stripSignatureRegionUtf16` removes a region of code units.
Executable text in it would run without being signed, so the region should be
nothing but the begin marker, comment lines with base64 text, and the end
marker (`IsCommentRegion`).

The verifier does not check this.  The extraction of the PKCS#7 goes through the
lines of the block and ignores those it does not recognise, and the region is
removed whatever stands in it, between markers that are looked for with CR LF
around them first.  The region is made of comment lines exactly when the script
has a block with nothing to ignore that no other marker is taken for
(`isCommentRegion_removed_iff`).
-/

namespace Psign.Sip

open CodeLib CodeLib.RustStr CodeLib.Subslice CodeLib.Unicode

/-- A line end. -/
def IsEol (eol : List Char) : Prop :=
  eol = ['\n'] ∨ eol = ['\r', '\n']

/-- A complete comment line with base64 text.  A lone carriage return ends a
line for a script host, so there is none inside. -/
def IsCommentLine (family : MarkerFamily) (line : List Char) : Prop :=
  ∃ content eol token, line = content ++ eol ∧ IsEol eol ∧ '\r' ∉ content ∧ '\n' ∉ content ∧
    IsComment family content token

/-- The begin marker line, comment lines and the end marker; the markers may
bring a line end of their own before the first and after the second. -/
def IsCommentRegion (family : MarkerFamily) (region : List UInt16) : Prop :=
  ∃ (lead eol : List Char) (ls : List (List Char)) (trailer : List Char),
    (lead = [] ∨ lead = crlf) ∧ IsEol eol ∧ (∀ line ∈ ls, IsCommentLine family line) ∧
    (trailer = [] ∨ trailer = crlf) ∧
    region = encodeUtf16
      (lead ++ ((family.beginPat ++ eol) ++ (ls.flatten ++ (family.endPat ++ trailer))))

/-- A line that the extraction takes a token from, with no carriage return but
that of its line end. -/
def LineExtracted (family : MarkerFamily) (line : List Char) : Prop :=
  '\r' ∉ stripEol line ∧ (b64Token? family (stripEol line)).isSome

/-- The lines of a region, without the line end that a begin marker can bring. -/
def regionLines (text : List Char) : List (List Char) :=
  if (linesInclusive text).head? = some crlf then (linesInclusive text).tail
  else linesInclusive text

/-- The extraction takes a token from every line between the begin marker line
and the end marker. -/
def EveryLineExtracted (family : MarkerFamily) (text : List Char) : Prop :=
  ((regionLines text).head? = some (family.beginPat ++ ['\n']) ∨
      (regionLines text).head? = some (family.beginPat ++ crlf)) ∧
    ((regionLines text).tail.getLast? = some family.endPat ∨
      (regionLines text).tail.getLast? = some (family.endPat ++ crlf)) ∧
    ∀ line ∈ (regionLines text).tail.dropLast, LineExtracted family line

instance (family : MarkerFamily) (line : List Char) : Decidable (LineExtracted family line) :=
  inferInstanceAs (Decidable (_ ∧ _))

instance (family : MarkerFamily) (text : List Char) : Decidable (EveryLineExtracted family text) :=
  inferInstanceAs (Decidable (_ ∧ _ ∧ _))

/-! ## Comment lines are the lines the extraction reads -/

theorem isLine_append_eol {content eol : List Char} (heol : IsEol eol) (hcontent : '\n' ∉ content) :
    IsLine (content ++ eol) := by
  rcases heol with rfl | rfl
  · exact ⟨content, rfl, hcontent⟩
  · exact ⟨content ++ ['\r'], by simp, by simpa using hcontent⟩

theorem stripEol_append_eol {content eol : List Char} (heol : IsEol eol) (hcr : '\r' ∉ content) :
    stripEol (content ++ eol) = content := by
  rcases heol with rfl | rfl
  · exact stripEol_lf fun h => hcr (List.mem_of_getLast? h)
  · exact stripEol_crlf content

theorem isCommentLine_iff {family : MarkerFamily} {line : List Char} :
    IsCommentLine family line ↔ IsLine line ∧ LineExtracted family line := by
  constructor
  · rintro ⟨content, eol, token, rfl, heol, hcr, hlf, hcomment⟩
    refine ⟨isLine_append_eol heol hlf, ?_⟩
    rw [LineExtracted, stripEol_append_eol heol hcr, b64Token?_eq_some_iff.mpr hcomment]
    exact ⟨hcr, rfl⟩
  · rintro ⟨⟨content, rfl, hlf⟩, hcr, htoken⟩
    obtain ⟨token, htoken⟩ := Option.isSome_iff_exists.mp htoken
    rcases List.eq_nil_or_concat content with rfl | ⟨init, c, rfl⟩
    · exact ⟨[], _, token, rfl, Or.inl rfl, by simp, by simp, b64Token?_eq_some_iff.mp htoken⟩
    · by_cases hc : c = '\r'
      · subst hc
        have hshape : init.concat '\r' ++ ['\n'] = init ++ ['\r', '\n'] := by simp
        rw [hshape, stripEol_crlf] at hcr htoken
        exact ⟨init, _, token, hshape, Or.inr rfl, hcr, by simpa using hlf,
          b64Token?_eq_some_iff.mp htoken⟩
      · rw [stripEol_lf (by simpa using hc)] at hcr htoken
        exact ⟨_, _, token, rfl, Or.inl rfl, hcr, hlf, b64Token?_eq_some_iff.mp htoken⟩

/-! ## The region, line by line -/

theorem ne_replacement_of_isWhitespace {c : Char} (h : isWhitespace c = true) :
    c ≠ replacement := by
  rintro rfl
  exact absurd h (by decide)

/-- A comment line was decoded without loss. -/
theorem replacement_not_mem_of_isCommentLine {family : MarkerFamily} {line : List Char}
    (h : IsCommentLine family line) : replacement ∉ line := by
  obtain ⟨content, eol, token, rfl, heol, -, -, lead, pre, post, trail, hlead, hpre, hpost,
    htrail, htoken, rfl⟩ := h
  have hsigns : replacement ∉ family.opening ∧ replacement ∉ family.closing := by
    cases family <;> decide
  have hblank : ∀ {s : List Char}, Blank s → replacement ∉ s := fun hs hmem =>
    ne_replacement_of_isWhitespace (hs _ hmem) rfl
  have htoken : replacement ∉ token := fun hmem =>
    absurd ((looksLikeB64Token_iff.mp htoken).2 _ hmem) (by decide)
  have heol : replacement ∉ eol := by
    rcases heol with rfl | rfl <;> decide
  simp only [List.mem_append, not_or]
  exact ⟨⟨⟨hblank hlead, ⟨⟨⟨hsigns.1, hblank hpre⟩, htoken⟩, hblank hpost⟩, hsigns.2⟩,
    hblank htrail⟩, heol⟩

theorem markers_not_mem (family : MarkerFamily) :
    '\n' ∉ family.beginPat ∧ '\n' ∉ family.endPat ∧ replacement ∉ family.beginPat ∧
      replacement ∉ family.endPat := by
  cases family <;> unfold MarkerFamily.beginPat MarkerFamily.endPat <;>
    rw [String.toList_ofList, String.toList_ofList] <;> decide

theorem beginPat_append_ne_crlf (family : MarkerFamily) (eol : List Char) :
    family.beginPat ++ eol ≠ crlf := by
  have hcr : '\r' ∉ family.beginPat := by
    cases family <;> unfold MarkerFamily.beginPat <;> rw [String.toList_ofList] <;> decide
  obtain ⟨c, cs, hbegin⟩ := List.exists_cons_of_ne_nil (beginPat_ne_nil family)
  rw [hbegin] at hcr ⊢
  rintro h
  exact hcr ((List.cons.inj h).1 ▸ List.mem_cons_self)

/-- The lines of a text that has the shape of a region. -/
theorem regionLines_region {family : MarkerFamily} {lead eol trailer : List Char}
    {ls : List (List Char)} (hlead : lead = [] ∨ lead = crlf) (heol : IsEol eol)
    (hls : ∀ line ∈ ls, IsLine line) (htrailer : trailer = [] ∨ trailer = crlf) :
    regionLines
        (lead ++ ((family.beginPat ++ eol) ++ (ls.flatten ++ (family.endPat ++ trailer)))) =
      (family.beginPat ++ eol) :: (ls ++ [family.endPat ++ trailer]) := by
  obtain ⟨hbegin, hend, -, -⟩ := markers_not_mem family
  have hfirst : IsLine (family.beginPat ++ eol) := isLine_append_eol heol hbegin
  have hlast : linesInclusive (family.endPat ++ trailer) = [family.endPat ++ trailer] := by
    rcases htrailer with rfl | rfl
    · rw [List.append_nil]
      exact linesInclusive_of_not_mem hend (endPat_ne_nil family)
    · have := linesInclusive_append_line (family.endPat ++ ['\r']) (by simpa using hend) []
      simpa [crlf, linesInclusive] using this
  have hinner := linesInclusive_flatten ((family.beginPat ++ eol) :: ls)
    (fun line hline => (List.mem_cons.mp hline).elim (fun h => h ▸ hfirst) (hls line))
    (family.endPat ++ trailer)
  rw [List.flatten_cons, List.append_assoc, hlast] at hinner
  unfold regionLines
  rcases hlead with rfl | rfl
  · rw [List.nil_append, hinner, List.cons_append, List.head?_cons, if_neg]
    exact fun h => beginPat_append_ne_crlf family eol (Option.some.inj h)
  · have hcrlf : ∀ rest, linesInclusive (crlf ++ rest) = crlf :: linesInclusive rest :=
      linesInclusive_append_line ['\r'] (by decide)
    rw [hcrlf, hinner]
    rfl

/-- The lines of a region put the text together again. -/
theorem exists_lead_of_regionLines (text : List Char) :
    ∃ lead, (lead = [] ∨ lead = crlf) ∧ text = lead ++ (regionLines text).flatten ∧
      ∀ line ∈ (regionLines text).dropLast, IsLine line := by
  have hflatten := flatten_linesInclusive text
  have hlines : ∀ line ∈ (linesInclusive text).dropLast, IsLine line :=
    fun line hline => isLine_of_mem_dropLast hline
  unfold regionLines
  cases hall : linesInclusive text with
  | nil =>
    rw [hall] at hflatten
    exact ⟨[], Or.inl rfl, by simpa using hflatten.symm, by simp⟩
  | cons first rest =>
    rw [hall] at hflatten hlines
    rw [List.head?_cons, List.tail_cons]
    split
    · rename_i hfirst
      obtain rfl := Option.some.inj hfirst
      refine ⟨crlf, Or.inr rfl, hflatten.symm, fun line hline => hlines line ?_⟩
      cases rest with
      | nil => simp at hline
      | cons second rest => exact List.mem_cons_of_mem _ hline
    · exact ⟨[], Or.inl rfl, hflatten.symm, hlines⟩

/-- A region is made of comment lines exactly when the extraction takes a token
from every line in it. -/
theorem isCommentRegion_iff {family : MarkerFamily} {region : List UInt16} :
    IsCommentRegion family region ↔ EveryLineExtracted family (fromUtf16Lossy region) := by
  constructor
  · rintro ⟨lead, eol, ls, trailer, hlead, heol, hls, htrailer, rfl⟩
    rw [fromUtf16Lossy_encodeUtf16, EveryLineExtracted, regionLines_region hlead heol
      (fun line hline => (isCommentLine_iff.mp (hls line hline)).1) htrailer]
    simp only [List.head?_cons, List.tail_cons, Option.some.injEq, List.getLast?_append,
      List.getLast?_singleton, Option.some_or, List.dropLast_concat]
    refine ⟨?_, ?_, fun line hline => (isCommentLine_iff.mp (hls line hline)).2⟩
    · rcases heol with rfl | rfl
      · exact Or.inl rfl
      · exact Or.inr rfl
    · rcases htrailer with rfl | rfl
      · exact Or.inl (List.append_nil _)
      · exact Or.inr rfl
  · rintro ⟨hfirst, hlast, hlines⟩
    obtain ⟨lead, hlead, htext, hcomplete⟩ := exists_lead_of_regionLines (fromUtf16Lossy region)
    obtain ⟨eol, heol, rest, hshape⟩ : ∃ eol, IsEol eol ∧ ∃ rest,
        regionLines (fromUtf16Lossy region) = (family.beginPat ++ eol) :: rest := by
      rcases hfirst with h | h
      · exact ⟨_, Or.inl rfl, (List.head?_eq_some_iff.mp h)⟩
      · exact ⟨_, Or.inr rfl, (List.head?_eq_some_iff.mp h)⟩
    rw [hshape] at htext hcomplete hlast hlines
    rw [List.tail_cons] at hlast hlines
    obtain ⟨trailer, htrailer, ls, rfl⟩ : ∃ trailer, (trailer = [] ∨ trailer = crlf) ∧ ∃ ls,
        rest = ls ++ [family.endPat ++ trailer] := by
      rcases hlast with h | h
      · exact ⟨[], Or.inl rfl, by simpa using List.getLast?_eq_some_iff.mp h⟩
      · exact ⟨crlf, Or.inr rfl, List.getLast?_eq_some_iff.mp h⟩
    rw [List.dropLast_concat] at hlines
    have hls : ∀ line ∈ ls, IsCommentLine family line := by
      intro line hline
      refine isCommentLine_iff.mpr ⟨hcomplete line ?_, hlines line hline⟩
      rw [← List.cons_append, List.dropLast_concat]
      exact List.mem_cons_of_mem _ hline
    refine ⟨lead, eol, ls, trailer, hlead, heol, hls, htrailer, ?_⟩
    have hshown : fromUtf16Lossy region =
        lead ++ ((family.beginPat ++ eol) ++ (ls.flatten ++ (family.endPat ++ trailer))) := by
      rw [htext]
      simp
    rw [← hshown, encodeUtf16_fromUtf16Lossy]
    rw [hshown]
    obtain ⟨-, -, hbegin, hend⟩ := markers_not_mem family
    have hcrlf : replacement ∉ crlf := by decide
    simp only [List.mem_append, not_or]
    refine ⟨?_, ⟨hbegin, ?_⟩, ?_, hend, ?_⟩
    · rcases hlead with rfl | rfl
      · simp
      · exact hcrlf
    · rcases heol with rfl | rfl
      · decide
      · exact hcrlf
    · intro hmem
      obtain ⟨line, hline, hmem⟩ := List.mem_flatten.mp hmem
      exact replacement_not_mem_of_isCommentLine (hls line hline) hmem
    · rcases htrailer with rfl | rfl
      · simp
      · exact hcrlf

/-! ## The bounds of the removed region -/

theorem findSubslice_eq {haystack needle : List UInt16} (h : needle ≠ []) :
    findSubslice haystack needle = firstAt? needle haystack :=
  if_neg h

/-- The markers are not empty, and start and end with different code units. -/
theorem markers_ends (family : MarkerFamily) :
    ((markers family).beginCr.head? = some 13 ∧ (markers family).begin_.head? ≠ some 13) ∧
      ((markers family).endCr.getLast? = some 10 ∧ (markers family).end_.getLast? ≠ some 10) ∧
      ((markers family).beginCr ≠ [] ∧ (markers family).begin_ ≠ []) ∧
      (markers family).endCr ≠ [] ∧ (markers family).end_ ≠ [] := by
  cases family <;> decide

/-- The two searches for a marker: the one with CR LF counts before the other. -/
def FoundMarker (withCrlf plain marker haystack : List UInt16) (at_ : Nat) : Prop :=
  (marker = withCrlf ∧ firstAt? withCrlf haystack = some at_) ∨
    (marker = plain ∧ firstAt? withCrlf haystack = none ∧ firstAt? plain haystack = some at_)

/-- The search for the begin marker. -/
theorem beginSearch_eq_some {units : List UInt16} {family : MarkerFamily} {start : Nat} :
    (findSubslice units (markers family).beginCr).or
        (findSubslice units (markers family).begin_) = some start ↔
      ∃ first, FoundMarker (markers family).beginCr (markers family).begin_ first units start := by
  obtain ⟨-, -, ⟨hbeginCr, hbegin⟩, -⟩ := markers_ends family
  rw [findSubslice_eq hbeginCr, findSubslice_eq hbegin, Option.or_eq_some_iff]
  constructor
  · intro h
    rcases h with hcr | ⟨hnone, hplain⟩
    · exact ⟨_, Or.inl ⟨rfl, hcr⟩⟩
    · exact ⟨_, Or.inr ⟨rfl, hnone, hplain⟩⟩
  · intro h
    rcases h with ⟨first, ⟨-, hcr⟩ | ⟨-, hnone, hplain⟩⟩
    · exact Or.inl hcr
    · exact Or.inr ⟨hnone, hplain⟩

/-- The removed region starts with the begin marker that is found and ends with the end marker that
is found behind it. -/
theorem signatureRegion_eq_ok {units : List UInt16} {family : MarkerFamily} {start stop : Nat} :
    signatureRegion units family = .ok (start, stop) ↔
      ∃ first last endRel,
        FoundMarker (markers family).beginCr (markers family).begin_ first units start ∧
        FoundMarker (markers family).endCr (markers family).end_ last (units.drop start) endRel ∧
        stop = start + endRel + last.length := by
  obtain ⟨-, -, -, hendCr, hend⟩ := markers_ends family
  simp only [signatureRegion, Outcome.bind_eq_ok, Outcome.ofOption_eq_ok, beginSearch_eq_some,
    findSubslice_eq hendCr, findSubslice_eq hend]
  constructor
  · intro h
    obtain ⟨start', ⟨first, hfirst⟩, h⟩ := h
    split at h
    · rename_i endRel hat
      obtain ⟨rfl, rfl⟩ := Prod.mk.inj (Except.ok.inj h)
      exact ⟨first, _, endRel, hfirst, Or.inl ⟨rfl, hat⟩, rfl⟩
    · rename_i hnone
      split at h
      · rename_i endRel hat
        obtain ⟨rfl, rfl⟩ := Prod.mk.inj (Except.ok.inj h)
        exact ⟨first, _, endRel, hfirst, Or.inr ⟨rfl, hnone, hat⟩, rfl⟩
      · exact absurd h Outcome.bail_ne_ok
  · intro h
    obtain ⟨first, last, endRel, hfirst, hlast, rfl⟩ := h
    refine ⟨start, ⟨first, hfirst⟩, ?_⟩
    rcases hlast with ⟨rfl, hat⟩ | ⟨rfl, hnone, hat⟩
    · rw [hat]
      rfl
    · rw [hnone, hat]
      rfl

theorem FoundMarker.firstAt? {withCrlf plain marker haystack : List UInt16} {at_ : Nat}
    (h : FoundMarker withCrlf plain marker haystack at_) :
    (marker = withCrlf ∨ marker = plain) ∧ firstAt? marker haystack = some at_ := by
  rcases h with ⟨rfl, h⟩ | ⟨rfl, -, h⟩
  · exact ⟨Or.inl rfl, h⟩
  · exact ⟨Or.inr rfl, h⟩

theorem signatureRegion_bounds {units : List UInt16} {family : MarkerFamily} {start stop : Nat}
    (h : signatureRegion units family = .ok (start, stop)) :
    start + 2 ≤ stop ∧ stop ≤ units.length := by
  obtain ⟨_, last, endRel, hfirst, hsecond, rfl⟩ := signatureRegion_eq_ok.mp h
  have hstart := hfirst.firstAt?.2
  obtain ⟨hlast, hend⟩ := hsecond.firstAt?
  have hlong : 2 ≤ last.length := by
    rcases hlast with rfl | rfl <;> cases family <;> decide
  have hle := firstAt?_add_length_le hend
  have hstart := firstAt?_add_length_le hstart
  rw [List.length_drop] at hle
  omega

/-- The removed region is at least two code units. -/
theorem length_stripSignatureRegionUtf16 {units stripped : List UInt16} {family : MarkerFamily}
    (h : stripSignatureRegionUtf16 units family = .ok stripped) :
    stripped.length + 2 ≤ units.length := by
  obtain ⟨⟨start, stop⟩, hregion, hstripped⟩ := Outcome.bind_eq_ok.mp h
  obtain rfl := Except.ok.inj hstripped
  have hbounds := signatureRegion_bounds hregion
  show (units.take start ++ units.drop stop).length + 2 ≤ units.length
  rw [List.length_append, List.length_take, List.length_drop]
  omega

/-! ## Accepted scripts -/

variable (base64 : Base64Engine) (hashes : Hashes) (authenticode : AuthenticodeParser)

/-- The code units that are removed before hashing. -/
def removedRegion (units : List UInt16) (start endExclusive : Nat) : List UInt16 :=
  (units.take endExclusive).drop start

/-! ### The block in the script -/

/-- A begin marker with its line end, lines, and an end marker; the line ends that belong to the
markers stand around them. -/
def blockText (family : MarkerFamily) (lead eol : List Char) (ls : List (List Char))
    (trailer : List Char) : List Char :=
  lead ++ ((family.beginPat ++ eol) ++ (ls.flatten ++ (family.endPat ++ trailer)))

/-- No begin marker stands before the block.  One with CR LF on both sides counts before any other:
if the block has it, no such marker stands before, and else there is none in the script. -/
def BeginsFirst (family : MarkerFamily) (units before : List UInt16) (lead eol : List Char) : Prop :=
  (lead = crlf ∧ eol = crlf ∧ ∀ j < before.length, ¬ (markers family).beginCr <+: units.drop j) ∨
    (lead = [] ∧ ¬ Contains units (markers family).beginCr ∧
      ∀ j < before.length, ¬ (markers family).begin_ <+: units.drop j)

/-- If no CR LF follows the end marker of the block, none follows an end marker behind it. -/
def EndsFirst (family : MarkerFamily) (trailer : List Char) (after : List UInt16) : Prop :=
  trailer = crlf ∨
    (trailer = [] ∧ ¬ Contains ((markers family).end_ ++ after) (markers family).endCr)

/-- Of a block of the script the extraction reads every line, and there is no other begin marker
before it, and no other end marker that counts instead of its own. -/
def BlockRead (family : MarkerFamily) (units : List UInt16) : Prop :=
  ∃ before lead eol ls trailer after,
    units = before ++ (encodeUtf16 (blockText family lead eol ls trailer) ++ after) ∧
    IsEol eol ∧ (∀ line ∈ ls, IsLine line ∧ LineExtracted family line) ∧
    BeginsFirst family units before lead eol ∧ EndsFirst family trailer after

theorem ascii_markers (family : MarkerFamily) :
    (∀ c ∈ family.beginPat, IsAscii c) ∧ ∀ c ∈ family.endPat, IsAscii c := by
  cases family <;> unfold MarkerFamily.beginPat MarkerFamily.endPat <;>
    rw [String.toList_ofList, String.toList_ofList] <;> decide

theorem encodeUtf16_crlf : encodeUtf16 crlf = crlf.map unit :=
  encodeUtf16_of_isAscii (by decide)

/-- The end marker has a number sign more than a comment line, and stands in none. -/
theorem count_endPat (family : MarkerFamily) :
    (family.opening ++ family.closing).count '#' < family.endPat.count '#' ∧
      ¬ Contains family.beginPat family.endPat := by
  cases family <;> unfold MarkerFamily.endPat MarkerFamily.beginPat <;>
    rw [String.toList_ofList, String.toList_ofList] <;> decide

theorem not_contains_of_isComment {family : MarkerFamily} {content token : List Char}
    (h : IsComment family content token) : ¬ Contains content family.endPat := by
  obtain ⟨lead, pre, post, trail, hlead, hpre, hpost, htrail, htoken, rfl⟩ := h
  have hblank : ∀ {s : List Char}, Blank s → s.count '#' = 0 := by
    intro s hs
    rw [List.count_eq_zero]
    intro hmem
    exact absurd (hs _ hmem) (by decide)
  have htoken : token.count '#' = 0 := by
    rw [List.count_eq_zero]
    intro hmem
    exact absurd ((looksLikeB64Token_iff.mp htoken).2 _ hmem) (by decide)
  intro hinfix
  have hcount := hinfix.sublist.count_le '#'
  have hless := (count_endPat family).1
  simp only [List.count_append, hblank hlead, hblank hpre, hblank hpost, hblank htrail, htoken]
    at hcount hless
  omega

/-- Lines without the pattern only shift the search for it in the code units. -/
theorem firstAt?_encodeUtf16_lines {pattern : List Char} (hascii : ∀ c ∈ pattern, IsAscii c)
    (hne : pattern ≠ []) (hlf : '\n' ∉ pattern) {ls : List (List Char)}
    (hls : ∀ line ∈ ls, ∃ content, line = content ++ ['\n'] ∧ ¬ Contains content pattern)
    (rest : List UInt16) :
    firstAt? (pattern.map unit) (encodeUtf16 ls.flatten ++ rest) =
      (firstAt? (pattern.map unit) rest).map (· + (encodeUtf16 ls.flatten).length) := by
  have hsep : unit '\n' ∉ pattern.map unit := by
    intro hmem
    obtain ⟨c, hc, hunit⟩ := List.mem_map.mp hmem
    obtain rfl := unit_injOn_ascii (hascii c hc) (by decide) hunit
    exact hlf hc
  induction ls with
  | nil => simp [encodeUtf16]
  | cons line ls ih =>
    obtain ⟨content, rfl, hcontent⟩ := hls _ List.mem_cons_self
    have hnot : ¬ Contains (encodeUtf16 content) (pattern.map unit) := by
      rw [← firstAt?_eq_none_iff, firstAt?_encodeUtf16 hascii hne,
        firstAt?_eq_none_iff.mpr hcontent]
      rfl
    have hone : encodeUtf16 ['\n'] = [unit '\n'] := encodeUtf16_of_isAscii (by decide)
    have ih := ih fun l hl => hls l (List.mem_cons_of_mem _ hl)
    rw [List.flatten_cons, encodeUtf16_append, encodeUtf16_append, hone]
    rw [List.append_assoc, List.append_assoc, List.singleton_append,
      firstAt?_append_cons hsep hnot, ih, Option.map_map]
    congr 1
    funext i
    simp only [Function.comp_apply, List.length_append, List.length_singleton]
    omega

/-- A line end makes no end marker. -/
theorem exists_content_of_isEol {family : MarkerFamily} {content eol : List Char} (heol : IsEol eol)
    (hcontent : ¬ Contains content family.endPat) :
    ∃ content', content ++ eol = content' ++ ['\n'] ∧ ¬ Contains content' family.endPat := by
  rcases heol with rfl | rfl
  · exact ⟨content, rfl, hcontent⟩
  · refine ⟨content ++ ['\r'], by simp, ?_⟩
    have hcr : '\r' ∉ family.endPat := by
      cases family <;> unfold MarkerFamily.endPat <;> rw [String.toList_ofList] <;> decide
    have hnone := firstAt?_append_cons hcr hcontent []
    rw [firstAt?, if_neg (endPat_ne_nil family)] at hnone
    exact firstAt?_eq_none_iff.mp hnone

/-- Up to its end marker, the lines of a block of extracted lines have none. -/
theorem exists_content_of_blockLine {family : MarkerFamily} {lead eol line : List Char}
    {ls : List (List Char)} (heol : IsEol eol)
    (hls : ∀ line ∈ ls, IsLine line ∧ LineExtracted family line)
    (hline : line ∈ (if lead = [] then [] else [crlf]) ++ (family.beginPat ++ eol) :: ls) :
    ∃ content, line = content ++ ['\n'] ∧ ¬ Contains content family.endPat := by
  rcases List.mem_append.mp hline with hline | hline
  · have hsame : line = [] ++ crlf := by
      split at hline
      · exact absurd hline List.not_mem_nil
      · exact List.mem_singleton.mp hline
    rw [hsame]
    apply exists_content_of_isEol (Or.inr rfl)
    intro hinfix
    exact endPat_ne_nil family (List.infix_nil.mp hinfix)
  · rcases List.mem_cons.mp hline with rfl | hline
    · exact exists_content_of_isEol heol (count_endPat family).2
    · obtain ⟨content, eol', token, rfl, heol', -, -, hcomment⟩ :=
        isCommentLine_iff.mpr (hls line hline)
      exact exists_content_of_isEol heol' (not_contains_of_isComment hcomment)

/-- In the code units of a block of extracted lines, the end marker of the block is the first. -/
theorem firstAt?_end_block {family : MarkerFamily} {lead eol : List Char} {ls : List (List Char)}
    {trailer : List Char} (hlead : lead = [] ∨ lead = crlf) (heol : IsEol eol)
    (hls : ∀ line ∈ ls, IsLine line ∧ LineExtracted family line) (after : List UInt16) :
    firstAt? (markers family).end_ (encodeUtf16 (blockText family lead eol ls trailer) ++ after) =
      some (encodeUtf16 (lead ++ ((family.beginPat ++ eol) ++ ls.flatten))).length := by
  have hascii := (ascii_markers family).2
  have hflat : ((if lead = [] then [] else [crlf]) ++ (family.beginPat ++ eol) :: ls).flatten =
      lead ++ ((family.beginPat ++ eol) ++ ls.flatten) := by
    rcases hlead with rfl | rfl
    · rfl
    · rfl
  have hunits : (markers family).end_ = family.endPat.map unit := by rw [markers_eq]
  have hblock : encodeUtf16 (blockText family lead eol ls trailer) ++ after =
      encodeUtf16 (lead ++ ((family.beginPat ++ eol) ++ ls.flatten)) ++
        (family.endPat.map unit ++ (encodeUtf16 trailer ++ after)) := by
    rw [← encodeUtf16_of_isAscii hascii]
    unfold blockText
    simp only [encodeUtf16_append, List.append_assoc]
  have hsearch := firstAt?_encodeUtf16_lines hascii (endPat_ne_nil family)
    (markers_not_mem family).2.1
    (fun line => @exists_content_of_blockLine family lead eol line ls heol hls)
    (family.endPat.map unit ++ (encodeUtf16 trailer ++ after))
  rw [hblock, hunits]
  rw [hflat, firstAt?_append_self, Option.map_some, Nat.zero_add] at hsearch
  exact hsearch

theorem encodeUtf16_blockText {family : MarkerFamily} {lead eol : List Char} {ls : List (List Char)}
    {trailer : List Char} : encodeUtf16 (blockText family lead eol ls trailer) =
      encodeUtf16 (lead ++ ((family.beginPat ++ eol) ++ ls.flatten)) ++
        ((markers family).end_ ++ encodeUtf16 trailer) := by
  rw [markers_eq, ← encodeUtf16_of_isAscii (ascii_markers family).2]
  unfold blockText
  simp only [encodeUtf16_append, List.append_assoc]

/-- The markers with CR LF around them. -/
theorem markers_crlf (family : MarkerFamily) :
    (markers family).beginCr = encodeUtf16 crlf ++ ((markers family).begin_ ++ encodeUtf16 crlf) ∧
      (markers family).endCr = (markers family).end_ ++ encodeUtf16 crlf := by
  rw [markers_eq, encodeUtf16_crlf]
  constructor
  · rw [← List.map_append, ← List.map_append, List.append_assoc]
  · rw [← List.map_append]

theorem begin_prefix_blockText {family : MarkerFamily} {lead eol : List Char}
    {ls : List (List Char)} {trailer : List Char} (after : List UInt16) :
    ∃ rest, encodeUtf16 (blockText family lead eol ls trailer) ++ after =
      encodeUtf16 lead ++ ((markers family).begin_ ++ (encodeUtf16 eol ++ rest)) := by
  refine ⟨encodeUtf16 (ls.flatten ++ (family.endPat ++ trailer)) ++ after, ?_⟩
  rw [markers_eq, ← encodeUtf16_of_isAscii (ascii_markers family).1]
  unfold blockText
  simp only [encodeUtf16_append, List.append_assoc]

/-- The begin marker of the block is the one that is found. -/
theorem foundMarker_begin {family : MarkerFamily} {units before rest : List UInt16}
    {lead eol : List Char} (hbegin : BeginsFirst family units before lead eol)
    (hle : before.length ≤ units.length)
    (hdrop : units.drop before.length =
      encodeUtf16 lead ++ ((markers family).begin_ ++ (encodeUtf16 eol ++ rest))) :
    ∃ first, FoundMarker (markers family).beginCr (markers family).begin_ first units
      before.length := by
  rcases hbegin with ⟨rfl, rfl, hbefore⟩ | ⟨rfl, hnone, hbefore⟩
  · refine ⟨_, Or.inl ⟨rfl, firstAt?_eq_some_iff.mpr ⟨hle, ?_, hbefore⟩⟩⟩
    rw [hdrop, (markers_crlf family).1]
    exact ⟨rest, by simp only [List.append_assoc]⟩
  · refine ⟨_, Or.inr ⟨rfl, firstAt?_eq_none_iff.mpr hnone, ?_⟩⟩
    apply firstAt?_eq_some_iff.mpr
    refine ⟨hle, ?_, hbefore⟩
    rw [hdrop]
    exact ⟨encodeUtf16 eol ++ rest, rfl⟩

/-- If the first end marker is not before a CR LF, and none behind it is, there is none before a
CR LF. -/
theorem firstAt?_endCr_eq_none {family : MarkerFamily} {front after : List UInt16}
    (hfirst : firstAt? (markers family).end_ (front ++ ((markers family).end_ ++ after)) =
      some front.length)
    (hnone : ¬ Contains ((markers family).end_ ++ after) (markers family).endCr) :
    firstAt? (markers family).endCr (front ++ ((markers family).end_ ++ after)) = none := by
  rw [firstAt?_eq_none_iff]
  rintro ⟨lead, back, hsplit⟩
  obtain ⟨-, -, hmin⟩ := firstAt?_eq_some_iff.mp hfirst
  have hplace : (front ++ ((markers family).end_ ++ after)).drop lead.length =
      (markers family).endCr ++ back := by
    rw [← hsplit, List.append_assoc, List.drop_left]
  have hge : front.length ≤ lead.length := by
    by_contra hlt
    apply hmin lead.length (by omega)
    rw [hplace, (markers_crlf family).2, List.append_assoc]
    exact List.prefix_append _ _
  have hbehind : ((markers family).end_ ++ after).drop (lead.length - front.length) =
      (markers family).endCr ++ back := by
    rw [← hplace, ← List.drop_length_add_append, Nat.add_sub_cancel' hge]
  apply hnone
  have hprefix : Contains ((markers family).endCr ++ back) (markers family).endCr :=
    (List.prefix_append _ back).isInfix
  rw [← hbehind] at hprefix
  exact hprefix.trans (List.drop_suffix _ _).isInfix

/-- The end marker of the block is the one that is found, with its line end. -/
theorem foundMarker_end {family : MarkerFamily} {front after : List UInt16} {trailer : List Char}
    (hfirst : firstAt? (markers family).end_
      (front ++ ((markers family).end_ ++ (encodeUtf16 trailer ++ after))) = some front.length)
    (hend : EndsFirst family trailer after) :
    FoundMarker (markers family).endCr (markers family).end_
      ((markers family).end_ ++ encodeUtf16 trailer)
      (front ++ ((markers family).end_ ++ (encodeUtf16 trailer ++ after))) front.length := by
  rcases hend with rfl | ⟨rfl, hnone⟩
  · left
    rw [(markers_crlf family).2]
    refine ⟨rfl, firstAt?_append_pattern hfirst ?_⟩
    rw [List.drop_left, ← List.append_assoc]
    exact List.prefix_append _ _
  · right
    exact ⟨List.append_nil _, firstAt?_endCr_eq_none hfirst hnone, hfirst⟩

/-- The block of a script whose lines are all extracted is the region that is removed. -/
theorem signatureRegion_of_blockRead {family : MarkerFamily} {before after : List UInt16}
    {lead eol : List Char} {ls : List (List Char)} {trailer : List Char} (heol : IsEol eol)
    (hls : ∀ line ∈ ls, IsLine line ∧ LineExtracted family line)
    (hbegin : BeginsFirst family
      (before ++ (encodeUtf16 (blockText family lead eol ls trailer) ++ after)) before lead eol)
    (hend : EndsFirst family trailer after) :
    signatureRegion (before ++ (encodeUtf16 (blockText family lead eol ls trailer) ++ after))
        family =
      .ok (before.length,
        before.length + (encodeUtf16 (blockText family lead eol ls trailer)).length) := by
  have hlead : lead = [] ∨ lead = crlf := by
    rcases hbegin with h | h
    · exact Or.inr h.1
    · exact Or.inl h.1
  obtain ⟨rest, hrest⟩ := @begin_prefix_blockText family lead eol ls trailer after
  have hstop := @firstAt?_end_block family lead eol ls trailer hlead heol hls after
  rw [encodeUtf16_blockText] at hbegin hrest hstop ⊢
  generalize encodeUtf16 (lead ++ ((family.beginPat ++ eol) ++ ls.flatten)) = front at *
  have hdrop : (before ++ (front ++ ((markers family).end_ ++ encodeUtf16 trailer) ++ after)).drop
      before.length = front ++ ((markers family).end_ ++ (encodeUtf16 trailer ++ after)) := by
    rw [List.drop_left, List.append_assoc, List.append_assoc]
  have hle : before.length ≤
      (before ++ (front ++ ((markers family).end_ ++ encodeUtf16 trailer) ++ after)).length := by
    rw [List.length_append]
    omega
  rw [List.append_assoc, List.append_assoc] at hrest hstop
  obtain ⟨first, hfirst⟩ := foundMarker_begin hbegin hle (hdrop.trans hrest)
  refine signatureRegion_eq_ok.mpr
    ⟨first, (markers family).end_ ++ encodeUtf16 trailer, front.length, hfirst, ?_, ?_⟩
  · rw [hdrop]
    exact foundMarker_end hstop hend
  · rw [List.length_append, Nat.add_assoc]

theorem removedRegion_append (before block after : List UInt16) :
    removedRegion (before ++ (block ++ after)) before.length (before.length + block.length) =
      block := by
  unfold removedRegion
  rw [← List.append_assoc, List.take_left', List.drop_left]
  rw [List.length_append]

theorem take_append_removedRegion {units : List UInt16} {start stop : Nat} (h : start ≤ stop) :
    units = units.take start ++ (removedRegion units start stop ++ units.drop stop) := by
  have hfront : units.take start = (units.take stop).take start := by
    rw [List.take_take, Nat.min_eq_left h]
  unfold removedRegion
  rw [hfront, ← List.append_assoc, List.take_append_drop, List.take_append_drop]

/-- The marker that is found tells the line ends of the block. -/
theorem beginsFirst_of_found {family : MarkerFamily} {units before rest : List UInt16}
    {first : List UInt16} {lead eol : List Char} (hlead : lead = [] ∨ lead = crlf)
    (heol : IsEol eol)
    (hfound : FoundMarker (markers family).beginCr (markers family).begin_ first units
      before.length)
    (hunits : units.drop before.length =
      encodeUtf16 lead ++ ((markers family).begin_ ++ (encodeUtf16 eol ++ rest))) :
    BeginsFirst family units before lead eol := by
  obtain ⟨⟨hcr, hplain⟩, -, ⟨-, hbeginNe⟩, -⟩ := markers_ends family
  rcases hfound with ⟨-, hat⟩ | ⟨-, hnone, hat⟩
  · obtain ⟨-, hprefix, hmin⟩ := firstAt?_eq_some_iff.mp hat
    rw [hunits] at hprefix
    rcases hlead with rfl | rfl
    · obtain ⟨more, hmore⟩ := hprefix
      have hheads := congrArg List.head? hmore
      rw [List.head?_append, hcr, Option.some_or] at hheads
      rw [show encodeUtf16 [] = [] from rfl, List.nil_append,
        List.head?_append_of_ne_nil _ hbeginNe] at hheads
      exact absurd hheads.symm hplain
    · refine Or.inl ⟨rfl, ?_, hmin⟩
      rw [(markers_crlf family).1] at hprefix
      rw [List.prefix_append_right_inj, List.prefix_append_right_inj] at hprefix
      rcases heol with rfl | rfl
      · exact absurd (List.cons_prefix_cons.mp hprefix).1 (by decide)
      · rfl
  · obtain ⟨-, hprefix, hmin⟩ := firstAt?_eq_some_iff.mp hat
    rw [hunits] at hprefix
    rcases hlead with rfl | rfl
    · exact Or.inr ⟨rfl, firstAt?_eq_none_iff.mp hnone, hmin⟩
    · obtain ⟨more, hmore⟩ := hprefix
      have hheads := congrArg List.head? hmore
      rw [List.head?_append_of_ne_nil _ hbeginNe] at hheads
      exact absurd hheads hplain

/-- The removed region ends with the end marker that is found. -/
theorem removedRegion_eq_append {withCrlf plain last units : List UInt16} {start endRel : Nat}
    (h : FoundMarker withCrlf plain last (units.drop start) endRel) :
    removedRegion units start (start + endRel + last.length) =
      (units.drop start).take endRel ++ last := by
  obtain ⟨-, hprefix, -⟩ := firstAt?_eq_some_iff.mp h.firstAt?.2
  obtain ⟨more, hmore⟩ := hprefix
  unfold removedRegion
  rw [List.drop_take, Nat.add_assoc, Nat.add_sub_cancel_left, List.take_add, ← hmore,
    List.take_left]

/-- The last code unit of the region says which end marker was found. -/
theorem endsFirst_of_found {family : MarkerFamily} {tail front kept after last : List UInt16}
    {endRel : Nat} {trailer : List Char} (htrailer : trailer = [] ∨ trailer = crlf)
    (hfound : FoundMarker (markers family).endCr (markers family).end_ last tail endRel)
    (htail : tail = front ++ ((markers family).end_ ++ (encodeUtf16 trailer ++ after)))
    (hends : front ++ (markers family).end_ ++ encodeUtf16 trailer = kept ++ last) :
    EndsFirst family trailer after := by
  obtain ⟨-, ⟨hendCrLast, hendLast⟩, -, hendCrNe, hendNe⟩ := markers_ends family
  have hlasts := congrArg List.getLast? hends
  rcases hfound with ⟨rfl, -⟩ | ⟨rfl, hnone, -⟩
  · rw [List.getLast?_append_of_ne_nil _ hendCrNe, hendCrLast] at hlasts
    rcases htrailer with rfl | rfl
    · rw [show encodeUtf16 [] = [] from rfl, List.append_nil,
        List.getLast?_append_of_ne_nil _ hendNe] at hlasts
      exact absurd hlasts hendLast
    · exact Or.inl rfl
  · rw [List.getLast?_append_of_ne_nil _ hendNe] at hlasts
    rcases htrailer with rfl | rfl
    · right
      refine ⟨rfl, ?_⟩
      intro hcontains
      apply firstAt?_eq_none_iff.mp hnone
      rw [htail]
      exact hcontains.trans (List.suffix_append _ _).isInfix
    · have hlf : (encodeUtf16 crlf).getLast? = some 10 := by decide
      rw [List.getLast?_append_of_ne_nil _ (by decide), hlf] at hlasts
      exact absurd hlasts.symm hendLast

/-- The region that is removed from a script is nothing but markers and comment lines exactly when
the extraction reads every line of the block. -/
theorem isCommentRegion_removed_iff {family : MarkerFamily} {units : List UInt16}
    {start stop : Nat} (h : signatureRegion units family = .ok (start, stop)) :
    IsCommentRegion family (removedRegion units start stop) ↔ BlockRead family units := by
  constructor
  · rintro ⟨lead, eol, ls, trailer, hlead, heol, hls, htrailer, hregion⟩
    have hregion : removedRegion units start stop =
        encodeUtf16 (blockText family lead eol ls trailer) := hregion
    have hbounds := signatureRegion_bounds h
    obtain ⟨first, last, endRel, hfirst, hlast, rfl⟩ := signatureRegion_eq_ok.mp h
    have hunits := @take_append_removedRegion units start (start + endRel + last.length) (by omega)
    rw [hregion] at hunits
    have hlength : (units.take start).length = start := List.length_take_of_le (by omega)
    have htail : units.drop start = encodeUtf16 (blockText family lead eol ls trailer) ++
        units.drop (start + endRel + last.length) := by
      conv_lhs => rw [hunits, List.drop_left' hlength]
    refine ⟨units.take start, lead, eol, ls, trailer, units.drop (start + endRel + last.length),
      hunits, heol, fun line hline => isCommentLine_iff.mp (hls line hline), ?_, ?_⟩
    · obtain ⟨rest, hrest⟩ := @begin_prefix_blockText family lead eol ls trailer
        (units.drop (start + endRel + last.length))
      refine @beginsFirst_of_found family units (units.take start) rest first lead eol hlead heol
        ?_ ?_
      · rw [hlength]
        exact hfirst
      · rw [hlength, htail, hrest]
    · have hends := removedRegion_eq_append hlast
      rw [hregion, encodeUtf16_blockText, ← List.append_assoc] at hends
      rw [encodeUtf16_blockText] at htail
      apply endsFirst_of_found htrailer hlast _ hends
      simpa only [List.append_assoc] using htail
  · rintro ⟨before, lead, eol, ls, trailer, after, rfl, heol, hls, hbegin, hend⟩
    rw [signatureRegion_of_blockRead heol hls hbegin hend] at h
    obtain ⟨rfl, rfl⟩ := Prod.mk.inj (Except.ok.inj h)
    rw [removedRegion_append]
    have hlead : lead = [] ∨ lead = crlf := by
      rcases hbegin with hbegin | hbegin
      · exact Or.inr hbegin.1
      · exact Or.inl hbegin.1
    have htrailer : trailer = [] ∨ trailer = crlf := by
      rcases hend with hend | hend
      · exact Or.inr hend
      · exact Or.inl hend.1
    exact ⟨lead, eol, ls, trailer, hlead, heol,
      fun line hline => isCommentLine_iff.mpr (hls line hline), htrailer, rfl⟩

/-- In an accepted script everything outside the removed region is hashed, and
the region is nothing but markers and comment lines exactly when the extraction
reads every line of a block of the script that no other marker comes before. -/
theorem accepted_script_region {raw : List UInt8} {ext : List Char}
    {report : ScriptAuthenticodeDigestReport}
    (h : powershellClassDigestReport base64 hashes authenticode raw ext = .ok report) :
    ∃ family kind start endExclusive,
      markerFamily (toAsciiLowercase ext) = .ok family ∧
      signatureRegion (verifiedUnits raw) family = .ok (start, endExclusive) ∧
      report.computedDigest = hashes.hash kind (utf16leBytes
        ((verifiedUnits raw).take start ++ (verifiedUnits raw).drop endExclusive)) ∧
      (IsCommentRegion family (removedRegion (verifiedUnits raw) start endExclusive) ↔
        BlockRead family (verifiedUnits raw)) := by
  obtain ⟨family, kind, stripped, -, hfamily, -, -, -, hstripped, hhash, hcomputed⟩ :=
    (powershellClassDigestReport_eq_ok base64 hashes authenticode).mp h
  obtain ⟨⟨start, endExclusive⟩, hregion, hkept⟩ := Outcome.bind_eq_ok.mp hstripped
  obtain rfl := Except.ok.inj hkept
  exact ⟨family, kind, start, endExclusive, hfamily, hregion, hcomputed.trans hhash.symm,
    isCommentRegion_removed_iff hregion⟩

/-- A script whose hashed part is empty: inside its block stands a command. -/
def scriptWithCommand : List UInt8 :=
  utf8Encode ("\r\n# SIG # Begin signature block\r\n# ".toList ++
    Base64Engine.standard.encode (0x04 :: 32 :: List.replicate 32 0) ++
    "\r\nRemove-Item x\r\n# SIG # End signature block\r\n".toList)

set_option maxRecDepth 2000

theorem report_scriptWithCommand :
    powershellClassDigestReport Base64Engine.standard Hashes.truncating
        AuthenticodeParser.octetString scriptWithCommand "ps1".toList =
      .ok ⟨0x04 :: 32 :: List.replicate 32 0, List.replicate 32 0, List.replicate 32 0⟩ := by
  decide

/-- The script is accepted, and the command in it is in the removed region. -/
theorem accepted_script_hides_command :
    powershellClassDigestReport Base64Engine.standard Hashes.truncating
        AuthenticodeParser.octetString scriptWithCommand "ps1".toList =
      .ok ⟨0x04 :: 32 :: List.replicate 32 0, List.replicate 32 0, List.replicate 32 0⟩ ∧
    signatureRegion (verifiedUnits scriptWithCommand) .hash = .ok (0, 129) ∧
    ¬ IsCommentRegion .hash (removedRegion (verifiedUnits scriptWithCommand) 0 129) := by
  refine ⟨report_scriptWithCommand, by decide, ?_⟩
  rw [isCommentRegion_iff]
  decide

theorem accepted_script_region_of_command :
    ∃ family kind start endExclusive,
      markerFamily (toAsciiLowercase "ps1".toList) = .ok family ∧
      signatureRegion (verifiedUnits scriptWithCommand) family = .ok (start, endExclusive) ∧
      List.replicate 32 0 = Hashes.truncating.hash kind (utf16leBytes
        ((verifiedUnits scriptWithCommand).take start ++
          (verifiedUnits scriptWithCommand).drop endExclusive)) ∧
      (IsCommentRegion family
          (removedRegion (verifiedUnits scriptWithCommand) start endExclusive) ↔
        BlockRead family (verifiedUnits scriptWithCommand)) :=
  @accepted_script_region Base64Engine.standard Hashes.truncating AuthenticodeParser.octetString
    scriptWithCommand "ps1".toList
    ⟨0x04 :: 32 :: List.replicate 32 0, List.replicate 32 0, List.replicate 32 0⟩
    report_scriptWithCommand

end Psign.Sip
