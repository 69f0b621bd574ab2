import Psign.CodeLib.Slice
import Psign.Sip.PsScript

/-!
# Signing a PowerShell-class script

The script part of `psign-portable-core`: `formatPowershellSignatureBlock`
prints a PKCS#7 as a block of comment lines between the marker lines, and
`appendScriptSignatureBlock` writes the block after the script in the script's
encoding.

The results say what the verifier of `Psign.Sip.PsScript` finds in a script
that was signed this way: the block, all of it and nothing else, and the
PKCS#7 that was put in (`extractPkcs7DerFromScript_append`,
`stripSignatureRegionUtf16_append`).  What remains is what was hashed when the
script was signed, except that the verifier counts the byte order mark of a
UTF-16LE file among the code units and the signer does not.
-/

namespace Psign.Portable

open CodeLib CodeLib.RustStr CodeLib.Slice CodeLib.Subslice CodeLib.Unicode Psign.Sip

/-! ## The signature block -/

/-- The texts `begin`, `line_prefix`, `line_suffix` and `end` of a block. -/
structure BlockSyntax where
  begin_ : List Char
  linePrefix : List Char
  lineSuffix : List Char
  end_ : List Char
  deriving DecidableEq

/-- The syntax `format_powershell_signature_block` takes for an extension. -/
def blockSyntax (extension : List Char) : BlockSyntax :=
  let lower := toAsciiLowercase extension
  if lower = "ps1xml".toList ∨ lower = "psc1".toList ∨ lower = "cdxml".toList then
    { begin_ := "\r\n<!-- SIG # Begin signature block -->\r\n".toList
      linePrefix := "<!-- ".toList
      lineSuffix := " -->\r\n".toList
      end_ := "<!-- SIG # End signature block -->\r\n".toList }
  else if lower = "mof".toList then
    { begin_ := "\r\n/* SIG # Begin signature block */\r\n".toList
      linePrefix := "/* ".toList
      lineSuffix := " */\r\n".toList
      end_ := "/* SIG # End signature block */\r\n".toList }
  else
    { begin_ := "\r\n# SIG # Begin signature block\r\n".toList
      linePrefix := "# ".toList
      lineSuffix := "\r\n".toList
      end_ := "# SIG # End signature block\r\n".toList }

variable (base64 : Base64Engine)

/-- `format_powershell_signature_block`. -/
def formatPowershellSignatureBlock (pkcs7Der : List UInt8) (extension : List Char) : List Char :=
  let b64 := base64.encode pkcs7Der
  let s := blockSyntax extension
  s.begin_ ++ (chunks 64 b64).flatMap (fun chunk => s.linePrefix ++ chunk ++ s.lineSuffix) ++ s.end_

/-- `append_script_signature_block`. -/
def appendScriptSignatureBlock (script : List UInt8) (block : List Char) : List UInt8 :=
  if bomLe <+: script then script ++ (encodeUtf16 block).flatMap leBytes
  else if bomBe <+: script then script ++ (encodeUtf16 block).flatMap beBytes
  else script ++ utf8Encode block

/-! ## The syntax of a family -/

/-- What a block line has before the base64 text. -/
def linePrefix : MarkerFamily → List Char
  | .hash => "# ".toList
  | .xml => "<!-- ".toList
  | .mof => "/* ".toList

/-- What a block line has after the base64 text. -/
def lineSuffix : MarkerFamily → List Char
  | .hash => []
  | .xml => " -->".toList
  | .mof => " */".toList

/-- A line of the block, without its line end. -/
def blockLine (family : MarkerFamily) (chunk : List Char) : List Char :=
  linePrefix family ++ chunk ++ lineSuffix family

/-- The signer and the verifier read an extension the same way. -/
theorem blockSyntax_eq {ext : List Char} {family : MarkerFamily}
    (hfamily : markerFamily ext = .ok family) :
    blockSyntax ext =
      { begin_ := crlf ++ family.beginPat ++ crlf
        linePrefix := linePrefix family
        lineSuffix := lineSuffix family ++ crlf
        end_ := family.endPat ++ crlf } := by
  simp only [markerFamily] at hfamily
  split at hfamily
  · rename_i hext
    obtain rfl := Except.ok.inj hfamily
    rcases hext with hext | hext | hext <;> simp only [blockSyntax, hext] <;> decide
  · split at hfamily
    · rename_i hext
      obtain rfl := Except.ok.inj hfamily
      simp only [blockSyntax, if_pos hext]
      decide
    · split at hfamily
      · rename_i hxml hext
        obtain rfl := Except.ok.inj hfamily
        simp only [blockSyntax, if_neg hxml, if_pos hext]
        decide
      · exact absurd hfamily Outcome.bail_ne_ok

/-- The lines of the block before the end marker. -/
def blockLines (family : MarkerFamily) (p : List UInt8) : List (List Char) :=
  family.beginPat :: (chunks 64 (base64.encode p)).map (blockLine family)

/-- Lines with their line ends. -/
def terminated (ls : List (List Char)) : List Char :=
  (ls.map (· ++ ['\r', '\n'])).flatten

/-- The block as complete lines, the end marker being the last. -/
theorem formatPowershellSignatureBlock_eq {ext : List Char} {family : MarkerFamily}
    (hfamily : markerFamily ext = .ok family) (p : List UInt8) :
    formatPowershellSignatureBlock base64 p ext =
      crlf ++ (terminated (blockLines base64 family p) ++ (family.endPat ++ crlf)) := by
  simp [formatPowershellSignatureBlock, blockSyntax_eq hfamily, blockLines, blockLine, terminated,
    crlf, List.flatMap_def, Function.comp_def]

/-! ## The texts of a family -/

theorem isAscii_of_mem_texts (family : MarkerFamily) :
    ∀ c ∈ family.beginPat ++ family.endPat ++ linePrefix family ++ lineSuffix family,
      IsAscii c ∧ c ≠ '\r' ∧ c ≠ '\n' := by
  cases family <;> unfold MarkerFamily.beginPat MarkerFamily.endPat <;>
    rw [String.toList_ofList, String.toList_ofList] <;> decide

theorem not_mem_beginPat (family : MarkerFamily) :
    '\r' ∉ family.beginPat ∧ '\n' ∉ family.beginPat := by
  cases family <;> unfold MarkerFamily.beginPat <;> rw [String.toList_ofList] <;> decide

theorem not_mem_endPat (family : MarkerFamily) : '\r' ∉ family.endPat ∧ '\n' ∉ family.endPat := by
  cases family <;> unfold MarkerFamily.endPat <;> rw [String.toList_ofList] <;> decide

theorem not_contains_beginPat_endPat (family : MarkerFamily) :
    ¬ Contains family.beginPat family.endPat := by
  cases family <;> unfold MarkerFamily.beginPat MarkerFamily.endPat <;>
    rw [String.toList_ofList, String.toList_ofList] <;> decide

theorem b64Token?_beginPat (family : MarkerFamily) : b64Token? family family.beginPat = none := by
  cases family <;> unfold MarkerFamily.beginPat <;> rw [String.toList_ofList] <;> decide

theorem b64Token?_endPat (family : MarkerFamily) : b64Token? family family.endPat = none := by
  cases family <;> unfold MarkerFamily.endPat <;> rw [String.toList_ofList] <;> decide

/-- The end marker has more blanks than a line of the block. -/
theorem count_blank_lt (family : MarkerFamily) :
    (linePrefix family).count ' ' + (lineSuffix family).count ' ' < family.endPat.count ' ' := by
  cases family <;> unfold MarkerFamily.endPat <;> rw [String.toList_ofList] <;> decide

/-! ## The lines of a block -/

section Chunk

variable {base64} {family : MarkerFamily} {p : List UInt8} {chunk : List Char}

theorem isBase64Char_of_mem_chunk (hchunk : chunk ∈ chunks 64 (base64.encode p)) :
    ∀ c ∈ chunk, IsBase64Char c := fun c hc =>
  base64.isBase64Char_of_mem_encode p c (mem_of_mem_chunks (by decide) hchunk c hc)

/-- The pieces of the base64 text are whole groups. -/
theorem looksLikeB64Token_chunk (hchunk : chunk ∈ chunks 64 (base64.encode p)) :
    looksLikeB64Token chunk = true := by
  refine looksLikeB64Token_iff.mpr ⟨?_, isBase64Char_of_mem_chunk hchunk⟩
  have hdvd : 4 ∣ chunk.length := by
    refine dvd_length_of_mem_chunks (by decide) ?_ hchunk
    rw [base64.length_encode]
    exact Nat.dvd_mul_right 4 _
  exact Nat.le_of_dvd (List.length_pos_of_ne_nil (ne_nil_of_mem_chunks (by decide) hchunk)) hdvd

theorem b64Token?_blockLine (hchunk : chunk ∈ chunks 64 (base64.encode p)) :
    b64Token? family (blockLine family chunk) = some chunk := by
  refine b64Token?_eq_some_iff.mpr ?_
  have htoken := looksLikeB64Token_chunk hchunk
  have hblank : Blank [' '] := by simp [Blank, isWhitespace]
  have hnil : Blank [] := by simp [Blank]
  cases family with
  | hash => exact ⟨[], [], [], [], hnil, hnil, hnil, hnil, htoken, by
      simp [blockLine, linePrefix, lineSuffix, MarkerFamily.opening, MarkerFamily.closing]⟩
  | xml => exact ⟨[], [' '], [' '], [], hnil, hblank, hblank, hnil, htoken, by
      simp [blockLine, linePrefix, lineSuffix, MarkerFamily.opening, MarkerFamily.closing]⟩
  | mof => exact ⟨[], [' '], [' '], [], hnil, hblank, hblank, hnil, htoken, by
      simp [blockLine, linePrefix, lineSuffix, MarkerFamily.opening, MarkerFamily.closing]⟩

theorem not_contains_blockLine (hchunk : chunk ∈ chunks 64 (base64.encode p)) :
    ¬ Contains (blockLine family chunk) family.endPat := by
  intro hcontains
  have hblank : chunk.count ' ' = 0 := by
    refine List.count_eq_zero.mpr fun hmem => ?_
    exact absurd (isBase64Char_of_mem_chunk hchunk ' ' hmem) (by decide)
  have hcount := hcontains.sublist.count_le ' '
  rw [blockLine, List.count_append, List.count_append, hblank] at hcount
  have := count_blank_lt family
  omega

/-- Base64 text is ASCII without line ends. -/
theorem isAscii_of_mem_chunk (hchunk : chunk ∈ chunks 64 (base64.encode p)) :
    ∀ c ∈ chunk, IsAscii c ∧ c ≠ '\r' ∧ c ≠ '\n' := by
  intro c hc
  have hn := toNat_of_isBase64Char (isBase64Char_of_mem_chunk hchunk c hc)
  refine ⟨hn.2, ?_, ?_⟩
  · rintro rfl
    exact absurd hn.1 (by decide)
  · rintro rfl
    exact absurd hn.1 (by decide)

end Chunk

/-- Every line of the block is ASCII without line ends. -/
theorem isAscii_of_mem_blockLines {family : MarkerFamily} {p : List UInt8} {line : List Char}
    (hline : line ∈ blockLines base64 family p) :
    ∀ c ∈ line, IsAscii c ∧ c ≠ '\r' ∧ c ≠ '\n' := by
  have htexts := isAscii_of_mem_texts family
  simp only [List.mem_append] at htexts
  intro c hc
  rcases List.mem_cons.mp hline with rfl | hchunk
  · exact htexts c (Or.inl (Or.inl (Or.inl hc)))
  · obtain ⟨chunk, hmem, rfl⟩ := List.mem_map.mp hchunk
    simp only [blockLine, List.mem_append] at hc
    rcases hc with (hpre | hmid) | hsuf
    · exact htexts c (Or.inl (Or.inr hpre))
    · exact isAscii_of_mem_chunk hmem c hmid
    · exact htexts c (Or.inr hsuf)

/-- No line of the block holds the end marker. -/
theorem not_contains_of_mem_blockLines {family : MarkerFamily} {p : List UInt8} {line : List Char}
    (hline : line ∈ blockLines base64 family p) : ¬ Contains line family.endPat := by
  rcases List.mem_cons.mp hline with rfl | hchunk
  · exact not_contains_beginPat_endPat family
  · obtain ⟨chunk, hmem, rfl⟩ := List.mem_map.mp hchunk
    exact not_contains_blockLine hmem

theorem isAscii_of_mem_block {family : MarkerFamily} {p : List UInt8} {ext : List Char}
    (hfamily : markerFamily ext = .ok family) :
    ∀ c ∈ formatPowershellSignatureBlock base64 p ext, IsAscii c := by
  have htexts := isAscii_of_mem_texts family
  have hcrlf : ∀ c ∈ ['\r', '\n'], IsAscii c := by decide
  simp only [List.mem_append] at htexts
  rw [formatPowershellSignatureBlock_eq base64 hfamily]
  intro c hc
  simp only [terminated, crlf, List.mem_append, List.mem_flatten, List.mem_map] at hc
  rcases hc with hc | ⟨_, ⟨line, hline, rfl⟩, hc⟩ | hc | hc
  · exact hcrlf c hc
  · rcases List.mem_append.mp hc with hc | hc
    · exact (isAscii_of_mem_blockLines base64 hline c hc).1
    · exact hcrlf c hc
  · exact (htexts c (Or.inl (Or.inl (Or.inr hc)))).1
  · exact hcrlf c hc

/-! ## The code units of a signed script -/

/-- A script in one of the two UTF-16 encodings has whole code units. -/
def WholeUnits (script : List UInt8) : Prop :=
  bomLe <+: script ∨ bomBe <+: script → 2 ∣ script.length

instance (script : List UInt8) : Decidable (WholeUnits script) :=
  inferInstanceAs (Decidable (_ → _))

/-- Appending ASCII text adds its code units, whatever the encoding, and leaves
the byte order mark as it was. -/
theorem fileUtf16Units_append {script : List UInt8} (hwhole : WholeUnits script)
    {text : List Char} (hascii : ∀ c ∈ text, IsAscii c) (hhead : text.head? = some '\r') :
    fileUtf16Units (appendScriptSignatureBlock script text) =
        fileUtf16Units script ++ text.map unit ∧
      (bomLe <+: appendScriptSignatureBlock script text ↔ bomLe <+: script) := by
  have hdrop : ∀ {bom : List UInt8} (_ : bom.length = 2) (_ : bom <+: script) (more : List UInt8),
      (script ++ more).drop 2 = script.drop 2 ++ more := by
    intro bom hbom hprefix more
    exact List.drop_append_of_le_length (hbom ▸ hprefix.length_le)
  have hnot : ¬ (bomLe <+: script ∧ bomBe <+: script) := by
    rintro ⟨⟨a, ha⟩, ⟨b, hb⟩⟩
    rw [← ha] at hb
    simp [bomLe, bomBe] at hb
  unfold appendScriptSignatureBlock
  split
  · rename_i hle
    have heven : 2 ∣ (script.drop 2).length := by
      have := hwhole (Or.inl hle)
      rw [List.length_drop]
      omega
    have hle' : ∀ more, bomLe <+: script ++ more := fun more =>
      hle.trans (List.prefix_append _ _)
    refine ⟨?_, iff_of_true (hle' _) hle⟩
    rw [fileUtf16Units, if_pos (hle' _), fileUtf16Units, if_pos hle, hdrop rfl hle,
      mapPairs_append mapPairs_leBytes heven, encodeUtf16_of_isAscii hascii]
  · rename_i hle
    split
    · rename_i hbe
      have heven : 2 ∣ (script.drop 2).length := by
        have := hwhole (Or.inr hbe)
        rw [List.length_drop]
        omega
      have hbe' : ∀ more, bomBe <+: script ++ more := fun more =>
        hbe.trans (List.prefix_append _ _)
      have hle' : ∀ more, ¬ bomLe <+: script ++ more := by
        intro more hprefix
        refine hle (List.prefix_of_prefix_length_le hprefix (List.prefix_append _ _) ?_)
        exact hbe.length_le
      refine ⟨?_, iff_of_false (hle' _) hle⟩
      rw [fileUtf16Units, if_neg (hle' _), if_pos (hbe' _), fileUtf16Units, if_neg hle, if_pos hbe,
        hdrop rfl hbe, mapPairs_append mapPairs_beBytes heven, encodeUtf16_of_isAscii hascii]
    · rename_i hbe
      -- a byte order mark cannot end in the `\r` of the text
      have hbom : ∀ {bom : List UInt8}, ¬ bom <+: script → asciiByte '\r' ∉ bom →
          ¬ bom <+: script ++ utf8Encode text := by
        intro bom hscript hcr hprefix
        obtain ⟨rest, hrest⟩ : ∃ rest, utf8Encode text = asciiByte '\r' :: rest := by
          cases text with
          | nil => simp at hhead
          | cons c text =>
            obtain rfl := Option.some.inj hhead
            rw [utf8Encode_of_isAscii hascii]
            exact ⟨_, rfl⟩
        rw [hrest] at hprefix
        exact hscript (prefix_of_prefix_append_cons _ hcr hprefix)
      have hle' := hbom hle (by decide)
      have hbe' := hbom hbe (by decide)
      refine ⟨?_, iff_of_false hle' hle⟩
      rw [fileUtf16Units, if_neg hle', if_neg hbe', fileUtf16Units, if_neg hle, if_neg hbe,
        utf8Lossy_append_of_isAscii hascii, encodeUtf16, List.flatMap_append, ← encodeUtf16,
        ← encodeUtf16, encodeUtf16_of_isAscii hascii]

theorem verifiedUnits_append {script : List UInt8} (hwhole : WholeUnits script)
    {text : List Char} (hascii : ∀ c ∈ text, IsAscii c) (hhead : text.head? = some '\r') :
    verifiedUnits (appendScriptSignatureBlock script text) =
      verifiedUnits script ++ text.map unit := by
  obtain ⟨hunits, hbom⟩ := fileUtf16Units_append hwhole hascii hhead
  unfold verifiedUnits
  by_cases hle : bomLe <+: script
  · rw [if_pos hle, if_pos (hbom.mpr hle), hunits, List.cons_append]
  · rw [if_neg hle, if_neg (mt hbom.mp hle), hunits]

/-! ## What the verifier finds -/

section Found

variable (p : List UInt8) {family : MarkerFamily} {ext : List Char} {before : List UInt16}

theorem unit_ne_of_ne {c : Char} {text : List Char} (hc : IsAscii c)
    (htext : ∀ d ∈ text, IsAscii d ∧ d ≠ c) : unit c ∉ text.map unit := by
  intro hmem
  obtain ⟨d, hd, heq⟩ := List.mem_map.mp hmem
  exact (htext d hd).2 (unit_injOn_ascii (htext d hd).1 hc heq)

theorem unit_not_mem_beginPat (family : MarkerFamily) :
    unit '\r' ∉ family.beginPat.map unit ∧ unit '\n' ∉ family.beginPat.map unit := by
  have htexts := isAscii_of_mem_texts family
  simp only [List.mem_append] at htexts
  have hmem := fun d hd => htexts d (Or.inl (Or.inl (Or.inl hd)))
  exact ⟨unit_ne_of_ne (by decide) fun d hd => ⟨(hmem d hd).1, (hmem d hd).2.1⟩,
    unit_ne_of_ne (by decide) fun d hd => ⟨(hmem d hd).1, (hmem d hd).2.2⟩⟩

/-- The begin marker starts after the line end that the block starts with. -/
theorem firstAt?_beginPat_units (hfamily : markerFamily ext = .ok family)
    (hmarker : ¬ Contains before (markers family).begin_) :
    firstAt? (family.beginPat.map unit)
        (before ++ (formatPowershellSignatureBlock base64 p ext).map unit) =
      some (before.length + 2) := by
  rw [markers_eq] at hmarker
  have hfound := firstAt?_lines (unit_not_mem_beginPat family).1 (unit_not_mem_beginPat family).2
    [before] (by simpa using hmarker)
    ((['\r', '\n'] ++ (terminated ((chunks 64 (base64.encode p)).map (blockLine family)) ++
      (family.endPat ++ crlf))).map unit)
  rw [formatPowershellSignatureBlock_eq base64 hfamily]
  simpa [blockLines, terminated, crlf] using hfound

/-- The same in the decoded text. -/
theorem firstAt?_beginPat_text (hfamily : markerFamily ext = .ok family)
    (hmarker : ¬ Contains before (markers family).begin_) :
    firstAt? family.beginPat
        (fromUtf16Lossy before ++ formatPowershellSignatureBlock base64 p ext) =
      some ((fromUtf16Lossy before).length + 2) := by
  have htexts := isAscii_of_mem_texts family
  simp only [List.mem_append] at htexts
  have htext : ¬ Contains (fromUtf16Lossy before) family.beginPat := by
    intro hcontains
    rw [markers_eq] at hmarker
    exact hmarker (contains_of_contains_fromUtf16Lossy
      (fun c hc => (htexts c (Or.inl (Or.inl (Or.inl hc)))).1) hcontains)
  have hfound := firstAt?_lines (not_mem_beginPat family).1 (not_mem_beginPat family).2
    [fromUtf16Lossy before] (by simpa using htext)
    (['\r', '\n'] ++ (terminated ((chunks 64 (base64.encode p)).map (blockLine family)) ++
      (family.endPat ++ crlf)))
  rw [formatPowershellSignatureBlock_eq base64 hfamily]
  simpa [blockLines, terminated, crlf] using hfound

/-- The end marker follows the lines of the block. -/
theorem firstAt?_endPat_text (family : MarkerFamily) (lead : List (List Char)) (hlead : ∀ line ∈ lead, line = []) :
    firstAt? family.endPat
        (terminated (lead ++ blockLines base64 family p) ++ (family.endPat ++ crlf)) =
      some (terminated (lead ++ blockLines base64 family p)).length := by
  refine firstAt?_lines (not_mem_endPat family).1 (not_mem_endPat family).2 _ ?_ crlf
  intro line hline
  rcases List.mem_append.mp hline with hline | hline
  · rw [hlead line hline]
    exact fun h => endPat_ne_nil family (List.infix_nil.mp h)
  · exact not_contains_of_mem_blockLines base64 hline

/-- The extraction reads back the PKCS#7 that was put in. -/
theorem extractPkcs7DerFromScript_append {script : List UInt8} (hwhole : WholeUnits script)
    (hfamily : markerFamily ext = .ok family)
    (hmarker : ¬ Contains (verifiedUnits script) (markers family).begin_) (hp : p ≠ []) :
    extractPkcs7DerFromScript base64
        (appendScriptSignatureBlock script (formatPowershellSignatureBlock base64 p ext)) family =
      .ok p := by
  have hblock := formatPowershellSignatureBlock_eq base64 hfamily p
  have hascii := isAscii_of_mem_block base64 hfamily (p := p)
  have hhead : (formatPowershellSignatureBlock base64 p ext).head? = some '\r' := by
    rw [hblock]
    rfl
  have hbegin := firstAt?_beginPat_text base64 p hfamily hmarker
  have hend := firstAt?_endPat_text base64 p family [] (by simp)
  have htail : (fromUtf16Lossy (verifiedUnits script) ++
      formatPowershellSignatureBlock base64 p ext).drop
        ((fromUtf16Lossy (verifiedUnits script)).length + 2) =
      terminated (blockLines base64 family p) ++ (family.endPat ++ crlf) := by
    rw [← List.drop_drop, List.drop_left, hblock]
    rfl
  have hlines : lines (terminated (blockLines base64 family p) ++ family.endPat) =
      blockLines base64 family p ++ [family.endPat] := by
    refine lines_crlf (fun line hline hmem => ?_) (not_mem_endPat family).2 ?_
    · exact (isAscii_of_mem_blockLines base64 hline _ hmem).2.2 rfl
    · exact endPat_ne_nil family
  have htokens : (blockLines base64 family p ++ [family.endPat]).flatMap
      (fun line => (b64Token? family line).getD []) = base64.encode p := by
    have hchunks : ((chunks 64 (base64.encode p)).map (blockLine family)).flatMap
        (fun line => (b64Token? family line).getD []) = base64.encode p := by
      rw [List.flatMap_map, List.flatMap_def]
      have hmap : (chunks 64 (base64.encode p)).map
          (fun chunk => (b64Token? family (blockLine family chunk)).getD []) =
          chunks 64 (base64.encode p) := by
        refine (List.map_congr_left fun chunk hchunk => ?_).trans (List.map_id _)
        rw [b64Token?_blockLine hchunk]
        rfl
      rw [hmap, flatten_chunks (by decide)]
    rw [blockLines, List.flatMap_append, List.flatMap_cons, hchunks, b64Token?_beginPat,
      List.flatMap_singleton, b64Token?_endPat]
    simp
  have hlen := base64.length_encode p
  have hpos := List.length_pos_of_ne_nil hp
  have hne : base64.encode p ≠ [] := by
    intro hnil
    rw [hnil, List.length_nil] at hlen
    omega
  have htrim : trim (base64.encode p) = base64.encode p := by
    have htoken : looksLikeB64Token (base64.encode p) = true :=
      looksLikeB64Token_iff.mpr ⟨by omega, base64.isBase64Char_of_mem_encode p⟩
    simpa using trim_of_token [] [] (by simp [Blank]) (by simp [Blank]) htoken
  have htake : (terminated (blockLines base64 family p) ++ (family.endPat ++ crlf)).take
      ((terminated (blockLines base64 family p)).length + family.endPat.length) =
      terminated (blockLines base64 family p) ++ family.endPat := by
    rw [← List.append_assoc, ← List.length_append, List.take_left]
  rw [List.nil_append] at hend
  simp only [extractPkcs7DerFromScript, verifiedUnits_append hwhole hascii hhead,
    fromUtf16Lossy_append_of_isAscii hascii, hbegin, htail, hend, Outcome.ofOption,
    Outcome.ok_bind, htake, hlines, htokens, if_neg hne, htrim, base64.decode_encode]
  rfl

/-- The verifier removes the block and nothing else. -/
theorem stripSignatureRegionUtf16_append (hfamily : markerFamily ext = .ok family)
    (hmarker : ¬ Contains before (markers family).begin_) :
    stripSignatureRegionUtf16
        (before ++ (formatPowershellSignatureBlock base64 p ext).map unit) family = .ok before := by
  have hascii := isAscii_of_mem_block base64 hfamily (p := p)
  have hendAscii : ∀ c ∈ family.endPat ++ crlf, IsAscii c := by
    intro c hc
    rcases List.mem_append.mp hc with hc | hc
    · exact (isAscii_of_mem_texts family c (by simp [hc])).1
    · exact (show ∀ c ∈ crlf, IsAscii c by decide) c hc
  have hbegin := firstAt?_beginPat_units base64 p hfamily hmarker
  have hend := firstAt?_endPat_text base64 p family [[]] (by simp)
  obtain ⟨rest, hopen⟩ : ∃ rest, formatPowershellSignatureBlock base64 p ext =
      crlf ++ family.beginPat ++ crlf ++ rest := by
    refine ⟨terminated ((chunks 64 (base64.encode p)).map (blockLine family)) ++
      (family.endPat ++ crlf), ?_⟩
    rw [formatPowershellSignatureBlock_eq base64 hfamily p]
    simp only [blockLines, terminated, crlf, List.map_cons, List.flatten_cons, List.append_assoc]
  have hshut : formatPowershellSignatureBlock base64 p ext =
      terminated ([[]] ++ blockLines base64 family p) ++ (family.endPat ++ crlf) := by
    rw [formatPowershellSignatureBlock_eq base64 hfamily p]
    simp [terminated, crlf]
  have hbeginCr : findSubslice
      (before ++ (formatPowershellSignatureBlock base64 p ext).map unit) (markers family).beginCr =
      some before.length := by
    have hne : (markers family).beginCr ≠ [] := by
      rw [markers_eq]
      exact List.cons_ne_nil _ _
    rw [findSubslice, if_neg hne, markers_eq, List.map_append,
      List.map_append]
    refine firstAt?_append_pattern (firstAt?_pattern_append hbegin ?_) ?_
    · rw [List.drop_left, hopen]
      exact ⟨(crlf ++ rest).map unit, by simp⟩
    · rw [List.drop_left, hopen]
      exact ⟨rest.map unit, by simp⟩
  have hendCr : findSubslice ((formatPowershellSignatureBlock base64 p ext).map unit)
      (markers family).endCr =
      some (terminated ([[]] ++ blockLines base64 family p)).length := by
    have hne : (markers family).endCr ≠ [] := by
      rw [markers_eq]
      simp [crlf]
    rw [findSubslice, if_neg hne, markers_eq,
      firstAt?_map fun x hx y hy => unit_injOn_ascii (hendAscii x hx) (hascii y hy), hshut]
    refine firstAt?_append_pattern hend ?_
    rw [List.drop_left]
  have hlength : (terminated ([[]] ++ blockLines base64 family p)).length +
      (markers family).endCr.length = (formatPowershellSignatureBlock base64 p ext).length := by
    rw [hshut, markers_eq, List.length_append, List.length_map]
  have hdrop : (before ++ (formatPowershellSignatureBlock base64 p ext).map unit).drop
      (before.length + (terminated ([[]] ++ blockLines base64 family p)).length +
        (markers family).endCr.length) = [] := by
    rw [Nat.add_assoc, hlength]
    simp
  simp only [stripSignatureRegionUtf16, signatureRegion, hbeginCr, Option.some_or, Outcome.ofOption,
    Outcome.ok_bind, List.drop_left, hendCr, Outcome.pure_eq_ok, List.take_left, hdrop,
    List.append_nil]

end Found

/-! ## Sign, then verify -/

theorem extensionSupported_of_markerFamily {ext : List Char} {family : MarkerFamily}
    (hfamily : markerFamily ext = .ok family) : extensionSupported ext = true := by
  simp only [markerFamily] at hfamily
  simp only [extensionSupported, decide_eq_true_eq]
  split at hfamily
  · rename_i hext
    rcases hext with hext | hext | hext <;> simp only [hext, true_or, or_true]
  · split at hfamily
    · rename_i hext
      rcases hext with hext | hext | hext <;> simp only [hext, true_or, or_true]
    · split at hfamily
      · rename_i hext
        simp only [hext, or_true]
      · exact absurd hfamily Outcome.bail_ne_ok

variable (hashes : Hashes) (authenticode : AuthenticodeParser)

/-- The digest that `script_authenticode_spc_indirect_data` builds is a hash of the
code units, and its length tells which. -/
theorem digest_of_scriptSpcIndirectData {script : List UInt8} {alg : AuthenticodeSigningDigest}
    {indirect : SpcIndirectDataContent}
    (hindirect : scriptAuthenticodeSpcIndirectData hashes script alg = .ok indirect) :
    indirect.digest = hashes.hash alg.peHashKind (utf16leBytes (fileUtf16Units script)) ∧
      PeAuthenticodeHashKind.fromDigestByteLen indirect.digest.length = .ok alg.peHashKind := by
  have hdigest : indirect.digest =
      hashes.hash alg.peHashKind (utf16leBytes (fileUtf16Units script)) :=
    digest_of_spcIndirectData hindirect
  refine ⟨hdigest, ?_⟩
  rw [hdigest, hashes.length_hash, PeAuthenticodeHashKind.fromDigestByteLen_digestOutputLen]

/-- What the verifier says of a signed script: it returns the PKCS#7 that was
put in exactly when its digest is the hash of the script. -/
theorem report_append_iff {script : List UInt8} {ext : List Char} {p embedded : List UInt8}
    {family : MarkerFamily} {kind : PeAuthenticodeHashKind}
    (hwhole : WholeUnits script) (hfamily : markerFamily ext = .ok family)
    (hmarker : ¬ Contains (verifiedUnits script) (markers family).begin_)
    (hp : authenticode.digest p = .ok embedded)
    (hkind : PeAuthenticodeHashKind.fromDigestByteLen embedded.length = .ok kind) :
    (∃ report, powershellClassDigestReport base64 hashes authenticode
        (appendScriptSignatureBlock script (formatPowershellSignatureBlock base64 p ext)) ext =
          .ok report ∧ report.pkcs7Der = p) ↔
      hashes.hash kind (utf16leBytes (verifiedUnits script)) = embedded := by
  have hlower : markerFamily (toAsciiLowercase ext) = .ok family := by
    simp only [markerFamily, toAsciiLowercase_toAsciiLowercase] at hfamily ⊢
    revert hfamily
    split <;> [exact id; skip]
    split <;> [exact id; skip]
    split <;> [exact id; exact fun h => absurd h Outcome.bail_ne_ok]
  have hpne : p ≠ [] := by
    rintro rfl
    exact authenticode.digest_nil _ hp
  have hascii := isAscii_of_mem_block base64 hfamily (p := p)
  have hhead : (formatPowershellSignatureBlock base64 p ext).head? = some '\r' := by
    rw [formatPowershellSignatureBlock_eq base64 hfamily p]
    rfl
  have hextract := extractPkcs7DerFromScript_append base64 p hwhole hfamily hmarker hpne
  have hstrip := stripSignatureRegionUtf16_append base64 p hfamily hmarker
  rw [← verifiedUnits_append hwhole hascii hhead] at hstrip
  constructor
  · rintro ⟨report, hreport, hpkcs7⟩
    obtain ⟨family', kind, stripped, -, hfamily', -, hembedded, hkind', hstripped, hhash, -⟩ :=
      (powershellClassDigestReport_eq_ok base64 hashes authenticode).mp hreport
    obtain rfl := Except.ok.inj (hlower.symm.trans hfamily')
    obtain rfl := Except.ok.inj (hstrip.symm.trans hstripped)
    rw [hpkcs7, hp] at hembedded
    have hembedded := Except.ok.inj hembedded
    rw [← hembedded] at hkind' hhash
    obtain rfl := Except.ok.inj (hkind.symm.trans hkind')
    exact hhash
  · intro hhash
    refine ⟨⟨p, embedded, embedded⟩, ?_, rfl⟩
    exact (powershellClassDigestReport_eq_ok base64 hashes authenticode).mpr
      ⟨family, kind, verifiedUnits script, extensionSupported_of_markerFamily hlower,
        hlower, hextract, hp, hkind, hstrip, hhash, rfl⟩

/-- The signature block marker of the family is nowhere in the script. -/
def NoSignatureMarker (family : MarkerFamily) (script : List UInt8) : Prop :=
  ¬ Contains (fileUtf16Units script) (markers family).begin_ ∧
    ¬ Contains (fileUtf16Units script) (markers family).end_

/-- The byte order mark does not help to spell a marker. -/
theorem not_contains_verifiedUnits {family : MarkerFamily} {script : List UInt8}
    (h : ¬ Contains (fileUtf16Units script) (markers family).begin_) :
    ¬ Contains (verifiedUnits script) (markers family).begin_ := by
  unfold verifiedUnits
  split
  · intro hcontains
    rcases List.infix_cons_iff.mp hcontains with hprefix | hinfix
    · obtain ⟨rest, hrest⟩ := hprefix
      obtain ⟨c, cs, hbegin⟩ := List.exists_cons_of_ne_nil (beginPat_ne_nil family)
      have hascii : IsAscii c :=
        (isAscii_of_mem_texts family c (by rw [hbegin]; simp)).1
      rw [markers_eq, hbegin, List.map_cons, List.cons_append] at hrest
      have hmark : (unit c).toNat = 0xFEFF := congrArg UInt16.toNat (List.cons.inj hrest).1
      unfold IsAscii at hascii
      rw [toNat_unit (by omega)] at hmark
      omega
    · exact h hinfix
  · exact h

/-- A script that was signed verifies, with the PKCS#7 that was put in, exactly
when it is not in UTF-16LE: there the verifier hashes the byte order mark and
the signer did not. -/
theorem powershell_sign_then_verify {script : List UInt8} {ext : List Char} {p : List UInt8}
    {family : MarkerFamily} {alg : AuthenticodeSigningDigest} {indirect : SpcIndirectDataContent}
    (hfamily : markerFamily ext = .ok family) (hwhole : WholeUnits script)
    (hmarker : NoSignatureMarker family script)
    (hindirect : scriptAuthenticodeSpcIndirectData hashes script alg = .ok indirect)
    (hp : authenticode.digest p = .ok indirect.digest)
    (hcollision : bomLe <+: script →
      hashes.hash alg.peHashKind (utf16leBytes (0xFEFF :: fileUtf16Units script)) ≠
        hashes.hash alg.peHashKind (utf16leBytes (fileUtf16Units script))) :
    (∃ report, powershellClassDigestReport base64 hashes authenticode
        (appendScriptSignatureBlock script (formatPowershellSignatureBlock base64 p ext)) ext =
          .ok report ∧ report.pkcs7Der = p) ↔ ¬ bomLe <+: script := by
  obtain ⟨hdigest, hkind⟩ := digest_of_scriptSpcIndirectData hashes hindirect
  rw [report_append_iff base64 hashes authenticode hwhole hfamily
    (not_contains_verifiedUnits hmarker.1) hp hkind, hdigest, verifiedUnits]
  split
  · rename_i hle
    exact iff_of_false (hcollision hle) (not_not_intro hle)
  · rename_i hle
    exact iff_of_true rfl hle

/-- A script of one character in UTF-8, signed with SHA-256. -/
theorem powershell_sign_then_verify_utf8 :
    (∃ report, powershellClassDigestReport Base64Engine.standard Hashes.truncating
        AuthenticodeParser.octetString
        (appendScriptSignatureBlock [0x61] (formatPowershellSignatureBlock Base64Engine.standard
          (0x04 :: 32 :: 0x61 :: List.replicate 31 0) "ps1".toList)) "ps1".toList = .ok report ∧
      report.pkcs7Der = 0x04 :: 32 :: 0x61 :: List.replicate 31 0) ↔
    ¬ bomLe <+: [0x61] :=
  @powershell_sign_then_verify Base64Engine.standard Hashes.truncating
    AuthenticodeParser.octetString [0x61] "ps1".toList _ .hash .sha256
    ⟨"1.3.6.1.4.1.311.2.1.30", spcScriptSiginfoValueDer,
      AuthenticodeSigningDigest.sha256.authenticodeDigestAlgorithm, 0x61 :: List.replicate 31 0⟩
    rfl (by decide) ⟨by decide, by decide⟩ rfl rfl (by decide)

set_option maxRecDepth 2000

/-- The same character in UTF-16LE: the script is signed, and does not verify. -/
theorem powershell_sign_then_verify_utf16le_fails :
    (∃ indirect, scriptAuthenticodeSpcIndirectData Hashes.truncating [0xFF, 0xFE, 0x61, 0x00]
        .sha256 = .ok indirect ∧
      AuthenticodeParser.octetString.digest (0x04 :: 32 :: 0x61 :: List.replicate 31 0) =
        .ok indirect.digest) ∧
    markerFamily "ps1".toList = .ok .hash ∧ WholeUnits [0xFF, 0xFE, 0x61, 0x00] ∧
    NoSignatureMarker .hash [0xFF, 0xFE, 0x61, 0x00] ∧
    powershellClassDigestReport Base64Engine.standard Hashes.truncating
        AuthenticodeParser.octetString
        (appendScriptSignatureBlock [0xFF, 0xFE, 0x61, 0x00]
          (formatPowershellSignatureBlock Base64Engine.standard
            (0x04 :: 32 :: 0x61 :: List.replicate 31 0) "ps1".toList)) "ps1".toList =
      Outcome.bail
        "script Authenticode digest mismatch (experimental UTF-16 strip heuristic vs PKCS#7)" := by
  refine ⟨⟨_, rfl, rfl⟩, rfl, by decide, ⟨by decide, by decide⟩, ?_⟩
  decide

end Psign.Portable
