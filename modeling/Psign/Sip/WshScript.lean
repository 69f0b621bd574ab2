import Psign.CodeLib.Bytes
import Psign.Sip.PsScript

/-!
# Windows Script Host scripts

`wsh_script.rs`: the digest check of a signed `.vbs`, `.js` or `.wsf` script.
Hashed are the code units without the signature block, and behind them the
position of the block.

Two functions look for the block: `extractPkcs7Der` searches for the end marker
behind the begin marker, `stripWshSignatureUnits` from the begin marker on.  An
end marker never starts inside a begin marker, so both find the same one
(`selectedBlock_of_wshDigestReport`).

What stands between the markers is removed before hashing.  Unlike the check of
PowerShell scripts, this one refuses every line that is neither empty nor starts
with the comment sign of the family.  It splits lines at line feeds alone, and
takes carriage returns off their ends.  A script engine also ends a line at a
carriage return: the text after one inside a line is a line of its own, and
nothing has looked for a comment sign there.  Nothing that can run is removed
exactly when the block has no such carriage return (`removed_lines_inert_iff`).
-/

namespace Psign.Sip

open CodeLib CodeLib.Bytes CodeLib.RustStr CodeLib.Subslice CodeLib.Unicode

/-! ## Kinds and markers -/

/-- `WshKind`. -/
inductive WshKind where
  | vbs
  | js
  | wsf
  deriving DecidableEq, Repr

/-- `wsh_kind_from_ext`. -/
def wshKindFromExt (ext : List Char) : Option WshKind :=
  let lower := toAsciiLowercase ext
  if lower = "vbs".toList ∨ lower = "vbe".toList then some .vbs
  else if lower = "js".toList ∨ lower = "jse".toList then some .js
  else if lower = "wsf".toList then some .wsf
  else none

namespace WshKind

/-- `beg_marker`. -/
def begMarker : WshKind → List Char
  | vbs => "\r\n'' SIG '' Begin signature block".toList
  | js => "\r\n// SIG // Begin signature block".toList
  | wsf => "\r\n<signature>".toList

/-- `end_marker`. -/
def endMarker : WshKind → List Char
  | vbs => "\r\n'' SIG '' End signature block\r\n".toList
  | js => "\r\n// SIG // End signature block\r\n".toList
  | wsf => "\r\n</signature>\r\n".toList

/-- `sig_line_prefix`. -/
def sigLinePrefix : WshKind → List Char
  | vbs => "'' SIG '' ".toList
  | js => "// SIG // ".toList
  | wsf => "** SIG ** ".toList

/-- What `{:?}` prints for the begin marker. -/
def begMarkerDebug : WshKind → String
  | vbs => "\"\\r\\n'' SIG '' Begin signature block\""
  | js => "\"\\r\\n// SIG // Begin signature block\""
  | wsf => "\"\\r\\n<signature>\""

/-- `u16s_from_str(beg_marker(kind))`. -/
def begUnits (kind : WshKind) : List UInt16 := encodeUtf16 kind.begMarker

/-- `u16s_from_str(end_marker(kind))`. -/
def endUnits (kind : WshKind) : List UInt16 := encodeUtf16 kind.endMarker

/-- `u16s_from_str(sig_line_prefix(kind))`. -/
def prefixUnits (kind : WshKind) : List UInt16 := encodeUtf16 kind.sigLinePrefix

end WshKind

/-- The code unit of a carriage return. -/
def crUnit : UInt16 := 13

/-- The code unit of a line feed. -/
def lfUnit : UInt16 := 10

/-! ## Lines of the block -/

/-- `find_last_subslice`. -/
def findLastSubslice (haystack needle : List UInt16) : Option Nat :=
  if needle = [] then none else lastAt? needle haystack

/-- `strip_prefix_units`. -/
def stripPrefixUnits (line pre : List UInt16) : Option (List UInt16) :=
  if pre <+: line then some (line.drop pre.length) else none

/-- `trim_cr`. -/
def trimCr (line : List UInt16) : List UInt16 :=
  (line.dropWhile (· == crUnit)).rdropWhile (· == crUnit)

/-- `split_lines_utf16`: a last line without a line feed is kept unless it is
empty. -/
def splitLinesUtf16 : List UInt16 → List (List UInt16)
  | [] => []
  | c :: rest =>
      if c = lfUnit then [] :: splitLinesUtf16 rest
      else if rest = [] then [[c]]
      else (splitLinesUtf16 rest).modifyHead (c :: ·)

/-- One round of the loop of `extract_base64_ascii`. -/
def lineBase64 (kind : WshKind) (rawLine : List UInt16) : Outcome (List Char) :=
  if trimCr rawLine = [] then .ok []
  else do
    let rest ← Outcome.ofOption (stripPrefixUnits (trimCr rawLine) kind.prefixUnits)
      ("WSH signature region line missing \"" ++ String.ofList kind.sigLinePrefix ++ "\" prefix")
    Outcome.guardThat (∀ cu ∈ rest, cu.toNat < 128) "non-ASCII in WSH base64 payload"
    return rest.map fun cu => Char.ofNat cu.toNat

/-- `extract_base64_ascii`. -/
def extractBase64Ascii (region : List UInt16) (kind : WshKind) : Outcome (List Char) := do
  let payloads ← (splitLinesUtf16 region).mapM (lineBase64 kind)
  let trimmed := payloads.flatten.filter fun c => !isWhitespace c
  Outcome.guardThat (trimmed ≠ []) "empty WSH base64 payload"
  return trimmed

/-! ## The report -/

/-- `strip_wsh_signature_units`: the code units that are hashed, and the
position of the begin marker. -/
def stripWshSignatureUnits (units : List UInt16) (kind : WshKind) :
    Outcome (List UInt16 × Nat) := do
  let last ← Outcome.ofOption (findLastSubslice units kind.begUnits)
    ("WSH begin signature marker not found (" ++ kind.begMarkerDebug ++ ")")
  let er ← Outcome.ofOption (findSubslice (units.drop last) kind.endUnits)
    "WSH end signature marker not found"
  let after := last + er + kind.endUnits.length
  return (units.take last ++ units.drop after, last % 2 ^ 32)

variable (base64 : Base64Engine) (hashes : Hashes) (authenticode : AuthenticodeParser)

/-- `extract_pkcs7_der`. -/
def extractPkcs7Der (units : List UInt16) (kind : WshKind) : Outcome (List UInt8) := do
  let last ← Outcome.ofOption (findLastSubslice units kind.begUnits)
    "WSH begin marker not found"
  let tail := units.drop (last + kind.begUnits.length)
  let er ← Outcome.ofOption (findSubslice tail kind.endUnits) "WSH end marker not found"
  let ascii ← extractBase64Ascii (tail.take er) kind
  (base64.decode ascii).mapErr fun e => "WSH base64 decode: " ++ e

/-- The byte order mark of UTF-8. -/
def bomUtf8 : List UInt8 := [0xEF, 0xBB, 0xBF]

/-- The code units of the report: without the byte order mark of a UTF-8 file. -/
def wshUnits (raw : List UInt8) : List UInt16 :=
  if bomUtf8 <+: raw ∧ (fileUtf16Units raw).head? = some 0xFEFF then (fileUtf16Units raw).tail
  else fileUtf16Units raw

/-- `wsh_digest_report`. -/
def wshDigestReport (raw : List UInt8) (ext : List Char) :
    Outcome ScriptAuthenticodeDigestReport := do
  let kind ← Outcome.ofOption (wshKindFromExt ext)
    ("not a WSH script extension ." ++ String.ofList ext)
  let pkcs7 ← extractPkcs7Der base64 (wshUnits raw) kind
  let embedded ← (authenticode.digest pkcs7).mapErr fun e =>
    "Authenticode PKCS#7 parse failed: " ++ e
  let hkind ← PeAuthenticodeHashKind.fromDigestByteLen embedded.length
  let (stripped, beginOff) ← stripWshSignatureUnits (wshUnits raw) kind
  let computed := hashes.hash hkind (utf16leBytes stripped ++ u32le beginOff)
  Outcome.guardThat (computed = embedded)
    "WSH Authenticode digest mismatch (wshext strip + offset dword vs PKCS#7)"
  return ⟨pkcs7, embedded, computed⟩

/-! ## Lines as a script engine sees them -/

/-- The lines of a text that CR, LF or CRLF separates. -/
def scriptLines : List UInt16 → List (List UInt16)
  | [] => [[]]
  | c :: rest =>
      if c = crUnit ∧ rest.head? = some lfUnit then scriptLines rest
      else if c = crUnit ∨ c = lfUnit then [] :: scriptLines rest
      else (scriptLines rest).modifyHead (c :: ·)

/-- A line that a script engine runs nothing of. -/
def InertLine (kind : WshKind) (line : List UInt16) : Prop :=
  line = [] ∨ kind.prefixUnits <+: line

instance (kind : WshKind) (line : List UInt16) : Decidable (InertLine kind line) :=
  inferInstanceAs (Decidable (_ ∨ _))

/-- The text is at its end, at the end of a line, or at a comment sign. -/
def AtInertText (kind : WshKind) (text : List UInt16) : Prop :=
  text = [] ∨ text.head? = some crUnit ∨ text.head? = some lfUnit ∨ kind.prefixUnits <+: text

/-- Every occurrence of a code unit is followed by inert text. -/
def InertAfter (kind : WshKind) (unit : UInt16) (region : List UInt16) : Prop :=
  ∀ text, unit :: text <:+ region → AtInertText kind text

/-! ### Inert lines start at inert text -/

theorem not_eol_of_mem_prefixUnits {kind : WshKind} :
    ∀ c ∈ kind.prefixUnits, ¬ (c = crUnit ∨ c = lfUnit) := by
  cases kind <;> decide

/-- A list without the separating elements is at the start of a text when it is
at the start of what comes before the first of these. -/
theorem prefix_takeWhile_iff {pre text : List UInt16} {p : UInt16 → Bool}
    (hpre : ∀ c ∈ pre, p c = true) : pre <+: text.takeWhile p ↔ pre <+: text := by
  constructor
  · exact fun h => h.trans (List.takeWhile_prefix p)
  · intro h
    obtain ⟨rest, rfl⟩ := h
    rw [List.takeWhile_append_of_pos hpre]
    exact List.prefix_append _ _

/-- The first line of a text. -/
def firstLine (text : List UInt16) : List UInt16 :=
  text.takeWhile fun c => decide (¬ (c = crUnit ∨ c = lfUnit))

theorem firstLine_cons_of_eol {c : UInt16} (hc : c = crUnit ∨ c = lfUnit) (rest : List UInt16) :
    firstLine (c :: rest) = [] :=
  List.takeWhile_cons_of_neg fun h => of_decide_eq_true h hc

theorem firstLine_cons_of_not {c : UInt16} (hc : ¬ (c = crUnit ∨ c = lfUnit))
    (rest : List UInt16) : firstLine (c :: rest) = c :: firstLine rest :=
  List.takeWhile_cons_of_pos (decide_eq_true hc)

theorem inertLine_firstLine_iff {kind : WshKind} {text : List UInt16} :
    InertLine kind (firstLine text) ↔ AtInertText kind text := by
  have hprefixed : kind.prefixUnits <+: firstLine text ↔ kind.prefixUnits <+: text :=
    prefix_takeWhile_iff fun c hc => decide_eq_true (not_eol_of_mem_prefixUnits c hc)
  have hempty : firstLine text = [] ↔
      text = [] ∨ text.head? = some crUnit ∨ text.head? = some lfUnit := by
    cases text with
    | nil => simp [firstLine]
    | cons c rest =>
      by_cases hc : c = crUnit ∨ c = lfUnit
      · simpa [firstLine_cons_of_eol hc] using hc
      · simpa [firstLine_cons_of_not hc] using hc
  unfold InertLine AtInertText
  rw [hprefixed, hempty]
  constructor
  · intro h
    rcases h with (h | h | h) | h
    exacts [.inl h, .inr (.inl h), .inr (.inr (.inl h)), .inr (.inr (.inr h))]
  · intro h
    rcases h with h | h | h | h
    exacts [.inl (.inl h), .inl (.inr (.inl h)), .inl (.inr (.inr h)), .inr h]

theorem inertAfter_cons_iff {kind : WshKind} {unit c : UInt16} {rest : List UInt16} :
    InertAfter kind unit (c :: rest) ↔
      (c = unit → AtInertText kind rest) ∧ InertAfter kind unit rest := by
  unfold InertAfter
  constructor
  · intro h
    refine ⟨fun hc => h rest ?_, fun text htext => h text ?_⟩
    · exact hc ▸ List.suffix_refl _
    · exact htext.trans (List.suffix_cons c rest)
  · intro h text htext
    rcases List.suffix_cons_iff.mp htext with heq | htext
    · obtain ⟨rfl, rfl⟩ := List.cons.inj heq
      exact h.1 rfl
    · exact h.2 text htext

theorem inertAfter_nil (kind : WshKind) (unit : UInt16) : InertAfter kind unit [] := by
  intro text htext
  simp at htext

/-- The lines of a text are its first line and those that start after a line
end. -/
theorem scriptLines_eq (kind : WshKind) (text : List UInt16) :
    ∃ more, scriptLines text = firstLine text :: more ∧
      ((∀ line ∈ more, InertLine kind line) ↔
        InertAfter kind crUnit text ∧ InertAfter kind lfUnit text) := by
  induction text with
  | nil => exact ⟨[], rfl, by simp [inertAfter_nil]⟩
  | cons c rest ih =>
    obtain ⟨more, hlines, hmore⟩ := ih
    have hne : crUnit ≠ lfUnit := by decide
    rw [scriptLines]
    simp only [inertAfter_cons_iff]
    split
    · -- the carriage return of a CRLF, which the line feed ends
      rename_i h
      obtain ⟨rfl, hlf⟩ := h
      obtain ⟨rest', rfl⟩ : ∃ rest', rest = lfUnit :: rest' := List.head?_eq_some_iff.mp hlf
      refine ⟨more, hlines, hmore.trans ?_⟩
      simp [hne, AtInertText]
    · split
      · rename_i heol
        refine ⟨firstLine rest :: more, ?_, ?_⟩
        · rw [hlines, firstLine_cons_of_eol heol]
        · rw [List.forall_mem_cons, inertLine_firstLine_iff, hmore]
          rcases heol with rfl | rfl
          · simp only [hne, forall_const, false_implies, true_and, and_assoc]
          · simp only [hne.symm, forall_const, false_implies, true_and]
            exact and_left_comm
      · rename_i heol
        obtain ⟨hcr, hlf⟩ := not_or.mp heol
        refine ⟨more, ?_, hmore.trans (by simp [hcr, hlf])⟩
        rw [hlines, firstLine_cons_of_not heol]
        rfl

/-- The lines of a text are inert exactly when it starts at inert text and so
does what follows each line end. -/
theorem forall_inertLine_iff {kind : WshKind} {text : List UInt16} :
    (∀ line ∈ scriptLines text, InertLine kind line) ↔
      AtInertText kind text ∧ InertAfter kind crUnit text ∧ InertAfter kind lfUnit text := by
  obtain ⟨more, hlines, hmore⟩ := scriptLines_eq kind text
  rw [hlines, List.forall_mem_cons, inertLine_firstLine_iff, hmore]

/-! ### What the extraction has looked at -/

theorem trimCr_prefix_of_head {c : UInt16} {line : List UInt16} (hc : c ≠ crUnit) :
    ∃ kept, trimCr (c :: line) = c :: kept ∧ c :: kept <+: c :: line := by
  have hdrop : (c :: line).dropWhile (· == crUnit) = c :: line :=
    List.dropWhile_cons_of_neg (by simpa using hc)
  have hprefixed : trimCr (c :: line) <+: c :: line := by
    rw [trimCr, hdrop]
    exact List.rdropWhile_prefix _ _
  have hne : trimCr (c :: line) ≠ [] := by
    rw [trimCr, hdrop]
    intro h
    exact hc (by simpa using List.rdropWhile_eq_nil_iff.mp h c List.mem_cons_self)
  obtain ⟨d, kept, hkept⟩ := List.exists_cons_of_ne_nil hne
  obtain rfl : d = c := (List.cons_prefix_cons.mp (hkept ▸ hprefixed)).1
  exact ⟨kept, hkept, hkept ▸ hprefixed⟩

/-- A line of which the extraction has seen that it is empty or a comment. -/
def TrimmedInert (kind : WshKind) (line : List UInt16) : Prop :=
  InertLine kind (trimCr line)

theorem trimmedInert_of_lineBase64 {kind : WshKind} {line : List UInt16} {text : List Char}
    (h : lineBase64 kind line = .ok text) : TrimmedInert kind line := by
  unfold lineBase64 at h
  split at h
  · rename_i hempty
    exact Or.inl hempty
  · obtain ⟨rest, hrest, -⟩ := Outcome.bind_eq_ok.mp h
    rw [Outcome.ofOption_eq_ok, stripPrefixUnits] at hrest
    split at hrest
    · rename_i hprefixed
      exact Or.inr hprefixed
    · cases hrest

/-- Text in front of a line feed. -/
def lfLine (text : List UInt16) : List UInt16 :=
  text.takeWhile (· != lfUnit)

theorem atInertText_of_trimmedInert {kind : WshKind} {text : List UInt16}
    (h : TrimmedInert kind (lfLine text)) : AtInertText kind text := by
  cases text with
  | nil => exact Or.inl rfl
  | cons c rest =>
    by_cases hlf : c = lfUnit
    · exact Or.inr (Or.inr (Or.inl (congrArg some hlf)))
    by_cases hcr : c = crUnit
    · exact Or.inr (Or.inl (congrArg some hcr))
    have hline : lfLine (c :: rest) = c :: lfLine rest :=
      List.takeWhile_cons_of_pos (by simpa using hlf)
    obtain ⟨kept, hkept, hprefixed⟩ := @trimCr_prefix_of_head _ (lfLine rest) hcr
    rw [hline, TrimmedInert, hkept] at h
    rcases h with h | h
    · cases h
    · refine Or.inr (Or.inr (Or.inr (h.trans (hprefixed.trans ?_))))
      rw [← hline]
      exact List.takeWhile_prefix _

theorem splitLinesUtf16_eq (text : List UInt16) :
    text = [] ∨ ∃ more, splitLinesUtf16 text = lfLine text :: more := by
  induction text with
  | nil => exact Or.inl rfl
  | cons c rest ih =>
    right
    rw [splitLinesUtf16]
    split
    · rename_i hlf
      exact ⟨splitLinesUtf16 rest, by simp [lfLine, hlf]⟩
    · rename_i hlf
      have hline : lfLine (c :: rest) = c :: lfLine rest :=
        List.takeWhile_cons_of_pos (by simpa using hlf)
      rw [hline]
      split
      · rename_i hnil
        subst hnil
        exact ⟨[], rfl⟩
      · rename_i hnil
        rcases ih with hnil' | ⟨more, hmore⟩
        · exact absurd hnil' hnil
        · exact ⟨more, by rw [hmore]; rfl⟩

/-- The extraction has looked at the text behind every line feed. -/
theorem inertAfter_lf {kind : WshKind} {text : List UInt16}
    (h : ∀ line ∈ (splitLinesUtf16 text).tail, TrimmedInert kind line) :
    InertAfter kind lfUnit text := by
  induction text with
  | nil => exact inertAfter_nil kind lfUnit
  | cons c rest ih =>
    rw [splitLinesUtf16] at h
    split at h
    · rename_i hlf
      rw [List.tail_cons] at h
      refine inertAfter_cons_iff.mpr ⟨fun _ => ?_, ih fun line hline => h line (List.mem_of_mem_tail hline)⟩
      rcases splitLinesUtf16_eq rest with rfl | ⟨more, hmore⟩
      · exact Or.inl rfl
      · exact atInertText_of_trimmedInert (h _ (hmore ▸ List.mem_cons_self))
    · rename_i hlf
      refine inertAfter_cons_iff.mpr ⟨fun hc => absurd hc hlf, ?_⟩
      rcases splitLinesUtf16_eq rest with rfl | ⟨more, hmore⟩
      · exact inertAfter_nil kind lfUnit
      · split at h
        · rename_i hnil
          subst hnil
          exact inertAfter_nil kind lfUnit
        · rw [hmore] at h ih
          exact ih h

/-- In a block with base64 text the lines are inert exactly when the text behind
each carriage return is. -/
theorem inertLines_iff_of_extractBase64Ascii {kind : WshKind} {region : List UInt16}
    {text : List Char} (h : extractBase64Ascii region kind = .ok text) :
    (∀ line ∈ scriptLines region, InertLine kind line) ↔ InertAfter kind crUnit region := by
  obtain ⟨payloads, hpayloads, -⟩ := Outcome.bind_eq_ok.mp h
  have hlines : ∀ line ∈ splitLinesUtf16 region, TrimmedInert kind line := by
    intro line hline
    obtain ⟨payload, _, hpayload⟩ := Outcome.exists_of_mapM_eq_ok hpayloads line hline
    exact trimmedInert_of_lineBase64 hpayload
  have hstart : AtInertText kind region := by
    rcases splitLinesUtf16_eq region with rfl | ⟨more, hmore⟩
    · exact Or.inl rfl
    · exact atInertText_of_trimmedInert (hlines _ (hmore ▸ List.mem_cons_self))
  have hlf : InertAfter kind lfUnit region :=
    inertAfter_lf fun line hline => hlines line (List.mem_of_mem_tail hline)
  rw [forall_inertLine_iff]
  exact ⟨fun h => h.2.1, fun h => ⟨hstart, h, hlf⟩⟩

/-! ## The block both functions select -/

/-- The last begin marker, the first end marker behind it, and what the two
functions make of the block. -/
structure SelectedBlock (units : List UInt16) (kind : WshKind) (start stop : Nat)
    (region : List UInt16) : Prop where
  units_eq : units = units.take start ++ (kind.begUnits ++ region ++ kind.endUnits) ++
    units.drop stop
  begin_last : lastAt? kind.begUnits units = some start
  end_first : firstAt? kind.endUnits (region ++ kind.endUnits ++ units.drop stop) =
    some region.length
  extracted : extractPkcs7Der base64 units kind = (do
    let ascii ← extractBase64Ascii region kind
    (base64.decode ascii).mapErr fun e => "WSH base64 decode: " ++ e)
  stripped : stripWshSignatureUnits units kind =
    .ok (units.take start ++ units.drop stop, start % 2 ^ 32)

variable {base64} in
/-- The code units select the block. -/
theorem SelectedBlock.region_eq {units region : List UInt16} {kind : WshKind} {start stop : Nat}
    (h : SelectedBlock base64 units kind start stop region) :
    region = (units.drop (start + kind.begUnits.length)).take
      ((firstAt? kind.endUnits (units.drop (start + kind.begUnits.length))).getD 0) := by
  have hlt : start ≤ units.length := by
    by_contra hlong
    have hnil : units.drop start = [] := List.drop_eq_nil_of_le (by omega)
    have hat := (lastAt?_eq_some h.begin_last).1
    rw [hnil, List.prefix_nil] at hat
    exact absurd hat (by cases kind <;> decide)
  have htail : units.drop (start + kind.begUnits.length) =
      region ++ kind.endUnits ++ units.drop stop := by
    have hlen : (units.take start).length = start := List.length_take_of_le hlt
    conv_lhs => rw [h.units_eq]
    rw [List.append_assoc, List.append_assoc kind.begUnits, List.append_assoc kind.begUnits,
      ← List.drop_drop, List.drop_left' hlen, List.drop_left]
  rw [htail, h.end_first, Option.getD_some, List.append_assoc, List.take_left]

theorem findLastSubslice_begUnits (kind : WshKind) (units : List UInt16) :
    findLastSubslice units kind.begUnits = lastAt? kind.begUnits units :=
  if_neg (by cases kind <;> decide)

theorem findSubslice_endUnits (kind : WshKind) (units : List UInt16) :
    findSubslice units kind.endUnits = firstAt? kind.endUnits units :=
  if_neg (by cases kind <;> decide)

/-- No end marker starts inside a begin marker. -/
theorem not_prefix_endUnits (kind : WshKind) (text : List UInt16) :
    ∀ j < kind.begUnits.length, ¬ kind.endUnits <+: kind.begUnits.drop j ++ text := by
  intro j hj h
  have happend : kind.begUnits.drop j <+: kind.begUnits.drop j ++ text := List.prefix_append _ _
  have hapart : ∀ j < kind.begUnits.length, ¬ kind.endUnits <+: kind.begUnits.drop j ∧
      ¬ kind.begUnits.drop j <+: kind.endUnits := by
    cases kind <;> decide
  rcases List.prefix_or_prefix_of_prefix h happend with h | h
  · exact (hapart j hj).1 h
  · exact (hapart j hj).2 h

theorem selectedBlock_of_extractPkcs7Der {units : List UInt16} {kind : WshKind} {der : List UInt8}
    (h : extractPkcs7Der base64 units kind = .ok der) :
    ∃ start stop region ascii, SelectedBlock base64 units kind start stop region ∧
      extractBase64Ascii region kind = .ok ascii := by
  have hrun := h
  simp only [extractPkcs7Der, Outcome.bind_eq_ok, Outcome.ofOption_eq_ok,
    findLastSubslice_begUnits, findSubslice_endUnits] at h
  obtain ⟨last, hlast, er, her, ascii, hascii, -⟩ := h
  obtain ⟨after, hafter⟩ := (lastAt?_eq_some hlast).1
  have htail : units.drop (last + kind.begUnits.length) = after := by
    rw [← List.drop_drop, ← hafter, List.drop_left]
  rw [htail] at her hascii
  obtain ⟨post, hpost, hlen⟩ := exists_split_of_firstAt? her
  generalize hregion : after.take er = region at hpost hlen hascii
  have hstop : units.drop (last + (kind.begUnits.length + er) + kind.endUnits.length) = post := by
    have hcut : last + (kind.begUnits.length + er) + kind.endUnits.length =
        last + kind.begUnits.length + (region.length + kind.endUnits.length) := by omega
    rw [hcut, ← List.drop_drop, htail, hpost, ← List.length_append, List.drop_left]
  refine ⟨last, last + (kind.begUnits.length + er) + kind.endUnits.length, region, ascii,
    ⟨?_, hlast, ?_, ?_, ?_⟩, hascii⟩
  · rw [hstop]
    conv_lhs => rw [← List.take_append_drop last units, ← hafter, hpost]
    simp only [List.append_assoc]
  · rw [hstop, ← hpost, her, hlen]
  · rw [extractPkcs7Der, findLastSubslice_begUnits, hlast]
    simp only [Outcome.ofOption, Outcome.ok_bind, findSubslice_endUnits, htail, her, hregion]
  · rw [stripWshSignatureUnits, findLastSubslice_begUnits, hlast]
    have hsame : firstAt? kind.endUnits (units.drop last) = some (kind.begUnits.length + er) := by
      rw [← hafter, firstAt?_append_of_not (not_prefix_endUnits kind after), her, Option.map_some,
        Nat.add_comm]
    simp only [Outcome.ofOption, Outcome.ok_bind, findSubslice_endUnits, hsame]
    rfl

/-! ## Accepted scripts -/

/-- In an accepted script both functions select one block, and the lines that
are removed before hashing are empty or comments exactly when every carriage
return in the block stands before its end, another line end or a comment sign. -/
theorem removed_lines_inert_iff {raw : List UInt8} {ext : List Char}
    {report : ScriptAuthenticodeDigestReport}
    (h : wshDigestReport base64 hashes authenticode raw ext = .ok report) :
    ∃ kind start stop region, wshKindFromExt ext = some kind ∧
      SelectedBlock base64 (wshUnits raw) kind start stop region ∧
      ((∀ line ∈ scriptLines region, InertLine kind line) ↔ InertAfter kind crUnit region) := by
  simp only [wshDigestReport, Outcome.bind_eq_ok, Outcome.ofOption_eq_ok] at h
  obtain ⟨kind, hkind, der, hder, -⟩ := h
  obtain ⟨start, stop, region, ascii, hblock, hascii⟩ :=
    selectedBlock_of_extractPkcs7Der base64 hder
  exact ⟨kind, start, stop, region, hkind, hblock, inertLines_iff_of_extractBase64Ascii hascii⟩

/-- A script whose hashed part is empty: inside its block a carriage return
stands in front of the name of a procedure. -/
def wshScriptWithCall : List UInt8 :=
  utf8Encode ("\r\n'' SIG '' Begin signature block\r\n'' SIG '' BCAA\rAAAAAAAA".toList ++
    "\r\n'' SIG '' ".toList ++ List.replicate 34 'A' ++
    "==\r\n'' SIG '' End signature block\r\n".toList)

/-- The report on that script. -/
def wshScriptWithCallReport : ScriptAuthenticodeDigestReport :=
  ⟨0x04 :: 32 :: List.replicate 32 0, List.replicate 32 0, List.replicate 32 0⟩

set_option maxRecDepth 2000

/-- The script is accepted, and the call is among the removed lines. -/
theorem accepted_wsh_script_hides_call :
    wshDigestReport Base64Engine.standard Hashes.truncating AuthenticodeParser.octetString
        wshScriptWithCall "vbs".toList = .ok wshScriptWithCallReport ∧
      ¬ ∃ kind start stop region, wshKindFromExt "vbs".toList = some kind ∧
        SelectedBlock Base64Engine.standard (wshUnits wshScriptWithCall) kind start stop region ∧
        ∀ line ∈ scriptLines region, InertLine kind line := by
  refine ⟨by decide, ?_⟩
  intro ⟨kind, start, stop, region, hkind, hblock, hinert⟩
  obtain rfl : WshKind.vbs = kind := Option.some.inj hkind
  have hstart : lastAt? WshKind.vbs.begUnits (wshUnits wshScriptWithCall) = some 0 := by
    decide
  obtain rfl : 0 = start := Option.some.inj (hstart.symm.trans hblock.begin_last)
  have hregion := hblock.region_eq
  have hend : firstAt? WshKind.vbs.endUnits
      ((wshUnits wshScriptWithCall).drop (0 + WshKind.vbs.begUnits.length)) = some 73 := by
    decide
  rw [hend, Option.getD_some] at hregion
  have hline : encodeUtf16 "AAAAAAAA".toList ∈ scriptLines region := by
    rw [hregion]
    decide
  exact absurd (hinert _ hline) (by decide)

theorem removed_lines_inert_iff_of_call :
    ∃ kind start stop region, wshKindFromExt "vbs".toList = some kind ∧
      SelectedBlock Base64Engine.standard (wshUnits wshScriptWithCall) kind start stop region ∧
      ((∀ line ∈ scriptLines region, InertLine kind line) ↔ InertAfter kind crUnit region) :=
  @removed_lines_inert_iff Base64Engine.standard Hashes.truncating AuthenticodeParser.octetString
    wshScriptWithCall "vbs".toList wshScriptWithCallReport (by decide)

end Psign.Sip
