import Psign.CodeLib.GlobUtf8
import Psign.Portable.Script
import Psign.Sip.ZipSign

/-!
# ZIP signatures as scripts

`zip_authenticode.rs`: the signature line of an archive is made from a signed PowerShell
script, and turned back into one to be verified.  The script is the digest and a
signature block; what is signed is the digest (`unsigned_signature_script_bytes`).

The script of a line is the script that `append_script_signature_block` writes
(`utf8Encode_scriptOf`), so the results on signed scripts apply to it, and its lines are
read back one by one (`collectBase64_blockLines`).  The line and the script have the
digest in lower case, and the digest that is signed is as it was given: the script
verifies exactly if that makes no difference (`signature_script_converts_iff`).
-/

namespace Psign.Sip

open CodeLib CodeLib.RustStr CodeLib.Slice CodeLib.Subslice CodeLib.Unicode Psign.Portable

/-! ## The script of a signature -/

/-- `BEGIN_SIG_BLOCK`. -/
def beginSigBlock : List Char := "# SIG # Begin signature block".toList

/-- `END_SIG_BLOCK`. -/
def endSigBlock : List Char := "# SIG # End signature block".toList

/-- One round of the loop of `signature_script_from_parts`.  The panic of `expect` is an
error here. -/
def scriptBase64Line (chunk : List UInt8) : Outcome (List Char) := do
  let text ← Outcome.ofOption (fromUtf8 chunk) "base64 chunk is ASCII"
  return "# ".toList ++ text ++ crlf

/-- `signature_script_from_parts`. -/
def signatureScriptFromParts (digest pkcs7Base64 : List Char) : Outcome (List Char) := do
  let body ← (chunks 64 (utf8Encode pkcs7Base64)).mapM scriptBase64Line
  return digest ++ crlf ++ beginSigBlock ++ crlf ++ body.flatten ++ endSigBlock ++ crlf

/-- `unsigned_signature_script_bytes`. -/
def unsignedSignatureScriptBytes (digest : List Char) : List UInt8 :=
  utf8Encode digest

/-- The loop of `signature_comment_line_from_script`: what is pushed to `pkcs7_base64`
for the rest of the lines. -/
def collectBase64 (inBlock : Bool) : List (List Char) → List Char
  | [] => []
  | line :: rest =>
    let trimmed := trim line
    if trimmed = beginSigBlock then collectBase64 true rest
    else if trimmed = endSigBlock then []
    else if inBlock then
      match stripPrefix "# ".toList trimmed with
      | some text => trim text ++ collectBase64 inBlock rest
      | none => collectBase64 inBlock rest
    else collectBase64 inBlock rest

section conversion

variable (base64 : Base64Engine)

/-- `signature_script_from_comment_line`. -/
def signatureScriptFromCommentLine (line : List Char) : Outcome (List Char) := do
  let sig ← parseSignatureCommentLine base64 line
  signatureScriptFromParts sig.digest sig.pkcs7Base64

/-- `signature_comment_line_from_script`. -/
def signatureCommentLineFromScript (script : List UInt8) : Outcome (List Char) := do
  let text ← Outcome.ofOption (fromUtf8 script) "signed ZIP .sig.ps1 is not UTF-8"
  match lines text with
  | [] => Outcome.bail "signed ZIP .sig.ps1 is empty"
  | first :: rest =>
    let digest := trim first
    if ¬ IsSha256DigestString digest then
      Outcome.bail "signed ZIP .sig.ps1 first line must be sha256:<64 hex chars>"
    else do
      let line := zipAuthenticodePrefix ++ toAsciiLowercase digest ++ ',' :: collectBase64 false rest
      let _ ← parseSignatureCommentLine base64 line
      return line

end conversion

/-! ## Digest strings -/

/-- A character of a hash in hexadecimal, in either case. -/
theorem hexdigit_spec {c : Char} (hascii : IsAscii c) (h : isAsciiHexdigit (asciiByte c) = true) :
    IsLineChar c ∧ IsLineChar c.toLower ∧ c.toLower ≠ ',' ∧
      isAsciiHexdigit (asciiByte c.toLower) = true := by
  have hnum := toNat_asciiByte hascii
  simp only [isAsciiHexdigit, Bool.or_eq_true, Bool.and_eq_true, decide_eq_true_eq,
    UInt8.le_iff_toNat_le, hnum, UInt8.reduceToNat] at h
  have hlower := toNat_toLower c
  have hbound : c.toLower.toNat < 0x80 := by
    split at hlower <;> omega
  have hlow : 48 ≤ c.toLower.toNat := by
    split at hlower <;> omega
  refine ⟨⟨by omega, hascii⟩, ⟨by omega, hbound⟩, ?_, ?_⟩
  · intro heq
    rw [heq] at hlow
    exact absurd hlow (by decide)
  · have hnum' : (asciiByte c.toLower).toNat = c.toLower.toNat := toNat_asciiByte hbound
    simp only [isAsciiHexdigit, Bool.or_eq_true, Bool.and_eq_true, decide_eq_true_eq,
      UInt8.le_iff_toNat_le, hnum', UInt8.reduceToNat]
    split at hlower <;> omega

theorem isAscii_of_utf8Encode {text : List Char}
    (h : ∀ b ∈ utf8Encode text, isAsciiHexdigit b = true) : ∀ c ∈ text, IsAscii c := by
  intro c hc
  by_contra hnot
  obtain ⟨b, rest, hencode, hb, -⟩ := Glob.utf8EncodeChar_of_not_isAscii hnot
  have hmem : b ∈ utf8Encode text := by
    rw [utf8Encode, List.mem_flatMap]
    exact ⟨c, hc, by rw [hencode]; exact List.mem_cons_self⟩
  have hhex := h b hmem
  simp only [isAsciiHexdigit, Bool.or_eq_true, Bool.and_eq_true, decide_eq_true_eq,
    UInt8.le_iff_toNat_le, UInt8.reduceToNat] at hhex
  omega

/-- A digest string is the prefix and 64 hexadecimal digits. -/
theorem exists_of_isSha256DigestString {digest : List Char} (h : IsSha256DigestString digest) :
    ∃ hex, digest = sha256DigestPrefix ++ hex ∧ hex.length = 64 ∧
      ∀ c ∈ hex, IsAscii c ∧ isAsciiHexdigit (asciiByte c) = true := by
  obtain ⟨hlen, ⟨hex, rfl⟩, hhex⟩ := h
  have hprefixed : utf8Encode (sha256DigestPrefix ++ hex) =
      utf8Encode sha256DigestPrefix ++ utf8Encode hex := List.flatMap_append
  have hseven : (utf8Encode sha256DigestPrefix).length = 7 := by decide
  rw [hprefixed, ← hseven, List.drop_left] at hhex
  rw [hprefixed, List.length_append, hseven] at hlen
  have hascii := isAscii_of_utf8Encode hhex
  rw [utf8Encode_of_isAscii hascii] at hhex hlen
  refine ⟨hex, rfl, by rw [List.length_map] at hlen; omega, ?_⟩
  intro c hc
  exact ⟨hascii c hc, hhex _ (List.mem_map_of_mem hc)⟩

section digest

variable {digest : List Char}

/-- In lower case a digest string is as `zip_authenticode_digest_string` returns it. -/
theorem isDigestString_toAsciiLowercase (h : IsSha256DigestString digest) :
    IsDigestString (toAsciiLowercase digest) := by
  obtain ⟨hex, rfl, hlen, hhex⟩ := exists_of_isSha256DigestString h
  have hstart : toAsciiLowercase sha256DigestPrefix = sha256DigestPrefix := by decide
  have hlower : toAsciiLowercase (sha256DigestPrefix ++ hex) =
      sha256DigestPrefix ++ toAsciiLowercase hex := by
    rw [toAsciiLowercase, List.map_append]
    exact congrArg (· ++ toAsciiLowercase hex) hstart
  have hchar : ∀ c ∈ toAsciiLowercase hex,
      IsLineChar c ∧ c ≠ ',' ∧ isAsciiHexdigit (asciiByte c) = true := by
    intro c hc
    obtain ⟨d, hd, rfl⟩ := List.mem_map.mp hc
    obtain ⟨-, hline, hcomma, hdigit⟩ := hexdigit_spec (hhex d hd).1 (hhex d hd).2
    exact ⟨hline, hcomma, hdigit⟩
  have hprefixed : ∀ c ∈ sha256DigestPrefix, IsLineChar c ∧ c ≠ ',' := by decide
  have hall : ∀ c ∈ sha256DigestPrefix ++ toAsciiLowercase hex, IsLineChar c ∧ c ≠ ',' := by
    intro c hc
    rcases List.mem_append.mp hc with hc | hc
    · exact hprefixed c hc
    · exact ⟨(hchar c hc).1, (hchar c hc).2.1⟩
  rw [hlower]
  exact
    { lineChar := fun c hc => (hall c hc).1
      comma := fun hc => (hall _ hc).2 rfl
      lower := by rw [← hlower, toAsciiLowercase_toAsciiLowercase]
      length := by
        rw [List.length_append, toAsciiLowercase, List.length_map, hlen]
        rfl
      sha256 := List.prefix_append _ _
      hex := fun c hc => (hchar c hc).2.2 }

/-- An ASCII text without blanks is a script without a byte order mark and without the
marker of a signature block. -/
theorem units_of_isLineChar (h : ∀ c ∈ digest, IsLineChar c) :
    ¬ bomLe <+: utf8Encode digest ∧ ¬ bomBe <+: utf8Encode digest ∧
      fileUtf16Units (utf8Encode digest) = digest.map unit ∧
      verifiedUnits (utf8Encode digest) = digest.map unit := by
  have hascii : ∀ c ∈ digest, IsAscii c := fun c hc => (h c hc).2
  have hbom : ∀ (b : UInt8) (rest : List UInt8), 0x80 ≤ b.toNat →
      ¬ b :: rest <+: utf8Encode digest := by
    intro b rest hb hprefixed
    have hmem : b ∈ utf8Encode digest := hprefixed.subset List.mem_cons_self
    rw [utf8Encode_of_isAscii hascii] at hmem
    obtain ⟨c, hc, rfl⟩ := List.mem_map.mp hmem
    have hlt := hascii c hc
    rw [toNat_asciiByte hlt] at hb
    unfold IsAscii at hlt
    omega
  have hle : ¬ bomLe <+: utf8Encode digest := hbom 0xFF [0xFE] (by decide)
  have hbe : ¬ bomBe <+: utf8Encode digest := hbom 0xFE [0xFF] (by decide)
  have hunits : fileUtf16Units (utf8Encode digest) = digest.map unit := by
    unfold fileUtf16Units
    rw [if_neg hle, if_neg hbe, utf8Lossy_utf8Encode, encodeUtf16_of_isAscii hascii]
  refine ⟨hle, hbe, hunits, ?_⟩
  unfold verifiedUnits
  rw [if_neg hle, hunits]

theorem not_contains_begin_of_isLineChar (h : ∀ c ∈ digest, IsLineChar c) :
    ¬ Contains (verifiedUnits (utf8Encode digest)) (markers .hash).begin_ := by
  rw [(units_of_isLineChar h).2.2.2, markers_eq]
  intro hcontains
  have hblank : unit ' ' ∈ digest.map unit := by
    refine hcontains.subset (List.mem_map_of_mem ?_)
    exact List.mem_cons_of_mem _ List.mem_cons_self
  obtain ⟨c, hc, heq⟩ := List.mem_map.mp hblank
  obtain rfl := unit_injOn_ascii (h c hc).2 (by decide) heq
  exact absurd (h ' ' hc).1 (by decide)

end digest

/-! ## The script that is written -/

section script

variable (base64 : Base64Engine) {digest : List Char} {p : List UInt8}

/-- The script of a digest and a PKCS#7: the digest on a line and the signature block. -/
def scriptOf (digest : List Char) (p : List UInt8) : List Char :=
  digest ++ formatPowershellSignatureBlock base64 p "ps1".toList

/-- The base64 text is cut into the same pieces as bytes and as characters. -/
theorem signatureScriptFromParts_encode (digest : List Char) (p : List UInt8) :
    signatureScriptFromParts digest (base64.encode p) = .ok (scriptOf base64 digest p) := by
  have hascii : ∀ c ∈ base64.encode p, IsAscii c := fun c hc =>
    (toNat_of_isBase64Char (base64.isBase64Char_of_mem_encode p c hc)).2
  have hline : ∀ chunk ∈ chunks 64 (base64.encode p),
      scriptBase64Line (chunk.map asciiByte) = .ok ("# ".toList ++ chunk ++ crlf) := by
    intro chunk hchunk
    have hchunkAscii : ∀ c ∈ chunk, IsAscii c := fun c hc => (isAscii_of_mem_chunk hchunk c hc).1
    rw [scriptBase64Line, ← utf8Encode_of_isAscii hchunkAscii, fromUtf8_utf8Encode]
    rfl
  have hmap : ∀ pieces : List (List Char), (∀ chunk ∈ pieces, chunk ∈ chunks 64 (base64.encode p)) →
      (pieces.map (List.map asciiByte)).mapM scriptBase64Line =
        .ok (pieces.map fun chunk => "# ".toList ++ chunk ++ crlf) := by
    intro pieces
    induction pieces with
    | nil => intro _; rfl
    | cons chunk pieces ih =>
      intro hpieces
      rw [List.map_cons, List.mapM_cons, hline chunk (hpieces chunk List.mem_cons_self),
        ih fun other hother => hpieces other (List.mem_cons_of_mem _ hother)]
      rfl
  rw [signatureScriptFromParts, utf8Encode_of_isAscii hascii, chunks_map,
    hmap _ fun chunk hchunk => hchunk, scriptOf, formatPowershellSignatureBlock_eq base64 rfl]
  show Except.ok _ = _
  simp only [blockLines, terminated, blockLine, linePrefix, lineSuffix, List.map_cons, List.map_map,
    List.flatten_cons, List.append_assoc, List.append_nil, Function.comp_def]
  rfl

/-- The script is the one that `append_script_signature_block` writes. -/
theorem utf8Encode_scriptOf (h : ∀ c ∈ digest, IsLineChar c) (p : List UInt8) :
    utf8Encode (scriptOf base64 digest p) = appendScriptSignatureBlock
      (unsignedSignatureScriptBytes digest)
      (formatPowershellSignatureBlock base64 p "ps1".toList) := by
  obtain ⟨hle, hbe, -, -⟩ := units_of_isLineChar h
  unfold appendScriptSignatureBlock unsignedSignatureScriptBytes
  rw [if_neg hle, if_neg hbe, scriptOf]
  exact List.flatMap_append

/-! ## The script that is read -/

/-- The lines of a script are the digest, the lines of the block, and the end marker. -/
theorem lines_scriptOf (h : ∀ c ∈ digest, IsLineChar c) (p : List UInt8) :
    lines (scriptOf base64 digest p) =
      digest :: (blockLines base64 .hash p ++ [endSigBlock]) := by
  have hterminated : scriptOf base64 digest p =
      terminated (digest :: (blockLines base64 .hash p ++ [endSigBlock])) := by
    rw [scriptOf, formatPowershellSignatureBlock_eq base64 rfl]
    simp only [terminated, crlf, List.map_cons, List.map_append, List.flatten_cons,
      List.flatten_append, List.flatten_nil, List.map_nil, List.append_assoc, List.append_nil]
    rfl
  rw [hterminated, terminated]
  refine lines_of_crlf ?_
  intro line hline hmem
  rcases List.mem_cons.mp hline with rfl | hline
  · exact absurd (h '\n' hmem).1 (by decide)
  · rcases List.mem_append.mp hline with hline | hline
    · exact (isAscii_of_mem_blockLines base64 hline _ hmem).2.2 rfl
    · rw [List.mem_singleton.mp hline] at hmem
      exact (not_mem_endPat .hash).2 hmem

theorem trim_marker : trim beginSigBlock = beginSigBlock ∧ trim endSigBlock = endSigBlock ∧
    endSigBlock ≠ beginSigBlock := by
  unfold beginSigBlock endSigBlock
  rw [String.toList_ofList, String.toList_ofList]
  decide

/-- A line of the block adds its piece of the base64 text. -/
theorem collectBase64_blockLine {chunk : List Char} (hchunk : chunk ∈ chunks 64 (base64.encode p))
    (rest : List (List Char)) :
    collectBase64 true (blockLine .hash chunk :: rest) = chunk ++ collectBase64 true rest := by
  have hblack : ∀ c ∈ chunk, isWhitespace c = false := fun c hc =>
    isWhitespace_of_isBase64Char (isBase64Char_of_mem_chunk hchunk c hc)
  have hne : chunk ≠ [] := ne_nil_of_mem_chunks (by decide) hchunk
  have hline : blockLine .hash chunk = "# ".toList ++ chunk := List.append_nil _
  have htrim : trim (blockLine .hash chunk) = "# ".toList ++ chunk := by
    have htrimmed := @trim_append [] ("# ".toList ++ chunk) [] (by simp [Blank]) (by simp [Blank])
      (by intro c hc; obtain rfl := Option.some.inj hc; decide)
      (by
        intro c hc
        rw [List.getLast?_append_of_ne_nil _ hne] at hc
        exact hblack c (List.mem_of_getLast? hc))
      (by simp)
    rw [List.nil_append, List.append_nil] at htrimmed
    rw [hline]
    exact htrimmed
  -- a marker has a second blank, and base64 text has none
  have hmarker : ∀ marker : List Char, 1 < marker.count ' ' → "# ".toList ++ chunk ≠ marker := by
    intro marker hcount heq
    have hblank : chunk.count ' ' = 0 := by
      refine List.count_eq_zero.mpr fun hmem => ?_
      exact absurd (hblack ' ' hmem) (by decide)
    rw [← heq, List.count_append, hblank] at hcount
    exact absurd hcount (by decide)
  have hbegin : 1 < beginSigBlock.count ' ' := by
    unfold beginSigBlock
    rw [String.toList_ofList]
    decide
  have hend : 1 < endSigBlock.count ' ' := by
    unfold endSigBlock
    rw [String.toList_ofList]
    decide
  have hstrip : stripPrefix "# ".toList ("# ".toList ++ chunk) = some chunk :=
    stripPrefix_eq_some.mpr rfl
  rw [collectBase64]
  simp only [htrim, if_neg (hmarker _ hbegin), if_neg (hmarker _ hend), if_true, hstrip,
    trim_of_black hblack]

/-- The loop collects the base64 text of the block. -/
theorem collectBase64_blockLines (p : List UInt8) :
    collectBase64 false (blockLines base64 .hash p ++ [endSigBlock]) = base64.encode p := by
  obtain ⟨hbegin, hend, hne⟩ := trim_marker
  have hpieces : ∀ pieces : List (List Char),
      (∀ chunk ∈ pieces, chunk ∈ chunks 64 (base64.encode p)) →
        collectBase64 true (pieces.map (blockLine .hash) ++ [endSigBlock]) = pieces.flatten := by
    intro pieces
    induction pieces with
    | nil =>
      intro _
      rw [List.map_nil, List.nil_append, collectBase64]
      simp only [hend, if_neg hne, if_true]
      rfl
    | cons chunk pieces ih =>
      intro hmem
      rw [List.map_cons, List.cons_append,
        collectBase64_blockLine base64 (hmem chunk List.mem_cons_self),
        ih fun other hother => hmem other (List.mem_cons_of_mem _ hother), List.flatten_cons]
  have hfirst : blockLines base64 .hash p ++ [endSigBlock] =
      beginSigBlock :: ((chunks 64 (base64.encode p)).map (blockLine .hash) ++ [endSigBlock]) := rfl
  rw [hfirst, collectBase64]
  simp only [hbegin, if_true]
  rw [hpieces _ fun chunk hchunk => hchunk, flatten_chunks (by decide)]

/-- The script of a line is turned back into the line. -/
theorem signatureCommentLineFromScript_scriptOf (h : IsDigestString digest) (hne : p ≠ []) :
    signatureCommentLineFromScript base64 (utf8Encode (scriptOf base64 digest p)) =
      .ok (signatureLine base64 digest p) := by
  have htrim : trim digest = digest :=
    trim_of_black fun c hc => isWhitespace_of_isLineChar (h.lineChar c hc)
  have hparse := parseSignatureCommentLine_signatureLine base64 h hne
  rw [signatureLine] at hparse
  simp only [signatureCommentLineFromScript, fromUtf8_utf8Encode, Outcome.ofOption, Outcome.ok_bind,
    lines_scriptOf base64 h.lineChar, htrim, h.isSha256DigestString, not_true, if_false, h.lower,
    collectBase64_blockLines, hparse]
  rfl

theorem signatureScriptFromCommentLine_signatureLine (h : IsDigestString digest) (hne : p ≠ []) :
    signatureScriptFromCommentLine base64 (signatureLine base64 digest p) =
      .ok (scriptOf base64 digest p) := by
  rw [signatureScriptFromCommentLine, parseSignatureCommentLine_signatureLine base64 h hne,
    Outcome.ok_bind, signatureScriptFromParts_encode]

/-- The line has the digest in lower case. -/
theorem signatureCommentLineFromPkcs7Der_lowercase (h : IsSha256DigestString digest) (hne : p ≠ []) :
    signatureCommentLineFromPkcs7Der base64 digest p =
      .ok (signatureLine base64 (toAsciiLowercase digest) p) := by
  have hparse := parseSignatureCommentLine_signatureLine base64
    (isDigestString_toAsciiLowercase h) hne
  rw [signatureLine] at hparse
  simp only [signatureCommentLineFromPkcs7Der, h, not_true, if_false, hparse, Outcome.ok_bind]
  rfl

end script

/-! ## What the verifier says of the script -/

section verification

variable (base64 : Base64Engine) (hashes : Hashes) (authenticode : AuthenticodeParser)

/-- The line and the script have the same signature over the same digest, and each is
turned into the other. -/
structure SameSignature (digest : List Char) (p : List UInt8) (line script : List Char) : Prop where
  comment : ∃ sig, parseSignatureCommentLine base64 line = .ok sig ∧ sig.digest = digest ∧
    signaturePkcs7Der base64 sig = .ok p
  report : ∃ report, powershellClassDigestReport base64 hashes authenticode (utf8Encode script)
    "ps1".toList = .ok report ∧ report.pkcs7Der = p
  /-- What is left of the script without its block is the digest. -/
  covers : stripSignatureRegionUtf16 (verifiedUnits (utf8Encode script)) .hash =
    .ok (encodeUtf16 digest)
  toScript : signatureScriptFromCommentLine base64 line = .ok script
  toComment : signatureCommentLineFromScript base64 (utf8Encode script) = .ok line

/-- The script of the line of a digest and a PKCS#7 is accepted with the PKCS#7 and is
turned back into the line; with a digest in lower case the two are the same signature. -/
def SignatureScriptConverts (digest : List Char) (p : List UInt8) : Prop :=
  ∃ line script, signatureCommentLineFromPkcs7Der base64 digest p = .ok line ∧
    signatureScriptFromCommentLine base64 line = .ok script ∧
    (∃ report, powershellClassDigestReport base64 hashes authenticode (utf8Encode script)
      "ps1".toList = .ok report ∧ report.pkcs7Der = p) ∧
    signatureCommentLineFromScript base64 (utf8Encode script) = .ok line ∧
    (toAsciiLowercase digest = digest →
      SameSignature base64 hashes authenticode digest p line script)

/-- The hash takes two scripts for the same. -/
def ScriptHashCollision (kind : PeAuthenticodeHashKind) (script other : List UInt8) : Prop :=
  script ≠ other ∧ hashes.hash kind (utf16leBytes (fileUtf16Units script)) =
    hashes.hash kind (utf16leBytes (fileUtf16Units other))

variable {base64 hashes authenticode} {digest : List Char} {p : List UInt8}
  {alg : AuthenticodeSigningDigest} {indirect : SpcIndirectDataContent}

theorem ne_nil_of_digest {embedded : List UInt8} (hp : authenticode.digest p = .ok embedded) :
    p ≠ [] := by
  intro hnil
  rw [hnil] at hp
  exact authenticode.digest_nil _ hp

/-- The verifier accepts the script exactly if its digest, which is in lower case, has
the hash of the digest that was signed. -/
theorem report_scriptOf_iff (hdigest : IsSha256DigestString digest)
    (hindirect : scriptAuthenticodeSpcIndirectData hashes (unsignedSignatureScriptBytes digest) alg =
      .ok indirect)
    (hp : authenticode.digest p = .ok indirect.digest) :
    (∃ report, powershellClassDigestReport base64 hashes authenticode
        (utf8Encode (scriptOf base64 (toAsciiLowercase digest) p)) "ps1".toList = .ok report ∧
          report.pkcs7Der = p) ↔
      hashes.hash alg.peHashKind (utf16leBytes (fileUtf16Units
          (unsignedSignatureScriptBytes (toAsciiLowercase digest)))) =
        hashes.hash alg.peHashKind (utf16leBytes (fileUtf16Units
          (unsignedSignatureScriptBytes digest))) := by
  have hlower := (isDigestString_toAsciiLowercase hdigest).lineChar
  obtain ⟨hle, hbe, hunits, hverified⟩ := units_of_isLineChar hlower
  have hwhole : WholeUnits (utf8Encode (toAsciiLowercase digest)) :=
    fun h => absurd h (not_or.mpr ⟨hle, hbe⟩)
  obtain ⟨hembedded, hkind⟩ := digest_of_scriptSpcIndirectData hashes hindirect
  rw [utf8Encode_scriptOf base64 hlower, unsignedSignatureScriptBytes,
    report_append_iff base64 hashes authenticode hwhole rfl
      (not_contains_begin_of_isLineChar hlower) hp hkind, hembedded, hverified, hunits]

/-- A script in lower case is the digest without its block. -/
theorem stripSignatureRegionUtf16_scriptOf (h : ∀ c ∈ digest, IsLineChar c) (p : List UInt8) :
    stripSignatureRegionUtf16 (verifiedUnits (utf8Encode (scriptOf base64 digest p))) .hash =
      .ok (encodeUtf16 digest) := by
  obtain ⟨hle, hbe, -, hverified⟩ := units_of_isLineChar h
  have hwhole : WholeUnits (utf8Encode digest) := fun h => absurd h (not_or.mpr ⟨hle, hbe⟩)
  have hmarker := not_contains_begin_of_isLineChar h
  have hhead : (formatPowershellSignatureBlock base64 p "ps1".toList).head? = some '\r' := by
    rw [formatPowershellSignatureBlock_eq base64 rfl]
    rfl
  rw [utf8Encode_scriptOf base64 h, unsignedSignatureScriptBytes,
    verifiedUnits_append hwhole (isAscii_of_mem_block base64 rfl) hhead,
    stripSignatureRegionUtf16_append base64 p rfl hmarker, hverified,
    encodeUtf16_of_isAscii fun c hc => (h c hc).2]

/-- Text that is encoded to the same bytes is the same. -/
theorem unsignedSignatureScriptBytes_inj {other : List Char}
    (h : unsignedSignatureScriptBytes digest = unsignedSignatureScriptBytes other) :
    digest = other := by
  have hdecoded := congrArg utf8Lossy h
  rwa [unsignedSignatureScriptBytes, unsignedSignatureScriptBytes, utf8Lossy_utf8Encode,
    utf8Lossy_utf8Encode] at hdecoded

/-- Whether the conversions go through is decided by the verifier of the script. -/
theorem signatureScriptConverts_iff_report (hdigest : IsSha256DigestString digest) (hne : p ≠ []) :
    SignatureScriptConverts base64 hashes authenticode digest p ↔
      ∃ report, powershellClassDigestReport base64 hashes authenticode
        (utf8Encode (scriptOf base64 (toAsciiLowercase digest) p)) "ps1".toList = .ok report ∧
          report.pkcs7Der = p := by
  have hlower := isDigestString_toAsciiLowercase hdigest
  have hline := signatureCommentLineFromPkcs7Der_lowercase base64 hdigest hne
  have hscript := signatureScriptFromCommentLine_signatureLine base64 hlower hne
  have hback := signatureCommentLineFromScript_scriptOf base64 hlower hne
  constructor
  · intro h
    obtain ⟨line, script, hline', hscript', hreport, -, -⟩ := h
    obtain rfl := Except.ok.inj (hline.symm.trans hline')
    obtain rfl := Except.ok.inj (hscript.symm.trans hscript')
    exact hreport
  · intro hreport
    refine ⟨_, _, hline, hscript, hreport, hback, ?_⟩
    intro hsame
    exact
      { comment := ⟨_, parseSignatureCommentLine_signatureLine base64 hlower hne, hsame,
          signaturePkcs7Der_signatureLine base64⟩
        report := hreport
        covers := by rw [stripSignatureRegionUtf16_scriptOf hlower.lineChar, hsame]
        toScript := hscript
        toComment := hback }

/-- The signature of an accepted digest goes through the conversions exactly if the
digest is in lower case, or the hash does not tell it from its lower case. -/
theorem signature_script_converts_iff (hdigest : IsSha256DigestString digest)
    (hindirect : scriptAuthenticodeSpcIndirectData hashes (unsignedSignatureScriptBytes digest) alg =
      .ok indirect)
    (hp : authenticode.digest p = .ok indirect.digest) :
    SignatureScriptConverts base64 hashes authenticode digest p ↔
      toAsciiLowercase digest = digest ∨
        ScriptHashCollision hashes alg.peHashKind
          (unsignedSignatureScriptBytes (toAsciiLowercase digest))
          (unsignedSignatureScriptBytes digest) := by
  rw [signatureScriptConverts_iff_report hdigest (ne_nil_of_digest hp),
    report_scriptOf_iff hdigest hindirect hp]
  constructor
  · intro hhash
    by_cases hsame : toAsciiLowercase digest = digest
    · exact Or.inl hsame
    · exact Or.inr ⟨mt unsignedSignatureScriptBytes_inj hsame, hhash⟩
  · intro h
    rcases h with hsame | hcollision
    · rw [hsame]
    · exact hcollision.2

/-- A digest string of one digit. -/
def digestOf (c : Char) : List Char :=
  sha256DigestPrefix ++ List.replicate 64 c

/-- What is signed for such a digest. -/
def indirectOf (c : Char) : SpcIndirectDataContent :=
  ⟨"1.3.6.1.4.1.311.2.1.30", spcScriptSiginfoValueDer,
    AuthenticodeSigningDigest.sha256.authenticodeDigestAlgorithm,
    (utf16leBytes (encodeUtf16 (digestOf c))).take 32⟩

theorem signature_script_converts_iff_lowercase :
    SignatureScriptConverts Base64Engine.standard Hashes.truncating AuthenticodeParser.octetString
        (digestOf 'a') (0x04 :: 32 :: (indirectOf 'a').digest) ↔
      toAsciiLowercase (digestOf 'a') = digestOf 'a' ∨
        ScriptHashCollision Hashes.truncating .sha256
          (unsignedSignatureScriptBytes (toAsciiLowercase (digestOf 'a')))
          (unsignedSignatureScriptBytes (digestOf 'a')) :=
  @signature_script_converts_iff Base64Engine.standard Hashes.truncating
    AuthenticodeParser.octetString (digestOf 'a') _ .sha256 (indirectOf 'a')
    (by decide) (by decide) (by decide)

/-- With a digest in upper case the script is not accepted. -/
theorem signature_script_of_uppercase_rejected :
    IsSha256DigestString (digestOf 'A') ∧
    scriptAuthenticodeSpcIndirectData Hashes.truncating
      (unsignedSignatureScriptBytes (digestOf 'A')) .sha256 = .ok (indirectOf 'A') ∧
    AuthenticodeParser.octetString.digest (0x04 :: 32 :: (indirectOf 'A').digest) =
      .ok (indirectOf 'A').digest ∧
    ¬ SignatureScriptConverts Base64Engine.standard Hashes.truncating
      AuthenticodeParser.octetString (digestOf 'A') (0x04 :: 32 :: (indirectOf 'A').digest) := by
  have hdigest : IsSha256DigestString (digestOf 'A') := by decide
  have hindirect : scriptAuthenticodeSpcIndirectData Hashes.truncating
      (unsignedSignatureScriptBytes (digestOf 'A')) .sha256 = .ok (indirectOf 'A') := by decide
  have hp : AuthenticodeParser.octetString.digest (0x04 :: 32 :: (indirectOf 'A').digest) =
      .ok (indirectOf 'A').digest := by decide
  refine ⟨hdigest, hindirect, hp, ?_⟩
  rw [signatureScriptConverts_iff_report hdigest (List.cons_ne_nil _ _),
    report_scriptOf_iff hdigest hindirect hp]
  decide

end verification

end Psign.Sip
