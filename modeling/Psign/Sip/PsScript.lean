import Psign.CodeLib.Base64
import Psign.CodeLib.RustStr
import Psign.CodeLib.Subslice
import Psign.CodeLib.Unicode
import Psign.Sip.Digest

/-!
# PowerShell-class scripts

`ps_script.rs`: the digest check of a signed script.  The signature block
stands between two marker lines; its comment lines hold the base64 text of the
PKCS#7.  What is hashed is the text as UTF-16 code units without the block.

The block is located twice.  `stripSignatureRegionUtf16` looks for the markers
among the code units and removes everything from the first begin marker to the
first end marker after it.  `extractPkcs7DerFromScript` looks for them in the
decoded text and reads the comment lines in between, ignoring every line it
does not recognise.

The parser of the `authenticode` crate is a parameter; of its result only the
embedded digest is read.
-/

namespace Psign.Sip

open CodeLib CodeLib.RustStr CodeLib.Subslice CodeLib.Unicode

/-! ## Markers -/

/-- `MarkerFamily`. -/
inductive MarkerFamily where
  | hash
  | xml
  | mof
  deriving DecidableEq, Repr

/-- `marker_family`. -/
def markerFamily (ext : List Char) : Outcome MarkerFamily :=
  let lower := toAsciiLowercase ext
  if lower = "ps1".toList ∨ lower = "psd1".toList ∨ lower = "psm1".toList then .ok .hash
  else if lower = "ps1xml".toList ∨ lower = "psc1".toList ∨ lower = "cdxml".toList then .ok .xml
  else if lower = "mof".toList then .ok .mof
  else
    Outcome.bail ("extension ." ++ String.ofList ext ++
      " is not handled by pwrshsip-style markers")

/-- `extension_supported`. -/
def extensionSupported (ext : List Char) : Bool :=
  let lower := toAsciiLowercase ext
  lower = "ps1".toList ∨ lower = "psd1".toList ∨ lower = "psm1".toList ∨
    lower = "ps1xml".toList ∨ lower = "psc1".toList ∨ lower = "cdxml".toList ∨
    lower = "mof".toList

namespace MarkerFamily

/-- `begin_pat` of the extraction. -/
def beginPat : MarkerFamily → List Char
  | hash => "# SIG # Begin signature block".toList
  | xml => "<!-- SIG # Begin signature block -->".toList
  | mof => "/* SIG # Begin signature block */".toList

/-- `end_pat` of the extraction. -/
def endPat : MarkerFamily → List Char
  | hash => "# SIG # End signature block".toList
  | xml => "<!-- SIG # End signature block -->".toList
  | mof => "/* SIG # End signature block */".toList

end MarkerFamily

def crlf : List Char := ['\r', '\n']

/-- The four patterns of `markers`. -/
structure Markers where
  beginCr : List UInt16
  begin_ : List UInt16
  endCr : List UInt16
  end_ : List UInt16
  deriving DecidableEq

/-- `markers`. -/
def markers : MarkerFamily → Markers
  | .hash =>
      { beginCr := encodeUtf16 "\r\n# SIG # Begin signature block\r\n".toList
        begin_ := encodeUtf16 "# SIG # Begin signature block".toList
        endCr := encodeUtf16 "# SIG # End signature block\r\n".toList
        end_ := encodeUtf16 "# SIG # End signature block".toList }
  | .xml =>
      { beginCr := encodeUtf16 "\r\n<!-- SIG # Begin signature block -->\r\n".toList
        begin_ := encodeUtf16 "<!-- SIG # Begin signature block -->".toList
        endCr := encodeUtf16 "<!-- SIG # End signature block -->\r\n".toList
        end_ := encodeUtf16 "<!-- SIG # End signature block -->".toList }
  | .mof =>
      { beginCr := encodeUtf16 "\r\n/* SIG # Begin signature block */\r\n".toList
        begin_ := encodeUtf16 "/* SIG # Begin signature block */".toList
        endCr := encodeUtf16 "/* SIG # End signature block */\r\n".toList
        end_ := encodeUtf16 "/* SIG # End signature block */".toList }

set_option maxRecDepth 2000

/-- The patterns of the code units are those of the text, and these with line
ends around them. -/
theorem markers_eq (family : MarkerFamily) :
    markers family =
      { beginCr := (crlf ++ family.beginPat ++ crlf).map unit
        begin_ := family.beginPat.map unit
        endCr := (family.endPat ++ crlf).map unit
        end_ := family.endPat.map unit } := by
  cases family <;> decide

theorem endPat_ne_nil (family : MarkerFamily) : family.endPat ≠ [] := by
  cases family <;> unfold MarkerFamily.endPat <;> rw [String.toList_ofList] <;> decide

theorem beginPat_ne_nil (family : MarkerFamily) : family.beginPat ≠ [] := by
  cases family <;> unfold MarkerFamily.beginPat <;> rw [String.toList_ofList] <;> decide

/-! ## Code units of a file -/

/-- One code unit for each pair of bytes; an odd last byte is dropped. -/
def mapPairs (read : UInt8 → UInt8 → UInt16) : List UInt8 → List UInt16
  | a :: b :: rest => read a b :: mapPairs read rest
  | _ => []

/-- `u16::from_le_bytes`. -/
def fromLeBytes (lo hi : UInt8) : UInt16 :=
  UInt16.ofNat (lo.toNat + 256 * hi.toNat)

/-- `u16::from_be_bytes`. -/
def fromBeBytes (hi lo : UInt8) : UInt16 :=
  UInt16.ofNat (lo.toNat + 256 * hi.toNat)

/-- `u16::to_le_bytes`. -/
def leBytes (u : UInt16) : List UInt8 :=
  [UInt8.ofNat (u.toNat % 256), UInt8.ofNat (u.toNat / 256)]

/-- `u16::to_be_bytes`. -/
def beBytes (u : UInt16) : List UInt8 :=
  [UInt8.ofNat (u.toNat / 256), UInt8.ofNat (u.toNat % 256)]

/-- The byte order mark of UTF-16LE. -/
def bomLe : List UInt8 := [0xFF, 0xFE]

/-- The byte order mark of UTF-16BE. -/
def bomBe : List UInt8 := [0xFE, 0xFF]

/-- `file_utf16_units`. -/
def fileUtf16Units (raw : List UInt8) : List UInt16 :=
  if bomLe <+: raw then mapPairs fromLeBytes (raw.drop 2)
  else if bomBe <+: raw then mapPairs fromBeBytes (raw.drop 2)
  else encodeUtf16 (utf8Lossy raw)

/-- `utf16le_bytes`. -/
def utf16leBytes (units : List UInt16) : List UInt8 :=
  units.flatMap leBytes

/-- The code units the verifier works on: a UTF-16LE file gets its byte order
mark back as a first unit. -/
def verifiedUnits (raw : List UInt8) : List UInt16 :=
  if bomLe <+: raw then 0xFEFF :: fileUtf16Units raw else fileUtf16Units raw

/-! ### Code units that were written -/

/-- Code units written after whole code units are read back. -/
theorem mapPairs_append {read : UInt8 → UInt8 → UInt16} {write : UInt16 → List UInt8}
    (hwrite : ∀ u rest, mapPairs read (write u ++ rest) = u :: mapPairs read rest)
    {bytes : List UInt8} (heven : 2 ∣ bytes.length) (units : List UInt16) :
    mapPairs read (bytes ++ units.flatMap write) = mapPairs read bytes ++ units := by
  induction bytes using mapPairs.induct with
  | case1 a b rest ih =>
    have hrest : 2 ∣ rest.length := by
      simp only [List.length_cons] at heven
      omega
    simp only [List.cons_append, mapPairs, ih hrest]
  | case2 bytes hshort =>
    obtain rfl : bytes = [] := by
      match bytes, hshort with
      | [], _ => rfl
      | [_], _ => simp at heven
      | a :: b :: rest, hshort => exact absurd rfl (hshort a b rest)
    induction units with
    | nil => rfl
    | cons u units ih =>
      rw [List.nil_append] at ih ⊢
      rw [List.flatMap_cons, hwrite, ih]
      rfl

theorem ofNat_bytes (u : UInt16) :
    UInt16.ofNat ((UInt8.ofNat (u.toNat % 256)).toNat +
      256 * (UInt8.ofNat (u.toNat / 256)).toNat) = u := by
  have hu := u.toNat_lt
  have hnumber : u.toNat % 256 % 2 ^ 8 + 256 * (u.toNat / 256 % 2 ^ 8) = u.toNat := by omega
  rw [UInt8.toNat_ofNat', UInt8.toNat_ofNat', hnumber, UInt16.ofNat_toNat]

theorem mapPairs_leBytes (u : UInt16) (rest : List UInt8) :
    mapPairs fromLeBytes (leBytes u ++ rest) = u :: mapPairs fromLeBytes rest :=
  congrArg (· :: mapPairs fromLeBytes rest) (ofNat_bytes u)

/-- What is written in UTF-16LE is read back. -/
theorem length_utf16leBytes (units : List UInt16) : (utf16leBytes units).length = 2 * units.length := by
  induction units with
  | nil => rfl
  | cons u units ih =>
    rw [utf16leBytes, List.flatMap_cons, List.length_append, ← utf16leBytes, ih, List.length_cons]
    show 2 + _ = _
    omega

theorem mapPairs_utf16leBytes (units : List UInt16) :
    mapPairs fromLeBytes (utf16leBytes units) = units := by
  have heven : 2 ∣ ([] : List UInt8).length := Nat.dvd_zero 2
  exact mapPairs_append mapPairs_leBytes heven units

theorem mapPairs_beBytes (u : UInt16) (rest : List UInt8) :
    mapPairs fromBeBytes (beBytes u ++ rest) = u :: mapPairs fromBeBytes rest :=
  congrArg (· :: mapPairs fromBeBytes rest) (ofNat_bytes u)

/-! ## The signature region -/

/-- `find_subslice`. -/
def findSubslice (haystack needle : List UInt16) : Option Nat :=
  if needle = [] then none else firstAt? needle haystack

/-- The bounds `start` and `end_exclusive` of `strip_signature_region_utf16`. -/
def signatureRegion (units : List UInt16) (family : MarkerFamily) : Outcome (Nat × Nat) := do
  let m := markers family
  let start ← Outcome.ofOption
    ((findSubslice units m.beginCr).or (findSubslice units m.begin_))
    "signature begin marker not found when interpreting file as UTF-16"
  let tail := units.drop start
  match findSubslice tail m.endCr with
  | some endRel => return (start, start + endRel + m.endCr.length)
  | none =>
    match findSubslice tail m.end_ with
    | some endRel => return (start, start + endRel + m.end_.length)
    | none => Outcome.bail "signature end marker not found when interpreting file as UTF-16"

/-- `strip_signature_region_utf16`. -/
def stripSignatureRegionUtf16 (units : List UInt16) (family : MarkerFamily) :
    Outcome (List UInt16) := do
  let (start, endExclusive) ← signatureRegion units family
  return units.take start ++ units.drop endExclusive

/-! ## The base64 text of the block -/

/-- `looks_like_b64_token`. -/
def looksLikeB64Token (s : List Char) : Bool :=
  4 ≤ (utf8Encode s).length ∧ ∀ c ∈ s, IsBase64Char c

/-- The text of a trimmed line inside the comment signs of the family. -/
def commentText? (family : MarkerFamily) (t : List Char) : Option (List Char) :=
  match family with
  | .hash => stripPrefix "# ".toList t
  | .xml => (stripPrefix "<!--".toList t).bind (stripSuffix "-->".toList)
  | .mof => (stripPrefix "/*".toList t).bind (stripSuffix "*/".toList)

/-- What one line of the block adds to the base64 text. -/
def b64Token? (family : MarkerFamily) (line : List Char) : Option (List Char) :=
  match commentText? family (trim line) with
  | some text => if looksLikeB64Token (trim text) then some (trim text) else none
  | none => none

variable (base64 : Base64Engine)

/-- `extract_pkcs7_der_from_script`. -/
def extractPkcs7DerFromScript (raw : List UInt8) (family : MarkerFamily) :
    Outcome (List UInt8) := do
  let text := fromUtf16Lossy (verifiedUnits raw)
  let start ← Outcome.ofOption (firstAt? family.beginPat text)
    "signature begin not found (UTF-8 lossy view)"
  let tail := text.drop start
  let endRel ← Outcome.ofOption (firstAt? family.endPat tail)
    "signature end not found (UTF-8 lossy view)"
  let block := tail.take (endRel + family.endPat.length)
  let b64 := (lines block).flatMap fun line => (b64Token? family line).getD []
  if b64 = [] then Outcome.bail "no base64 tokens parsed inside signature block"
  else (base64.decode (trim b64)).mapErr fun e => "base64 decode: " ++ e

/-! ## The report -/

/-- The parser of the `authenticode` crate: the digest a PKCS#7 embeds.  Nothing
parses as a PKCS#7 that has no octets. -/
structure AuthenticodeParser where
  digest : List UInt8 → Outcome (List UInt8)
  digest_nil : ∀ embedded, digest [] ≠ .ok embedded

/-- A stand-in that can be evaluated: the PKCS#7 is an octet string with the
digest in it. -/
def AuthenticodeParser.octetString : AuthenticodeParser where
  digest
    | 0x04 :: len :: content =>
        if content.length = len.toNat then .ok content else Outcome.bail "length"
    | _ => Outcome.bail "tag"
  digest_nil _ := Outcome.bail_ne_ok

/-- `ScriptAuthenticodeDigestReport`. -/
structure ScriptAuthenticodeDigestReport where
  pkcs7Der : List UInt8
  embeddedDigest : List UInt8
  computedDigest : List UInt8
  deriving DecidableEq, Repr

variable (hashes : Hashes) (authenticode : AuthenticodeParser)

/-- `powershell_class_digest_report`. -/
def powershellClassDigestReport (raw : List UInt8) (ext : List Char) :
    Outcome ScriptAuthenticodeDigestReport := do
  let extL := toAsciiLowercase ext
  Outcome.guardThat (extensionSupported extL)
    ("Rust SIP script digest does not support extension ." ++ String.ofList extL)
  let family ← markerFamily extL
  let pkcs7 ← extractPkcs7DerFromScript base64 raw family
  let embedded ← (authenticode.digest pkcs7).mapErr fun e =>
    "Authenticode PKCS#7 parse failed: " ++ e
  let kind ← PeAuthenticodeHashKind.fromDigestByteLen embedded.length
  let stripped ← stripSignatureRegionUtf16 (verifiedUnits raw) family
  let computed := hashes.hash kind (utf16leBytes stripped)
  Outcome.guardThat (computed = embedded)
    "script Authenticode digest mismatch (experimental UTF-16 strip heuristic vs PKCS#7)"
  return ⟨pkcs7, embedded, computed⟩

/-- What a report that is returned says. -/
theorem powershellClassDigestReport_eq_ok {raw : List UInt8} {ext : List Char}
    {report : ScriptAuthenticodeDigestReport} :
    powershellClassDigestReport base64 hashes authenticode raw ext = .ok report ↔
      ∃ family kind stripped, extensionSupported (toAsciiLowercase ext) = true ∧
        markerFamily (toAsciiLowercase ext) = .ok family ∧
        extractPkcs7DerFromScript base64 raw family = .ok report.pkcs7Der ∧
        authenticode.digest report.pkcs7Der = .ok report.embeddedDigest ∧
        PeAuthenticodeHashKind.fromDigestByteLen report.embeddedDigest.length = .ok kind ∧
        stripSignatureRegionUtf16 (verifiedUnits raw) family = .ok stripped ∧
        hashes.hash kind (utf16leBytes stripped) = report.embeddedDigest ∧
        report.computedDigest = report.embeddedDigest := by
  simp only [powershellClassDigestReport, Outcome.bind_eq_ok, Outcome.guardThat_eq_ok,
    Outcome.mapErr_eq_ok, exists_const]
  constructor
  · rintro ⟨hext, family, hfamily, pkcs7, hpkcs7, embedded, hembedded, kind, hkind, stripped,
      hstripped, hdigest, hreport⟩
    obtain rfl := Except.ok.inj hreport
    exact ⟨family, kind, stripped, hext, hfamily, hpkcs7, hembedded, hkind, hstripped, hdigest,
      hdigest⟩
  · rintro ⟨family, kind, stripped, hext, hfamily, hpkcs7, hembedded, hkind, hstripped, hdigest,
      hcomputed⟩
    refine ⟨hext, family, hfamily, _, hpkcs7, _, hembedded, kind, hkind, stripped, hstripped,
      hdigest, ?_⟩
    obtain ⟨pkcs7Der, embeddedDigest, computedDigest⟩ := report
    simp only at hcomputed hdigest
    rw [hdigest, hcomputed]
    rfl

/-- The octets of `SPC_SCRIPT_SIGINFO_VALUE_DER`. -/
def spcScriptSiginfoValueDer : List UInt8 :=
  [0x30, 0x26, 0x02, 0x03, 0x01, 0x00, 0x00, 0x04, 0x10, 0x1f, 0xcc, 0x3b, 0x60, 0x59, 0x4b, 0x08,
    0x4e, 0xb7, 0x24, 0xd2, 0xc6, 0x29, 0x7e, 0xf3, 0x51, 0x02, 0x01, 0x00, 0x02, 0x01, 0x00, 0x02,
    0x01, 0x00, 0x02, 0x01, 0x00, 0x02, 0x01, 0x00]

/-- `script_spc_indirect_data`. -/
def scriptSpcIndirectData (digestAlgorithm : AuthenticodeSigningDigest)
    (scriptDigest : List UInt8) : Outcome SpcIndirectDataContent :=
  spcIndirectData digestAlgorithm scriptDigest "1.3.6.1.4.1.311.2.1.30" spcScriptSiginfoValueDer
    "script"

/-- `script_authenticode_spc_indirect_data`. -/
def scriptAuthenticodeSpcIndirectData (script : List UInt8)
    (digestAlgorithm : AuthenticodeSigningDigest) : Outcome SpcIndirectDataContent :=
  let units := fileUtf16Units script
  let scriptDigest := hashes.hash digestAlgorithm.peHashKind (utf16leBytes units)
  scriptSpcIndirectData digestAlgorithm scriptDigest

/-! ## Comment lines -/

/-- The sign that opens a comment line. -/
def MarkerFamily.opening : MarkerFamily → List Char
  | .hash => "# ".toList
  | .xml => "<!--".toList
  | .mof => "/*".toList

/-- The sign that closes a comment line. -/
def MarkerFamily.closing : MarkerFamily → List Char
  | .hash => []
  | .xml => "-->".toList
  | .mof => "*/".toList

/-- The content of a line is one comment of the family with a base64 token in
it, and white space around the signs and the token. -/
def IsComment (family : MarkerFamily) (content token : List Char) : Prop :=
  ∃ lead pre post trail, Blank lead ∧ Blank pre ∧ Blank post ∧ Blank trail ∧
    looksLikeB64Token token = true ∧
    content = lead ++ (family.opening ++ pre ++ token ++ post ++ family.closing) ++ trail

theorem commentText?_eq_some {family : MarkerFamily} {t text : List Char} :
    commentText? family t = some text ↔ t = family.opening ++ text ++ family.closing := by
  cases family with
  | hash => simp [commentText?, MarkerFamily.opening, MarkerFamily.closing, stripPrefix_eq_some]
  | xml =>
    simp only [commentText?, Option.bind_eq_some_iff, stripPrefix_eq_some, stripSuffix_eq_some]
    simp [MarkerFamily.opening, MarkerFamily.closing]
  | mof =>
    simp only [commentText?, Option.bind_eq_some_iff, stripPrefix_eq_some, stripSuffix_eq_some]
    simp [MarkerFamily.opening, MarkerFamily.closing]

theorem isWhitespace_of_isBase64Char {c : Char} (h : IsBase64Char c) :
    isWhitespace c = false := by
  have hn := toNat_of_isBase64Char h
  simp only [isWhitespace, Bool.or_eq_false_iff, Bool.and_eq_false_iff, decide_eq_false_iff_not,
    beq_eq_false_iff_ne, ne_eq]
  omega

theorem looksLikeB64Token_iff {s : List Char} :
    looksLikeB64Token s = true ↔ 4 ≤ s.length ∧ ∀ c ∈ s, IsBase64Char c := by
  have hlength : (∀ c ∈ s, IsBase64Char c) → (utf8Encode s).length = s.length := by
    intro hs
    rw [utf8Encode_of_isAscii fun c hc => (toNat_of_isBase64Char (hs c hc)).2, List.length_map]
  simp only [looksLikeB64Token, decide_eq_true_eq]
  constructor
  · rintro ⟨hlen, hs⟩
    exact ⟨hlength hs ▸ hlen, hs⟩
  · rintro ⟨hlen, hs⟩
    exact ⟨(hlength hs).symm ▸ hlen, hs⟩

/-- A token is what `trim` leaves of it between white space. -/
theorem trim_of_token (pre post : List Char) {token : List Char} (hpre : Blank pre) (hpost : Blank post)
    (htoken : looksLikeB64Token token = true) : trim (pre ++ token ++ post) = token := by
  obtain ⟨hlen, hchars⟩ := looksLikeB64Token_iff.mp htoken
  refine trim_append hpre hpost ?_ ?_ (by rintro rfl; simp at hlen)
  · exact fun c hc => isWhitespace_of_isBase64Char (hchars c (List.mem_of_mem_head? hc))
  · exact fun c hc => isWhitespace_of_isBase64Char (hchars c (List.mem_of_getLast? hc))

/-- The extraction takes a token from the lines that are one comment, and from
no others. -/
theorem b64Token?_eq_some_iff {family : MarkerFamily} {content token : List Char} :
    b64Token? family content = some token ↔ IsComment family content token := by
  constructor
  · intro h
    unfold b64Token? at h
    split at h
    · rename_i text htext
      split at h
      · rename_i htoken
        obtain rfl := Option.some.inj h
        obtain ⟨lead, trail, hcontent, hlead, htrail⟩ := exists_trim content
        obtain ⟨pre, post, hinner, hpre, hpost⟩ := exists_trim text
        refine ⟨lead, pre, post, trail, hlead, hpre, hpost, htrail, htoken, ?_⟩
        rw [commentText?_eq_some.mp htext] at hcontent
        conv_lhs => rw [hcontent, hinner]
        simp only [List.append_assoc]
      · cases h
    · cases h
  · rintro ⟨lead, pre, post, trail, hlead, hpre, hpost, htrail, htoken, rfl⟩
    have hne : token ≠ [] := by
      rintro rfl
      simp [looksLikeB64Token_iff] at htoken
    have hlast : ∀ c ∈ token.getLast?, isWhitespace c = false := fun c hc =>
      isWhitespace_of_isBase64Char ((looksLikeB64Token_iff.mp htoken).2 c (List.mem_of_getLast? hc))
    -- what `trim` leaves: without a closing sign the white space after the token goes too
    have htrim : ∃ kept, Blank kept ∧
        trim (lead ++ (family.opening ++ pre ++ token ++ post ++ family.closing) ++ trail) =
          family.opening ++ (pre ++ token ++ kept) ++ family.closing := by
      cases family with
      | hash =>
        refine ⟨[], by simp [Blank], ?_⟩
        have := trim_append (s := "# ".toList ++ pre ++ token) hlead
          (show Blank (post ++ trail) from fun c hc =>
            (List.mem_append.mp hc).elim (hpost c) (htrail c))
          (by simp [isWhitespace]) (by rwa [List.getLast?_append_of_ne_nil _ hne]) (by simp)
        simpa [MarkerFamily.opening, MarkerFamily.closing, List.append_assoc] using this
      | xml =>
        refine ⟨post, hpost, ?_⟩
        have := trim_append (s := "<!--".toList ++ pre ++ token ++ post ++ "-->".toList) hlead htrail
          (by simp [isWhitespace])
          (by rw [List.getLast?_append_of_ne_nil _ (by simp)]; simp [isWhitespace]) (by simp)
        simpa [MarkerFamily.opening, MarkerFamily.closing, List.append_assoc] using this
      | mof =>
        refine ⟨post, hpost, ?_⟩
        have := trim_append (s := "/*".toList ++ pre ++ token ++ post ++ "*/".toList) hlead htrail
          (by simp [isWhitespace])
          (by rw [List.getLast?_append_of_ne_nil _ (by simp)]; simp [isWhitespace]) (by simp)
        simpa [MarkerFamily.opening, MarkerFamily.closing, List.append_assoc] using this
    obtain ⟨kept, hkept, htrim⟩ := htrim
    rw [b64Token?, htrim, commentText?_eq_some.mpr rfl]
    simp only [trim_of_token pre kept hpre hkept htoken, htoken, if_true]

end Psign.Sip
