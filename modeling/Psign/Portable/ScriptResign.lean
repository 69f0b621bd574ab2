import Psign.Portable.Script
import Psign.Sip.PsScriptRegion

/-!
# Signing a script again

`sign_script` hashes the script it is given and writes a block behind it, whether or not
there is a block already.  The extraction looks for the first begin marker, so what it
finds in the new file is what it found in the old one (`extractPkcs7DerFromScript_prefix`):
the old signature.  The new one is never seen.
-/

namespace Psign.Portable

open CodeLib CodeLib.RustStr CodeLib.Subslice CodeLib.Unicode Psign.Sip

/-! ## More behind a script -/

theorem prefix_mapPairs (read : UInt8 → UInt8 → UInt16) (bytes more : List UInt8) :
    mapPairs read bytes <+: mapPairs read (bytes ++ more) := by
  induction bytes using mapPairs.induct with
  | case1 a b rest ih =>
    rw [List.cons_append, List.cons_append, mapPairs, mapPairs]
    exact (List.prefix_cons_inj _).mpr ih
  | case2 bytes hshort =>
    have hnil : mapPairs read bytes = [] := by
      rcases bytes with _ | ⟨a, _ | ⟨b, rest⟩⟩
      · rfl
      · rfl
      · exact absurd rfl (hshort a b rest)
    rw [hnil]
    exact List.nil_prefix

/-- Appending a text keeps the code units of a script, also where its last one is not
complete. -/
theorem prefix_verifiedUnits {script : List UInt8} {text : List Char}
    (hascii : ∀ c ∈ text, IsAscii c) (hhead : text.head? = some '\r') :
    verifiedUnits script <+: verifiedUnits (appendScriptSignatureBlock script text) := by
  by_cases hle : bomLe <+: script
  · have hle' : ∀ more, bomLe <+: script ++ more := fun more => hle.trans (List.prefix_append _ _)
    have hlen : 2 ≤ script.length := hle.length_le
    rw [appendScriptSignatureBlock, if_pos hle, verifiedUnits, if_pos hle, verifiedUnits,
      if_pos (hle' _), fileUtf16Units, if_pos hle, fileUtf16Units, if_pos (hle' _),
      List.drop_append_of_le_length hlen]
    exact (List.prefix_cons_inj _).mpr (prefix_mapPairs _ _ _)
  by_cases hbe : bomBe <+: script
  · have hbe' : ∀ more, bomBe <+: script ++ more := fun more => hbe.trans (List.prefix_append _ _)
    have hlen : 2 ≤ script.length := hbe.length_le
    have hle' : ∀ more, ¬ bomLe <+: script ++ more := by
      intro more hprefixed
      exact hle (List.prefix_of_prefix_length_le hprefixed (List.prefix_append _ _) hlen)
    rw [appendScriptSignatureBlock, if_neg hle, if_pos hbe, verifiedUnits, if_neg hle, verifiedUnits,
      if_neg (hle' _), fileUtf16Units, if_neg hle, if_pos hbe, fileUtf16Units, if_neg (hle' _),
      if_pos (hbe' _), List.drop_append_of_le_length hlen]
    exact prefix_mapPairs _ _ _
  · have hwhole : WholeUnits script := fun hbom => absurd hbom (not_or.mpr ⟨hle, hbe⟩)
    rw [verifiedUnits_append hwhole hascii hhead]
    exact List.prefix_append _ _

/-- A text up to an ASCII character is read the same, whatever follows. -/
theorem exists_fromUtf16Lossy_prefix {units units' : List UInt16} (h : units <+: units')
    {text post : List Char} {c : Char} (hc : IsAscii c)
    (htext : fromUtf16Lossy units = text ++ c :: post) :
    ∃ post', fromUtf16Lossy units' = text ++ c :: post' := by
  obtain ⟨more, rfl⟩ := h
  have honly := utf16Decoder_onlyFrom_ascii hc
  obtain ⟨before, after, rfl, hbefore, _⟩ := Transducer.exists_split_of_run_eq honly text htext
  refine ⟨fromUtf16Lossy (after ++ more), ?_⟩
  rw [List.append_assoc, List.cons_append, fromUtf16Lossy,
    Transducer.run_append_of_synchronizing honly.synchronizing, hbefore,
    Transducer.run_cons_of_step honly.step_initial]
  rfl

/-! ## What is extracted -/

theorem exists_last_endPat (family : MarkerFamily) :
    ∃ init c, family.endPat = init ++ [c] ∧ IsAscii c := by
  cases family
  · exact ⟨"# SIG # End signature bloc".toList, 'k', by decide, by decide⟩
  · exact ⟨"<!-- SIG # End signature block --".toList, '>', by decide, by decide⟩
  · exact ⟨"/* SIG # End signature block *".toList, '/', by decide, by decide⟩

/-- The end marker is not at the beginning of the begin marker, nor next to it. -/
theorem two_le_of_endPat_prefix {family : MarkerFamily} {rest : List Char} {i : Nat}
    (h : family.endPat <+: (family.beginPat ++ rest).drop i) : 2 ≤ i := by
  by_contra hlt
  have hat : ∀ k < family.endPat.length, i + k < family.beginPat.length →
      family.endPat[k]? = family.beginPat[i + k]? := by
    intro k hk hik
    obtain ⟨tail, htail⟩ := h
    rw [← show (family.endPat ++ tail)[k]? = family.endPat[k]? from List.getElem?_append_left hk, htail, List.getElem?_drop,
      List.getElem?_append_left hik]
  have hi : i = 0 ∨ i = 1 := by omega
  rcases hi with rfl | rfl
  · cases family
    · exact absurd (hat 8 (by decide) (by decide)) (by decide)
    · exact absurd (hat 11 (by decide) (by decide)) (by decide)
    · exact absurd (hat 9 (by decide) (by decide)) (by decide)
  · cases family
    · exact absurd (hat 0 (by decide) (by decide)) (by decide)
    · exact absurd (hat 0 (by decide) (by decide)) (by decide)
    · exact absurd (hat 0 (by decide) (by decide)) (by decide)

theorem length_beginPat_le (family : MarkerFamily) :
    family.beginPat.length ≤ 2 + family.endPat.length := by
  cases family <;> unfold MarkerFamily.beginPat MarkerFamily.endPat <;>
    rw [String.toList_ofList, String.toList_ofList] <;> decide

/-- The extraction depends on the code units up to the end marker only. -/
theorem extractPkcs7DerFromScript_prefix {base64 : Base64Engine} {raw raw' p : List UInt8}
    {family : MarkerFamily} (h : extractPkcs7DerFromScript base64 raw family = .ok p)
    (hunits : verifiedUnits raw <+: verifiedUnits raw') :
    extractPkcs7DerFromScript base64 raw' family = .ok p := by
  simp only [extractPkcs7DerFromScript, Outcome.bind_eq_ok, Outcome.ofOption_eq_ok] at h ⊢
  obtain ⟨start, hstart, endRel, hend, h⟩ := h
  generalize htext : fromUtf16Lossy (verifiedUnits raw) = text at hstart hend h
  obtain ⟨init, c, hlast, hc⟩ := exists_last_endPat family
  obtain ⟨rest, hbegin, hbeginLen⟩ := exists_split_of_firstAt? hstart
  obtain ⟨post, hsplit, hsplitLen⟩ := exists_split_of_firstAt? hend
  obtain ⟨lead, hlead, hleadLen⟩ : ∃ lead, text = lead ++ c :: post ∧
      (lead ++ [c]).length = start + endRel + family.endPat.length := by
    refine ⟨text.take start ++ (text.drop start).take endRel ++ init, ?_, ?_⟩
    · conv_lhs => rw [← List.take_append_drop start text, hsplit, hlast]
      simp only [List.append_assoc, List.singleton_append]
    · rw [List.append_assoc _ init, ← hlast, List.length_append, List.length_append, hbeginLen,
        hsplitLen]
  obtain ⟨post', htext'⟩ := exists_fromUtf16Lossy_prefix hunits hc (htext.trans hlead)
  have hcut : ∀ tail, (lead ++ c :: tail).take (start + endRel + family.endPat.length) =
      lead ++ [c] := by
    intro tail
    have hshape : lead ++ c :: tail = (lead ++ [c]) ++ tail := List.append_cons lead c tail
    rw [← hleadLen, hshape, List.take_left]
  have hsame : text.take (start + endRel + family.endPat.length) =
      (fromUtf16Lossy (verifiedUnits raw')).take (start + endRel + family.endPat.length) := by
    rw [htext', hlead, hcut, hcut]
  have hsameTail : (text.drop start).take (endRel + family.endPat.length) =
      ((fromUtf16Lossy (verifiedUnits raw')).drop start).take (endRel + family.endPat.length) := by
    have hdrop := congrArg (List.drop start) hsame
    rw [List.drop_take, List.drop_take, Nat.add_assoc, Nat.add_sub_cancel_left] at hdrop
    exact hdrop
  have hrel : 2 ≤ endRel := by
    have hat := (firstAt?_eq_some_iff.mp hend).2.1
    have hdrop : text.drop start = family.beginPat ++ rest := by
      conv_lhs => rw [hbegin, List.append_assoc]
      exact List.drop_left' hbeginLen
    rw [hdrop] at hat
    exact two_le_of_endPat_prefix hat
  have hlong := length_beginPat_le family
  refine ⟨start, firstAt?_of_take_eq hstart (by omega) hsame, endRel,
    firstAt?_of_take_eq hend (Nat.le_refl _) hsameTail, ?_⟩
  rw [← hsameTail]
  exact h

/-! ## The signature that is found -/

variable {base64 : Base64Engine} {hashes : Hashes} {authenticode : AuthenticodeParser}

/-- The hash tells the whole script from the script without its block. -/
def HashTellsBlock (hashes : Hashes) (script : List UInt8) : Prop :=
  ∀ kind family stripped, stripSignatureRegionUtf16 (verifiedUnits script) family = .ok stripped →
    hashes.hash kind (utf16leBytes stripped) = hashes.hash kind (utf16leBytes (fileUtf16Units script)) →
    utf16leBytes stripped = utf16leBytes (fileUtf16Units script)

theorem markerFamily_of_toAsciiLowercase {ext : List Char} {family : MarkerFamily}
    (h : markerFamily (toAsciiLowercase ext) = .ok family) : markerFamily ext = .ok family := by
  simp only [markerFamily, toAsciiLowercase_toAsciiLowercase] at h ⊢
  split at h
  · rename_i hext
    rw [if_pos hext, h]
  · rename_i hhash
    rw [if_neg hhash]
    split at h
    · rename_i hext
      rw [if_pos hext, h]
    · rename_i hxml
      rw [if_neg hxml]
      split at h
      · rename_i hext
        rw [if_pos hext, h]
      · exact absurd h Outcome.bail_ne_ok

/-- A signed script that is signed again is not accepted with the new signature. -/
theorem resigned_script_not_accepted {script p : List UInt8} {ext : List Char}
    {report : ScriptAuthenticodeDigestReport} {alg : AuthenticodeSigningDigest}
    {indirect : SpcIndirectDataContent}
    (hreport : powershellClassDigestReport base64 hashes authenticode script ext = .ok report)
    (hindirect : scriptAuthenticodeSpcIndirectData hashes script alg = .ok indirect)
    (hp : authenticode.digest p = .ok indirect.digest) (hhash : HashTellsBlock hashes script) :
    ¬ ∃ again, powershellClassDigestReport base64 hashes authenticode
        (appendScriptSignatureBlock script (formatPowershellSignatureBlock base64 p ext)) ext =
          .ok again ∧ again.pkcs7Der = p := by
  intro h
  obtain ⟨again, hagain, hpkcs7⟩ := h
  obtain ⟨family, kind, stripped, _, hfamily, hextract, hdigest, hkind, hstrip, hequal, _⟩ :=
    (powershellClassDigestReport_eq_ok base64 hashes authenticode).mp hreport
  obtain ⟨family', _, _, _, hfamily', hextract', _⟩ :=
    (powershellClassDigestReport_eq_ok base64 hashes authenticode).mp hagain
  obtain rfl := Except.ok.inj (hfamily.symm.trans hfamily')
  have hext := markerFamily_of_toAsciiLowercase hfamily
  have hhead : (formatPowershellSignatureBlock base64 p ext).head? = some '\r' := by
    rw [formatPowershellSignatureBlock_eq base64 hext p]
    rfl
  -- the old PKCS#7 is found, so it is the new one, and its digest is that of the whole script
  have hold := extractPkcs7DerFromScript_prefix hextract
    (prefix_verifiedUnits (isAscii_of_mem_block base64 hext (p := p)) hhead)
  have hsame : report.pkcs7Der = p := (Except.ok.inj (hold.symm.trans hextract')).trans hpkcs7
  rw [hsame, hp] at hdigest
  have hembedded := Except.ok.inj hdigest
  have hwhole : indirect.digest =
      hashes.hash alg.peHashKind (utf16leBytes (fileUtf16Units script)) :=
    digest_of_spcIndirectData hindirect
  rw [← hembedded] at hkind hequal
  rw [hwhole, hashes.length_hash, PeAuthenticodeHashKind.fromDigestByteLen_digestOutputLen] at hkind
  obtain rfl := Except.ok.inj hkind
  have hlength := congrArg List.length (hhash _ family stripped hstrip (hequal.trans hwhole))
  rw [length_utf16leBytes, length_utf16leBytes] at hlength
  have hshort := length_stripSignatureRegionUtf16 hstrip
  have hunits : (verifiedUnits script).length ≤ (fileUtf16Units script).length + 1 := by
    unfold verifiedUnits
    split
    · exact Nat.le_refl _
    · exact Nat.le_succ _
  omega

/-- What a PKCS#7 with this digest is for the parser that stands in. -/
def octetStringOf (digest : List UInt8) : List UInt8 :=
  0x04 :: 32 :: digest

/-- A script of one character, signed. -/
def signedScript : List UInt8 :=
  appendScriptSignatureBlock [0x61] (formatPowershellSignatureBlock Base64Engine.standard
    (octetStringOf (0x61 :: List.replicate 31 0)) "ps1".toList)

/-- The first 32 octets that are hashed of the signed script. -/
def signedScriptDigest : List UInt8 :=
  Hashes.truncating.hash .sha256 (utf16leBytes (fileUtf16Units signedScript))

set_option maxRecDepth 2000

theorem report_signedScript :
    powershellClassDigestReport Base64Engine.standard Hashes.truncating
        AuthenticodeParser.octetString signedScript "ps1".toList =
      .ok ⟨octetStringOf (0x61 :: List.replicate 31 0), 0x61 :: List.replicate 31 0,
        0x61 :: List.replicate 31 0⟩ := by
  decide

theorem hashTellsBlock_signedScript : HashTellsBlock Hashes.truncating signedScript := by
  intro kind family stripped hstrip hequal
  have hother : ∀ other, other ≠ .hash →
      stripSignatureRegionUtf16 (verifiedUnits signedScript) other ≠ .ok stripped := by
    intro other hother
    have hbail : stripSignatureRegionUtf16 (verifiedUnits signedScript) .xml = Outcome.bail
          "signature begin marker not found when interpreting file as UTF-16" ∧
        stripSignatureRegionUtf16 (verifiedUnits signedScript) .mof = Outcome.bail
          "signature begin marker not found when interpreting file as UTF-16" := by
      decide
    cases other
    · exact absurd rfl hother
    · rw [hbail.1]
      exact Outcome.bail_ne_ok
    · rw [hbail.2]
      exact Outcome.bail_ne_ok
  by_cases hfamily : family = .hash
  · subst hfamily
    have hstripped : stripSignatureRegionUtf16 (verifiedUnits signedScript) .hash = .ok [0x61] := by
      decide
    obtain rfl := Except.ok.inj (hstripped.symm.trans hstrip)
    exfalso
    revert hequal
    cases kind <;> decide
  · exact absurd hstrip (hother family hfamily)

theorem resigned_script_not_accepted_sample :
    ¬ ∃ again, powershellClassDigestReport Base64Engine.standard Hashes.truncating
        AuthenticodeParser.octetString (appendScriptSignatureBlock signedScript
          (formatPowershellSignatureBlock Base64Engine.standard (octetStringOf signedScriptDigest)
            "ps1".toList)) "ps1".toList = .ok again ∧
      again.pkcs7Der = octetStringOf signedScriptDigest :=
  @resigned_script_not_accepted Base64Engine.standard Hashes.truncating
    AuthenticodeParser.octetString signedScript (octetStringOf signedScriptDigest) "ps1".toList
    ⟨octetStringOf (0x61 :: List.replicate 31 0), 0x61 :: List.replicate 31 0,
      0x61 :: List.replicate 31 0⟩ .sha256
    ⟨"1.3.6.1.4.1.311.2.1.30", spcScriptSiginfoValueDer,
      AuthenticodeSigningDigest.sha256.authenticodeDigestAlgorithm, signedScriptDigest⟩
    report_signedScript rfl rfl hashTellsBlock_signedScript

/-- The signed script is accepted; signed again, it is not. -/
theorem resigned_script_mismatch :
    powershellClassDigestReport Base64Engine.standard Hashes.truncating
        AuthenticodeParser.octetString signedScript "ps1".toList =
      .ok ⟨octetStringOf (0x61 :: List.replicate 31 0), 0x61 :: List.replicate 31 0,
        0x61 :: List.replicate 31 0⟩ ∧
    (∃ indirect, scriptAuthenticodeSpcIndirectData Hashes.truncating signedScript .sha256 =
        .ok indirect ∧
      AuthenticodeParser.octetString.digest (octetStringOf signedScriptDigest) =
        .ok indirect.digest) ∧
    powershellClassDigestReport Base64Engine.standard Hashes.truncating
        AuthenticodeParser.octetString (appendScriptSignatureBlock signedScript
          (formatPowershellSignatureBlock Base64Engine.standard (octetStringOf signedScriptDigest)
            "ps1".toList)) "ps1".toList =
      Outcome.bail
        "script Authenticode digest mismatch (experimental UTF-16 strip heuristic vs PKCS#7)" := by
  refine ⟨report_signedScript, ⟨⟨"1.3.6.1.4.1.311.2.1.30", spcScriptSiginfoValueDer,
    AuthenticodeSigningDigest.sha256.authenticodeDigestAlgorithm, signedScriptDigest⟩,
    rfl, rfl⟩, by decide⟩

end Psign.Portable
