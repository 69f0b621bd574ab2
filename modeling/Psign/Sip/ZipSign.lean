import Psign.Sip.ZipAuthenticode

/-!
# Signing ZIP archives

A signed archive has a signature line as its comment.  The new comment changes the
length field of the end record and moves the end of the file, so another offset can
come to look like an end record that was none before.

`isEocd_withComment_iff` says where: only inside of the end record itself, at a
*decoy*.  A line has no bytes of an end-record signature, and it starts with
`ZipAuthenticode=`, so the length that a decoy has to find there is known.  A signed
archive is verified exactly if its end record has no decoy for the length of the line
(`zip_comment_signature_verifies_iff`).
-/

namespace Psign.Sip

open CodeLib CodeLib.Bytes CodeLib.RustStr CodeLib.Unicode

/-! ## A new comment -/

/-- The archive with another comment in its end record. -/
def withComment (zip : List UInt8) (offset : Nat) (comment : List UInt8) : List UInt8 :=
  zip.take (offset + 20) ++ u16le comment.length ++ comment

theorem patch_commentLen {zip : List UInt8} {offset : Nat} (n : Nat)
    (hlen : offset + 22 ≤ zip.length) :
    patch (zip.take (offset + 22)) (offset + 20) (u16le n) = zip.take (offset + 20) ++ u16le n := by
  have htail : (zip.take (offset + 22)).drop (offset + 20 + (u16le n).length) = [] :=
    List.drop_eq_nil_of_le (by rw [List.length_take]; show _ ≤ offset + 20 + 2; omega)
  rw [patch, htail, List.append_nil, List.take_take, Nat.min_eq_left (by omega)]

section withComment

variable {zip : List UInt8} {offset : Nat} {comment : List UInt8}

theorem length_withComment (comment : List UInt8) (hlen : offset + 22 ≤ zip.length) :
    (withComment zip offset comment).length = offset + 22 + comment.length := by
  rw [withComment, List.length_append, List.length_append, List.length_take_of_le (by omega)]
  rfl

theorem sameOn_withComment (comment : List UInt8) (hlen : offset + 22 ≤ zip.length) :
    SameOn zip (withComment zip offset comment) 0 (offset + 20) := by
  intro i _ hi
  rw [withComment, List.append_assoc, List.getElem?_append_left (by rw [List.length_take]; omega),
    List.getElem?_take_of_lt hi]

theorem u16At_withComment (hlen : offset + 22 ≤ zip.length) (hfit : comment.length ≤ 65535) :
    u16At (withComment zip offset comment) (offset + 20) = comment.length := by
  have htake : (zip.take (offset + 20)).length = offset + 20 := List.length_take_of_le (by omega)
  have hat := u16At_append_right (zip.take (offset + 20)) (u16le comment.length ++ comment) 0
  rw [htake] at hat
  rw [withComment, List.append_assoc]
  exact hat.trans (u16At_u16le (by omega) comment)

theorem drop_withComment (comment : List UInt8) (hlen : offset + 22 ≤ zip.length) :
    (withComment zip offset comment).drop (offset + 22) = comment := by
  have hbefore : (zip.take (offset + 20) ++ u16le comment.length).length = offset + 22 := by
    rw [List.length_append, List.length_take_of_le (by omega)]
    rfl
  rw [withComment, List.drop_append_of_le_length (by omega), List.drop_eq_nil_of_le (by omega),
    List.nil_append]

/-- The end record stays one. -/
theorem isEocd_withComment (h : IsEocd zip offset) (hfit : comment.length ≤ 65535) :
    IsEocd (withComment zip offset comment) offset := by
  have hlen : offset + 22 ≤ zip.length := by have := h.2; omega
  refine ⟨?_, by rw [u16At_withComment hlen hfit, length_withComment _ hlen]⟩
  rw [← slice_congr ((sameOn_withComment _ hlen).mono (Nat.zero_le _) (by omega)) (by omega)
    (by rw [length_withComment _ hlen]; omega)]
  exact h.1

end withComment

/-! ## What may look like an end record -/

/-- How every signature line starts. -/
def lineStart : List UInt8 :=
  utf8Encode (zipAuthenticodePrefix ++ sha256DigestPrefix)

/-- The signature of an end record inside of the end record, where a signature line
of that length brings a comment length that reaches the end of the file. -/
def IsDecoy (zip : List UInt8) (offset length k : Nat) : Prop :=
  4 ≤ k ∧ k ≤ 16 ∧ slice zip (offset + k) (offset + k + 4) = some eocdSig ∧
    length = k + u16At lineStart (k - 2)

theorem u16At_withComment_comment {zip comment : List UInt8} {offset k : Nat}
    (hlen : offset + 22 ≤ zip.length) (hk : 2 ≤ k) :
    u16At (withComment zip offset comment) (offset + k + 20) = u16At comment (k - 2) := by
  have hbefore : (zip.take (offset + 20) ++ u16le comment.length).length = offset + 22 := by
    rw [List.length_append, List.length_take_of_le (by omega)]
    rfl
  have hat := u16At_append_right (zip.take (offset + 20) ++ u16le comment.length) comment (k - 2)
  rw [hbefore] at hat
  rw [withComment, ← hat]
  congr 1
  omega

/-- With a signature line as its comment, an archive has a later end record exactly
at a decoy. -/
theorem isEocd_withComment_iff {zip comment : List UInt8} {offset k : Nat} (hzip : IsEocd zip offset)
    (hblack : ∀ b ∈ comment, 0x20 < b.toNat) (hstart : lineStart <+: comment)
    (hfit : comment.length ≤ 65535) (hk : 0 < k) :
    IsEocd (withComment zip offset comment) (offset + k) ↔ IsDecoy zip offset comment.length k := by
  have hlen : offset + 22 ≤ zip.length := by have := hzip.2; omega
  have hsame := sameOn_withComment comment hlen
  have hlength := length_withComment comment hlen
  have hcomment : ∀ j, j ≤ 16 → u16At comment j = u16At lineStart j := by
    intro j hj
    obtain ⟨rest, rfl⟩ := hstart
    refine u16At_congr ((sameOn_append lineStart rest j).symm.mono (Nat.le_refl _) ?_)
    show j + 2 ≤ 23
    omega
  constructor
  · intro h
    obtain ⟨hsig, hend⟩ := h
    obtain ⟨h0, h1, h2, h3⟩ := slice_four.mp hsig
    obtain ⟨z0, z1, z2, z3⟩ := slice_four.mp hzip.1
    rw [hsame _ (Nat.zero_le _) (by omega)] at z0 z1 z2 z3
    have hfour : 4 ≤ k := by
      by_contra hlt
      have hcases : k = 1 ∨ k = 2 ∨ k = 3 := by omega
      rcases hcases with rfl | rfl | rfl
      · exact absurd (h0.symm.trans z1) (by decide)
      · exact absurd (h0.symm.trans z2) (by decide)
      · exact absurd (h0.symm.trans z3) (by decide)
    have hinside : k ≤ 18 := by
      by_contra hgt
      have hmem : (0x06 : UInt8) ∈ comment := by
        rw [← drop_withComment comment hlen]
        refine List.mem_of_getElem? (i := k + 3 - 22) ?_
        rw [List.getElem?_drop, ← h3]
        congr 1
        omega
      exact absurd (hblack _ hmem) (by decide)
    rw [u16At_withComment_comment hlen (by omega), hlength, hcomment _ (by omega)] at hend
    have hlow : ∀ b, (withComment zip offset comment)[offset + 20]? = some b →
        comment.length % 256 = b.toNat := by
      intro b hb
      have hnumber : u16At (withComment zip offset comment) (offset + 20) = comment.length :=
        u16At_withComment hlen hfit
      rw [u16At, byteAt, List.getD, hb] at hnumber
      have hbound := b.toNat_lt
      simp only [Option.getD_some] at hnumber
      omega
    have h17 : k ≠ 17 := by
      intro heq
      subst heq
      have hmod : comment.length % 256 = 6 := hlow 0x06 h3
      have hvalue : u16At lineStart (17 - 2) = 29501 := by decide
      omega
    have h18 : k ≠ 18 := by
      intro heq
      subst heq
      have hmod : comment.length % 256 = 5 := hlow 0x05 h2
      have hvalue : u16At lineStart (18 - 2) = 26739 := by decide
      omega
    refine ⟨hfour, by omega, ?_, by omega⟩
    rw [slice_congr (hsame.mono (Nat.zero_le _) (by omega)) (by omega) (by omega)]
    exact hsig
  · intro h
    obtain ⟨hfour, hsixteen, hsig, hend⟩ := h
    refine ⟨?_, ?_⟩
    · rw [← slice_congr (hsame.mono (Nat.zero_le _) (by omega)) (by omega) (by omega)]
      exact hsig
    · rw [u16At_withComment_comment hlen (by omega), hlength, hcomment _ (by omega)]
      omega

/-! ## The text of a signature -/

/-- A character of a signature line: ASCII, and neither white space nor a control
character. -/
def IsLineChar (c : Char) : Prop :=
  0x20 < c.toNat ∧ c.toNat < 0x80

instance (c : Char) : Decidable (IsLineChar c) :=
  inferInstanceAs (Decidable (_ ∧ _))

/-- What is in a hash that is written in hexadecimal. -/
theorem digitChar_spec {n : Nat} (h : n < 16) : IsLineChar (Nat.digitChar n) ∧
    Nat.digitChar n ≠ ',' ∧ (Nat.digitChar n).toLower = Nat.digitChar n ∧
    isAsciiHexdigit (asciiByte (Nat.digitChar n)) = true := by
  have hall : ∀ k : Fin 16, IsLineChar (Nat.digitChar k) ∧ Nat.digitChar k ≠ ',' ∧
      (Nat.digitChar k).toLower = Nat.digitChar k ∧
      isAsciiHexdigit (asciiByte (Nat.digitChar k)) = true := by decide
  exact hall ⟨n, h⟩

theorem mem_hexLower {bytes : List UInt8} {c : Char} (h : c ∈ (hexLower bytes).toList) :
    ∃ n < 16, c = Nat.digitChar n := by
  rw [hexLower, String.toList_ofList, List.mem_flatMap] at h
  obtain ⟨b, -, hc⟩ := h
  have hb := b.toNat_lt
  simp only [List.mem_cons, List.not_mem_nil, or_false] at hc
  rcases hc with rfl | rfl
  · exact ⟨b.toNat / 16, by omega, rfl⟩
  · exact ⟨b.toNat % 16, by omega, rfl⟩

theorem length_hexLower (bytes : List UInt8) : (hexLower bytes).toList.length = 2 * bytes.length := by
  rw [hexLower, String.toList_ofList]
  induction bytes with
  | nil => rfl
  | cons b bytes ih =>
    rw [List.flatMap_cons, List.length_append, ih, List.length_cons, List.length_cons,
      List.length_cons, List.length_nil]
    omega

theorem isWhitespace_of_isLineChar {c : Char} (h : IsLineChar c) : isWhitespace c = false := by
  obtain ⟨hlo, hhi⟩ := h
  simp only [isWhitespace, Bool.or_eq_false_iff, Bool.and_eq_false_iff, decide_eq_false_iff_not,
    beq_eq_false_iff_ne]
  omega

section signed

variable (hashes : Hashes) (base64 : Base64Engine)

/-- The line of a digest and a PKCS#7. -/
def signatureLine (digest : List Char) (pkcs7 : List UInt8) : List Char :=
  zipAuthenticodePrefix ++ digest ++ ',' :: base64.encode pkcs7

/-- A digest string as `zip_authenticode_digest_string` returns it. -/
structure IsDigestString (digest : List Char) : Prop where
  lineChar : ∀ c ∈ digest, IsLineChar c
  comma : ',' ∉ digest
  lower : toAsciiLowercase digest = digest
  length : digest.length = 71
  sha256 : sha256DigestPrefix <+: digest
  hex : ∀ c ∈ digest.drop 7, isAsciiHexdigit (asciiByte c) = true

variable {hashes}

theorem isDigestString_of_eq_ok {zip : List UInt8} {digest : List Char}
    (h : zipAuthenticodeDigestString hashes zip = .ok digest) : IsDigestString digest := by
  simp only [zipAuthenticodeDigestString, computeZipAuthenticodeDigest, Outcome.bind_eq_ok] at h
  obtain ⟨hash, ⟨eocd, -, hhash⟩, h⟩ := h
  obtain rfl := Except.ok.inj h
  obtain rfl := Except.ok.inj hhash
  have hlen := hashes.length_hash .sha256 (patch (zip.take eocd.commentOffset) (eocd.offset + 20) [0, 0])
  generalize hashes.hash .sha256 (patch (zip.take eocd.commentOffset) (eocd.offset + 20) [0, 0]) = hash at *
  have hchar : ∀ c ∈ (hexLower hash).toList, IsLineChar c ∧ c ≠ ',' ∧ c.toLower = c ∧
      isAsciiHexdigit (asciiByte c) = true := by
    intro c hc
    obtain ⟨n, hn, rfl⟩ := mem_hexLower hc
    exact digitChar_spec hn
  have hstart : ∀ c ∈ sha256DigestPrefix, IsLineChar c ∧ c ≠ ',' ∧ c.toLower = c := by decide
  have hall : ∀ c ∈ sha256DigestPrefix ++ (hexLower hash).toList,
      IsLineChar c ∧ c ≠ ',' ∧ c.toLower = c := by
    intro c hc
    rcases List.mem_append.mp hc with hc | hc
    · exact hstart c hc
    · exact ⟨(hchar c hc).1, (hchar c hc).2.1, (hchar c hc).2.2.1⟩
  exact
    { lineChar := fun c hc => (hall c hc).1
      comma := fun hc => (hall _ hc).2.1 rfl
      lower := (List.map_congr_left fun c hc => (hall c hc).2.2).trans (List.map_id _)
      length := by
        rw [List.length_append, length_hexLower, hlen]
        rfl
      sha256 := List.prefix_append _ _
      hex := fun c hc => (hchar c hc).2.2.2 }

theorem IsDigestString.isSha256DigestString {digest : List Char} (h : IsDigestString digest) :
    IsSha256DigestString digest := by
  have hutf8 : utf8Encode digest = digest.map asciiByte :=
    utf8Encode_of_isAscii fun c hc => (h.lineChar c hc).2
  refine ⟨by rw [hutf8, List.length_map, h.length], h.sha256, ?_⟩
  intro b hb
  rw [hutf8, ← List.map_drop] at hb
  obtain ⟨c, hc, rfl⟩ := List.mem_map.mp hb
  exact h.hex c hc

section line

variable {digest : List Char} {pkcs7 : List UInt8}

theorem isLineChar_signatureLine (h : IsDigestString digest) :
    ∀ c ∈ signatureLine base64 digest pkcs7, IsLineChar c := by
  have hprefixed : ∀ c ∈ zipAuthenticodePrefix, IsLineChar c := by decide
  intro c hc
  rw [signatureLine, List.append_assoc, List.mem_append, List.mem_append, List.mem_cons] at hc
  rcases hc with hc | hc | rfl | hc
  · exact hprefixed c hc
  · exact h.lineChar c hc
  · decide
  · exact toNat_of_isBase64Char (base64.isBase64Char_of_mem_encode pkcs7 c hc)

theorem length_signatureLine (h : IsDigestString digest) :
    (signatureLine base64 digest pkcs7).length = 88 + 4 * ((pkcs7.length + 2) / 3) := by
  rw [signatureLine, List.length_append, List.length_append, List.length_cons, h.length,
    base64.length_encode]
  show 16 + 71 + _ = _
  omega

theorem utf8Encode_signatureLine (h : IsDigestString digest) :
    utf8Encode (signatureLine base64 digest pkcs7) =
      (signatureLine base64 digest pkcs7).map asciiByte :=
  utf8Encode_of_isAscii fun c hc => (isLineChar_signatureLine base64 h c hc).2

theorem trim_signatureLine (h : IsDigestString digest) :
    trim (signatureLine base64 digest pkcs7) = signatureLine base64 digest pkcs7 :=
  trim_of_black fun c hc => isWhitespace_of_isLineChar (isLineChar_signatureLine base64 h c hc)

theorem parseSignatureCommentLine_signatureLine (h : IsDigestString digest) (hne : pkcs7 ≠ []) :
    parseSignatureCommentLine base64 (signatureLine base64 digest pkcs7) =
      .ok ⟨digest, base64.encode pkcs7⟩ := by
  have hstrip : stripPrefix zipAuthenticodePrefix (signatureLine base64 digest pkcs7) =
      some (digest ++ ',' :: base64.encode pkcs7) :=
    stripPrefix_eq_some.mpr (List.append_assoc _ _ _)
  have hsplit : splitOnce ',' (digest ++ ',' :: base64.encode pkcs7) =
      some (digest, base64.encode pkcs7) := splitOnce_eq_some.mpr ⟨rfl, h.comma⟩
  have htrim : trim (base64.encode pkcs7) = base64.encode pkcs7 :=
    trim_of_black fun c hc => isWhitespace_of_isLineChar
      (toNat_of_isBase64Char (base64.isBase64Char_of_mem_encode pkcs7 c hc))
  have hencode : base64.encode pkcs7 ≠ [] := by
    intro hnil
    have hlen := base64.length_encode pkcs7
    rw [hnil, List.length_nil] at hlen
    have := List.length_pos_of_ne_nil hne
    omega
  simp only [parseSignatureCommentLine, trim_signatureLine base64 h, hstrip, Outcome.ofOption,
    Outcome.ok_bind, hsplit, h.isSha256DigestString, not_true, if_false, htrim, hencode,
    base64.decode_encode, Outcome.mapErr, h.lower]
  rfl

theorem signatureCommentLineFromPkcs7Der_eq_ok (h : IsDigestString digest) (hne : pkcs7 ≠ []) :
    signatureCommentLineFromPkcs7Der base64 digest pkcs7 =
      .ok (signatureLine base64 digest pkcs7) := by
  have hparse := parseSignatureCommentLine_signatureLine base64 h hne
  rw [signatureLine] at hparse
  simp only [signatureCommentLineFromPkcs7Der, h.isSha256DigestString, not_true, if_false, h.lower,
    hparse, Outcome.ok_bind]
  rfl

theorem signaturePkcs7Der_signatureLine :
    signaturePkcs7Der base64 ⟨digest, base64.encode pkcs7⟩ = .ok pkcs7 := by
  have htrim : trim (base64.encode pkcs7) = base64.encode pkcs7 :=
    trim_of_black fun c hc => isWhitespace_of_isLineChar
      (toNat_of_isBase64Char (base64.isBase64Char_of_mem_encode pkcs7 c hc))
  simp only [signaturePkcs7Der, htrim, base64.decode_encode, Outcome.mapErr]

theorem prefix_lineStart (h : IsDigestString digest) :
    lineStart <+: utf8Encode (signatureLine base64 digest pkcs7) := by
  obtain ⟨hex, hhex⟩ := h.sha256
  refine ⟨utf8Encode (hex ++ ',' :: base64.encode pkcs7), ?_⟩
  rw [lineStart, utf8Encode, utf8Encode, ← List.flatMap_append, signatureLine, ← hhex]
  simp only [List.append_assoc]
  rfl

theorem black_signatureLine (h : IsDigestString digest) :
    ∀ b ∈ utf8Encode (signatureLine base64 digest pkcs7), 0x20 < b.toNat := by
  intro b hb
  rw [utf8Encode_signatureLine base64 h] at hb
  obtain ⟨c, hc, rfl⟩ := List.mem_map.mp hb
  obtain ⟨hlo, hhi⟩ := isLineChar_signatureLine base64 h c hc
  rw [toNat_asciiByte hhi]
  exact hlo

theorem signatureCommentLine_of_zipComment {zip : List UInt8} (h : IsDigestString digest)
    (hcomment : zipComment zip = .ok (utf8Encode (signatureLine base64 digest pkcs7))) :
    signatureCommentLine zip = .ok (signatureLine base64 digest pkcs7) := by
  have hlf : '\n' ∉ signatureLine base64 digest pkcs7 := fun hc =>
    absurd (isLineChar_signatureLine base64 h _ hc) (by decide)
  have hlines : lines (signatureLine base64 digest pkcs7) = [signatureLine base64 digest pkcs7] := by
    have hne : signatureLine base64 digest pkcs7 ≠ [] := by simp [signatureLine]
    rw [lines, linesInclusive_of_not_mem hlf hne, List.map_singleton, stripEol_of_not_mem hlf]
  have hprefixed : zipAuthenticodePrefix.isPrefixOf (signatureLine base64 digest pkcs7) = true := by
    rw [List.isPrefixOf_iff_prefix, signatureLine, List.append_assoc]
    exact List.prefix_append _ _
  simp only [signatureCommentLine, hcomment, Outcome.ok_bind, fromUtf8_utf8Encode, Outcome.ofOption,
    hlines, List.map_singleton, trim_signatureLine base64 h, List.find?_singleton, hprefixed, if_true]

end line

end signed

/-! ## A signed archive is verified -/

section withComment

variable {zip comment : List UInt8} {offset : Nat}

/-- Where no later end record appears, the end record is found again. -/
theorem findEocd_withComment (hzip : IsEocd zip offset) (hfit : comment.length ≤ 65535)
    (hlater : ∀ k, 0 < k → ¬ IsEocd (withComment zip offset comment) (offset + k)) :
    findEocd (withComment zip offset comment) = .ok ⟨offset, offset + 22, comment.length⟩ := by
  have hlen : offset + 22 ≤ zip.length := by have := hzip.2; omega
  refine findEocd_eq_ok.mpr ⟨isEocd_withComment hzip hfit, ?_, rfl, ?_⟩
  · intro later hlt
    have hat := hlater (later - offset) (Nat.sub_pos_of_lt hlt)
    rwa [Nat.add_sub_cancel' (Nat.le_of_lt hlt)] at hat
  · exact (u16At_withComment hlen hfit).symm

theorem setZipComment_eq_ok {eocd : ZipEocd} (h : findEocd zip = .ok eocd)
    (hfit : comment.length ≤ 65535) :
    setZipComment zip comment = .ok (withComment zip eocd.offset comment) := by
  obtain ⟨hzip, -, hoffset, -⟩ := findEocd_eq_ok.mp h
  have hlen : eocd.offset + 22 ≤ zip.length := by have := hzip.2; omega
  rw [setZipComment, if_neg (by omega), h, Outcome.ok_bind, hoffset, patch_commentLen _ hlen]
  rfl

/-- The end record does not end in another one without a comment. -/
theorem findEocd_withComment_nil (hzip : IsEocd zip offset) :
    findEocd (withComment zip offset []) = .ok ⟨offset, offset + 22, 0⟩ := by
  have hlen : offset + 22 ≤ zip.length := by have := hzip.2; omega
  refine findEocd_withComment hzip (Nat.zero_le _) ?_
  intro k hk h
  have hend := h.2
  rw [length_withComment _ hlen, List.length_nil] at hend
  omega

theorem withComment_withComment (more : List UInt8) (hlen : offset + 22 ≤ zip.length) :
    withComment (withComment zip offset comment) offset more = withComment zip offset more := by
  have htake : (withComment zip offset comment).take (offset + 20) = zip.take (offset + 20) := by
    rw [withComment, List.append_assoc, List.take_append_of_le_length (by rw [List.length_take]; omega),
      List.take_take, Nat.min_self]
  rw [withComment, htake]
  rfl

end withComment

section verification

variable (hashes : Hashes) (base64 : Base64Engine)

/-- An archive that is signed with a line has it as its comment and is verified. -/
def SignedArchiveVerifies (zip : List UInt8) (digest : List Char) (pkcs7 : List UInt8)
    (line : List Char) : Prop :=
  ∃ signed sig, embedSignatureCommentLine base64 zip line = .ok signed ∧
    zipComment signed = .ok (utf8Encode line) ∧
    zipAuthenticodeDigestString hashes signed = .ok digest ∧
    verifyZipDigestBinding hashes base64 signed = .ok sig ∧
    sig.digest = digest ∧ signaturePkcs7Der base64 sig = .ok pkcs7

/-- The comment that an archive has makes no difference to what is signed. -/
def EmbedsOverComment (zip : List UInt8) (line : List Char) : Prop :=
  ∃ bare, setZipComment zip [] = .ok bare ∧
    embedSignatureCommentLine base64 bare line = embedSignatureCommentLine base64 zip line

variable {hashes base64} {zip : List UInt8} {digest line : List Char} {pkcs7 : List UInt8}

theorem embedSignatureCommentLine_eq_ok {eocd : ZipEocd} (hdigest : IsDigestString digest)
    (hne : pkcs7 ≠ []) (heocd : findEocd zip = .ok eocd)
    (hfit : (utf8Encode (signatureLine base64 digest pkcs7)).length ≤ 65535) :
    embedSignatureCommentLine base64 zip (signatureLine base64 digest pkcs7) =
      .ok (withComment zip eocd.offset (utf8Encode (signatureLine base64 digest pkcs7))) := by
  rw [embedSignatureCommentLine, parseSignatureCommentLine_signatureLine base64 hdigest hne,
    Outcome.ok_bind, setZipComment_eq_ok heocd hfit]

theorem zipAuthenticodeDigestString_eq (hashes : Hashes) {eocd : ZipEocd} (h : findEocd zip = .ok eocd) :
    zipAuthenticodeDigestString hashes zip = .ok (sha256DigestPrefix ++
      (hexLower (hashes.hash .sha256 (zip.take (eocd.offset + 20) ++ u16le 0))).toList) := by
  obtain ⟨hzip, -, hoffset, -⟩ := findEocd_eq_ok.mp h
  have hlen : eocd.offset + 22 ≤ zip.length := by have := hzip.2; omega
  have hzero : patch (zip.take (eocd.offset + 22)) (eocd.offset + 20) [0, 0] =
      zip.take (eocd.offset + 20) ++ u16le 0 := patch_commentLen 0 hlen
  simp only [zipAuthenticodeDigestString, computeZipAuthenticodeDigest, h, Outcome.ok_bind, hoffset,
    hzero, Outcome.pure_eq_ok]

theorem embedsOverComment {eocd : ZipEocd} (hdigest : IsDigestString digest) (hne : pkcs7 ≠ [])
    (heocd : findEocd zip = .ok eocd)
    (hfit : (utf8Encode (signatureLine base64 digest pkcs7)).length ≤ 65535) :
    EmbedsOverComment base64 zip (signatureLine base64 digest pkcs7) := by
  have hzip := (findEocd_eq_ok.mp heocd).1
  have hlen : eocd.offset + 22 ≤ zip.length := by have := hzip.2; omega
  refine ⟨_, setZipComment_eq_ok heocd (Nat.zero_le _), ?_⟩
  rw [embedSignatureCommentLine_eq_ok hdigest hne heocd hfit,
    embedSignatureCommentLine_eq_ok hdigest hne (findEocd_withComment_nil hzip) hfit,
    withComment_withComment _ hlen]

/-- Where the end record is found again, the signed archive is verified. -/
theorem signedArchiveVerifies_of_findEocd {eocd : ZipEocd} (heocd : findEocd zip = .ok eocd)
    (hdigest : zipAuthenticodeDigestString hashes zip = .ok digest) (hne : pkcs7 ≠ [])
    (hfit : (utf8Encode (signatureLine base64 digest pkcs7)).length ≤ 65535)
    (hsigned : findEocd (withComment zip eocd.offset
      (utf8Encode (signatureLine base64 digest pkcs7))) =
        .ok ⟨eocd.offset, eocd.offset + 22, (utf8Encode (signatureLine base64 digest pkcs7)).length⟩) :
    SignedArchiveVerifies hashes base64 zip digest pkcs7 (signatureLine base64 digest pkcs7) := by
  have hshape := isDigestString_of_eq_ok hdigest
  have hzip := (findEocd_eq_ok.mp heocd).1
  have hlen : eocd.offset + 22 ≤ zip.length := by have := hzip.2; omega
  have hcomment : zipComment (withComment zip eocd.offset
      (utf8Encode (signatureLine base64 digest pkcs7))) =
        .ok (utf8Encode (signatureLine base64 digest pkcs7)) := by
    rw [zipComment, hsigned, Outcome.ok_bind,
      List.take_of_length_le (Nat.le_of_eq (length_withComment _ hlen)), drop_withComment _ hlen]
    rfl
  have hsame : zipAuthenticodeDigestString hashes (withComment zip eocd.offset
      (utf8Encode (signatureLine base64 digest pkcs7))) = .ok digest := by
    have htake : (withComment zip eocd.offset
        (utf8Encode (signatureLine base64 digest pkcs7))).take (eocd.offset + 20) =
          zip.take (eocd.offset + 20) := by
      rw [withComment, List.append_assoc,
        List.take_append_of_le_length (by rw [List.length_take]; omega), List.take_take, Nat.min_self]
    rw [zipAuthenticodeDigestString_eq hashes hsigned, htake,
      ← zipAuthenticodeDigestString_eq hashes heocd, hdigest]
  have hverify : verifyZipDigestBinding hashes base64 (withComment zip eocd.offset
      (utf8Encode (signatureLine base64 digest pkcs7))) = .ok ⟨digest, base64.encode pkcs7⟩ := by
    simp only [verifyZipDigestBinding, signatureCommentLine_of_zipComment base64 hshape hcomment,
      parseSignatureCommentLine_signatureLine base64 hshape hne, hsame, Outcome.ok_bind, ne_eq,
      not_true, if_false]
    rfl
  exact ⟨_, _, embedSignatureCommentLine_eq_ok hshape hne heocd hfit, hcomment, hsame, hverify, rfl,
    signaturePkcs7Der_signatureLine base64⟩

/-- Behind a decoy the comment is shorter than the line. -/
theorem zipComment_ne_of_later {comment : List UInt8} {offset k : Nat}
    (hlen : offset + 22 ≤ zip.length) (hk : 0 < k)
    (hat : IsEocd (withComment zip offset comment) (offset + k)) :
    zipComment (withComment zip offset comment) ≠ .ok comment := by
  intro h
  simp only [zipComment, Outcome.bind_eq_ok, Outcome.pure_eq_ok, Except.ok.injEq] at h
  obtain ⟨eocd, heocd, h⟩ := h
  obtain ⟨hfound, hlater, hoffset, -⟩ := findEocd_eq_ok.mp heocd
  have hge : offset + k ≤ eocd.offset := by
    by_contra hlt
    exact hlater (offset + k) (by omega) hat
  have hshort := congrArg List.length h
  rw [List.length_drop, List.length_take, length_withComment _ hlen, hoffset] at hshort
  have hend := hfound.2
  rw [length_withComment _ hlen] at hend
  omega

/-- Behind a decoy the comment that is read is not the line. -/
theorem not_signedArchiveVerifies_of_decoy {eocd : ZipEocd} {k : Nat}
    (heocd : findEocd zip = .ok eocd)
    (hdigest : zipAuthenticodeDigestString hashes zip = .ok digest) (hne : pkcs7 ≠ [])
    (hfit : (utf8Encode (signatureLine base64 digest pkcs7)).length ≤ 65535)
    (hdecoy : IsDecoy zip eocd.offset (utf8Encode (signatureLine base64 digest pkcs7)).length k) :
    ¬ SignedArchiveVerifies hashes base64 zip digest pkcs7 (signatureLine base64 digest pkcs7) := by
  intro h
  have hshape := isDigestString_of_eq_ok hdigest
  have hzip := (findEocd_eq_ok.mp heocd).1
  have hlen : eocd.offset + 22 ≤ zip.length := by have := hzip.2; omega
  have hk : 0 < k := by have := hdecoy.1; omega
  obtain ⟨signed, sig, hembed, hcomment, -⟩ := h
  rw [embedSignatureCommentLine_eq_ok hshape hne heocd hfit] at hembed
  obtain rfl := Except.ok.inj hembed
  exact zipComment_ne_of_later hlen hk ((isEocd_withComment_iff hzip
    (black_signatureLine base64 hshape) (prefix_lineStart base64 hshape) hfit hk).mpr hdecoy) hcomment

theorem length_utf8Encode_signatureLine (base64 : Base64Engine) (pkcs7 : List UInt8)
    (h : IsDigestString digest) :
    (utf8Encode (signatureLine base64 digest pkcs7)).length =
      88 + 4 * ((pkcs7.length + 2) / 3) := by
  rw [utf8Encode_signatureLine base64 h, List.length_map, length_signatureLine base64 h]

/-- No decoy is in the end record. -/
def NoDecoy (zip : List UInt8) (length : Nat) : Prop :=
  ∀ eocd, findEocd zip = .ok eocd → ∀ k, ¬ IsDecoy zip eocd.offset length k

/-- A signed archive is verified exactly if no decoy is in its end record. -/
theorem zip_comment_signature_verifies_iff
    (hdigest : zipAuthenticodeDigestString hashes zip = .ok digest) (hne : pkcs7 ≠ [])
    (hfit : 88 + 4 * ((pkcs7.length + 2) / 3) ≤ 65535) :
    ∃ line, signatureCommentLineFromPkcs7Der base64 digest pkcs7 = .ok line ∧
      (SignedArchiveVerifies hashes base64 zip digest pkcs7 line ∧ EmbedsOverComment base64 zip line ↔
        NoDecoy zip (88 + 4 * ((pkcs7.length + 2) / 3))) := by
  have hshape := isDigestString_of_eq_ok hdigest
  have hlength := length_utf8Encode_signatureLine base64 pkcs7 hshape
  have hline : (utf8Encode (signatureLine base64 digest pkcs7)).length ≤ 65535 := hlength ▸ hfit
  refine ⟨_, signatureCommentLineFromPkcs7Der_eq_ok base64 hshape hne, ?_⟩
  constructor
  · intro h eocd heocd k hdecoy
    rw [← hlength] at hdecoy
    exact not_signedArchiveVerifies_of_decoy heocd hdigest hne hline hdecoy h.1
  · intro h
    have hfound : ∃ eocd, findEocd zip = .ok eocd := by
      simp only [zipAuthenticodeDigestString, computeZipAuthenticodeDigest, Outcome.bind_eq_ok] at hdigest
      obtain ⟨-, ⟨eocd, heocd, -⟩, -⟩ := hdigest
      exact ⟨eocd, heocd⟩
    obtain ⟨eocd, heocd⟩ := hfound
    have hzip := (findEocd_eq_ok.mp heocd).1
    refine ⟨signedArchiveVerifies_of_findEocd heocd hdigest hne hline ?_,
      embedsOverComment hshape hne heocd hline⟩
    refine findEocd_withComment hzip hline ?_
    intro k hk hat
    have hdecoy := (isEocd_withComment_iff hzip (black_signatureLine base64 hshape)
      (prefix_lineStart base64 hshape) hline hk).mp hat
    rw [hlength] at hdecoy
    exact h eocd heocd k hdecoy

end verification

/-- An archive with a file `a` of one byte and the comment `old`. -/
def commentedZip : List UInt8 :=
  [0x50, 0x4B, 0x03, 0x04, 20, 0, 0, 0, 0, 0, 0, 0, 0x21, 0, 0, 0, 0, 0] ++ Bytes.u32le 1 ++
    Bytes.u32le 1 ++ Bytes.u16le 1 ++ Bytes.u16le 0 ++ [0x61, 0x2a] ++
  [0x50, 0x4B, 0x01, 0x02, 20, 0, 20, 0, 0, 0, 0, 0, 0, 0, 0x21, 0, 0, 0, 0, 0] ++ Bytes.u32le 1 ++
    Bytes.u32le 1 ++ Bytes.u16le 1 ++ List.replicate 16 0 ++ [0x61] ++
  [0x50, 0x4B, 0x05, 0x06] ++ Bytes.u32le 0 ++ Bytes.u16le 1 ++ Bytes.u16le 1 ++ Bytes.u32le 47 ++
    Bytes.u32le 32 ++ Bytes.u16le 3 ++ [0x6f, 0x6c, 0x64]

theorem zip_comment_signature_verifies_iff_commented :
    ∃ digest, zipAuthenticodeDigestString Hashes.truncating commentedZip = .ok digest ∧
    ∃ line, signatureCommentLineFromPkcs7Der Base64Engine.standard digest [1, 2, 3] = .ok line ∧
      (SignedArchiveVerifies Hashes.truncating Base64Engine.standard commentedZip digest
          [1, 2, 3] line ∧
        EmbedsOverComment Base64Engine.standard commentedZip line ↔ NoDecoy commentedZip 92) := by
  have hdigest : (zipAuthenticodeDigestString Hashes.truncating
      commentedZip).toOption.isSome := by decide +kernel
  obtain ⟨digest, hdigest⟩ := Outcome.exists_ok_of_isSome hdigest
  exact ⟨digest, hdigest, zip_comment_signature_verifies_iff hdigest (by decide) (by decide)⟩

/-- An archive whose end record has the signature of an end record in its disk
numbers. -/
def decoyZip : List UInt8 :=
  [0x50, 0x4B, 0x05, 0x06, 0x50, 0x4B, 0x05, 0x06] ++ List.replicate 14 0

/-- With a PKCS#7 of 12501 bytes the comment of the signed archive is not the line. -/
theorem decoy_comment_is_not_the_line : ∃ digest line,
    zipAuthenticodeDigestString Hashes.truncating decoyZip = .ok digest ∧
    signatureCommentLineFromPkcs7Der Base64Engine.standard digest (List.replicate 12501 0) =
      .ok line ∧ (utf8Encode line).length ≤ 65535 ∧
    ¬ SignedArchiveVerifies Hashes.truncating Base64Engine.standard decoyZip digest
      (List.replicate 12501 0) line := by
  have heocd : findEocd decoyZip = .ok ⟨0, 22, 0⟩ := by decide
  have hdigest := zipAuthenticodeDigestString_eq Hashes.truncating heocd
  have hshape := isDigestString_of_eq_ok hdigest
  have hne : List.replicate 12501 (0 : UInt8) ≠ [] :=
    List.ne_nil_of_length_pos (by rw [List.length_replicate]; decide)
  have hlength := length_utf8Encode_signatureLine Base64Engine.standard
    (List.replicate 12501 0) hshape
  rw [List.length_replicate] at hlength
  have hdecoy : IsDecoy decoyZip 0 16756 4 :=
    ⟨by decide, by decide, by decide, by decide⟩
  refine ⟨_, _, hdigest, signatureCommentLineFromPkcs7Der_eq_ok _ hshape hne, by omega, ?_⟩
  refine not_signedArchiveVerifies_of_decoy heocd hdigest hne (by omega) (k := 4) ?_
  rw [hlength]
  exact hdecoy

end Psign.Sip
