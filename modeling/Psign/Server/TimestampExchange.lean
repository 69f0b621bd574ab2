import Psign.Server.TimestampRequest

/-!
# The timestamp server and its client

The server reads the requests of the client, and the client the responses of the server,
up to what one of them writes and the other does not know.

The client reads a granted response up to 65535 octets of contents, since it does not know
the length form behind it, which the server writes.  Of a response without a token it also
has to read the status, which it does not from 2^31 on, and the failure bit, of which the
server writes only the position in its octet.  `timestamp_exchange_iff` says exactly which
exchanges close.
-/

namespace Psign.Server

open CodeLib CodeLib.Bytes CodeLib.Der Psign.Sip

/-! ## Responses -/

section responses

variable {tag : UInt8} {content rest body token : List UInt8}

theorem derReadTlv0_encodeTlv (h : content.length < 256 ^ 2) :
    derReadTlv0 (encodeTlv tag content ++ rest) = some (encodeTlv tag content, rest) := by
  have hread := (isTlv_encodeTlv h (by decide) : IsTlv 2 ⟨tag, _, content⟩).readTlv_append rest
  rw [derReadTlv0, hread]
  rfl

theorem derTlvBody_encodeTlv (h : content.length < 256 ^ 2) :
    derTlvBody (encodeTlv tag content) = some content := by
  have hread : Der.readTlv 2 (encodeTlv tag content) = some (⟨tag, _, content⟩, []) :=
    isTlv_encodeTlv h (by decide)
  rw [derTlvBody, hread]
  rfl

theorem derDefiniteTlvTotalLen_encodeTlv (h : content.length < 256 ^ 2) :
    derDefiniteTlvTotalLen (encodeTlv tag content) = some (encodeTlv tag content).length := by
  rw [encodeTlv, derDefiniteTlvTotalLen, readLength_encodeLength h (by decide), List.length_cons,
    List.length_append, Option.map_some]
  show some (1 + _ + _) = _
  congr 1
  omega

theorem length_pushTlv (tag : UInt8) (body : List UInt8) :
    (pushTlv tag body).length = 1 + (pushLen body.length).length + body.length := by
  rw [pushTlv, List.length_cons, List.length_append]
  omega

theorem length_pushLen (n : Nat) :
    (pushLen n).length = if n < 0x80 then 1 else if n ≤ 0xff then 2 else if n ≤ 0xffff then 3 else 4 := by
  rw [pushLen]
  split
  · rfl
  · split
    · rfl
    · split
      · rfl
      · rfl

theorem length_pushLen_eq_three {n : Nat} (hlo : 256 ≤ n) (hhi : n < 65536) :
    (pushLen n).length = 3 := by
  rw [length_pushLen, if_neg (by omega), if_neg (by omega), if_pos (by omega)]

theorem length_pushLen_le_four (n : Nat) : (pushLen n).length ≤ 4 := by
  rw [length_pushLen]
  split
  · decide
  · split
    · decide
    · split
      · decide
      · decide

theorem length_pushLen_le_two {n : Nat} (h : n < 256) : (pushLen n).length ≤ 2 := by
  rw [length_pushLen]
  split
  · decide
  · rw [if_pos (by omega)]

/-- The client does not know the length of a response with more contents. -/
theorem parse_pushSequence_of_long (h : 256 ^ 2 ≤ body.length) :
    parseTimeStampRespDer (pushSequence body) = none := by
  have hlen : pushLen body.length = 0x83 :: [UInt8.ofNat (body.length / 65536),
      UInt8.ofNat (body.length / 256 % 256), UInt8.ofNat (body.length % 256)] := by
    rw [pushLen, if_neg (by omega), if_neg (by omega), if_neg (by omega)]
  have hnone : derDefiniteTlvTotalLen (pushSequence body) = none := by
    rw [pushSequence, pushTlv, hlen, List.cons_append, derDefiniteTlvTotalLen, readLength,
      if_neg (by decide), if_pos (Or.inr (Or.inl (by decide))), Option.map_none]
  rw [parseTimeStampRespDer, hnone]
  rfl

/-- A response with less contents: its status, and the token behind it. -/
theorem parse_encodeTlv {statusInfo : List UInt8}
    (hbody : (encodeTlv 0x30 statusInfo ++ rest).length < 256 ^ 2) :
    parseTimeStampRespDer (encodeTlv 0x30 (encodeTlv 0x30 statusInfo ++ rest)) =
      (parsePkiStatusInfoComplete (encodeTlv 0x30 statusInfo)).bind
        fun (status, statusStrings, failInfoTlv) =>
          if rest = [] then some ⟨status, none, statusStrings, failInfoTlv⟩
          else (derReadTlv0 rest).bind fun (token, tail) =>
            if tail = [] then some ⟨status, some token, statusStrings, failInfoTlv⟩ else none := by
  have hinfo : statusInfo.length < 256 ^ 2 := by
    rw [List.length_append, encodeTlv, List.length_cons, List.length_append] at hbody
    omega
  have hhead : (encodeTlv 0x30 (encodeTlv 0x30 statusInfo ++ rest)).head? = some 0x30 := rfl
  simp only [parseTimeStampRespDer, hhead, derDefiniteTlvTotalLen_encodeTlv hbody,
    derTlvBody_encodeTlv hbody, derReadTlv0_encodeTlv hinfo, Option.bind_eq_bind,
    Option.bind_some, guard, if_true, Option.pure_def]
  cases parsePkiStatusInfoComplete (encodeTlv 0x30 statusInfo) with
  | none => rfl
  | some found =>
    by_cases hrest : rest = []
    · simp [hrest]
    · cases derReadTlv0 rest with
      | none => simp [hrest]
      | some found =>
        by_cases htail : found.2 = []
        · simp [hrest, htail]
        · simp [hrest, htail]

/-- The client returns the token of a granted response exactly if the contents of the
response are at most 65535 octets. -/
theorem parse_build_granted_response (tag : UInt8) (content : List UInt8) :
    parseTimeStampRespDer (buildGrantedResponse (encodeTlv tag content)) =
        some ⟨.granted, some (encodeTlv tag content), [], none⟩ ↔
      5 + (encodeTlv tag content).length ≤ 65535 := by
  have hgranted : pushSequence (pushIntegerU64 0) = encodeTlv 0x30 (encodeTlv 0x02 [0]) := by
    decide
  have hlen : (encodeTlv 0x30 (encodeTlv 0x02 [0]) ++ encodeTlv tag content).length =
      5 + (encodeTlv tag content).length := by
    rw [List.length_append]
    rfl
  have hne : encodeTlv tag content ≠ [] := List.cons_ne_nil _ _
  rw [buildGrantedResponse, hgranted]
  constructor
  · intro h
    by_contra hlong
    rw [parse_pushSequence_of_long (by omega)] at h
    cases h
  · intro hshort
    have hcontent : content.length < 256 ^ 2 := by
      rw [encodeTlv, List.length_cons, List.length_append] at hshort
      omega
    have hread := @derReadTlv0_encodeTlv tag content [] hcontent
    rw [List.append_nil] at hread
    have hstatus : parsePkiStatusInfoComplete (encodeTlv 0x30 (encodeTlv 0x02 [0])) =
        some (.granted, [], none) := by
      decide
    rw [pushSequence, pushTlv_eq (by omega), parse_encodeTlv (by omega), hstatus, Option.bind_some]
    simp only [if_neg hne, hread, Option.bind_some, if_true]

end responses

/-! ## The status -/

/-- The reader does not take a zero from the contents that are written. -/
theorem stripLeadingZeros_integerContents {n : Nat} (h : n < 2 ^ 64) :
    stripLeadingZeros (integerContents n) = integerContents n := by
  rw [integerContents]
  split
  · rfl
  · cases hdigits : Der.beBytes 8 n with
    | nil => rfl
    | cons first rest =>
      have hne := beBytes_head_ne_zero hdigits (by omega)
      rw [signPadded]
      by_cases hsign : first &&& 0x80 = 0
      · rw [if_neg (not_not.mpr hsign)]
        cases rest with
        | nil => rfl
        | cons second rest => rw [stripLeadingZeros, if_neg fun hzero => hne hzero.1]
      · rw [if_pos hsign, stripLeadingZeros, if_neg fun hzero => hsign hzero.2]

/-- The client reads a status below 2^31, and no other. -/
theorem derDecodeSmallNonnegativeInteger_integerContents {n : Nat} (h : n < 2 ^ 32) :
    derDecodeSmallNonnegativeInteger (integerContents n) = if n < 2 ^ 31 then some n else none := by
  obtain ⟨hvalue, ⟨first, rest, hcontents, hsign⟩, -⟩ := integerContents_spec
    (show n < 2 ^ 64 by omega)
  have hlt := (and_signBit_eq_zero first).mp hsign
  have hcons := beNat_cons first rest
  have hrest := beNat_lt rest
  rw [derDecodeSmallNonnegativeInteger, stripLeadingZeros_integerContents (by omega), hcontents]
  rw [hcontents] at hvalue
  rw [hvalue] at hcons
  by_cases hshort : rest.length ≤ 3
  · have hpow : 256 ^ rest.length ≤ 256 ^ 3 := Nat.pow_le_pow_right (by decide) hshort
    have hbound : first.toNat * 256 ^ rest.length ≤ 127 * 256 ^ rest.length :=
      Nat.mul_le_mul_right _ (by omega)
    have hfour : rest.length < 4 := by omega
    rw [if_pos (by omega), hvalue]
    simp [guard, hsign, hfour]
  · have hlong : ¬ n < 2 ^ 31 := by
      -- only with a zero in front there are five octets
      have hlen : (Der.beBytes 8 n).length ≤ 4 := length_beBytes_le (by omega)
      have hspelled := @beNat_beBytes 8 n (by omega)
      rw [integerContents] at hcontents
      split at hcontents
      · rw [← (List.cons.inj hcontents).2, List.length_nil] at hshort
        omega
      · cases hdigits : Der.beBytes 8 n with
        | nil =>
          rw [hdigits, signPadded] at hcontents
          cases hcontents
        | cons digit digits =>
          rw [hdigits, signPadded] at hcontents
          rw [hdigits, List.length_cons] at hlen
          rw [hdigits, beNat_cons] at hspelled
          split at hcontents
          · rename_i hhigh
            have hdigit : 128 ≤ digit.toNat := by
              rw [ne_eq, and_signBit_eq_zero] at hhigh
              omega
            rw [← (List.cons.inj hcontents).2, List.length_cons] at hshort
            have hthree : digits.length = 3 := by omega
            rw [hthree] at hspelled
            omega
          · rw [← (List.cons.inj hcontents).2] at hshort
            omega
    have hfour : ¬ rest.length < 4 := by omega
    rw [if_neg hlong]
    simp [guard, hfour]

theorem asRawInteger_fromRaw (n : Nat) : (Rfc3161PkiStatus.fromRaw n).asRawInteger = n := by
  match n with
  | 0 | 1 | 2 | 3 | 4 | 5 => rfl
  | n + 6 => rfl

/-! ## The failure bit -/

/-- The client reads the bit at the position in its octet. -/
theorem labels_pushPkifailureInfo (bit : UInt8) :
    pkifailureInfoFlagLabelsFromBitStringTlv (pushPkifailureInfo bit) =
      some [pkiFailureLabel (bit.toNat % 8)] := by
  have h : ∀ b : Fin 8, pkifailureInfoFlagLabelsFromBitStringTlv
      [0x03, 0x02, 7 - UInt8.ofNat b.val, 0x80 >>> UInt8.ofNat b.val] =
        some [pkiFailureLabel b.val] := by decide
  have hmod : bit % 8 = UInt8.ofNat (bit.toNat % 8) := by
    apply UInt8.toNat_inj.mp
    rw [UInt8.toNat_mod, UInt8.toNat_ofNat']
    show bit.toNat % 8 = bit.toNat % 8 % 256
    omega
  rw [pushPkifailureInfo, hmod]
  exact h ⟨bit.toNat % 8, Nat.mod_lt _ (by decide)⟩

/-- The name of a bit behind the first octet is not that of a bit in the first octet. -/
theorem pkiFailureLabel_mod (n : Nat) : pkiFailureLabel (n % 8) = pkiFailureLabel n ↔ n < 8 := by
  constructor
  · intro h
    by_contra hge
    have hnames : ∀ k : Fin 8, (pkiFailureLabel k.val).toList.take 4 ≠ ['b', 'i', 't', '_'] := by
      decide
    by_cases hten : n < 10
    · have hlast : ∀ k : Fin 2, pkiFailureLabel ((8 + k.val) % 8) ≠ pkiFailureLabel (8 + k.val) := by
        decide
      apply hlast ⟨n - 8, by omega⟩
      show pkiFailureLabel ((8 + (n - 8)) % 8) = pkiFailureLabel (8 + (n - 8))
      rw [show 8 + (n - 8) = n by omega]
      exact h
    · apply hnames ⟨n % 8, Nat.mod_lt _ (by decide)⟩
      have hnone : pkiFailureNames[n]? = none := List.getElem?_eq_none (by
        show 10 ≤ n
        omega)
      show (pkiFailureLabel (n % 8)).toList.take 4 = _
      rw [h, pkiFailureLabel, hnone]
      show ("bit_" ++ toString n).toList.take 4 = _
      rw [String.toList_append]
      rfl
  · intro h
    rw [Nat.mod_eq_of_lt h]

/-! ## Responses without a token -/

/-- The client reads the response back: the status, the text, the bit and no token. -/
def StatusReturned (status : UInt32) (text : Option (List Char)) (failInfoBit : Option UInt8) :
    Prop :=
  ∃ parsed, parseTimeStampRespDer (buildStatusOnlyResponse status text failInfoBit) = some parsed ∧
    parsed.pkiStatus.asRawInteger = status.toNat ∧ parsed.timeStampToken = none ∧
    parsed.statusStrings = text.toList ∧
    parsed.failInfoTlv.map pkifailureInfoFlagLabelsFromBitStringTlv =
      failInfoBit.map fun bit => some [pkiFailureLabel bit.toNat]

/-- The size of a response with a text: its octets, those of the status and those of the
failure information. -/
def textFits (status : UInt32) (text : List Char) (failInfoBit : Option UInt8) : Prop :=
  (Unicode.utf8Encode text).length + (integerContents status.toNat).length +
    (if failInfoBit.isSome then 4 else 0) ≤ 65521

/-- The contents of a status information. -/
def statusContents (status : UInt32) (text : Option (List Char)) (failInfoBit : Option UInt8) :
    List UInt8 :=
  pushIntegerU64 status.toUInt64 ++
    (text.map fun text => pushSequence (pushUtf8String text)).getD [] ++
    (failInfoBit.map pushPkifailureInfo).getD []

section status

variable {status : UInt32} {text : Option (List Char)} {failInfoBit : Option UInt8}

theorem length_failInfo : ((failInfoBit.map pushPkifailureInfo).getD []).length =
    if failInfoBit.isSome then 4 else 0 := by
  cases failInfoBit with
  | none => rfl
  | some bit => rfl

theorem toNat_status (status : UInt32) : status.toUInt64.toNat = status.toNat := rfl

theorem length_status (status : UInt32) :
    (pushIntegerU64 status.toUInt64).length = 2 + (integerContents status.toNat).length ∧
      1 ≤ (integerContents status.toNat).length ∧ (integerContents status.toNat).length ≤ 9 := by
  obtain ⟨-, ⟨first, rest, hcontents, -⟩, hlen⟩ := integerContents_spec status.toUInt64.toNat_lt
  rw [pushIntegerU64_eq, length_encodeTlv (by omega)]
  rw [toNat_status] at *
  refine ⟨rfl, ?_, hlen⟩
  rw [hcontents]
  exact Nat.succ_pos _

/-- The contents of the response are at most 65535 octets exactly if the text fits. -/
theorem length_statusInfo_lt :
    (pushSequence (statusContents status text failInfoBit)).length < 256 ^ 2 ↔
      ∀ t, text = some t → textFits status t failInfoBit := by
  obtain ⟨hint, hone, hnine⟩ := length_status status
  have hfail := @length_failInfo failInfoBit
  have hfour : (if failInfoBit.isSome then 4 else 0) ≤ 4 := by
    split
    · exact Nat.le_refl 4
    · exact Nat.zero_le 4
  rw [pushSequence, length_pushTlv, statusContents, List.length_append, List.length_append, hint,
    hfail]
  cases text with
  | none =>
    have hlen := @length_pushLen_le_two (2 + (integerContents status.toNat).length +
      ((Option.map (fun text => pushSequence (pushUtf8String text)) none).getD []).length +
      if failInfoBit.isSome then 4 else 0) (by
        show 2 + _ + 0 + _ < _
        omega)
    constructor
    · intro _ t ht
      cases ht
    · intro _
      show 1 + _ + (2 + _ + 0 + _) < _
      omega
  | some t =>
    have hstrings : ((Option.map (fun text => pushSequence (pushUtf8String text)) (some t)).getD
        []).length = (pushSequence (pushUtf8String t)).length := rfl
    have hiff : (∀ t', some t = some t' → textFits status t' failInfoBit) ↔
        textFits status t failInfoBit := by
      constructor
      · intro h
        exact h t rfl
      · intro h t' ht
        exact Option.some.inj ht ▸ h
    rw [hiff, hstrings, textFits, pushSequence, length_pushTlv, pushUtf8String, length_pushTlv]
    generalize (Unicode.utf8Encode t).length = n
    generalize (if failInfoBit.isSome then 4 else 0) = f at hfour ⊢
    generalize (integerContents status.toNat).length = k at hone hnine ⊢
    by_cases hsmall : n < 256
    · have h1 := length_pushLen_le_two hsmall
      have h2 := length_pushLen_le_four (1 + (pushLen n).length + n)
      have h3 := length_pushLen_le_four
        (2 + k + (1 + (pushLen (1 + (pushLen n).length + n)).length + (1 + (pushLen n).length + n)) + f)
      omega
    · constructor
      · intro htotal
        have h1 := length_pushLen_eq_three (show 256 ≤ n by omega) (by omega)
        rw [h1] at htotal
        have h2 := length_pushLen_eq_three (show 256 ≤ 1 + 3 + n by omega) (by omega)
        rw [h2] at htotal
        have h3 := length_pushLen_eq_three (show 256 ≤ 2 + k + (1 + 3 + (1 + 3 + n)) + f by omega)
          (by omega)
        rw [h3] at htotal
        omega
      · intro hfits
        rw [length_pushLen_eq_three (show 256 ≤ n by omega) (by omega),
          length_pushLen_eq_three (show 256 ≤ 1 + 3 + n by omega) (by omega),
          length_pushLen_eq_three (show 256 ≤ 2 + k + (1 + 3 + (1 + 3 + n)) + f by omega) (by omega)]
        omega

/-- The element of a failure information. -/
def failInfoTlvOf (bit : UInt8) : Tlv :=
  ⟨0x03, pushPkifailureInfo bit, [7 - bit % 8, 0x80 >>> (bit % 8)]⟩

/-- The element of a text. -/
def stringsTlvOf (text : List Char) : Tlv :=
  ⟨0x30, pushSequence (pushUtf8String text), pushUtf8String text⟩

theorem isTlv_failInfoTlvOf (bit : UInt8) : IsTlv 2 (failInfoTlvOf bit) :=
  isTlv_encodeTlv (show [7 - bit % 8, 0x80 >>> (bit % 8)].length < 256 ^ 2 by
    show 2 < _
    decide) (by decide)

theorem isTlv_stringsTlvOf {t : List Char} (h : (pushUtf8String t).length < 256 ^ 2) :
    IsTlv 2 (stringsTlvOf t) := by
  rw [stringsTlvOf, pushSequence, pushTlv_eq (by omega)]
  exact isTlv_encodeTlv h (by decide)

theorem parsePkifreeTextUtf8Strings_written {t : List Char}
    (h : (pushUtf8String t).length < 256 ^ 2) :
    parsePkifreeTextUtf8Strings (pushSequence (pushUtf8String t)) = some [t] := by
  have hinner : (Unicode.utf8Encode t).length < 256 ^ 2 := by
    rw [pushUtf8String, length_pushTlv] at h
    omega
  have hread : readTlvs 2 (pushUtf8String t) =
      some [⟨0x0c, pushUtf8String t, Unicode.utf8Encode t⟩] := by
    refine readTlvs_eq_some.mpr ⟨(List.append_nil _).symm, ?_⟩
    intro tlv htlv
    rw [List.mem_singleton.mp htlv, pushUtf8String, pushTlv_eq (by omega)]
    exact isTlv_encodeTlv hinner (by decide)
  have hhead : (pushSequence (pushUtf8String t)).head? = some 0x30 := rfl
  have hbody : derTlvBody (pushSequence (pushUtf8String t)) = some (pushUtf8String t) := by
    rw [pushSequence, pushTlv_eq (by omega), derTlvBody_encodeTlv h]
  have htext : Unicode.utf8Lossy (Unicode.utf8Encode t) = t := by
    have happend := Unicode.utf8Lossy_utf8Encode_append t []
    rw [List.append_nil] at happend
    exact happend.trans (List.append_nil t)
  simp [parsePkifreeTextUtf8Strings, hhead, hbody, hread, htext, guard]

/-- The fields behind the status. -/
def optionalContents (text : Option (List Char)) (failInfoBit : Option UInt8) : List UInt8 :=
  (text.map fun text => pushSequence (pushUtf8String text)).getD [] ++
    (failInfoBit.map pushPkifailureInfo).getD []

/-- The client reads the text and the failure information that the server writes. -/
theorem parseStatusFields_written
    (h : ∀ t, text = some t → (pushUtf8String t).length < 256 ^ 2) :
    (readTlvs 2 (optionalContents text failInfoBit)).bind
        (fun tlvs => parseStatusFields tlvs 0 [] none) =
      some (text.toList, failInfoBit.map pushPkifailureInfo) := by
  have hread : readTlvs 2 (optionalContents text failInfoBit) =
      some ((text.map stringsTlvOf).toList ++ (failInfoBit.map failInfoTlvOf).toList) := by
    refine readTlvs_eq_some.mpr ⟨?_, ?_⟩
    · rw [rawOf_append, optionalContents]
      congr 1
      · cases text with
        | none => rfl
        | some t => exact (List.append_nil _).symm
      · cases failInfoBit with
        | none => rfl
        | some bit => rfl
    · intro tlv htlv
      rcases List.mem_append.mp htlv with htext | hbit
      · rw [Option.mem_toList, Option.map_eq_some_iff] at htext
        obtain ⟨t, ht, rfl⟩ := htext
        exact isTlv_stringsTlvOf (h t ht)
      · rw [Option.mem_toList, Option.map_eq_some_iff] at hbit
        obtain ⟨bit, -, rfl⟩ := hbit
        exact isTlv_failInfoTlvOf bit
  have hbit : ∀ phase strings, phase ≤ 1 →
      parseStatusFields ((failInfoBit.map failInfoTlvOf).toList) phase strings none =
        some (strings, failInfoBit.map pushPkifailureInfo) := by
    intro phase strings hphase
    cases failInfoBit with
    | none => rfl
    | some bit =>
      show parseStatusFields [failInfoTlvOf bit] phase strings none = _
      rw [parseStatusFields, if_neg (fun hc => absurd hc.1 (by show ¬ (0x03 : UInt8) = 0x30; decide)),
        if_pos ⟨rfl, hphase⟩]
      rfl
  rw [hread, Option.bind_some]
  cases text with
  | none => exact hbit 0 [] (Nat.zero_le 1)
  | some t =>
    show parseStatusFields (stringsTlvOf t :: (failInfoBit.map failInfoTlvOf).toList) 0 [] none = _
    rw [parseStatusFields, if_pos ⟨rfl, rfl⟩]
    show (parsePkifreeTextUtf8Strings (pushSequence (pushUtf8String t))).bind _ = _
    rw [parsePkifreeTextUtf8Strings_written (h t rfl), Option.bind_some]
    exact hbit 1 [t] (Nat.le_refl 1)

/-- What the client reads from a status information that is not too long. -/
theorem parse_statusContents
    (h : (pushSequence (statusContents status text failInfoBit)).length < 256 ^ 2) :
    parsePkiStatusInfoComplete (encodeTlv 0x30 (statusContents status text failInfoBit)) =
      if status.toNat < 2 ^ 31 then
        some (.fromRaw status.toNat, text.toList, failInfoBit.map pushPkifailureInfo)
      else none := by
  have hcontents : (statusContents status text failInfoBit).length < 256 ^ 2 := by
    rw [pushSequence, length_pushTlv] at h
    omega
  have hnine := (length_status status).2.2
  have hdecode := derDecodeSmallNonnegativeInteger_integerContents status.toNat_lt
  have hsplit : statusContents status text failInfoBit =
      encodeTlv 0x02 (integerContents status.toNat) ++ optionalContents text failInfoBit := by
    rw [statusContents, List.append_assoc, pushIntegerU64_eq, toNat_status, optionalContents]
  have hfields := @parseStatusFields_written text failInfoBit (by
    intro t ht
    have hlen : (pushUtf8String t).length ≤ (optionalContents text failInfoBit).length := by
      rw [optionalContents, ht, List.length_append]
      show _ ≤ (pushSequence (pushUtf8String t)).length + _
      rw [pushSequence, length_pushTlv]
      omega
    rw [hsplit, List.length_append] at hcontents
    omega)
  rw [parsePkiStatusInfoComplete, derTlvBody_encodeTlv hcontents, hsplit]
  simp only [Option.bind_eq_bind, Option.bind_some, derReadTlv0_encodeTlv (show
    (integerContents status.toNat).length < 256 ^ 2 by omega)]
  have hbody : derIntegerValueBody (encodeTlv 0x02 (integerContents status.toNat)) =
      some (integerContents status.toNat) := by
    rw [derIntegerValueBody, derTlvBody_encodeTlv (by omega)]
    rfl
  rw [hbody, Option.bind_some, hdecode]
  by_cases hlow : status.toNat < 2 ^ 31
  · rw [if_pos hlow, if_pos hlow, Option.bind_some, ← Option.bind_assoc, hfields]
    rfl
  · rw [if_neg hlow, if_neg hlow]
    rfl

/-- The client reads a response without a token back exactly if the status is below 2^31,
the bit is in the first octet and the text fits. -/
theorem statusReturned_iff : StatusReturned status text failInfoBit ↔
    status.toNat < 2 ^ 31 ∧ (∀ bit, failInfoBit = some bit → bit.toNat < 8) ∧
      ∀ t, text = some t → textFits status t failInfoBit := by
  rw [← length_statusInfo_lt]
  have hbuild : buildStatusOnlyResponse status text failInfoBit =
      pushSequence (pushSequence (statusContents status text failInfoBit)) := rfl
  rw [StatusReturned, hbuild]
  by_cases hfits : (pushSequence (statusContents status text failInfoBit)).length < 256 ^ 2
  · have hstatus := parse_statusContents hfits
    have hcontents : (statusContents status text failInfoBit).length < 256 ^ 3 := by
      rw [pushSequence, length_pushTlv] at hfits
      omega
    have hencode : pushSequence (statusContents status text failInfoBit) =
        encodeTlv 0x30 (statusContents status text failInfoBit) := pushTlv_eq hcontents
    rw [hencode] at hfits ⊢
    rw [pushSequence, pushTlv_eq (by omega)]
    have hparse := @parse_encodeTlv [] _ (by rw [List.append_nil]; exact hfits)
    rw [List.append_nil, hstatus] at hparse
    by_cases hlow : status.toNat < 2 ^ 31
    · rw [if_pos hlow, Option.bind_some] at hparse
      simp only [if_true] at hparse
      have hlabels : (failInfoBit.map pushPkifailureInfo).map pkifailureInfoFlagLabelsFromBitStringTlv =
          (failInfoBit.map fun bit => some [pkiFailureLabel bit.toNat]) ↔
            ∀ bit, failInfoBit = some bit → bit.toNat < 8 := by
        cases failInfoBit with
        | none => simp
        | some bit => simp [labels_pushPkifailureInfo, pkiFailureLabel_mod]
      constructor
      · intro ⟨parsed, hparsed, _, _, _, hbit⟩
        obtain rfl := Option.some.inj (hparse.symm.trans hparsed)
        exact ⟨hlow, hlabels.mp hbit, hfits⟩
      · intro ⟨_, hbit, _⟩
        exact ⟨_, hparse, asRawInteger_fromRaw _, rfl, rfl, hlabels.mpr hbit⟩
    · rw [if_neg hlow, Option.bind_none] at hparse
      constructor
      · intro ⟨parsed, hparsed, _⟩
        cases hparse.symm.trans hparsed
      · intro h
        exact absurd h.1 hlow
  · constructor
    · intro ⟨parsed, hparsed, _⟩
      rw [parse_pushSequence_of_long (by omega)] at hparsed
      cases hparsed
    · intro h
      exact absurd h.2.2 hfits

end status

/-! ## The exchange -/

/-- Which exchanges close.  The server reads every request except one for SHA-1; the client
returns the token of a granted response exactly if its contents are at most 65535 octets, and
reads a response without a token back exactly if the status is below 2^31, the bit is in the
first octet and the text fits. -/
theorem timestamp_exchange_iff (plan : Rfc3161TimestampRequestPlan) (imprint content : List UInt8)
    (tag : UInt8) (status : UInt32) (text : Option (List Char)) (failInfoBit : Option UInt8) :
    (∀ req, buildTimestampRequestBytes plan imprint = some req →
      ((∃ request, parseTimestampRequestDer req = .ok request ∧ RequestReads plan imprint request) ↔
        RustStr.trim plan.digestAlgOid.toList ≠ "1.3.14.3.2.26".toList)) ∧
    (parseTimeStampRespDer (buildGrantedResponse (encodeTlv tag content)) =
        some ⟨.granted, some (encodeTlv tag content), [], none⟩ ↔
      5 + (encodeTlv tag content).length ≤ 65535) ∧
    (StatusReturned status text failInfoBit ↔
      status.toNat < 2 ^ 31 ∧ (∀ bit, failInfoBit = some bit → bit.toNat < 8) ∧
        ∀ t, text = some t → textFits status t failInfoBit) :=
  ⟨fun _ h => parse_build_timestamp_request h, parse_build_granted_response tag content,
    statusReturned_iff⟩

/-- A request for SHA-1 is not read; a token of more than 65530 octets, a status from 2^31
on and a bit behind the first octet do not come back. -/
theorem exchanges_not_closed :
    (∃ req, buildTimestampRequestBytes ⟨"1.3.14.3.2.26", none, false⟩ (List.replicate 20 1) =
        some req ∧
      ¬ ∃ request, parseTimestampRequestDer req = .ok request ∧
        RequestReads ⟨"1.3.14.3.2.26", none, false⟩ (List.replicate 20 1) request) ∧
    parseTimeStampRespDer (buildGrantedResponse (encodeTlv 0x30 (List.replicate 65536 0))) ≠
      some ⟨.granted, some (encodeTlv 0x30 (List.replicate 65536 0)), [], none⟩ ∧
    ¬ StatusReturned (2 ^ 31) none none ∧ ¬ StatusReturned 2 none (some 8) := by
  have htrim : RustStr.trim ("1.3.14.3.2.26" : String).toList = "1.3.14.3.2.26".toList := by
    decide
  have hbuild : ∃ req, buildTimestampRequestBytes ⟨"1.3.14.3.2.26", none, false⟩
      (List.replicate 20 1) = some req := by
    rw [buildTimestampRequestBytes, digestAlgSpec]
    simp only [htrim, if_true]
    exact ⟨_, rfl⟩
  obtain ⟨req, hreq⟩ := hbuild
  refine ⟨⟨req, hreq, ?_⟩, ?_, ?_, ?_⟩
  · intro h
    exact (parse_build_timestamp_request hreq).mp h htrim
  · intro h
    have hlen := (parse_build_granted_response 0x30 (List.replicate 65536 0)).mp h
    rw [encodeTlv, List.length_cons, List.length_append, List.length_replicate] at hlen
    omega
  · intro h
    exact absurd (statusReturned_iff.mp h).1 (by decide)
  · intro h
    exact absurd ((statusReturned_iff.mp h).2.1 8 rfl) (by decide)

end Psign.Server
