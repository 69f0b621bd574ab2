import Psign.Sip.TimestampClient

/-!
# The timestamp server

`psign-server.rs`: reading a `TimeStampReq` (`parseTimestampRequestDer`) and writing a
`TimeStampResp` (`buildGrantedResponse`, `buildStatusOnlyResponse`).  The server writes and
reads DER by itself, with lengths of up to three octets.

An element with the shortest length is read back (`readTlv_encodeTlv`), and client and
server write the same INTEGER (`derIntegerU64_eq`, `pushIntegerU64_eq`).
-/

namespace Psign.Server

open CodeLib CodeLib.Bytes CodeLib.Der Psign.Sip

/-! ## Reading requests -/

/-- `read_len`: the length, and how many octets spell it. -/
def readLen : List UInt8 → Outcome (Nat × Nat)
  | [] => Outcome.bail "missing length"
  | first :: rest =>
    if first.toNat < 0x80 then .ok (first.toNat, 1)
    else
      let n := first.toNat - 0x80
      if n = 0 ∨ 3 < n then Outcome.bail "unsupported DER length form"
      else if rest.length < n then Outcome.bail "truncated length"
      else .ok (beNat (rest.take n), 1 + n)

/-- `expect_tlv`: the contents of an element that is all of the input. -/
def expectTlv (input : List UInt8) (tag : UInt8) : Outcome (List UInt8) := do
  Outcome.guardThat (input.head? = some tag) "unexpected tag"
  let (len, hdr) ← readLen input.tail
  Outcome.guardThat (1 + hdr + len = input.length) "TLV trailing bytes"
  return input.drop (1 + hdr)

/-- `read_tlv`: the bytes of the first element, and what follows it. -/
def readTlv (input : List UInt8) : Outcome (List UInt8 × List UInt8) := do
  Outcome.guardThat (input ≠ []) "missing TLV tag"
  let (len, hdr) ← readLen input.tail
  Outcome.guardThat (1 + hdr + len ≤ input.length) "TLV length exceeds input"
  return (input.take (1 + hdr + len), input.drop (1 + hdr + len))

/-- `TimestampRequest`. -/
structure TimestampRequest where
  digestAlgTlv : List UInt8
  hashedMessage : List UInt8
  nonceTlv : Option (List UInt8)
  deriving DecidableEq, Repr

/-- The loop over the optional fields of a `TimeStampReq`, for at most `fuel` of them: the
last INTEGER is the nonce. -/
def parseOptionalFields : Nat → List UInt8 → Option (List UInt8) → Outcome (Option (List UInt8))
  | _, [], nonceTlv => .ok nonceTlv
  | 0, _ :: _, _ => Outcome.bail "unsupported TimeStampReq optional field"
  | fuel + 1, byte :: fields, nonceTlv => do
    let (tlv, rest) ← (readTlv (byte :: fields)).context "TimeStampReq optional field"
    if tlv.head? = some 0x02 then parseOptionalFields fuel rest (some tlv)
    else if tlv.head? = some 0x01 ∨ tlv.head? = some 0x06 ∨ tlv.head? = some 0xa0 then
      parseOptionalFields fuel rest nonceTlv
    else Outcome.bail "unsupported TimeStampReq optional field"

/-- `parse_timestamp_request_der`. -/
def parseTimestampRequestDer (input : List UInt8) : Outcome TimestampRequest := do
  let outer ← (expectTlv input 0x30).context "TimeStampReq SEQUENCE"
  let (version, rest) ← (readTlv outer).context "TimeStampReq.version"
  Outcome.guardThat (version = [0x02, 0x01, 0x01]) "unsupported TimeStampReq version"
  let (imprintTlv, rest) ← (readTlv rest).context "TimeStampReq.messageImprint"
  let imprint ← (expectTlv imprintTlv 0x30).context "MessageImprint SEQUENCE"
  let (digestAlgTlv, tail) ← (readTlv imprint).context "MessageImprint.hashAlgorithm"
  let (hashedTlv, tail) ← (readTlv tail).context "MessageImprint.hashedMessage"
  Outcome.guardThat (tail = []) "MessageImprint has trailing fields"
  let hashedMessage ← (expectTlv hashedTlv 0x04).context "hashedMessage OCTET STRING"
  let nonceTlv ← parseOptionalFields rest.length rest none
  return ⟨digestAlgTlv, hashedMessage, nonceTlv⟩

/-! ## Writing responses -/

/-- `push_len`: the octets that it appends. -/
def pushLen (len : Nat) : List UInt8 :=
  if len < 0x80 then [UInt8.ofNat len]
  else if len ≤ 0xff then [0x81, UInt8.ofNat len]
  else if len ≤ 0xffff then [0x82, UInt8.ofNat (len / 256), UInt8.ofNat (len % 256)]
  else [0x83, UInt8.ofNat (len / 65536), UInt8.ofNat (len / 256 % 256), UInt8.ofNat (len % 256)]

/-- `push_tlv`. -/
def pushTlv (tag : UInt8) (body : List UInt8) : List UInt8 :=
  tag :: (pushLen body.length ++ body)

/-- `push_sequence`. -/
def pushSequence (body : List UInt8) : List UInt8 :=
  pushTlv 0x30 body

/-- `push_utf8_string`. -/
def pushUtf8String (body : List Char) : List UInt8 :=
  pushTlv 0x0c (Unicode.utf8Encode body)

/-- `push_integer_u64`. -/
def pushIntegerU64 (value : UInt64) : List UInt8 :=
  pushTlv 0x02 (if value = 0 then [0] else signPadded (Der.beBytes 8 value.toNat))

/-- `push_pkifailure_info`. -/
def pushPkifailureInfo (bit : UInt8) : List UInt8 :=
  [0x03, 0x02, 7 - bit % 8, 0x80 >>> (bit % 8)]

/-- `build_granted_response`. -/
def buildGrantedResponse (token : List UInt8) : List UInt8 :=
  pushSequence (pushSequence (pushIntegerU64 0) ++ token)

/-- `build_status_only_response`. -/
def buildStatusOnlyResponse (status : UInt32) (text : Option (List Char))
    (failInfoBit : Option UInt8) : List UInt8 :=
  let strings := (text.map fun text => pushSequence (pushUtf8String text)).getD []
  let failInfo := (failInfoBit.map pushPkifailureInfo).getD []
  pushSequence (pushSequence (pushIntegerU64 status.toUInt64 ++ strings ++ failInfo))

/-! ## Elements -/

section elements

variable {tag : UInt8} {content rest : List UInt8}

theorem readLen_eq_ok {bytes : List UInt8} {found : Nat × Nat} :
    readLen bytes = .ok found ↔ readLength 3 bytes = some found := by
  cases bytes with
  | nil => simp [readLen, readLength]
  | cons first rest =>
    rw [readLen, readLength]
    by_cases hshort : first.toNat < 128
    · rw [if_pos hshort, if_pos hshort]
      simp
    · rw [if_neg hshort, if_neg hshort]
      by_cases hform : first.toNat - 128 = 0 ∨ 3 < first.toNat - 128
      · rw [if_pos hform, if_pos (by omega)]
        simp
      · by_cases htrunc : rest.length < first.toNat - 128
        · rw [if_neg hform, if_pos htrunc, if_pos (by omega)]
          simp
        · rw [if_neg hform, if_neg htrunc, if_neg (by omega)]
          simp

theorem readLen_encodeLength {n : Nat} (h : n < 256 ^ 3) (more : List UInt8) :
    readLen (encodeLength n ++ more) = .ok (n, (encodeLength n).length) :=
  readLen_eq_ok.mpr (readLength_encodeLength h (by decide) more)

/-- The contents of an element with the shortest length. -/
theorem expectTlv_encodeTlv (h : content.length < 256 ^ 3) :
    expectTlv (encodeTlv tag content) tag = .ok content := by
  simp only [expectTlv, encodeTlv, List.head?_cons, List.tail_cons, readLen_encodeLength h,
    Outcome.bind_eq_ok, Outcome.guardThat_eq_ok, Outcome.pure_eq_ok, Except.ok.injEq,
    List.length_cons, List.length_append]
  refine ⟨(), trivial, _, rfl, (), by omega, ?_⟩
  rw [Nat.add_comm, List.drop_succ_cons, List.drop_left]

/-- An element with the shortest length in front of other bytes. -/
theorem readTlv_encodeTlv (h : content.length < 256 ^ 3) :
    readTlv (encodeTlv tag content ++ rest) = .ok (encodeTlv tag content, rest) := by
  have hlen : (encodeTlv tag content).length =
      1 + (encodeLength content.length).length + content.length := by
    rw [encodeTlv, List.length_cons, List.length_append]
    omega
  have hread : readLen ((encodeTlv tag content ++ rest).tail) =
      .ok (content.length, (encodeLength content.length).length) := by
    rw [encodeTlv, List.cons_append, List.tail_cons, List.append_assoc]
    exact readLen_encodeLength h _
  simp only [readTlv, hread, Outcome.bind_eq_ok, Outcome.guardThat_eq_ok, Outcome.pure_eq_ok,
    Except.ok.injEq, Prod.mk.injEq]
  refine ⟨(), by rw [encodeTlv, List.cons_append]; exact List.cons_ne_nil _ _, _, rfl, (), ?_, ?_, ?_⟩
  · rw [List.length_append, hlen]
    omega
  · rw [← hlen, List.take_left]
  · rw [← hlen, List.drop_left]

end elements

/-! ## Integers -/

/-- The number that an INTEGER spells, with its sign. -/
def integerValue (tlv : List UInt8) : Option Int := do
  let (element, rest) ← Der.readTlv 3 tlv
  guard (rest = [] ∧ element.tag = 0x02)
  let first ← element.value.head?
  return if first &&& 0x80 = 0 then beNat element.value
    else beNat element.value - 256 ^ element.value.length

set_option maxRecDepth 2000

theorem and_signBit_eq_zero (b : UInt8) : b &&& 0x80 = 0 ↔ b.toNat < 128 := by
  have h : ∀ n : Fin 256, (UInt8.ofNat n.val) &&& 0x80 = 0 ↔ n.val < 128 := by decide
  have hb := h ⟨b.toNat, b.toNat_lt⟩
  rw [UInt8.ofNat_toNat] at hb
  exact hb

/-- The contents of a nonnegative INTEGER of at most eight digits. -/
def integerContents (n : Nat) : List UInt8 :=
  if n = 0 then [0] else signPadded (Der.beBytes 8 n)

/-- The contents spell the number without a sign, and are the digits with at most one octet
more. -/
theorem integerContents_spec {n : Nat} (h : n < 2 ^ 64) :
    beNat (integerContents n) = n ∧
      (∃ first rest, integerContents n = first :: rest ∧ first &&& 0x80 = 0) ∧
      (integerContents n).length ≤ 9 := by
  rw [integerContents]
  by_cases hzero : n = 0
  · subst hzero
    exact ⟨rfl, ⟨0, [], rfl, rfl⟩, by decide⟩
  · rw [if_neg hzero]
    have hvalue : beNat (Der.beBytes 8 n) = n := beNat_beBytes (by omega)
    have hlen : (Der.beBytes 8 n).length ≤ 8 := length_beBytes_le (by omega)
    have hne : Der.beBytes 8 n ≠ [] := beBytes_ne_nil hzero
    generalize Der.beBytes 8 n = digits at hvalue hlen hne
    cases digits with
    | nil => exact absurd rfl hne
    | cons first rest =>
      rw [signPadded]
      rw [List.length_cons] at hlen
      by_cases hsign : first &&& 0x80 = 0
      · rw [if_neg (not_not.mpr hsign)]
        exact ⟨hvalue, ⟨first, rest, rfl, hsign⟩, by rw [List.length_cons]; omega⟩
      · rw [if_pos hsign]
        refine ⟨?_, ⟨0, first :: rest, rfl, rfl⟩, by rw [List.length_cons, List.length_cons]; omega⟩
        rw [← hvalue]
        simp [beNat]

theorem pushDerDefiniteLength_eq {n : Nat} (h : n < 256 ^ 3) :
    pushDerDefiniteLength n = encodeLength n :=
  (encodeLength_of_lt h).symm

theorem pushTlv_eq {tag : UInt8} {body : List UInt8} (h : body.length < 256 ^ 3) :
    pushTlv tag body = encodeTlv tag body := by
  rw [pushTlv, encodeTlv, pushLen, encodeLength_of_lt h]

theorem derIntegerU64_eq (n : UInt64) :
    derIntegerU64 n = encodeTlv 0x02 (integerContents n.toNat) := by
  have hlen := (integerContents_spec n.toNat_lt).2.2
  rw [derIntegerU64, integerContents] at *
  by_cases hzero : n = 0
  · subst hzero
    rfl
  · have hne : n.toNat ≠ 0 := fun h => hzero (UInt64.toNat_inj.mp h)
    rw [if_neg hne] at hlen
    rw [if_neg hzero, if_neg hne, encodeTlv]
    show 0x02 :: (pushDerDefiniteLength _ ++ _) = _
    rw [pushDerDefiniteLength_eq (by omega)]

theorem pushIntegerU64_eq (n : UInt64) :
    pushIntegerU64 n = encodeTlv 0x02 (integerContents n.toNat) := by
  have hlen := (integerContents_spec n.toNat_lt).2.2
  have hcontents : (if n = 0 then [0] else signPadded (Der.beBytes 8 n.toNat)) =
      integerContents n.toNat := by
    rw [integerContents]
    by_cases hzero : n = 0
    · subst hzero
      rfl
    · have hne : n.toNat ≠ 0 := fun h => hzero (UInt64.toNat_inj.mp h)
      rw [if_neg hzero, if_neg hne]
  rw [pushIntegerU64, hcontents, pushTlv_eq (by omega)]

/-- What the client writes as an INTEGER spells the number. -/
theorem integerValue_derIntegerU64 (n : UInt64) :
    integerValue (derIntegerU64 n) = some (n.toNat : Int) := by
  obtain ⟨hvalue, ⟨first, rest, hcontents, hsign⟩, hlen⟩ := integerContents_spec n.toNat_lt
  have hisTlv := @isTlv_encodeTlv 3 0x02 (integerContents n.toNat) (by omega) (by decide)
  rw [derIntegerU64_eq, integerValue, hisTlv]
  simp only [Option.bind_eq_bind, Option.bind_some, hvalue]
  simp [hcontents, hsign, guard]

end Psign.Server
