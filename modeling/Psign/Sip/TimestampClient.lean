import Psign.CodeLib.RustStr
import Psign.CodeLib.Utf8
import Psign.Sip.Timestamp

/-!
# The client of a timestamp server

`timestamp.rs`: the `TimeStampReq` that is sent to a timestamp server
(`buildTimestampRequestBytes`) and the reader of its `TimeStampResp`
(`parseTimeStampRespDer`).

The request is written with lengths of up to three octets.  The reader of the response
takes lengths of up to two.  The status is read as a small number, and of the failure
information the names of the bits that are set.
-/

namespace Psign.Sip

open CodeLib CodeLib.Bytes CodeLib.Der

/-! ## Requests -/

/-- `Rfc3161TimestampRequestPlan`. -/
structure Rfc3161TimestampRequestPlan where
  digestAlgOid : String
  nonce : Option UInt64
  certReq : Bool
  deriving DecidableEq, Repr

/-- `DigestAlgSpec`. -/
structure DigestAlgSpec where
  algorithmIdentifierDer : List UInt8
  digestOctetLen : Nat
  deriving DecidableEq, Repr

/-- `digest_alg_spec`. -/
def digestAlgSpec (oid : String) : Option DigestAlgSpec :=
  let trimmed := RustStr.trim oid.toList
  if trimmed = "1.3.14.3.2.26".toList then
    some ⟨[0x30, 0x0b, 0x06, 0x05, 0x2b, 0x0e, 0x03, 0x02, 0x1a, 0x05, 0x00], 20⟩
  else if trimmed = "2.16.840.1.101.3.4.2.1".toList then
    some ⟨[0x30, 0x0d, 0x06, 0x09, 0x60, 0x86, 0x48, 0x01, 0x65, 0x03, 0x04, 0x02, 0x01, 0x05,
      0x00], 32⟩
  else if trimmed = "2.16.840.1.101.3.4.2.2".toList then
    some ⟨[0x30, 0x0d, 0x06, 0x09, 0x60, 0x86, 0x48, 0x01, 0x65, 0x03, 0x04, 0x02, 0x02, 0x05,
      0x00], 48⟩
  else if trimmed = "2.16.840.1.101.3.4.2.3".toList then
    some ⟨[0x30, 0x0d, 0x06, 0x09, 0x60, 0x86, 0x48, 0x01, 0x65, 0x03, 0x04, 0x02, 0x03, 0x05,
      0x00], 64⟩
  else none

/-- `push_der_definite_length`: the octets that it appends. -/
def pushDerDefiniteLength (len : Nat) : List UInt8 :=
  if len < 0x80 then [UInt8.ofNat len]
  else if len ≤ 0xff then [0x81, UInt8.ofNat len]
  else if len ≤ 0xffff then [0x82, UInt8.ofNat (len / 256), UInt8.ofNat (len % 256)]
  else [0x83, UInt8.ofNat (len / 65536), UInt8.ofNat (len / 256 % 256), UInt8.ofNat (len % 256)]

/-- The contents of a nonnegative INTEGER: the digits, with a zero in front where the first
has the sign bit. -/
def signPadded : List UInt8 → List UInt8
  | [] => []
  | first :: rest => if first &&& 0x80 ≠ 0 then 0 :: first :: rest else first :: rest

/-- `der_integer_u64`. -/
def derIntegerU64 (n : UInt64) : List UInt8 :=
  if n = 0 then [0x02, 0x01, 0x00]
  else
    let digits := signPadded (Der.beBytes 8 n.toNat)
    0x02 :: (pushDerDefiniteLength digits.length ++ digits)

/-- `build_timestamp_request_bytes`. -/
def buildTimestampRequestBytes (plan : Rfc3161TimestampRequestPlan) (imprintPreimage : List UInt8) :
    Option (List UInt8) := do
  let spec ← digestAlgSpec plan.digestAlgOid
  guard (imprintPreimage.length = spec.digestOctetLen)
  let messageImprintValue := spec.algorithmIdentifierDer ++
    0x04 :: (pushDerDefiniteLength imprintPreimage.length ++ imprintPreimage)
  let nonce := (plan.nonce.map derIntegerU64).getD []
  let certReq := if plan.certReq then [0x01, 0x01, 0xff] else []
  let tsReqValue := [0x02, 0x01, 0x01] ++
    0x30 :: (pushDerDefiniteLength messageImprintValue.length ++ messageImprintValue) ++
    nonce ++ certReq
  return 0x30 :: (pushDerDefiniteLength tsReqValue.length ++ tsReqValue)

/-! ## Responses -/

/-- `Rfc3161PkiStatus`. -/
inductive Rfc3161PkiStatus where
  | granted
  | grantedWithMods
  | rejection
  | waiting
  | revocationWarning
  | revocationNotification
  | unknown (v : Nat)
  deriving DecidableEq, Repr

/-- `Rfc3161PkiStatus::from_raw`. -/
def Rfc3161PkiStatus.fromRaw : Nat → Rfc3161PkiStatus
  | 0 => granted
  | 1 => grantedWithMods
  | 2 => rejection
  | 3 => waiting
  | 4 => revocationWarning
  | 5 => revocationNotification
  | v => unknown v

/-- `Rfc3161PkiStatus::as_raw_integer`. -/
def Rfc3161PkiStatus.asRawInteger : Rfc3161PkiStatus → Nat
  | granted => 0
  | grantedWithMods => 1
  | rejection => 2
  | waiting => 3
  | revocationWarning => 4
  | revocationNotification => 5
  | unknown v => v

/-- `ParsedTimeStampResp`. -/
structure ParsedTimeStampResp where
  pkiStatus : Rfc3161PkiStatus
  timeStampToken : Option (List UInt8)
  statusStrings : List (List Char)
  failInfoTlv : Option (List UInt8)
  deriving DecidableEq, Repr

/-- The names of the first bits of a `PKIFailureInfo`. -/
def pkiFailureNames : List String :=
  ["badAlg", "badMessageCheck", "badRequest", "badTime", "badCertId", "badDataFormat",
    "wrongAuthority", "incorrectData", "missingTimeStamp", "badPOP"]

/-- The name of a bit of a `PKIFailureInfo`. -/
def pkiFailureLabel (i : Nat) : String :=
  match pkiFailureNames[i]? with
  | some name => name
  | none => "bit_" ++ toString i

/-- `pkifailure_info_flag_labels_from_bit_string_tlv`. -/
def pkifailureInfoFlagLabelsFromBitStringTlv (tlv : List UInt8) : Option (List String) := do
  guard ((← tlv.head?) = 0x03)
  match ← derTlvBody tlv with
  | [] => none
  | unused :: valueOctets =>
    guard (unused.toNat ≤ 7)
    if valueOctets.isEmpty then return []
    let totalBits := valueOctets.length * 8 - unused.toNat
    guard (totalBits ≤ 256)
    return ((List.range totalBits).filter fun i =>
      valueOctets.getD (i / 8) 0 &&& (0x80 >>> UInt8.ofNat (i % 8)) ≠ 0).map pkiFailureLabel

/-- `der_definite_tlv_total_len`. -/
def derDefiniteTlvTotalLen : List UInt8 → Option Nat
  | [] => none
  | _ :: rest => (readLength 2 rest).map fun (bodyLen, hdr) => 1 + hdr + bodyLen

/-- `der_integer_value_body`. -/
def derIntegerValueBody (intTlv : List UInt8) : Option (List UInt8) := do
  guard ((← intTlv.head?) = 0x02)
  derTlvBody intTlv

/-- The loop that strips the zeros which are no sign octet. -/
def stripLeadingZeros : List UInt8 → List UInt8
  | first :: second :: rest =>
    if first = 0 ∧ second &&& 0x80 = 0 then stripLeadingZeros (second :: rest)
    else first :: second :: rest
  | body => body

/-- `der_decode_small_nonnegative_integer`; four octets fit the number it returns. -/
def derDecodeSmallNonnegativeInteger (body : List UInt8) : Option Nat := do
  let stripped := stripLeadingZeros body
  guard (stripped ≠ [] ∧ stripped.length ≤ 4)
  guard ((← stripped.head?) &&& 0x80 = 0)
  return beNat stripped

/-- `parse_pkifree_text_utf8_strings`. -/
def parsePkifreeTextUtf8Strings (seqTlv : List UInt8) : Option (List (List Char)) := do
  guard ((← seqTlv.head?) = 0x30)
  let body ← derTlvBody seqTlv
  (← readTlvs 2 body).mapM fun tlv =>
    if tlv.tag = 0x0c then some (Unicode.utf8Lossy tlv.value) else none

/-- The loop of `parse_pki_status_info_complete` over the fields behind the status, with its
phase. -/
def parseStatusFields : List Tlv → Nat → List (List Char) → Option (List UInt8) →
    Option (List (List Char) × Option (List UInt8))
  | [], _, statusStrings, failInfoTlv => some (statusStrings, failInfoTlv)
  | tlv :: rest, phase, statusStrings, failInfoTlv =>
    if tlv.tag = 0x30 ∧ phase = 0 then do
      let statusStrings ← parsePkifreeTextUtf8Strings tlv.raw
      parseStatusFields rest 1 statusStrings failInfoTlv
    else if tlv.tag = 0x03 ∧ phase ≤ 1 then
      if failInfoTlv.isSome then none
      else parseStatusFields rest 2 statusStrings (some tlv.raw)
    else none

/-- `parse_pki_status_info_complete`. -/
def parsePkiStatusInfoComplete (statusInfoTlv : List UInt8) :
    Option (Rfc3161PkiStatus × List (List Char) × Option (List UInt8)) := do
  let inner ← derTlvBody statusInfoTlv
  let (first, tail) ← derReadTlv0 inner
  let intBody ← derIntegerValueBody first
  let raw ← derDecodeSmallNonnegativeInteger intBody
  let (statusStrings, failInfoTlv) ← parseStatusFields (← readTlvs 2 tail) 0 [] none
  return (.fromRaw raw, statusStrings, failInfoTlv)

/-- `parse_time_stamp_resp_der`. -/
def parseTimeStampRespDer (input : List UInt8) : Option ParsedTimeStampResp := do
  guard ((← input.head?) = 0x30)
  guard ((← derDefiniteTlvTotalLen input) = input.length)
  let outer ← derTlvBody input
  let (first, rest) ← derReadTlv0 outer
  let (pkiStatus, statusStrings, failInfoTlv) ← parsePkiStatusInfoComplete first
  if rest = [] then return ⟨pkiStatus, none, statusStrings, failInfoTlv⟩
  let (token, tail) ← derReadTlv0 rest
  guard (tail = [])
  return ⟨pkiStatus, some token, statusStrings, failInfoTlv⟩

end Psign.Sip
