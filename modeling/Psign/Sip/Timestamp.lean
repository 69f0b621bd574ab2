import Psign.CodeLib.Bytes
import Psign.CodeLib.Unicode
import Psign.Sip.Pkcs7

/-!
# RFC 3161 TSTInfo

The parser of `timestamp.rs` for a `TSTInfo`.  It reads lengths of at most two
octets, and everything but object identifiers by itself.
-/

namespace Psign.Sip

open CodeLib CodeLib.Bytes CodeLib.Der

/-- `ParsedRfc3161TstInfo`. -/
structure ParsedRfc3161TstInfo where
  policyOid : String
  messageImprintDigestAlgOid : String
  messageImprintHashedMessage : List UInt8
  serialNumberHex : String
  genTime : List Char
  nonceHex : Option String
  deriving DecidableEq, Repr

/-- `der_read_tlv0`: the bytes of the first element, and what follows it. -/
def derReadTlv0 (input : List UInt8) : Option (List UInt8 × List UInt8) :=
  (readTlv 2 input).map fun found => (found.1.raw, found.2)

/-- `der_tlv_body`. -/
def derTlvBody (tlv : List UInt8) : Option (List UInt8) :=
  (readTlv 2 tlv).map fun found => found.1.value

variable (cms : CmsCrates)

/-- `oid_tlv_to_string`. -/
def oidTlvToString (oidTlv : List UInt8) : Option String := do
  guard ((← oidTlv.head?) = 0x06)
  (cms.objectIdentifier oidTlv).toOption

/-- `algorithm_identifier_oid`. -/
def algorithmIdentifierOid (algTlv : List UInt8) : Option String := do
  guard ((← algTlv.head?) = 0x30)
  let body ← derTlvBody algTlv
  let (oidTlv, _) ← derReadTlv0 body
  oidTlvToString cms oidTlv

/-- `parse_message_imprint`. -/
def parseMessageImprint (messageImprintTlv : List UInt8) : Option (String × List UInt8) := do
  guard ((← messageImprintTlv.head?) = 0x30)
  let body ← derTlvBody messageImprintTlv
  let (algTlv, rest) ← derReadTlv0 body
  let (hashedTlv, tail) ← derReadTlv0 rest
  guard (tail = [] ∧ hashedTlv.head? = some 0x04)
  let algOid ← algorithmIdentifierOid cms algTlv
  let hashed ← derTlvBody hashedTlv
  return (algOid, hashed)

/-- The loop over the optional fields of a `TSTInfo`: the last INTEGER is the nonce. -/
def parseNonce : List Tlv → Option String → Option (Option String)
  | [], nonceHex => some nonceHex
  | tlv :: rest, nonceHex =>
    if tlv.tag = 0x02 then parseNonce rest (some (hexLower tlv.value))
    else if tlv.tag ∈ [0x30, 0x01, 0xa0, 0xa1] then parseNonce rest nonceHex
    else none

/-- `parse_tst_info_der`. -/
def parseTstInfoDer (tstinfoDer : List UInt8) : Option ParsedRfc3161TstInfo := do
  let outer ← derTlvBody tstinfoDer
  guard ((← tstinfoDer.head?) = 0x30)
  let (version, rest) ← derReadTlv0 outer
  guard ((← version.head?) = 0x02)
  let (policyTlv, rest) ← derReadTlv0 rest
  let policyOid ← oidTlvToString cms policyTlv
  let (messageImprintTlv, rest) ← derReadTlv0 rest
  let (digestAlgOid, hashedMessage) ← parseMessageImprint cms messageImprintTlv
  let (serialTlv, rest) ← derReadTlv0 rest
  guard ((← serialTlv.head?) = 0x02)
  let serialNumber ← derTlvBody serialTlv
  let (genTimeTlv, rest) ← derReadTlv0 rest
  guard ((← genTimeTlv.head?) = 0x18)
  let genTime ← Unicode.fromUtf8 (← derTlvBody genTimeTlv)
  let nonceHex ← parseNonce (← readTlvs 2 rest) none
  return ⟨policyOid, digestAlgOid, hashedMessage, hexLower serialNumber, genTime, nonceHex⟩

end Psign.Sip
