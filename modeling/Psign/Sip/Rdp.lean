import Psign.CodeLib.Base64
import Psign.CodeLib.Bytes
import Psign.Sip.PsScript

/-!
# Remote desktop files

`rdp.rs` of `psign-sip-digest`: a `.rdp` file is a list of records, one on a line,
and the signature is over the lines of the settings that `SignScope` names.

`parseRecords` and `recordsToText` read and print the list, `prepareForSignature`
brings it into the form that is signed, and `applyPkcs7Signature` adds the
signature record.
-/

namespace Psign.Sip

open CodeLib CodeLib.Bytes CodeLib.RustStr CodeLib.Unicode

/-! ## Records -/

/-- `RdpValueKind`. -/
inductive RdpValueKind where
  | integer
  | string
  | binary
  deriving DecidableEq, Repr

/-- `RdpValueKind::as_char`. -/
def RdpValueKind.asChar : RdpValueKind → Char
  | integer => 'i'
  | string => 's'
  | binary => 'b'

/-- The kind that a character stands for. -/
def RdpValueKind.ofChar (c : Char) : Option RdpValueKind :=
  match c.toLower with
  | 'i' => some integer
  | 's' => some string
  | 'b' => some binary
  | _ => none

/-- `RdpRecord`. -/
structure RdpRecord where
  name : List Char
  kind : RdpValueKind
  value : List Char
  deriving DecidableEq, Repr

/-- `PreparedRdpSignature`. -/
structure PreparedRdpSignature where
  records : List RdpRecord
  signScope : List Char
  secureBlob : List UInt8
  deriving DecidableEq, Repr

def signScopeName : List Char := "SignScope".toList
def signatureName : List Char := "Signature".toList
def fullAddressName : List Char := "Full Address".toList
def alternateFullAddressName : List Char := "Alternate Full Address".toList

/-- `SENSITIVE_SETTINGS`: the settings that a signature covers, and whether they
must be there. -/
def sensitiveSettings : List (List Char × Bool) :=
  [("Full Address".toList, true),
    ("Alternate Full Address".toList, false),
    ("PCB".toList, false),
    ("Use Redirection Server Name".toList, false),
    ("Server Port".toList, false),
    ("Negotiate Security Layer".toList, false),
    ("EnableCredSspSupport".toList, false),
    ("DisableConnectionSharing".toList, false),
    ("AutoReconnection Enabled".toList, false),
    ("GatewayHostname".toList, false),
    ("GatewayUsageMethod".toList, false),
    ("GatewayProfileUsageMethod".toList, false),
    ("GatewayCredentialsSource".toList, false),
    ("Support URL".toList, false),
    ("PromptCredentialOnce".toList, false),
    ("Require pre-authentication".toList, false),
    ("Pre-authentication server address".toList, false),
    ("Alternate Shell".toList, false),
    ("Shell Working Directory".toList, false),
    ("RemoteApplicationProgram".toList, false),
    ("RemoteApplicationExpandWorkingdir".toList, false),
    ("RemoteApplicationMode".toList, false),
    ("RemoteApplicationGuid".toList, false),
    ("RemoteApplicationName".toList, false),
    ("RemoteApplicationIcon".toList, false),
    ("RemoteApplicationFile".toList, false),
    ("RemoteApplicationFileExtensions".toList, false),
    ("RemoteApplicationCmdLine".toList, false),
    ("RemoteApplicationExpandCmdLine".toList, false),
    ("Prompt For Credentials".toList, false),
    ("Authentication Level".toList, false),
    ("AudioMode".toList, false),
    ("RedirectDrives".toList, false),
    ("RedirectPrinters".toList, false),
    ("RedirectCOMPorts".toList, false),
    ("RedirectSmartCards".toList, false),
    ("RedirectPOSDevices".toList, false),
    ("RedirectClipboard".toList, false),
    ("DevicesToRedirect".toList, false),
    ("DrivesToRedirect".toList, false),
    ("LoadBalanceInfo".toList, false),
    ("RedirectDirectX".toList, false),
    ("RDGIsKDCProxy".toList, false),
    ("KDCProxyName".toList, false),
    ("EnableRdsAadAuth".toList, false),
    ("RedirectWebAuthn".toList, false),
    ("RedirectTextProcessing".toList, false),
    ("allowed security protocols".toList, false)]

/-- A space or a tab. -/
def isBlank (c : Char) : Bool :=
  c == ' ' || c == '\t'

/-- A carriage return or a line feed. -/
def isEolChar (c : Char) : Bool :=
  c == '\r' || c == '\n'

/-- `parse_line`. -/
def parseLine (line : List Char) : Option RdpRecord := do
  let trimmed := line.dropWhile isBlank
  if trimmed = [] then none
  else
    let (name, rest) ← splitOnce ':' trimmed
    match rest.dropWhile isBlank with
    | [] => none
    | c :: rest =>
      let kind ← RdpValueKind.ofChar c
      let value ← stripPrefix [':'] (rest.dropWhile isBlank)
      return ⟨name.rdropWhile isBlank, kind, (value.dropWhile isBlank).rdropWhile isEolChar⟩

/-- `parse_records`. -/
def parseRecords (text : List Char) : List RdpRecord :=
  (lines text).filterMap parseLine

/-- The content of `record_to_line`, without its line end. -/
def RdpRecord.line (record : RdpRecord) : List Char :=
  record.name ++ ':' :: record.kind.asChar :: ':' :: record.value

/-- `record_to_line`. -/
def recordToLine (record : RdpRecord) : List Char :=
  record.line ++ crlf

/-- `records_to_text`. -/
def recordsToText (records : List RdpRecord) : List Char :=
  (records.map recordToLine).flatten

/-- `find_record`. -/
def findRecord (records : List RdpRecord) (name : List Char) : Option RdpRecord :=
  records.find? fun record => EqIgnoreAsciiCase record.name name

/-- `insert_or_replace`. -/
def insertOrReplace : List RdpRecord → RdpRecord → List RdpRecord
  | [], record => [record]
  | existing :: rest, record =>
    if EqIgnoreAsciiCase existing.name record.name then record :: rest
    else existing :: insertOrReplace rest record

/-- `remove_record`. -/
def removeRecord (records : List RdpRecord) (name : List Char) : List RdpRecord :=
  records.filter fun record => ¬ EqIgnoreAsciiCase record.name name

/-! ## Encodings of the file -/

/-- `decode_bomless_utf16`. -/
def decodeBomlessUtf16 (bytes : List UInt8) : Option (List Char) :=
  if bytes.length < 4 ∨ ¬ 2 ∣ bytes.length then none
  else
    let pairs := mapPairs fromLeBytes bytes
    let evenNuls := (pairs.filter fun u => u.toNat % 256 = 0).length
    let oddNuls := (pairs.filter fun u => u.toNat / 256 = 0).length
    if pairs.length ≤ oddNuls * 2 then some (fromUtf16Lossy pairs)
    else if pairs.length ≤ evenNuls * 2 then some (fromUtf16Lossy (mapPairs fromBeBytes bytes))
    else none

/-- `decode_rdp_text`. -/
def decodeRdpText (bytes : List UInt8) : List Char :=
  if bomLe <+: bytes then fromUtf16Lossy (mapPairs fromLeBytes (bytes.drop 2))
  else if bomBe <+: bytes then fromUtf16Lossy (mapPairs fromBeBytes (bytes.drop 2))
  else
    match decodeBomlessUtf16 bytes with
    | some text => text
    | none =>
      match fromUtf8 bytes with
      | some text => text.dropWhile (· == Char.ofNat 0xFEFF)
      | none => utf8Lossy bytes

/-- `encode_native_unicode`. -/
def encodeNativeUnicode (text : List Char) : List UInt8 :=
  bomLe ++ utf16leBytes (encodeUtf16 text)

/-! ## The signed settings -/

/-- The lines that `secure_settings_blob` collects for the names of a scope. -/
def settingLines (records : List RdpRecord) : List (List Char) → Outcome (List Char)
  | [] => .ok []
  | name :: names => do
    let record ← Outcome.ofOption (findRecord records name)
      ("field '" ++ String.ofList name ++ "' in SignScope was not found in RDP file")
    let rest ← settingLines records names
    return recordToLine record ++ rest

/-- `secure_settings_blob`. -/
def secureSettingsBlob (records : List RdpRecord) (signScope : List Char) :
    Outcome (List UInt8) := do
  let text ← settingLines records ((split ',' signScope).filter (· ≠ []))
  let signScopeRecord ← Outcome.ofOption (findRecord records signScopeName)
    "SignScope field was not found in RDP file"
  return utf16leBytes (encodeUtf16 (text ++ recordToLine signScopeRecord ++ ['\x00']))

/-- The names of `scope_names`: the sensitive settings that the file has. -/
def scopeNames (records : List RdpRecord) : List (List Char × Bool) → Outcome (List (List Char))
  | [] => .ok []
  | (name, required) :: settings =>
    match findRecord records name with
    | none =>
      if required then
        Outcome.bail ("RDP file is missing required " ++ String.ofList name ++ " setting")
      else scopeNames records settings
    | some record =>
      if required = true ∧ record.value = [] then
        Outcome.bail ("RDP file has an empty required " ++ String.ofList name ++ " setting")
      else do
        let names ← scopeNames records settings
        return name :: names

/-- The records with `Alternate Full Address`, which is the full address where
the file does not say. -/
def withAlternateAddress (records : List RdpRecord) (fullAddress : List Char) : List RdpRecord :=
  match findRecord records alternateFullAddressName with
  | none => insertOrReplace records ⟨alternateFullAddressName, .string, fullAddress⟩
  | some _ => records

/-- `prepare_for_signature`. -/
def prepareForSignature (records : List RdpRecord) : Outcome PreparedRdpSignature := do
  let records := removeRecord (removeRecord records signScopeName) signatureName
  let fullAddress ← Outcome.ofOption
    ((findRecord records fullAddressName).filter fun record => record.value ≠ [])
    "RDP file is missing required Full Address setting"
  let records := withAlternateAddress records fullAddress.value
  let names ← scopeNames records sensitiveSettings
  let signScope := [','].intercalate names
  let records := insertOrReplace records ⟨signScopeName, .string, signScope⟩
  let secureBlob ← secureSettingsBlob records signScope
  return ⟨records, signScope, secureBlob⟩

/-! ## The signature record -/

/-- `serialize_signature`; the length is cast to 32 bits. -/
def serializeSignature (pkcs7 : List UInt8) : List UInt8 :=
  u32le 0x00010001 ++ u32le 1 ++ u32le (pkcs7.length % 2 ^ 32) ++ pkcs7

/-- `signature_pkcs7_from_serialized`. -/
def signaturePkcs7FromSerialized (serialized : List UInt8) : Outcome (List UInt8) :=
  if serialized.length < 12 then
    Outcome.bail "RDP Signature payload is shorter than 12-byte header"
  else if u32At serialized 0 ≠ 0x00010001 then
    Outcome.bail ("unsupported RDP Signature version 0x" ++ hex08 (u32At serialized 0))
  else if u32At serialized 4 ≠ 1 then
    Outcome.bail ("unsupported RDP Signature type " ++ toString (u32At serialized 4))
  else if serialized.length - 12 ≠ u32At serialized 8 then
    Outcome.bail ("RDP Signature length header says " ++ toString (u32At serialized 8) ++
      " byte(s), payload has " ++ toString (serialized.length - 12))
  else .ok (serialized.drop 12)

variable (base64 : Base64Engine)

/-- `apply_pkcs7_signature`. -/
def applyPkcs7Signature (records : List RdpRecord) (pkcs7 : List UInt8) : List RdpRecord :=
  insertOrReplace records ⟨signatureName, .string, base64.encode (serializeSignature pkcs7)⟩

/-- `signature_pkcs7_from_base64`. -/
def signaturePkcs7FromBase64 (value : List Char) : Outcome (List UInt8) := do
  let serialized ← (base64.decode (trim value)).mapErr fun _ => "decode RDP Signature base64"
  signaturePkcs7FromSerialized serialized

/-- `signature_record_pkcs7`. -/
def signatureRecordPkcs7 (records : List RdpRecord) : Outcome (List UInt8) := do
  let record ← Outcome.ofOption (findRecord records signatureName)
    "RDP file does not contain a Signature record"
  signaturePkcs7FromBase64 base64 record.value

end Psign.Sip
