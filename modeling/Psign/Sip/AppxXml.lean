import Psign.CodeLib.Base64
import Psign.CodeLib.Unicode
import Psign.Sip.AppxArchive
import Psign.Sip.Digest

/-!
# The block map and the content types of an APPX package

`parse_block_map_xml` and `validate_content_types_xml` of `msix_digest.rs` walk over the
events of a pull reader.  The reader is a parameter: an `XmlReader` gives the events of a
document up to its end, and an error in the place where the document cannot be read on.

What the block map says of its hashes is checked before they are compared with anything:
the hash kind is one of three, each hash has the length of its kind, and no file is listed
twice (`parseBlockMapXml_sound`).
-/

namespace Psign.Sip.Appx

open CodeLib CodeLib.RustStr

/-! ## Events -/

/-- `BytesStart`: the local name of a tag, and its attributes with their decoded values. -/
structure Element where
  localName : List UInt8
  attributes : List (Outcome (List UInt8 × Outcome (List Char)))

/-- `quick_xml::events::Event`, as far as the two documents tell events apart. -/
inductive Event where
  | start (e : Element)
  | empty (e : Element)
  | close (localName : List UInt8)
  | text (decoded : Outcome (List Char))
  | other

/-- `read_event_into` until `Event::Eof`. -/
abbrev XmlReader := List UInt8 → List (Outcome Event)

/-- A name in an error text. -/
def nameText (name : List UInt8) : String :=
  String.ofList ((Unicode.fromUtf8 name).getD ['?'])

/-! ## Attributes -/

/-- The loop of `xml_attr`. -/
def xmlAttrFrom (name : List UInt8) :
    List (Outcome (List UInt8 × Outcome (List Char))) → Outcome (Option (List Char))
  | [] => .ok none
  | attr :: rest => do
    let (key, value) ← attr.mapErr fun e => "AppxBlockMap.xml attribute parse failed: " ++ e
    if key = name then do
      let value ← value.mapErr fun e => "AppxBlockMap.xml attribute decode failed: " ++ e
      return some value
    else xmlAttrFrom name rest

/-- `xml_attr`. -/
def xmlAttr (e : Element) (name : List UInt8) : Outcome (Option (List Char)) :=
  xmlAttrFrom name e.attributes

/-- `required_xml_attr`. -/
def requiredXmlAttr (e : Element) (name : List UInt8) : Outcome (List Char) := do
  let value ← xmlAttr e name
  Outcome.ofOption value
    ("AppxBlockMap.xml `" ++ nameText e.localName ++ "` element missing `" ++ nameText name ++
      "` attribute")

/-- `str::parse::<u64>`. -/
def parseU64 (s : List Char) : Option Nat :=
  let digits : List Char := match s with
    | '+' :: rest => rest
    | _ => s
  let n : Nat := digits.foldl (fun n c => n * 10 + (c.toNat - 48)) 0
  if digits ≠ [] ∧ digits.all Char.isDigit ∧ n < 2 ^ 64 then some n else none

/-- `optional_u64_xml_attr`. -/
def optionalU64XmlAttr (e : Element) (name : List UInt8) : Outcome (Option Nat) := do
  match ← xmlAttr e name with
  | none => return none
  | some value => do
    let n ← Outcome.ofOption (parseU64 value)
      ("AppxBlockMap.xml `" ++ nameText e.localName ++ "` element has invalid `" ++
        nameText name ++ "` value")
    return some n

/-! ## The block map -/

/-- `HASH_SHA256`. -/
def hashSha256 : List Char := "http://www.w3.org/2001/04/xmlenc#sha256".toList

/-- `HASH_SHA384`. -/
def hashSha384 : List Char := "http://www.w3.org/2001/04/xmldsig-more#sha384".toList

/-- `HASH_SHA512`. -/
def hashSha512 : List Char := "http://www.w3.org/2001/04/xmlenc#sha512".toList

/-- `hash_kind_from_block_map_uri`. -/
def hashKindFromBlockMapUri (uri : List Char) : Outcome PeAuthenticodeHashKind :=
  let uri := trim uri
  if uri = hashSha256 then .ok .sha256
  else if uri = hashSha384 then .ok .sha384
  else if uri = hashSha512 then .ok .sha512
  else Outcome.bail
    ("unsupported AppxBlockMap HashMethod URI `" ++ String.ofList uri ++
      "` (expected SHA256/384/512 URIs)")

/-- `AppxBlockMapBlock`. -/
structure AppxBlockMapBlock where
  hash : List UInt8
  compressedSize : Option Nat
  deriving DecidableEq, Repr

/-- `AppxBlockMapFile`. -/
structure AppxBlockMapFile where
  name : List Char
  normalizedName : List Char
  declaredSize : Nat
  lfhSize : Option Nat
  blocks : List AppxBlockMapBlock
  fileHash : Option (List UInt8)
  deriving DecidableEq, Repr

/-- The variables of the loop of `parse_block_map_xml`. -/
structure BlockMapState where
  kind : Option PeAuthenticodeHashKind
  files : List AppxBlockMapFile
  current : Option AppxBlockMapFile
  seenNames : List (List Char)
  inBlockMap : Bool

/-- The `BlockMap` root, opened or empty. -/
def blockMapRoot (opens : Bool) (state : BlockMapState) (e : Element) : Outcome BlockMapState := do
  Outcome.guardThat state.kind.isNone "duplicate AppxBlockMap.xml BlockMap root"
  let hashMethod ← requiredXmlAttr e (asciiBytes "HashMethod")
  let kind ← hashKindFromBlockMapUri hashMethod
  return { state with kind := some kind, inBlockMap := opens || state.inBlockMap }

/-- The attributes of a `File` element. -/
def blockMapFile (state : BlockMapState) (e : Element) : Outcome AppxBlockMapFile := do
  let name ← requiredXmlAttr e (asciiBytes "Name")
  let normalizedName ← normalizeAppxPartName name
  Outcome.guardThat (normalizedName ∉ state.seenNames)
    ("duplicate AppxBlockMap.xml File entry `" ++ String.ofList name ++ "`")
  let size ← requiredXmlAttr e (asciiBytes "Size")
  let declaredSize ← Outcome.ofOption (parseU64 size)
    ("AppxBlockMap.xml File `" ++ String.ofList name ++ "` has invalid Size")
  let lfhSize ← optionalU64XmlAttr e (asciiBytes "LfhSize")
  return ⟨name, normalizedName, declaredSize, lfhSize, [], none⟩

variable (base64 : Base64Engine)

/-- A `Block` or `FileHash` element; no other element may follow. -/
def blockMapLeaf (state : BlockMapState) (e : Element) : Outcome BlockMapState :=
  if e.localName = asciiBytes "Block" then do
    let file ← Outcome.ofOption state.current "AppxBlockMap.xml Block outside File"
    let encoded ← requiredXmlAttr e (asciiBytes "Hash")
    let hash ← (base64.decode encoded).mapErr fun e =>
      "AppxBlockMap.xml Block Hash is not base64: " ++ e
    let compressedSize ← optionalU64XmlAttr e (asciiBytes "Size")
    return { state with current := some { file with blocks := file.blocks ++ [⟨hash, compressedSize⟩] } }
  else if e.localName = asciiBytes "FileHash" then do
    let file ← Outcome.ofOption state.current "AppxBlockMap.xml FileHash outside File"
    Outcome.guardThat file.fileHash.isNone
      ("AppxBlockMap.xml File `" ++ String.ofList file.name ++ "` has duplicate FileHash elements")
    let encoded ← requiredXmlAttr e (asciiBytes "Hash")
    let hash ← (base64.decode encoded).mapErr fun e =>
      "AppxBlockMap.xml FileHash Hash is not base64: " ++ e
    return { state with current := some { file with fileHash := some hash } }
  else Outcome.bail ("unexpected AppxBlockMap.xml element `" ++ nameText e.localName ++ "`")

/-- One event of `parse_block_map_xml`. -/
def blockMapStep (state : BlockMapState) (event : Event) : Outcome BlockMapState :=
  match event with
  | .start e =>
    if e.localName = asciiBytes "BlockMap" then blockMapRoot true state e
    else if e.localName = asciiBytes "File" then do
      Outcome.guardThat state.inBlockMap "AppxBlockMap.xml File outside BlockMap"
      Outcome.guardThat state.current.isNone "nested AppxBlockMap.xml File elements are invalid"
      let file ← blockMapFile state e
      return { state with current := some file, seenNames := file.normalizedName :: state.seenNames }
    else blockMapLeaf base64 state e
  | .empty e =>
    if e.localName = asciiBytes "BlockMap" then blockMapRoot false state e
    else if e.localName = asciiBytes "File" then do
      Outcome.guardThat state.inBlockMap "AppxBlockMap.xml File outside BlockMap"
      let file ← blockMapFile state e
      return { state with
        files := state.files ++ [file], seenNames := file.normalizedName :: state.seenNames }
    else blockMapLeaf base64 state e
  | .close localName =>
    if localName = asciiBytes "BlockMap" then do
      Outcome.guardThat state.current.isNone "AppxBlockMap.xml BlockMap ended inside File"
      return { state with inBlockMap := false }
    else if localName = asciiBytes "File" then do
      let file ← Outcome.ofOption state.current "AppxBlockMap.xml unexpected File end"
      return { state with files := state.files ++ [file], current := none }
    else .ok state
  | .text _ | .other => .ok state

/-- The loop of `parse_block_map_xml`. -/
def blockMapEvents : List (Outcome Event) → BlockMapState → Outcome BlockMapState
  | [], state => .ok state
  | event :: rest, state => do
    let event ← event.mapErr fun e => "AppxBlockMap.xml parse failed: " ++ e
    let state ← blockMapStep base64 state event
    blockMapEvents rest state

/-- The lengths of the hashes of a file. -/
def checkHashLengths (expectedLen : Nat) (file : AppxBlockMapFile) : Outcome Unit := do
  file.fileHash.forM fun fileHash =>
    Outcome.guardThat (fileHash.length = expectedLen)
      ("AppxBlockMap.xml File `" ++ String.ofList file.name ++ "` has " ++
        toString fileHash.length ++ "-byte FileHash, expected " ++ toString expectedLen)
  file.blocks.forM fun block =>
    Outcome.guardThat (block.hash.length = expectedLen)
      ("AppxBlockMap.xml File `" ++ String.ofList file.name ++ "` has " ++
        toString block.hash.length ++ "-byte block hash, expected " ++ toString expectedLen)

/-- `parse_block_map_xml`. -/
def parseBlockMapXml (reader : XmlReader) (xml : List UInt8) :
    Outcome (PeAuthenticodeHashKind × List AppxBlockMapFile) := do
  let state ← blockMapEvents base64 (reader xml) ⟨none, [], none, [], false⟩
  Outcome.guardThat state.current.isNone "unterminated AppxBlockMap.xml File element"
  let kind ← Outcome.ofOption state.kind "AppxBlockMap.xml missing HashMethod"
  state.files.forM (checkHashLengths kind.digestOutputLen)
  return (kind, state.files)

/-! ## The content types -/

/-- `AppxContentTypes`. -/
structure AppxContentTypes where
  defaults : List (List Char × List Char)
  overrides : List (List Char × List Char)
  deriving DecidableEq, Repr

/-- The variables of the loop of `validate_content_types_xml`. -/
structure ContentTypesState where
  inTypes : Bool
  sawTypes : Bool
  contentTypes : AppxContentTypes

/-- The `Types` root, opened or empty. -/
def contentTypesRoot (opens : Bool) (state : ContentTypesState) : Outcome ContentTypesState := do
  Outcome.guardThat (state.sawTypes = false) "duplicate [Content_Types].xml Types root"
  return { state with sawTypes := true, inTypes := opens || state.inTypes }

/-- A `Default` element. -/
def contentTypesDefault (state : ContentTypesState) (e : Element) : Outcome ContentTypesState := do
  Outcome.guardThat state.inTypes "[Content_Types].xml Default outside Types"
  let ext ← requiredXmlAttr e (asciiBytes "Extension")
  let contentType ← requiredXmlAttr e (asciiBytes "ContentType")
  Outcome.guardThat (ext ≠ [] ∧ '/' ∉ ext ∧ '\\' ∉ ext)
    ("[Content_Types].xml Default has invalid Extension `" ++ String.ofList ext ++ "`")
  Outcome.guardThat (contentType ≠ [])
    ("[Content_Types].xml Default `" ++ String.ofList ext ++ "` has empty ContentType")
  let key := toAsciiLowercase ext
  let defaults := state.contentTypes.defaults
  Outcome.guardThat (defaults.lookup key).isNone
    ("duplicate [Content_Types].xml Default for extension `" ++ String.ofList ext ++ "`")
  return { state with
    contentTypes := { state.contentTypes with defaults := (key, contentType) :: defaults } }

/-- An `Override` element. -/
def contentTypesOverride (state : ContentTypesState) (e : Element) : Outcome ContentTypesState := do
  Outcome.guardThat state.inTypes "[Content_Types].xml Override outside Types"
  let partName ← requiredXmlAttr e (asciiBytes "PartName")
  let contentType ← requiredXmlAttr e (asciiBytes "ContentType")
  Outcome.guardThat (partName.head? = some '/')
    ("[Content_Types].xml Override PartName `" ++ String.ofList partName ++ "` is not absolute")
  Outcome.guardThat (contentType ≠ [])
    ("[Content_Types].xml Override `" ++ String.ofList partName ++ "` has empty ContentType")
  let normalized ← normalizeAppxPartName (partName.drop 1)
  let key := toAsciiLowercase normalized
  let overrides := state.contentTypes.overrides
  Outcome.guardThat (overrides.lookup key).isNone
    ("duplicate [Content_Types].xml Override for part `" ++ String.ofList partName ++ "`")
  return { state with
    contentTypes := { state.contentTypes with overrides := (key, contentType) :: overrides } }

/-- A `Default` or `Override` element; no other element may follow. -/
def contentTypesLeaf (state : ContentTypesState) (e : Element) : Outcome ContentTypesState :=
  if e.localName = asciiBytes "Default" then contentTypesDefault state e
  else if e.localName = asciiBytes "Override" then contentTypesOverride state e
  else Outcome.bail ("unexpected [Content_Types].xml element `" ++ nameText e.localName ++ "`")

/-- One event of `validate_content_types_xml`. -/
def contentTypesStep (state : ContentTypesState) (event : Event) : Outcome ContentTypesState :=
  match event with
  | .start e =>
    if e.localName = asciiBytes "Types" then contentTypesRoot true state
    else contentTypesLeaf state e
  | .empty e =>
    if e.localName = asciiBytes "Types" then contentTypesRoot false state
    else contentTypesLeaf state e
  | .close localName =>
    if localName = asciiBytes "Types" then .ok { state with inTypes := false } else .ok state
  | .text decoded => do
    let text ← decoded.mapErr fun e => "[Content_Types].xml text decode failed: " ++ e
    Outcome.guardThat (trim text = []) "[Content_Types].xml contains non-whitespace text"
    return state
  | .other => .ok state

/-- The loop of `validate_content_types_xml`. -/
def contentTypesEvents : List (Outcome Event) → ContentTypesState → Outcome ContentTypesState
  | [], state => .ok state
  | event :: rest, state => do
    let event ← event.mapErr fun e => "[Content_Types].xml parse failed: " ++ e
    let state ← contentTypesStep state event
    contentTypesEvents rest state

/-- `validate_content_types_xml`. -/
def validateContentTypesXml (reader : XmlReader) (xml : List UInt8) : Outcome AppxContentTypes := do
  let state ← contentTypesEvents (reader xml) ⟨false, false, ⟨[], []⟩⟩
  Outcome.guardThat state.sawTypes "[Content_Types].xml missing Types root"
  Outcome.guardThat (state.inTypes = false) "unterminated [Content_Types].xml Types root"
  return state.contentTypes

/-- `content_type_for_part`. -/
def contentTypeForPart (contentTypes : AppxContentTypes) (part : List Char) :
    Option (List Char) := do
  let normalized ← (normalizeAppxPartName part).toOption
  match contentTypes.overrides.lookup (toAsciiLowercase normalized) with
  | some contentType => some contentType
  | none => do
    let (_, ext) ← rsplitOnce '.' normalized
    contentTypes.defaults.lookup (toAsciiLowercase ext)

/-- `require_content_type`. -/
def requireContentType (contentTypes : AppxContentTypes) (part : List UInt8) (expected : String) :
    Outcome Unit := do
  let part := asciiPart part
  let actual ← Outcome.ofOption (contentTypeForPart contentTypes part)
    ("[Content_Types].xml does not declare a content type for `" ++ String.ofList part ++ "`")
  Outcome.guardThat (EqIgnoreAsciiCase actual expected.toList)
    ("[Content_Types].xml content type for `" ++ String.ofList part ++ "` is `" ++
      String.ofList actual ++ "`, expected `" ++ expected ++ "`")

/-- `validate_reserved_content_types`. -/
def validateReservedContentTypes (contentTypes : AppxContentTypes)
    (inventory : AppxPackageInventory) (ext : List Char) : Outcome Unit := do
  requireContentType contentTypes blockMap "application/vnd.ms-appx.blockmap+xml"
  requireContentType contentTypes appSignature "application/vnd.ms-appx.signature"
  if inventory.hasCodeIntegrity then
    requireContentType contentTypes codeIntegrity "application/vnd.ms-pkiseccat"
  if isBundleExtension ext then
    requireContentType contentTypes bundleManifest "application/vnd.ms-appx.bundlemanifest+xml"
  else
    requireContentType contentTypes appManifest "application/vnd.ms-appx.manifest+xml"

end Psign.Sip.Appx
