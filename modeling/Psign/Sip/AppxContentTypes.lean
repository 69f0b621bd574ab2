import Psign.CodeLib.SortedMap
import Psign.Sip.AppxXml

/-!
# The content types of a package that is staged for signing

`appx_content_types_for_signing` writes a `[Content_Types].xml` for the parts of a
package.  It keeps the types that an existing file declares, adds makeappx-style ones,
forces the type of the manifest, and adds the parts that signing needs.

The existing file is read by `validate_content_types_xml`, so its hash maps are
association lists; the ordered map of the defaults is a list in the order of its keys.
`stagePart` is one round of the loop over the parts: the defaults behind it, and the type
of the override that it pushes.
-/

namespace Psign.Sip.Appx

open CodeLib CodeLib.RustStr

/-! ## Types -/

/-- `CONTENT_TYPE_MANIFEST`. -/
def contentTypeManifest : List Char :=
  "application/".toList ++ "vnd.ms-appx.manifest+xml".toList

/-- `CONTENT_TYPE_BUNDLE_MANIFEST`. -/
def contentTypeBundleManifest : List Char :=
  "application/".toList ++ "vnd.ms-appx.bundlemanifest+xml".toList

/-- `CONTENT_TYPE_BLOCK_MAP`. -/
def contentTypeBlockMap : List Char :=
  "application/".toList ++ "vnd.ms-appx.blockmap+xml".toList

/-- `CONTENT_TYPE_SIGNATURE`. -/
def contentTypeSignature : List Char :=
  "application/".toList ++ "vnd.ms-appx.signature".toList

/-- The type of parts without an extension. -/
def contentTypeOctets : List Char := "application/".toList ++ "octet-stream".toList

/-- The extensions that `default_content_type_for_extension` knows. -/
def knownContentTypes : List (String × List Char) :=
  [("xml", contentTypeManifest), ("png", "image/png".toList), ("jpg", "image/jpeg".toList),
    ("jpeg", "image/jpeg".toList), ("gif", "image/gif".toList), ("bmp", "image/bmp".toList),
    ("ico", "image/vnd.microsoft.icon".toList), ("svg", "image/svg+xml".toList),
    ("exe", "application/".toList ++ "x-msdownload".toList),
    ("dll", "application/".toList ++ "x-msdownload".toList),
    ("sys", "application/".toList ++ "x-msdownload".toList),
    ("json", "application/json".toList), ("txt", "text/plain".toList),
    ("htm", "text/html".toList), ("html", "text/html".toList), ("css", "text/css".toList),
    ("js", "application/".toList ++ "javascript".toList),
    ("cat", "application/".toList ++ "vnd.ms-pkiseccat".toList),
    ("appx", "application/".toList ++ "vnd.ms-appx".toList), ("msix", "application/msix".toList),
    ("appxbundle", "application/".toList ++ "vnd.ms-appx.bundle".toList),
    ("msixbundle", "application/".toList ++ "msixbundle".toList)]

/-- `default_content_type_for_extension`. -/
def defaultContentTypeForExtension (ext : List Char) : List Char :=
  match knownContentTypes.find? fun entry => entry.1.toList = ext with
  | some (_, contentType) => contentType
  | none => contentTypeOctets

/-! ## The parts -/

/-- The manifest of a package or of a bundle. -/
def manifestPart (bundle : Bool) : List Char :=
  asciiPart (if bundle then bundleManifest else appManifest)

/-- The type that the manifest is forced to. -/
def manifestType (bundle : Bool) : List Char :=
  if bundle then contentTypeBundleManifest else contentTypeManifest

/-- The extension of the last path component in lower case, empty if it has none. -/
def leafExtension (normalized : List Char) : List Char :=
  let leaf := ((split '/' normalized).getLast?).getD []
  ((rsplitOnce '.' leaf).map fun (_, ext) => toAsciiLowercase ext).getD []

/-- `input_overrides.get`. -/
def explicitType (given : AppxContentTypes) (normalized : List Char) : Option (List Char) :=
  given.overrides.lookup (toAsciiLowercase normalized)

/-- Add a default unless there is one, `entry(..).or_insert`. -/
def orInsert (defaults : SortedMap.Map (List Char) (List Char)) (ext contentType : List Char) :
    SortedMap.Map (List Char) (List Char) :=
  if (SortedMap.get defaults ext).isSome then defaults
  else SortedMap.insert defaults ext contentType

/-- The type is the one of the manifest. -/
def isManifestType (bundle : Bool) (contentType : List Char) : Bool :=
  decide (EqIgnoreAsciiCase contentType (manifestType bundle))

/-- One part of the loop: the defaults behind it, and the type of its override. -/
def stagePart (given : AppxContentTypes) (bundle : Bool)
    (defaults : SortedMap.Map (List Char) (List Char)) (normalized : List Char) :
    SortedMap.Map (List Char) (List Char) × Option (List Char) :=
  let ext := leafExtension normalized
  let explicit := explicitType given normalized
  if EqIgnoreAsciiCase normalized (manifestPart bundle) then
    let defaults :=
      if explicit.isNone ∧ ext ≠ [] then orInsert defaults ext (manifestType bundle) else defaults
    let resolved := explicit.or (SortedMap.get defaults ext)
    if resolved.any (isManifestType bundle) then (defaults, none)
    else (defaults, some (manifestType bundle))
  else
    match explicit with
    | some contentType => (defaults, some contentType)
    | none =>
      if ext = [] then (defaults, some contentTypeOctets)
      else (orInsert defaults ext (defaultContentTypeForExtension ext), none)

/-- The loop of `appx_content_types_for_signing` over the parts. -/
def stageParts (given : AppxContentTypes) (bundle : Bool) :
    List (List Char) → SortedMap.Map (List Char) (List Char) → Outcome AppxContentTypes
  | [], defaults => .ok ⟨defaults, []⟩
  | part :: rest, defaults => do
    let normalized ← normalizeAppxPartName part
    let (defaults, own) := stagePart given bundle defaults normalized
    let staged ← stageParts given bundle rest defaults
    let own := own.toList.map fun contentType => (normalized, contentType)
    return { staged with overrides := own ++ staged.overrides }

/-- The declarations of the existing file; none without one. -/
def givenContentTypes (reader : XmlReader) (existing : Option (List UInt8)) :
    Outcome AppxContentTypes :=
  match existing with
  | some xml => validateContentTypesXml reader xml
  | none => .ok ⟨[], []⟩

/-- What `appx_content_types_for_signing` writes down. -/
def stageContentTypes (reader : XmlReader) (existing : Option (List UInt8))
    (parts : List (List Char)) (bundle : Bool) : Outcome AppxContentTypes := do
  let given ← givenContentTypes reader existing
  let staged ← stageParts given bundle parts (SortedMap.insertAll [] given.defaults)
  return { staged with
    overrides := staged.overrides ++
      [(asciiPart blockMap, contentTypeBlockMap), (asciiPart appSignature, contentTypeSignature)] }

/-! ## The text -/

/-- `escape`. -/
def escape (value : List Char) : List Char :=
  replace ['>'] "&gt;".toList (replace ['<'] "&lt;".toList
    (replace ['"'] "&quot;".toList (replace ['&'] "&amp;".toList value)))

/-- A `Default` element. -/
def writeDefault (entry : List Char × List Char) : List Char :=
  "<Default Extension=\"".toList ++ escape entry.1 ++ "\" ContentType=\"".toList ++
    escape entry.2 ++ "\"/>".toList

/-- An `Override` element. -/
def writeOverride (entry : List Char × List Char) : List Char :=
  "<Override PartName=\"/".toList ++ escape entry.1 ++ "\" ContentType=\"".toList ++
    escape entry.2 ++ "\"/>".toList

/-- The namespace of the content types. -/
def contentTypesNs : List Char :=
  "http://schemas.openxmlformats.org/".toList ++ "package/2006/content-types".toList

/-- The text of the file. -/
def writeContentTypes (types : AppxContentTypes) : List Char :=
  "<?xml version=\"1.0\" encoding=\"UTF-8\"".toList ++ " standalone=\"yes\"?>\n".toList ++
    "<Types xmlns=\"".toList ++ contentTypesNs ++ "\">".toList ++
    types.defaults.flatMap writeDefault ++ types.overrides.flatMap writeOverride ++
    "</Types>".toList

/-- `appx_content_types_for_signing`. -/
def appxContentTypesForSigning (reader : XmlReader) (existing : Option (List UInt8))
    (parts : List (List Char)) (bundle : Bool) : Outcome (List Char) := do
  let staged ← stageContentTypes reader existing parts bundle
  return writeContentTypes staged

/-- An attribute that a reader reports. -/
def readAttr (name : String) (value : List Char) : Outcome (List UInt8 × Outcome (List Char)) :=
  .ok (asciiBytes name, .ok value)

/-- The events that a reader reports of the text; white space between tags is trimmed. -/
def writtenEvents (types : AppxContentTypes) : List (Outcome Event) :=
  .ok .other :: .ok (.start ⟨asciiBytes "Types", [readAttr "xmlns" contentTypesNs]⟩) ::
    (types.defaults.map (fun entry => .ok (.empty ⟨asciiBytes "Default",
        [readAttr "Extension" entry.1, readAttr "ContentType" entry.2]⟩)) ++
      types.overrides.map (fun entry => .ok (.empty ⟨asciiBytes "Override",
        [readAttr "PartName" ('/' :: entry.1), readAttr "ContentType" entry.2]⟩)) ++
      [.ok (.close (asciiBytes "Types"))])

end Psign.Sip.Appx
