import Psign.CodeLib.Outcome
import Psign.CodeLib.RustStr
import Psign.CodeLib.Unicode

/-!
# Formats and patterns of `code`

`code.rs`: the format of an input is read off its file name, and a file list can
exclude inputs and entries of containers by patterns.  Paths and names are lists of
characters, patterns are compared octet by octet.
-/

namespace Psign.Code

open CodeLib CodeLib.Unicode

/-! ## Formats -/

/-- `CodeFormat`. -/
inductive CodeFormat where
  | pe
  | winmd
  | cab
  | msi
  | msp
  | mst
  | catalog
  | script
  | msix
  | appx
  | msixBundle
  | appxBundle
  | appxUpload
  | msixUpload
  | encryptedMsix
  | nuget
  | snupkg
  | vsix
  | clickOnceApplication
  | vsto
  | manifest
  | deploy
  | appInstaller
  | businessCentralApp
  | zip
  | unknown
  deriving DecidableEq, Repr

/-- `CodeFormat::is_container`. -/
def CodeFormat.isContainer : CodeFormat → Bool
  | nuget | snupkg | vsix | msix | appx | msixBundle | appxBundle | appxUpload | msixUpload
  | zip => true
  | _ => false

/-- The last component of a path, `Path::file_name`. -/
def fileName (path : List Char) : Option (List Char) :=
  let components := (RustStr.split '/' path).filter fun part => part ≠ [] ∧ part ≠ ['.']
  components.getLast?.filter fun last => last ≠ ['.', '.']

/-- `Path::extension`. -/
def extension (path : List Char) : Option (List Char) := do
  let name ← fileName path
  let (before, after) ← RustStr.rsplitOnce '.' name
  if before = [] then none else some after

/-- `is_extension`. -/
def isExtension (path : List Char) (expected : String) : Bool :=
  match extension path with
  | some ext => decide (RustStr.EqIgnoreAsciiCase ext expected.toList)
  | none => false

/-- The extensions that `detect_format` knows. -/
def knownExtensions : List (String × CodeFormat) :=
  [("exe", .pe), ("dll", .pe), ("sys", .pe), ("ocx", .pe), ("efi", .pe), ("scr", .pe),
    ("cpl", .pe), ("mui", .pe), ("winmd", .winmd), ("cab", .cab), ("msi", .msi), ("msp", .msp),
    ("mst", .mst), ("cat", .catalog), ("ps1", .script), ("psd1", .script), ("psm1", .script),
    ("ps1xml", .script), ("psc1", .script), ("cdxml", .script), ("mof", .script), ("js", .script),
    ("vbs", .script), ("wsf", .script), ("jse", .script), ("vbe", .script), ("wsc", .script),
    ("msix", .msix), ("appx", .appx), ("msixbundle", .msixBundle), ("appxbundle", .appxBundle),
    ("appxupload", .appxUpload), ("msixupload", .msixUpload), ("eappx", .encryptedMsix),
    ("emsix", .encryptedMsix), ("eappxbundle", .encryptedMsix), ("emsixbundle", .encryptedMsix),
    ("nupkg", .nuget), ("snupkg", .snupkg), ("vsix", .vsix), ("application", .clickOnceApplication),
    ("vsto", .vsto), ("manifest", .manifest), ("deploy", .deploy),
    ("appinstaller", .appInstaller), ("zip", .zip)]

/-- The format of an extension in lower case. -/
def formatOfExtension (ext : List Char) : CodeFormat :=
  match knownExtensions.find? fun entry => entry.1.toList = ext with
  | some (_, format) => format
  | none => .unknown

/-- `NAVX`. -/
def navx : List UInt8 := [0x4E, 0x41, 0x56, 0x58]

/-- `detect_format`. -/
def detectFormat (path : List Char) (bytes : Option (List UInt8)) : CodeFormat :=
  if isExtension path "app" then
    if bytes.any navx.isPrefixOf then .businessCentralApp else .unknown
  else
    match extension path with
    | some ext => formatOfExtension (RustStr.toAsciiLowercase ext)
    | none => .unknown

/-- `signer_for_format`. -/
def signerForFormat : CodeFormat → String
  | .nuget | .snupkg => "nuget-package-native"
  | .vsix => "vsix-opc-xmldsig"
  | .clickOnceApplication | .vsto | .manifest | .deploy => "clickonce-manifest"
  | .encryptedMsix => "msix-encrypted-os-only"
  | .appInstaller => "appinstaller-detached-pkcs7"
  | .businessCentralApp => "business-central-app"
  | .zip => "container-only"
  | .unknown => "unsupported"
  | _ => "authenticode"

/-! ## Names and patterns -/

/-- `normalize_zip_name`. -/
def normalizeZipName (name : List Char) : Outcome (List Char) := do
  Outcome.guardThat (¬ (name = [] ∨ name.head? = some '/' ∨ '\\' ∈ name))
    ("unsafe ZIP entry path: " ++ String.ofList name)
  Outcome.guardThat (¬ ∃ part ∈ RustStr.split '/' name, part = ['.'] ∨ part = ['.', '.'])
    ("unsafe ZIP entry path: " ++ String.ofList name)
  return name

/-- The test accepts the text without some of its front. -/
def anySuffix (test : List UInt8 → Bool) : List UInt8 → Bool
  | [] => test []
  | b :: rest => test (b :: rest) || anySuffix test rest

/-- The test accepts the text without some of its front, up to a slash. -/
def anySuffixWithin (test : List UInt8 → Bool) : List UInt8 → Bool
  | [] => test []
  | b :: rest => test (b :: rest) || (b ≠ 0x2F && anySuffixWithin test rest)

/-- `u8::to_ascii_lowercase`. -/
def asciiLower (b : UInt8) : UInt8 :=
  if 0x41 ≤ b ∧ b ≤ 0x5A then b + 0x20 else b

/-- `glob_match_inner`; what it remembers does not change its result. -/
def globMatchInner : List UInt8 → List UInt8 → Bool
  | [], text => text.isEmpty
  | p :: pattern, text =>
    if p = 0x2A then
      match pattern with
      | p' :: behind =>
        if p' = 0x2A then
          match behind with
          | p'' :: behind' =>
            if p'' = 0x2F then
              anySuffix (fun t => globMatchInner behind' t || globMatchInner (p'' :: behind') t) text
            else anySuffix (globMatchInner (p'' :: behind')) text
          | [] => anySuffix (globMatchInner []) text
        else anySuffixWithin (globMatchInner (p' :: behind)) text
      | [] => anySuffixWithin (globMatchInner []) text
    else
      match text with
      | [] => false
      | b :: rest =>
        if p = 0x3F then b ≠ 0x2F && globMatchInner pattern rest
        else asciiLower p = asciiLower b && globMatchInner pattern rest

/-- `glob_match`. -/
def globMatch (pattern text : List Char) : Bool :=
  globMatchInner (utf8Encode pattern) (utf8Encode text)

/-- `**` crosses directories and `*` does not. -/
example : globMatch "**/*.dll".toList "lib/net8.0/a.dll".toList = true ∧
    globMatch "**/*.dll".toList "a.dll".toList = true ∧
    globMatch "*.dll".toList "lib/net8.0/a.dll".toList = false ∧
    globMatch "lib/net?.0/*.dll".toList "lib/net8.0/a.dll".toList = true := by
  decide +kernel

/-- `replace('!', "/")`. -/
def slashed (display : List Char) : List Char :=
  display.map fun c => if c = '!' then '/' else c

/-- The test of both walks for entries that a pattern excludes. -/
def nestedExcluded (nestedExcludes : List (List Char)) (name display : List Char) : Bool :=
  nestedExcludes.any fun pattern => globMatch pattern name || globMatch pattern (slashed display)

end Psign.Code
