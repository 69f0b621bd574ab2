import Psign.Code.Plan

/-!
# The execution of a plan

`execute_code_plan` signs the selected files.  For a container it goes through the
archive again, `sign_nested_package_entries`: it signs the entries in place, archives
among them with their own entries first, and writes the archive anew.

What signs a file of a format is a function on bytes, as is the writer of ZIP
archives.  Next to the bytes the model returns which nested entries were replaced by
signed bytes, by the labels that the errors of the code show for them.
-/

namespace Psign.Code

open CodeLib

/-! ## What is called -/

/-- The name of a format, as `{:?}` prints it. -/
def CodeFormat.debug : CodeFormat → String
  | .pe => "Pe"
  | .winmd => "Winmd"
  | .cab => "Cab"
  | .msi => "Msi"
  | .msp => "Msp"
  | .mst => "Mst"
  | .catalog => "Catalog"
  | .script => "Script"
  | .msix => "Msix"
  | .appx => "Appx"
  | .msixBundle => "MsixBundle"
  | .appxBundle => "AppxBundle"
  | .appxUpload => "AppxUpload"
  | .msixUpload => "MsixUpload"
  | .encryptedMsix => "EncryptedMsix"
  | .nuget => "Nuget"
  | .snupkg => "Snupkg"
  | .vsix => "Vsix"
  | .clickOnceApplication => "ClickOnceApplication"
  | .vsto => "Vsto"
  | .manifest => "Manifest"
  | .deploy => "Deploy"
  | .appInstaller => "AppInstaller"
  | .businessCentralApp => "BusinessCentralApp"
  | .zip => "Zip"
  | .unknown => "Unknown"

/-- `PACKAGE_SIGNATURE_FILE_NAME`. -/
def packageSignatureFileName : List Char := ".signature.p7s".toList

variable (tools : CodeTools) (args : CodeArgs) (options : SigningOptions)

variable (nested : NestedSigner)

end Psign.Code
