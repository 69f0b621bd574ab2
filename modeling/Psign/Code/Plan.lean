import Psign.CodeLib.Traversal
import Psign.Code.Format
import Mathlib.Data.List.Sort

/-!
# The plan of `code`

`build_code_plan` lists what a run is about to sign: the selected files, and the
entries of their archives where containers are recursed into.  Every input gets a
node with the text that it is displayed as, `container!entry` for an entry, and an
edge from an entry says that it comes before its container.

The selection of the files is a parameter, with the contents that the file system
has for them, and so is the reader of ZIP archives.  Archives can hold themselves,
so the walk takes fuel.  `addNodeFromReader_eq_visit` shows the builder to be a depth
first numbering with the displayed texts as keys.
-/

namespace Psign.Code

open CodeLib CodeLib.Traversal

/-! ## Inputs -/

/-- An entry of a ZIP archive; its data may not be readable. -/
structure ZipEntry where
  name : List Char
  compression : ℕ
  content : Outcome (List UInt8)
  deriving DecidableEq

/-- `ZipFile::is_dir`. -/
def ZipEntry.isDir (entry : ZipEntry) : Bool :=
  entry.name.getLast? = some '/' ∨ entry.name.getLast? = some '\\'

/-- What `code` uses of the `zip` crate. -/
structure ZipCrate where
  /-- `ZipArchive::new`, and `by_index` for every index. -/
  entries : List UInt8 → Outcome (List (Outcome ZipEntry))

/-- The options that the plan depends on. -/
structure CodeArgs where
  recurseContainers : Bool
  maxConcurrency : Option ℕ
  timestampUrl : Option (List Char)
  timestampDigest : Option (List Char)
  output : Option (List Char)
  /-- `is_output_directory_target` of the output. -/
  outputIsDirectory : Bool
  /-- The patterns of the exclude rules. -/
  nestedExcludes : List (List Char)

/-- A selected file: the components of its path below the base directory, and what
reading it gives. -/
structure SelectedFile where
  components : List (List Char)
  content : Outcome (List UInt8)
  deriving DecidableEq

/-- What `add_node_from_reader` is called with: a file, or an entry that was read. -/
structure PlanInput where
  path : List Char
  display : List Char
  outputDisplay : List Char
  depth : ℕ
  /-- Whether the bytes are passed, or to be read from the file. -/
  inMemory : Bool
  content : Outcome (List UInt8)
  deriving DecidableEq

/-- The format of an input; a file is read only if the name does not settle it. -/
def PlanInput.format (input : PlanInput) : Outcome CodeFormat :=
  if input.inMemory then do
    let bytes ← input.content
    return detectFormat input.path (some bytes)
  else if isExtension input.path "app" then do
    let bytes ← input.content
    return detectFormat input.path (some (bytes.take 4))
  else .ok (detectFormat input.path none)

/-! ## Displayed texts -/

/-- `normalize_match_path`. -/
def normalizeMatchPath (components : List (List Char)) : List Char :=
  List.intercalate ['/'] (components.map fun part => part.map fun c => if c = '\\' then '/' else c)

/-- `normalize_output_display`. -/
def normalizeOutputDisplay (path : List Char) : List Char :=
  path.map fun c => if c = '\\' then '/' else c

/-- `join_display_path`. -/
def joinDisplayPath (base rel : List Char) : List Char :=
  if base = [] then rel
  else if base.getLast? = some '/' then base ++ rel
  else base ++ '/' :: rel

/-- `PlanBuilder::top_level_output_path`. -/
def topLevelOutputPath (args : CodeArgs) (topLevelCount : ℕ) (display : List Char) : List Char :=
  match args.output with
  | none => display
  | some output =>
    if topLevelCount = 1 ∧ args.outputIsDirectory = false then normalizeOutputDisplay output
    else joinDisplayPath (normalizeOutputDisplay output) display

/-- The display of an entry: `container!name`. -/
def nestedDisplay (container name : List Char) : List Char :=
  container ++ '!' :: name

/-! ## The builder -/

/-- `CodePlanNode`. -/
structure CodePlanNode where
  id : ℕ
  path : List Char
  outputPath : List Char
  format : CodeFormat
  depth : ℕ
  container : Bool
  signer : String
  deriving DecidableEq, Repr

/-- `PlanBuilder`; what its methods only read is in the arguments. -/
abbrev PlanBuilder := Traversal.Graph (List Char) CodePlanNode

/-- The node that is pushed for an input. -/
def codePlanNode (id : ℕ) (input : PlanInput) (format : CodeFormat) : CodePlanNode :=
  ⟨id, input.display, input.outputDisplay, format, input.depth, format.isContainer,
    signerForFormat format⟩

variable (zip : ZipCrate) (args : CodeArgs)

/-- The loop of `inspect_zip_entries`. -/
def inspectEntries (container containerOutput : List Char) (depth : ℕ) :
    List (Outcome ZipEntry) → Outcome (List PlanInput)
  | [] => .ok []
  | entry :: rest => do
    let file ← entry
    if file.isDir then inspectEntries container containerOutput depth rest
    else
      let name ← normalizeZipName file.name
      let display := nestedDisplay container name
      if nestedExcluded args.nestedExcludes name display then
        inspectEntries container containerOutput depth rest
      else if detectFormat name none = .unknown then
        inspectEntries container containerOutput depth rest
      else
        let bytes ← file.content
        let others ← inspectEntries container containerOutput depth rest
        return ⟨display, display, nestedDisplay containerOutput name, depth, true, .ok bytes⟩ :: others

/-- `PlanBuilder::inspect_zip_entries`. -/
def inspectZipEntries (bytes : List UInt8) (container containerOutput : List Char) (depth : ℕ) :
    Outcome (List PlanInput) := do
  let entries ← (zip.entries bytes).context ("open ZIP container " ++ String.ofList container)
  let found ← inspectEntries args container containerOutput depth entries
  return found.insertionSort fun a b => ¬ b.display < a.display

/-- What `add_node_from_reader` inspects an input for. -/
def nestedInputs (input : PlanInput) (format : CodeFormat) : Outcome (List PlanInput) :=
  if args.recurseContainers ∧ format.isContainer = true then do
    let bytes ← input.content.context ("open " ++ String.ofList input.path)
    inspectZipEntries zip args bytes input.display input.outputDisplay (input.depth + 1)
  else .ok []

/-- The loop of `add_node_from_reader` over the entries of a container. -/
def addNested (add : PlanBuilder → PlanInput → Outcome (PlanBuilder × ℕ)) (id : ℕ) :
    List PlanInput → PlanBuilder → Outcome PlanBuilder
  | [], builder => .ok builder
  | entry :: rest, builder => do
    let (builder, child) ← add builder entry
    addNested add id rest (builder.link ⟨child, id⟩)

/-- `PlanBuilder::add_node_from_reader`. -/
def addNodeFromReader : ℕ → PlanBuilder → PlanInput → Outcome (PlanBuilder × ℕ)
  | 0, _, _ => .error .outOfFuel
  | fuel + 1, builder, input =>
    match builder.idOf input.display with
    | some id => .ok (builder, id)
    | none => do
      let format ← input.format
      let id := builder.nodes.length
      let builder := builder.push input.display (codePlanNode id input format)
      let nested ← nestedInputs zip args input format
      let builder ← addNested (addNodeFromReader fuel) id nested builder
      return (builder, id)

/-- `PlanBuilder::add_path`, up to the call of `add_node_from_reader`. -/
def topLevelInput (topLevelCount : ℕ) (file : SelectedFile) : PlanInput :=
  let display := normalizeMatchPath file.components
  ⟨List.intercalate ['/'] file.components, display, topLevelOutputPath args topLevelCount display, 0,
    false, file.content⟩

/-- The inputs that the files are added as. -/
def topLevelInputs (selected : List SelectedFile) : List PlanInput :=
  selected.map (topLevelInput args selected.length)

/-- The loop of `build_code_plan` over the selected files. -/
def addPaths (fuel : ℕ) : List PlanInput → PlanBuilder → Outcome PlanBuilder
  | [], builder => .ok builder
  | input :: rest, builder => do
    let (builder, _) ← addNodeFromReader zip args fuel builder input
    addPaths fuel rest builder

/-- The nodes and edges of `CodePlan`, and the options that are copied into it. -/
structure CodePlan where
  recurseContainers : Bool
  nodes : List CodePlanNode
  edges : List Edge
  deriving DecidableEq

/-- `build_code_plan`, for files that were selected. -/
def buildCodePlan (fuel : ℕ) (selected : List SelectedFile) : Outcome CodePlan := do
  Outcome.guardThat (args.maxConcurrency ≠ some 0) "--max-concurrency must be greater than zero"
  Outcome.guardThat (¬ (args.timestampUrl.isSome ∧ args.timestampDigest.isNone))
    "`psign-tool code` requires --timestamp-digest with --timestamp-url"
  Outcome.guardThat (¬ (args.timestampUrl.isNone ∧ args.timestampDigest.isSome))
    "`psign-tool code` requires --timestamp-url with --timestamp-digest"
  let builder ← addPaths zip args fuel (topLevelInputs args selected) .empty
  return ⟨args.recurseContainers, builder.nodes, builder.edges⟩

/-! ## The builder numbers inputs by their displayed texts -/

/-- The numbering that the builder carries out. -/
def planRules : Rules PlanInput (List Char) CodePlanNode where
  key input := input.display
  node id input := do
    let format ← input.format
    return codePlanNode id input format
  children input := do
    let format ← input.format
    nestedInputs zip args input format

variable {zip args}

theorem addNodeFromReader_eq_visit (fuel : ℕ) (builder : PlanBuilder) (input : PlanInput) :
    addNodeFromReader zip args fuel builder input =
      (planRules zip args).visit fuel builder input := by
  induction fuel generalizing builder input with
  | zero => rfl
  | succ fuel ih =>
    have hnested : ∀ (id : ℕ) (nested : List PlanInput) (b : PlanBuilder),
        addNested (addNodeFromReader zip args fuel) id nested b =
          visitAll ((planRules zip args).visit fuel) id nested b := by
      intro id nested
      induction nested with
      | nil => exact fun b => rfl
      | cons entry rest ihRest =>
        intro b
        simp only [addNested, visitAll, ih, ihRest]
    rw [addNodeFromReader, Rules.visit]
    have hkey : (planRules zip args).key input = input.display := rfl
    rw [hkey]
    cases builder.idOf input.display with
    | some id => rfl
    | none =>
      cases hformat : input.format with
      | error failure => simp only [planRules, hformat]; rfl
      | ok format => simp only [planRules, hformat, hnested]; rfl

theorem addPaths_eq_visitRoots (fuel : ℕ) (inputs : List PlanInput) (builder : PlanBuilder) :
    addPaths zip args fuel inputs builder =
      (planRules zip args).visitRoots fuel inputs builder := by
  induction inputs generalizing builder with
  | nil => rfl
  | cons input rest ih => simp only [addPaths, Rules.visitRoots, addNodeFromReader_eq_visit, ih]

end Psign.Code
