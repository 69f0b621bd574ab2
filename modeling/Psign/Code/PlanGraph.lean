import Psign.Code.Plan

/-!
# The graph of a plan

What a plan is meant to show: a node for every input, whatever its name is and
however often the name occurs, and one edge from each entry to its container.  Inputs
are told apart by what they are displayed as, so this holds exactly of the selections
in which no two inputs are displayed alike (`plan_graph_iff`).  A name with `!` in it
and a name that an archive lists twice can break it.
-/

namespace Psign.Code

open CodeLib CodeLib.Traversal

/-! ## Entries of a container -/

/-- The input for an entry of a container that is not a directory, not excluded, and
of a known format. -/
def recognisedEntry (args : CodeArgs) (container containerOutput : List Char) (depth : ℕ)
    (entry : Outcome ZipEntry) : Option PlanInput := do
  let file ← entry.toOption
  let display := nestedDisplay container file.name
  let bytes ← file.content.toOption
  if file.isDir = true ∨ nestedExcluded args.nestedExcludes file.name display = true ∨
      detectFormat file.name none = .unknown then none
  else
    some ⟨display, display, nestedDisplay containerOutput file.name, depth, true, .ok bytes⟩

theorem normalizeZipName_eq_ok {name name' : List Char} (h : normalizeZipName name = .ok name') :
    name' = name := by
  simp only [normalizeZipName, Outcome.guardThat_bind_eq_ok, Outcome.pure_eq_ok,
    Except.ok.injEq] at h
  exact h.2.2.symm

variable {zip : ZipCrate} {args : CodeArgs}

theorem inspectEntries_eq_ok {container containerOutput : List Char} {depth : ℕ}
    {entries : List (Outcome ZipEntry)} {found : List PlanInput}
    (h : inspectEntries args container containerOutput depth entries = .ok found) :
    found = entries.filterMap (recognisedEntry args container containerOutput depth) := by
  induction entries generalizing found with
  | nil => exact (Except.ok.inj h).symm
  | cons entry rest ih =>
    rw [inspectEntries, Outcome.bind_eq_ok] at h
    obtain ⟨file, rfl, h⟩ := h
    by_cases hdir : file.isDir = true
    · rw [if_pos hdir] at h
      rw [List.filterMap_cons_none, ih h]
      cases hcontent : file.content <;> simp [recognisedEntry, Outcome.toOption, hdir, hcontent]
    · rw [if_neg hdir] at h
      obtain ⟨name, hname, h⟩ := Outcome.bind_eq_ok.mp h
      obtain rfl := normalizeZipName_eq_ok hname
      by_cases hexcluded : nestedExcluded args.nestedExcludes file.name
          (nestedDisplay container file.name) = true
      · rw [if_pos hexcluded] at h
        rw [List.filterMap_cons_none, ih h]
        cases hcontent : file.content <;>
          simp [recognisedEntry, Outcome.toOption, hexcluded, hcontent]
      · rw [if_neg hexcluded] at h
        by_cases hunknown : detectFormat file.name none = .unknown
        · rw [if_pos hunknown] at h
          rw [List.filterMap_cons_none, ih h]
          cases hcontent : file.content <;>
            simp [recognisedEntry, Outcome.toOption, hunknown, hcontent]
        · rw [if_neg hunknown] at h
          obtain ⟨bytes, hcontent, h⟩ := Outcome.bind_eq_ok.mp h
          obtain ⟨others, hothers, hfound⟩ := Outcome.bind_eq_ok.mp h
          rw [List.filterMap_cons_some, ← ih hothers, ← Except.ok.inj hfound]
          simp [recognisedEntry, Outcome.toOption, hdir, hexcluded, hunknown, hcontent]

/-- The entries that are found are the recognised ones, in some order. -/
theorem inspectZipEntries_eq_ok {bytes : List UInt8} {container containerOutput : List Char}
    {depth : ℕ} {found : List PlanInput}
    (h : inspectZipEntries zip args bytes container containerOutput depth = .ok found) :
    ∃ entries, zip.entries bytes = .ok entries ∧
      found.Perm (entries.filterMap (recognisedEntry args container containerOutput depth)) := by
  simp only [inspectZipEntries, Outcome.bind_eq_ok, Outcome.context_eq_ok, Outcome.pure_eq_ok,
    Except.ok.injEq] at h
  obtain ⟨entries, hentries, listed, hlisted, rfl⟩ := h
  refine ⟨entries, hentries, ?_⟩
  rw [← inspectEntries_eq_ok hlisted]
  exact List.perm_insertionSort _ _

theorem recognisedEntry_eq_some {container containerOutput : List Char} {depth : ℕ}
    {entry : Outcome ZipEntry} {input : PlanInput} :
    recognisedEntry args container containerOutput depth entry = some input ↔
      ∃ file, entry = .ok file ∧ ∃ bytes, file.content = .ok bytes ∧
        ¬ (file.isDir = true ∨ nestedExcluded args.nestedExcludes file.name
            (nestedDisplay container file.name) = true ∨
          detectFormat file.name none = .unknown) ∧
        ⟨nestedDisplay container file.name, nestedDisplay container file.name,
          nestedDisplay containerOutput file.name, depth, true, .ok bytes⟩ = input := by
  simp only [recognisedEntry, Option.bind_eq_bind, Option.bind_eq_some_iff,
    Outcome.toOption_eq_some, Option.ite_none_left_eq_some, Option.some.injEq]

/-- An input has no entries, or those that are recognised in its archive, in some order. -/
theorem perm_of_nestedInputs {input : PlanInput} {format : CodeFormat} {nested : List PlanInput}
    (h : nestedInputs zip args input format = .ok nested) :
    nested = [] ∨ ∃ bytes archive, input.content = .ok bytes ∧ zip.entries bytes = .ok archive ∧
      nested.Perm (archive.filterMap
        (recognisedEntry args input.display input.outputDisplay (input.depth + 1))) := by
  rw [nestedInputs] at h
  by_cases hrecursed : args.recurseContainers ∧ format.isContainer = true
  · rw [if_pos hrecursed] at h
    obtain ⟨bytes, hbytes, hfound⟩ := Outcome.bind_eq_ok.mp h
    obtain ⟨archive, harchive, hperm⟩ := inspectZipEntries_eq_ok hfound
    exact Or.inr ⟨bytes, archive, Outcome.context_eq_ok.mp hbytes, harchive, hperm⟩
  · rw [if_neg hrecursed] at h
    exact Or.inl (Except.ok.inj h).symm

/-- An entry of an input was recognised in its archive. -/
theorem exists_of_mem_nestedInputs {input entry : PlanInput} {format : CodeFormat}
    {nested : List PlanInput} (h : nestedInputs zip args input format = .ok nested)
    (hentry : entry ∈ nested) :
    ∃ bytes archive file, input.content = .ok bytes ∧ zip.entries bytes = .ok archive ∧
      .ok file ∈ archive ∧ entry.display = nestedDisplay input.display file.name ∧
      entry.depth = input.depth + 1 := by
  rcases perm_of_nestedInputs h with rfl | ⟨bytes, archive, hbytes, harchive, hperm⟩
  · exact absurd hentry List.not_mem_nil
  · obtain ⟨_, hmem, hsome⟩ := List.mem_filterMap.mp (hperm.mem_iff.mp hentry)
    obtain ⟨file, rfl, _, -, -, rfl⟩ := recognisedEntry_eq_some.mp hsome
    exact ⟨bytes, archive, file, hbytes, harchive, hmem, rfl, rfl⟩

/-- The entries of a container are one level below it. -/
theorem depth_of_nestedInputs {input : PlanInput} {format : CodeFormat} {nested : List PlanInput}
    (h : nestedInputs zip args input format = .ok nested) :
    ∀ entry ∈ nested, entry.depth = input.depth + 1 := by
  intro entry hentry
  obtain ⟨_, _, _, -, -, -, -, hdepth⟩ := exists_of_mem_nestedInputs h hentry
  exact hdepth

/-! ## What a plan is meant to show -/

variable (zip args)

/-- An input of a selection: a file, or an entry reached through a chain of
containers.  The path gives the position of the entry in its container first. -/
def Reached (selected : List SelectedFile) (path : List ℕ) (input : PlanInput) : Prop :=
  (planRules zip args).Occurs (topLevelInputs args selected) path input

/-- A plan shows all inputs of a selection, listed in the order of the nodes. -/
structure ShowsInputs (selected : List SelectedFile) (plan : CodePlan)
    (inputs : List (List ℕ × PlanInput)) : Prop where
  ids : ∀ {id} {node : CodePlanNode}, plan.nodes[id]? = some node → node.id = id
  distinct : (inputs.map Prod.fst).Nodup
  reached : ∀ {path input}, (path, input) ∈ inputs ↔ Reached zip args selected path input
  /-- Every recognised entry of a recursed container is one of the inputs below it. -/
  entries : ∀ {path container format}, (path, container) ∈ inputs →
    container.format = .ok format → format.isContainer = true → args.recurseContainers = true →
    ∃ bytes archive, ∃ nested : List PlanInput, container.content = .ok bytes ∧
      zip.entries bytes = .ok archive ∧
      nested.Perm (archive.filterMap (recognisedEntry args container.display
        container.outputDisplay (container.depth + 1))) ∧
      ∀ {j : ℕ} {entry}, nested[j]? = some entry → (j :: path, entry) ∈ inputs
  length_nodes : plan.nodes.length = inputs.length
  nodes : ∀ {id path input}, inputs[id]? = some (path, input) →
    ∃ format, input.format = .ok format ∧ plan.nodes[id]? = some (codePlanNode id input format)
  /-- No edge from a file, and one from an entry, to its container. -/
  edges : ∀ {id path input}, inputs[id]? = some (path, input) →
    (path.length = 1 ∧ plan.edges.filter (·.before = id) = []) ∨
    ∃ j above container parent, path = j :: above ∧
      inputs[parent]? = some (above, container) ∧
      plan.edges.filter (·.before = id) = [⟨id, parent⟩]
  depths : ∀ edge ∈ plan.edges, ∃ entry container, plan.nodes[edge.before]? = some entry ∧
    plan.nodes[edge.after]? = some container ∧ entry.depth = container.depth + 1
  insideOut : InsideOut plan.edges

/-- No two inputs are displayed alike. -/
def DisplaysDistinct (selected : List SelectedFile) : Prop :=
  ∀ {path path' input input'}, Reached zip args selected path input →
    Reached zip args selected path' input' → input.display = input'.display → path = path'

variable {zip args}

theorem planRules_node_eq_ok {id : ℕ} {input : PlanInput} {node : CodePlanNode}
    (h : (planRules zip args).node id input = .ok node) :
    ∃ format, input.format = .ok format ∧ node = codePlanNode id input format := by
  obtain ⟨format, hformat, hnode⟩ := Outcome.bind_eq_ok.mp h
  exact ⟨format, hformat, (Except.ok.inj hnode).symm⟩

/-- Whatever is displayed alike, the plan of a selection is the graph of its walk. -/
theorem buildCodePlan_eq_ok {fuel : ℕ} {selected : List SelectedFile} {plan : CodePlan}
    (h : buildCodePlan zip args fuel selected = .ok plan) :
    ∃ builder : PlanBuilder, (planRules zip args).visitRoots fuel (topLevelInputs args selected) .empty =
        .ok builder ∧
      plan.nodes = builder.nodes ∧ plan.edges = builder.edges := by
  simp only [buildCodePlan, Outcome.bind_eq_ok, Outcome.pure_eq_ok, Except.ok.injEq,
    addPaths_eq_visitRoots] at h
  obtain ⟨_, -, _, -, _, -, builder, hbuilder, rfl⟩ := h
  exact ⟨builder, hbuilder, rfl, rfl⟩

/-- Ids are positions, and no two nodes have one path. -/
theorem keyed_buildCodePlan {fuel : ℕ} {selected : List SelectedFile} {builder : PlanBuilder}
    (h : (planRules zip args).visitRoots fuel (topLevelInputs args selected) .empty =
      .ok builder) :
    (planRules zip args).Keyed CodePlanNode.path builder := by
  refine keyed_visitRoots ?_ keyed_empty h
  intro id input node hnode
  obtain ⟨format, -, rfl⟩ := planRules_node_eq_ok hnode
  rfl

/-- Different inputs with one display would be one node. -/
theorem displaysDistinct_of_showsInputs {fuel : ℕ} {selected : List SelectedFile}
    {plan : CodePlan} {inputs : List (List ℕ × PlanInput)}
    (h : buildCodePlan zip args fuel selected = .ok plan)
    (hshows : ShowsInputs zip args selected plan inputs) :
    DisplaysDistinct zip args selected := by
  obtain ⟨builder, hbuilder, hnodes, -⟩ := buildCodePlan_eq_ok h
  have hkeyed := keyed_buildCodePlan hbuilder
  intro path path' input input' hinput hinput' hsame
  obtain ⟨i, hi⟩ := List.mem_iff_getElem?.mp (hshows.reached.mpr hinput)
  obtain ⟨j, hj⟩ := List.mem_iff_getElem?.mp (hshows.reached.mpr hinput')
  obtain ⟨format, -, hnode⟩ := hshows.nodes hi
  obtain ⟨format', -, hnode'⟩ := hshows.nodes hj
  rw [hnodes] at hnode hnode'
  obtain rfl := hkeyed.unique hnode hnode' hsame
  exact (Prod.mk.inj (Option.some.inj (hi.symm.trans hj))).1

/-! ## The numbering of a plan is its graph -/

/-- The depth of an input is that of its path. -/
theorem depth_of_reached {selected : List SelectedFile} {path : List ℕ} {input : PlanInput}
    (h : Reached zip args selected path input) : input.depth + 1 = path.length := by
  unfold Reached at h
  induction h with
  | root hroot =>
    obtain ⟨file, -, rfl⟩ := List.mem_map.mp (List.mem_of_getElem? hroot)
    rfl
  | child hitem hchildren hchild ih =>
    obtain ⟨format, -, hnested⟩ := Outcome.bind_eq_ok.mp hchildren
    rw [depth_of_nestedInputs hnested _ (List.mem_of_getElem? hchild), ih, List.length_cons]

/-- One edge is in a list of edges from different numbers. -/
private theorem filter_before_eq {edges : List Edge} {id : ℕ}
    (hcount : (edges.map Edge.before).count id = 1) :
    ∃ edge ∈ edges, edge.before = id ∧ edges.filter (·.before = id) = [edge] := by
  have hlength : (edges.filter (·.before = id)).length = 1 := by
    rw [← List.countP_eq_length_filter, ← hcount, List.count, List.countP_map]
    rfl
  obtain ⟨edge, hedge⟩ := List.length_eq_one_iff.mp hlength
  have hmem : edge ∈ edges.filter (·.before = id) := by
    rw [hedge]
    exact List.mem_singleton_self edge
  obtain ⟨hedges, hbefore⟩ := List.mem_filter.mp hmem
  exact ⟨edge, hedges, by simpa using hbefore, hedge⟩

/-- Where no two inputs are displayed alike, the plan shows them. -/
theorem showsInputs_of_displaysDistinct {fuel : ℕ} {selected : List SelectedFile} {plan : CodePlan}
    (h : buildCodePlan zip args fuel selected = .ok plan)
    (hdistinct : DisplaysDistinct zip args selected) :
    ∃ inputs, ShowsInputs zip args selected plan inputs := by
  obtain ⟨builder, hbuilder, hnodes, hedges⟩ := buildCodePlan_eq_ok h
  have hkeyed := keyed_buildCodePlan hbuilder
  obtain ⟨inputs, hnum, hcomplete, hup⟩ := numbering_visitRoots hdistinct hbuilder
  have hnode : ∀ {id path input}, inputs[id]? = some (path, input) →
      ∃ format, input.format = .ok format ∧ plan.nodes[id]? = some (codePlanNode id input format) := by
    intro id path input hid
    obtain ⟨node, hget, hmade⟩ := hnum.nodes hid
    obtain ⟨format, hformat, rfl⟩ := planRules_node_eq_ok hmade
    exact ⟨format, hformat, hnodes ▸ hget⟩
  have hdepth : ∀ {id : ℕ} {path : List ℕ} {input}, inputs[id]? = some (path, input) →
      ∃ node : CodePlanNode, plan.nodes[id]? = some node ∧ node.depth + 1 = path.length := by
    intro id path input hid
    obtain ⟨format, -, hget⟩ := hnode hid
    exact ⟨_, hget, depth_of_reached (hnum.occurs (List.mem_of_getElem? hid))⟩
  refine ⟨inputs, ?_, hnum.nodup, ?_, ?_, hnodes ▸ hnum.length_nodes, hnode, ?_, ?_, ?_⟩
  · intro id node hget
    rw [hnodes] at hget
    obtain ⟨input, hmade⟩ := hkeyed.made _ _ hget
    obtain ⟨format, -, rfl⟩ := planRules_node_eq_ok hmade
    rfl
  · intro path input
    exact ⟨fun hmem => hnum.occurs hmem, fun hreached => (hcomplete hreached).1⟩
  · intro path container format hmem hformat hcontainer hrecurse
    have hreached := hnum.occurs hmem
    obtain ⟨-, nested, hchildren⟩ := hcomplete hreached
    have hnested : nestedInputs zip args container format = .ok nested := by
      have := hchildren
      simp only [planRules, hformat, Outcome.ok_bind] at this
      exact this
    rw [nestedInputs, if_pos ⟨hrecurse, hcontainer⟩] at hnested
    obtain ⟨bytes, hbytes, hfound⟩ := Outcome.bind_eq_ok.mp hnested
    obtain ⟨archive, harchive, hperm⟩ := inspectZipEntries_eq_ok hfound
    refine ⟨bytes, archive, nested, Outcome.context_eq_ok.mp hbytes, harchive, hperm, ?_⟩
    intro j entry hentry
    exact (hcomplete (.child hreached hchildren hentry)).1
  · intro id path input hid
    have hcount := hup.count hid
    by_cases hlength : path.length = 1
    · refine Or.inl ⟨hlength, ?_⟩
      rw [if_pos hlength, List.count_eq_zero] at hcount
      rw [List.filter_eq_nil_iff]
      intro edge hedge hbefore
      rw [hedges] at hedge
      exact hcount (List.mem_map.mpr ⟨edge, hedge, by simpa using hbefore⟩)
    · rw [if_neg hlength] at hcount
      obtain ⟨edge, hedge, hbefore, hfilter⟩ := filter_before_eq hcount
      obtain ⟨j, above, entry, container, hentry, hcontainer⟩ := hup.up edge hedge
      rw [hbefore, hid, Option.some.injEq, Prod.mk.injEq] at hentry
      refine Or.inr ⟨j, above, container, edge.after, hentry.1, hcontainer, ?_⟩
      rw [hedges, hfilter, ← hbefore]
  · intro edge hedge
    rw [hedges] at hedge
    obtain ⟨j, above, entry, container, hentry, hcontainer⟩ := hup.up edge hedge
    obtain ⟨a, ha, hdeptha⟩ := hdepth hentry
    obtain ⟨b, hb, hdepthb⟩ := hdepth hcontainer
    refine ⟨a, b, ha, hb, ?_⟩
    rw [List.length_cons] at hdeptha
    omega
  · rw [hedges]
    exact hup.insideOut

/-- A plan shows the inputs of its selection exactly if no two of them are displayed
alike. -/
theorem plan_graph_iff {fuel : ℕ} {selected : List SelectedFile} {plan : CodePlan}
    (h : buildCodePlan zip args fuel selected = .ok plan) :
    (∃ inputs, ShowsInputs zip args selected plan inputs) ↔ DisplaysDistinct zip args selected := by
  constructor
  · intro hshows
    obtain ⟨inputs, hshows⟩ := hshows
    exact displaysDistinct_of_showsInputs h hshows
  · exact showsInputs_of_displaysDistinct h

/-! ## Names without an exclamation mark -/

/-- A reader that knows these archives. -/
def listedArchives (archives : List (List UInt8 × List ZipEntry)) : ZipCrate where
  entries bytes := do
    let found ← Outcome.ofOption (archives.lookup bytes) "invalid Zip archive"
    return found.map .ok

/-- An archive that lists one library, or the same name twice. -/
def libraryArchives : ZipCrate :=
  listedArchives [([1], [⟨"b.dll".toList, 0, .ok [7]⟩]),
    ([2], [⟨"b.dll".toList, 0, .ok [7]⟩, ⟨"b.dll".toList, 0, .ok [8]⟩])]

/-- Containers are recursed into. -/
def recursing : CodeArgs := ⟨true, none, none, none, none, false, []⟩

/-- The selection of one archive. -/
def oneArchive : List SelectedFile := [⟨["a.zip".toList], .ok [1]⟩]

/-- The selection of an archive and a file. -/
def archiveAndFile : List SelectedFile :=
  [⟨["a.zip".toList], .ok [2]⟩, ⟨["a.zip!b.dll".toList], .ok [9]⟩]

/-- The node of the archive, and the one that is displayed as `a.zip!b.dll`. -/
def archiveNodes : List CodePlanNode :=
  [⟨0, "a.zip".toList, "a.zip".toList, .zip, 0, true, "container-only"⟩,
    ⟨1, "a.zip!b.dll".toList, "a.zip!b.dll".toList, .pe, 1, false, "authenticode"⟩]

theorem plan_graph_iff_oneArchive :
    (∃ inputs, ShowsInputs libraryArchives recursing oneArchive
        ⟨true, archiveNodes, [⟨1, 0⟩]⟩ inputs) ↔
      DisplaysDistinct libraryArchives recursing oneArchive := by
  have hplan : buildCodePlan libraryArchives recursing 3 oneArchive =
      .ok ⟨true, archiveNodes, [⟨1, 0⟩]⟩ := by
    decide
  exact plan_graph_iff hplan

/-- Three inputs have one node: two entries with one name, and a file that is
displayed like them.  The file is listed as an entry of the archive, with no node of
its own to be signed, and the node has two edges. -/
theorem displays_collide :
    buildCodePlan libraryArchives recursing 3 archiveAndFile =
        .ok ⟨true, archiveNodes, [⟨1, 0⟩, ⟨1, 0⟩]⟩ ∧
      ¬ ∃ inputs, ShowsInputs libraryArchives recursing archiveAndFile
        ⟨true, archiveNodes, [⟨1, 0⟩, ⟨1, 0⟩]⟩ inputs := by
  have hplan : buildCodePlan libraryArchives recursing 3 archiveAndFile =
      .ok ⟨true, archiveNodes, [⟨1, 0⟩, ⟨1, 0⟩]⟩ := by
    decide
  refine ⟨hplan, ?_⟩
  intro hshows
  obtain ⟨inputs, hshows⟩ := hshows
  have hfile : Reached libraryArchives recursing archiveAndFile [0]
      (topLevelInput recursing 2 ⟨["a.zip".toList], .ok [2]⟩) := .root rfl
  have hentries : ∃ entries, (planRules libraryArchives recursing).children
      (topLevelInput recursing 2 ⟨["a.zip".toList], .ok [2]⟩) = .ok entries ∧
      ∃ first, entries[0]? = some first ∧ first.display = "a.zip!b.dll".toList := by
    have hfirst : ((planRules libraryArchives recursing).children
        (topLevelInput recursing 2 ⟨["a.zip".toList], .ok [2]⟩)).toOption.bind
        (fun entries => entries[0]?.map PlanInput.display) = some "a.zip!b.dll".toList := by
      decide
    obtain ⟨entries, hsome, hget⟩ := Option.bind_eq_some_iff.mp hfirst
    obtain ⟨first, hget, hdisplay⟩ := Option.map_eq_some_iff.mp hget
    exact ⟨entries, Outcome.toOption_eq_some.mp hsome, first, hget, hdisplay⟩
  obtain ⟨entries, hchildren, first, hget, hdisplay⟩ := hentries
  have hother : Reached libraryArchives recursing archiveAndFile [1]
      (topLevelInput recursing 2 ⟨["a.zip!b.dll".toList], .ok [9]⟩) := .root rfl
  have hpath := displaysDistinct_of_showsInputs hplan hshows (.child hfile hchildren hget) hother
    (by rw [hdisplay]; decide)
  exact absurd hpath (by decide)

end Psign.Code
