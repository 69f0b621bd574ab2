import Mathlib.Data.List.Nodup
import Psign.Sip.AppxContentTypes

/-!
# Reading back the content types of a staged package

What `appx_content_types_for_signing` writes is read by `validate_content_types_xml`
again.  The first lemmas are about this reader: what an accepted file declares
(`Declares`), and that a written file is read back as it was staged (`validate_written`).

The next ones go through the loop over the parts.  A part changes nothing but the default
of its own extension (`get_stagePart`), so a default of the existing file stands and the
first part that asks for another one sets it (`get_stageNames`).  The parts have different
names, so the override of a part is the one that its own round pushed
(`exists_stagePart`), and what is staged can be written and read (`writable_stagedTypes`).
-/

namespace Psign.Sip.Appx

open CodeLib CodeLib.RustStr

/-! ## What an accepted file declares -/

/-- The declarations of an accepted file, by their keys. -/
structure Declares (types : AppxContentTypes) : Prop where
  defaultKeys : (types.defaults.map Prod.fst).Nodup
  default : ∀ entry ∈ types.defaults, entry.1 ≠ [] ∧ '/' ∉ entry.1 ∧ '\\' ∉ entry.1 ∧
    toAsciiLowercase entry.1 = entry.1 ∧ entry.2 ≠ []
  override : ∀ entry ∈ types.overrides, entry.2 ≠ []

theorem lookup_eq_get {l : List (List Char × List Char)} {key : List Char} :
    l.lookup key = SortedMap.get l key := by
  induction l with
  | nil => rfl
  | cons entry rest ih =>
    obtain ⟨k, v⟩ := entry
    rw [SortedMap.get_cons, List.lookup_cons, ih]
    by_cases h : key = k
    · simp [h]
    · rw [if_neg h, beq_eq_false_iff_ne.mpr h]

theorem lookup_isNone_iff {l : List (List Char × List Char)} {key : List Char} :
    (l.lookup key).isNone = true ↔ key ∉ l.map Prod.fst := by
  rw [lookup_eq_get, Option.isNone_iff_eq_none, Option.eq_none_iff_forall_ne_some]
  show (∀ value, ¬ SortedMap.get l key = some value) ↔ key ∉ SortedMap.keys l
  rw [SortedMap.mem_keys_iff, not_exists]

theorem contentTypesDefault_declares {state state' : ContentTypesState} {e : Element}
    (h : contentTypesDefault state e = .ok state') (hstate : Declares state.contentTypes) :
    Declares state'.contentTypes := by
  obtain ⟨-, h⟩ := Outcome.guardThat_bind_eq_ok.mp h
  obtain ⟨ext, -, h⟩ := Outcome.bind_eq_ok.mp h
  obtain ⟨contentType, -, h⟩ := Outcome.bind_eq_ok.mp h
  obtain ⟨hext, h⟩ := Outcome.guardThat_bind_eq_ok.mp h
  obtain ⟨htype, h⟩ := Outcome.guardThat_bind_eq_ok.mp h
  obtain ⟨hnew, h⟩ := Outcome.guardThat_bind_eq_ok.mp h
  obtain rfl := Except.ok.inj h
  refine ⟨?_, ?_, hstate.override⟩
  · rw [List.map_cons, List.nodup_cons]
    exact ⟨lookup_isNone_iff.mp hnew, hstate.defaultKeys⟩
  · intro entry hentry
    rcases List.mem_cons.mp hentry with rfl | hentry
    · refine ⟨?_, ?_, ?_, toAsciiLowercase_toAsciiLowercase ext, htype⟩
      · simpa [toAsciiLowercase] using hext.1
      · rw [mem_toAsciiLowercase (by decide) (by decide)]
        exact hext.2.1
      · rw [mem_toAsciiLowercase (by decide) (by decide)]
        exact hext.2.2
    · exact hstate.default entry hentry

theorem contentTypesOverride_declares {state state' : ContentTypesState} {e : Element}
    (h : contentTypesOverride state e = .ok state') (hstate : Declares state.contentTypes) :
    Declares state'.contentTypes := by
  obtain ⟨-, h⟩ := Outcome.guardThat_bind_eq_ok.mp h
  obtain ⟨partName, -, h⟩ := Outcome.bind_eq_ok.mp h
  obtain ⟨contentType, -, h⟩ := Outcome.bind_eq_ok.mp h
  obtain ⟨-, h⟩ := Outcome.guardThat_bind_eq_ok.mp h
  obtain ⟨htype, h⟩ := Outcome.guardThat_bind_eq_ok.mp h
  obtain ⟨normalized, -, h⟩ := Outcome.bind_eq_ok.mp h
  obtain ⟨-, h⟩ := Outcome.guardThat_bind_eq_ok.mp h
  obtain rfl := Except.ok.inj h
  refine ⟨hstate.defaultKeys, hstate.default, ?_⟩
  intro entry hentry
  rcases List.mem_cons.mp hentry with rfl | hentry
  · exact htype
  · exact hstate.override entry hentry

theorem contentTypesLeaf_declares {state state' : ContentTypesState} {e : Element}
    (h : contentTypesLeaf state e = .ok state') (hstate : Declares state.contentTypes) :
    Declares state'.contentTypes := by
  rw [contentTypesLeaf] at h
  by_cases hdefault : e.localName = asciiBytes "Default"
  · rw [if_pos hdefault] at h
    exact contentTypesDefault_declares h hstate
  · rw [if_neg hdefault] at h
    by_cases hoverride : e.localName = asciiBytes "Override"
    · rw [if_pos hoverride] at h
      exact contentTypesOverride_declares h hstate
    · rw [if_neg hoverride] at h
      exact absurd h Outcome.bail_ne_ok

theorem contentTypesRoot_eq_ok {opens : Bool} {state state' : ContentTypesState}
    (h : contentTypesRoot opens state = .ok state') :
    state'.contentTypes = state.contentTypes := by
  obtain ⟨-, h⟩ := Outcome.guardThat_bind_eq_ok.mp h
  rw [← Except.ok.inj h]

theorem contentTypesStep_declares {state state' : ContentTypesState} {event : Event}
    (h : contentTypesStep state event = .ok state') (hstate : Declares state.contentTypes) :
    Declares state'.contentTypes := by
  cases event with
  | start e =>
    rw [contentTypesStep] at h
    by_cases htypes : e.localName = asciiBytes "Types"
    · rw [if_pos htypes] at h
      exact contentTypesRoot_eq_ok h ▸ hstate
    · rw [if_neg htypes] at h
      exact contentTypesLeaf_declares h hstate
  | empty e =>
    rw [contentTypesStep] at h
    by_cases htypes : e.localName = asciiBytes "Types"
    · rw [if_pos htypes] at h
      exact contentTypesRoot_eq_ok h ▸ hstate
    · rw [if_neg htypes] at h
      exact contentTypesLeaf_declares h hstate
  | close localName =>
    rw [contentTypesStep] at h
    by_cases htypes : localName = asciiBytes "Types"
    · rw [if_pos htypes] at h
      exact Except.ok.inj h ▸ hstate
    · rw [if_neg htypes] at h
      exact Except.ok.inj h ▸ hstate
  | text decoded =>
    obtain ⟨text, -, h⟩ := Outcome.bind_eq_ok.mp h
    obtain ⟨-, h⟩ := Outcome.guardThat_bind_eq_ok.mp h
    exact Except.ok.inj h ▸ hstate
  | other => exact Except.ok.inj h ▸ hstate

theorem contentTypesEvents_declares {events : List (Outcome Event)}
    {state state' : ContentTypesState} (h : contentTypesEvents events state = .ok state')
    (hstate : Declares state.contentTypes) : Declares state'.contentTypes := by
  induction events generalizing state with
  | nil => exact Except.ok.inj h ▸ hstate
  | cons event rest ih =>
    obtain ⟨event, -, h⟩ := Outcome.bind_eq_ok.mp h
    obtain ⟨next, hnext, h⟩ := Outcome.bind_eq_ok.mp h
    exact ih h (contentTypesStep_declares hnext hstate)

theorem declares_empty : Declares ⟨[], []⟩ :=
  ⟨List.nodup_nil, fun _ h => absurd h List.not_mem_nil, fun _ h => absurd h List.not_mem_nil⟩

theorem declares_of_givenContentTypes {reader : XmlReader} {existing : Option (List UInt8)}
    {given : AppxContentTypes} (h : givenContentTypes reader existing = .ok given) :
    Declares given := by
  cases existing with
  | none => exact Except.ok.inj h ▸ declares_empty
  | some xml =>
    obtain ⟨state, hstate, h⟩ := Outcome.bind_eq_ok.mp h
    obtain ⟨-, h⟩ := Outcome.guardThat_bind_eq_ok.mp h
    obtain ⟨-, h⟩ := Outcome.guardThat_bind_eq_ok.mp h
    exact Except.ok.inj h ▸ contentTypesEvents_declares hstate declares_empty

/-! ## A written file is read back -/

/-- What can be written and read. -/
structure Writable (types : AppxContentTypes) : Prop extends Declares types where
  normalized : ∀ entry ∈ types.overrides, normalizeAppxPartName entry.1 = .ok entry.1
  overrideKeys : (types.overrides.map fun entry => toAsciiLowercase entry.1).Nodup

/-- The declarations that the reader finds in a written file. -/
def readBack (types : AppxContentTypes) : AppxContentTypes :=
  ⟨types.defaults.reverse,
    (types.overrides.map fun entry => (toAsciiLowercase entry.1, entry.2)).reverse⟩

theorem requiredXmlAttr_first {localName : List UInt8} {name other : String}
    {value value' : List Char} :
    requiredXmlAttr ⟨localName, [readAttr name value, readAttr other value']⟩ (asciiBytes name) =
      .ok value := by
  simp [requiredXmlAttr, xmlAttr, xmlAttrFrom, readAttr, Outcome.mapErr, Outcome.ofOption]

theorem requiredXmlAttr_second {localName : List UInt8} {name other : String}
    {value value' : List Char} (h : asciiBytes name ≠ asciiBytes other) :
    requiredXmlAttr ⟨localName, [readAttr name value, readAttr other value']⟩ (asciiBytes other) =
      .ok value' := by
  simp [requiredXmlAttr, xmlAttr, xmlAttrFrom, readAttr, Outcome.mapErr, Outcome.ofOption, h]

theorem contentTypesDefault_written {state : ContentTypesState} {entry : List Char × List Char}
    (hin : state.inTypes = true)
    (hentry : entry.1 ≠ [] ∧ '/' ∉ entry.1 ∧ '\\' ∉ entry.1 ∧
      toAsciiLowercase entry.1 = entry.1 ∧ entry.2 ≠ [])
    (hnew : entry.1 ∉ state.contentTypes.defaults.map Prod.fst) :
    contentTypesDefault state ⟨asciiBytes "Default",
        [readAttr "Extension" entry.1, readAttr "ContentType" entry.2]⟩ =
      .ok { state with contentTypes :=
        { state.contentTypes with defaults := entry :: state.contentTypes.defaults } } := by
  obtain ⟨hne, hslash, hback, hlower, htype⟩ := hentry
  have hlookup := lookup_isNone_iff.mpr hnew
  simp only [contentTypesDefault, requiredXmlAttr_first,
    requiredXmlAttr_second (show asciiBytes "Extension" ≠ asciiBytes "ContentType" by decide),
    Outcome.guardThat_of hin, Outcome.guardThat_of (And.intro hne (And.intro hslash hback)),
    Outcome.guardThat_of htype, hlower, Outcome.guardThat_of hlookup, Outcome.ok_bind,
    Outcome.pure_eq_ok]

theorem contentTypesOverride_written {state : ContentTypesState} {entry : List Char × List Char}
    (hin : state.inTypes = true) (hnormalized : normalizeAppxPartName entry.1 = .ok entry.1)
    (htype : entry.2 ≠ [])
    (hnew : toAsciiLowercase entry.1 ∉ state.contentTypes.overrides.map Prod.fst) :
    contentTypesOverride state ⟨asciiBytes "Override",
        [readAttr "PartName" ('/' :: entry.1), readAttr "ContentType" entry.2]⟩ =
      .ok { state with contentTypes := { state.contentTypes with
        overrides := (toAsciiLowercase entry.1, entry.2) :: state.contentTypes.overrides } } := by
  have hlookup := lookup_isNone_iff.mpr hnew
  have habsolute : ('/' :: entry.1).head? = some '/' := rfl
  simp only [contentTypesOverride, requiredXmlAttr_first,
    requiredXmlAttr_second (show asciiBytes "PartName" ≠ asciiBytes "ContentType" by decide),
    Outcome.guardThat_of hin, Outcome.guardThat_of habsolute, Outcome.guardThat_of htype,
    List.drop_succ_cons, List.drop_zero, hnormalized, Outcome.guardThat_of hlookup,
    Outcome.ok_bind, Outcome.pure_eq_ok]

theorem contentTypesEvents_append (first second : List (Outcome Event))
    (state : ContentTypesState) :
    contentTypesEvents (first ++ second) state =
      (contentTypesEvents first state >>= contentTypesEvents second) := by
  induction first generalizing state with
  | nil => rfl
  | cons event rest ih =>
    rw [List.cons_append, contentTypesEvents, contentTypesEvents]
    cases event with
    | error failure => cases failure <;> rfl
    | ok event =>
      show (contentTypesStep state event >>= contentTypesEvents (rest ++ second)) = _
      cases hstep : contentTypesStep state event with
      | error failure => simp only [Outcome.mapErr, Outcome.ok_bind, hstep, Outcome.error_bind]
      | ok next =>
        simp only [Outcome.mapErr, Outcome.ok_bind, hstep, ih]

/-- Written `Default` elements are read one by one. -/
private theorem contentTypesEvents_defaults {entries : List (List Char × List Char)}
    {state : ContentTypesState} (hin : state.inTypes = true)
    (hentries : ∀ entry ∈ entries, entry.1 ≠ [] ∧ '/' ∉ entry.1 ∧ '\\' ∉ entry.1 ∧
      toAsciiLowercase entry.1 = entry.1 ∧ entry.2 ≠ [])
    (hnodup : (entries.map Prod.fst).Nodup)
    (hnew : ∀ entry ∈ entries, entry.1 ∉ state.contentTypes.defaults.map Prod.fst) :
    contentTypesEvents (entries.map fun entry => .ok (.empty ⟨asciiBytes "Default",
        [readAttr "Extension" entry.1, readAttr "ContentType" entry.2]⟩)) state =
      .ok { state with contentTypes := { state.contentTypes with
        defaults := entries.reverse ++ state.contentTypes.defaults } } := by
  induction entries generalizing state with
  | nil => rfl
  | cons entry rest ih =>
    rw [List.map_cons, List.nodup_cons] at hnodup
    have hstep : contentTypesStep state (.empty ⟨asciiBytes "Default",
        [readAttr "Extension" entry.1, readAttr "ContentType" entry.2]⟩) =
        .ok { state with contentTypes :=
          { state.contentTypes with defaults := entry :: state.contentTypes.defaults } } := by
      rw [contentTypesStep, if_neg (show asciiBytes "Default" ≠ asciiBytes "Types" by decide),
        contentTypesLeaf, if_pos rfl]
      exact contentTypesDefault_written hin (hentries entry List.mem_cons_self)
        (hnew entry List.mem_cons_self)
    rw [List.map_cons, contentTypesEvents]
    simp only [Outcome.mapErr, Outcome.ok_bind, hstep]
    rw [ih (by exact hin) (fun other hother => hentries other (List.mem_cons_of_mem _ hother))
      hnodup.2]
    · simp
    · intro other hother
      rw [List.map_cons, List.mem_cons, not_or]
      refine ⟨fun heq => hnodup.1 (heq ▸ List.mem_map_of_mem hother), ?_⟩
      exact hnew other (List.mem_cons_of_mem _ hother)

/-- Written `Override` elements are read one by one. -/
private theorem contentTypesEvents_overrides {entries : List (List Char × List Char)}
    {state : ContentTypesState} (hin : state.inTypes = true)
    (hentries : ∀ entry ∈ entries, normalizeAppxPartName entry.1 = .ok entry.1 ∧ entry.2 ≠ [])
    (hnodup : (entries.map fun entry => toAsciiLowercase entry.1).Nodup)
    (hnew : ∀ entry ∈ entries,
      toAsciiLowercase entry.1 ∉ state.contentTypes.overrides.map Prod.fst) :
    contentTypesEvents (entries.map fun entry => .ok (.empty ⟨asciiBytes "Override",
        [readAttr "PartName" ('/' :: entry.1), readAttr "ContentType" entry.2]⟩)) state =
      .ok { state with contentTypes := { state.contentTypes with
        overrides := (entries.map fun entry => (toAsciiLowercase entry.1, entry.2)).reverse ++
          state.contentTypes.overrides } } := by
  induction entries generalizing state with
  | nil => rfl
  | cons entry rest ih =>
    rw [List.map_cons, List.nodup_cons] at hnodup
    have hentry := hentries entry List.mem_cons_self
    have hstep : contentTypesStep state (.empty ⟨asciiBytes "Override",
        [readAttr "PartName" ('/' :: entry.1), readAttr "ContentType" entry.2]⟩) =
        .ok { state with contentTypes := { state.contentTypes with
          overrides := (toAsciiLowercase entry.1, entry.2) :: state.contentTypes.overrides } } := by
      rw [contentTypesStep, if_neg (show asciiBytes "Override" ≠ asciiBytes "Types" by decide),
        contentTypesLeaf, if_neg (show asciiBytes "Override" ≠ asciiBytes "Default" by decide),
        if_pos rfl]
      exact contentTypesOverride_written hin hentry.1 hentry.2 (hnew entry List.mem_cons_self)
    rw [List.map_cons, contentTypesEvents]
    simp only [Outcome.mapErr, Outcome.ok_bind, hstep]
    rw [ih (by exact hin) (fun other hother => hentries other (List.mem_cons_of_mem _ hother))
      hnodup.2]
    · simp
    · intro other hother
      rw [List.map_cons, List.mem_cons, not_or]
      refine ⟨?_, hnew other (List.mem_cons_of_mem _ hother)⟩
      intro heq
      exact hnodup.1 (List.mem_map.mpr ⟨other, hother, heq⟩)

/-- A written file is accepted, with the declarations that were staged. -/
theorem validate_written {reader : XmlReader} {xml : List UInt8} {types : AppxContentTypes}
    (hread : reader xml = writtenEvents types) (htypes : Writable types) :
    validateContentTypesXml reader xml = .ok (readBack types) := by
  have hroot : contentTypesStep ⟨false, false, ⟨[], []⟩⟩
      (.start ⟨asciiBytes "Types", [readAttr "xmlns" contentTypesNs]⟩) =
      .ok ⟨true, true, ⟨[], []⟩⟩ := by
    rw [contentTypesStep, if_pos rfl]
    rfl
  have hevents : contentTypesEvents (writtenEvents types) ⟨false, false, ⟨[], []⟩⟩ =
      .ok ⟨false, true, ⟨types.defaults.reverse,
        (types.overrides.map fun entry => (toAsciiLowercase entry.1, entry.2)).reverse⟩⟩ := by
    show (contentTypesStep ⟨false, false, ⟨[], []⟩⟩
      (.start ⟨asciiBytes "Types", [readAttr "xmlns" contentTypesNs]⟩) >>=
        contentTypesEvents (_ ++ _ ++ [.ok (.close (asciiBytes "Types"))])) = _
    rw [hroot, Outcome.ok_bind, contentTypesEvents_append, contentTypesEvents_append,
      contentTypesEvents_defaults rfl htypes.default htypes.defaultKeys
        (fun entry _ => List.not_mem_nil),
      Outcome.ok_bind, contentTypesEvents_overrides rfl
        (fun entry hentry => ⟨htypes.normalized entry hentry, htypes.override entry hentry⟩)
        htypes.overrideKeys (fun entry _ => List.not_mem_nil),
      Outcome.ok_bind, List.append_nil, List.append_nil]
    rfl
  rw [validateContentTypesXml, hread, hevents]
  rfl

/-! ## Names and extensions -/

theorem toLower_dot (c : Char) : c.toLower = '.' ↔ c = '.' :=
  toLower_eq_iff (by decide) (by decide) c

/-- The extension of a whole path, as `content_type_for_part` takes it. -/
def wholeExtension (normalized : List Char) : Option (List Char) :=
  (rsplitOnce '.' normalized).map fun (_, ext) => toAsciiLowercase ext

theorem wholeExtension_of_fold {n m : List Char} (h : EqIgnoreAsciiCase n m) :
    wholeExtension n = wholeExtension m := by
  have hfold : ∀ s : List Char, wholeExtension s =
      (rsplitOnce '.' (toAsciiLowercase s)).map Prod.snd := by
    intro s
    rw [rsplitOnce_toAsciiLowercase toLower_dot, Option.map_map]
    rfl
  rw [hfold, hfold, h]

/-- The last component of a path is its end. -/
private theorem exists_leaf (n : List Char) :
    ∃ pre leaf, n = pre ++ leaf ∧ '/' ∉ leaf ∧ (split '/' n).getLast? = some leaf := by
  by_cases hslash : '/' ∈ n
  · have hsome : ∃ parts, rsplitOnce '/' n = some parts := by
      cases hsplit : rsplitOnce '/' n with
      | some parts => exact ⟨parts, rfl⟩
      | none =>
        have hmem : '/' ∈ n.reverse := List.mem_reverse.mpr hslash
        rw [rsplitOnce, Option.map_eq_none_iff] at hsplit
        obtain ⟨before, after, hbefore, hn⟩ := List.eq_append_cons_of_mem hmem
        rw [hbefore, splitOnce_eq_some.mpr ⟨rfl, hn⟩] at hsplit
        cases hsplit
    obtain ⟨⟨before, leaf⟩, hparts⟩ := hsome
    obtain ⟨rfl, hleaf⟩ := rsplitOnce_eq_some.mp hparts
    obtain ⟨init, last, first, rest, -, hfirst, hsplit⟩ := split_append_eq '/' before ('/' :: leaf)
    rw [split, if_pos rfl, split_of_not_mem hleaf] at hfirst
    obtain ⟨rfl, rfl⟩ := List.cons.inj hfirst
    refine ⟨before ++ ['/'], leaf, by simp, hleaf, ?_⟩
    rw [hsplit]
    simp
  · exact ⟨[], n, rfl, hslash, by rw [split_of_not_mem hslash]; rfl⟩

/-- An extension of the last component is one of the path. -/
theorem wholeExtension_of_leaf {n : List Char} (h : leafExtension n ≠ []) :
    wholeExtension n = some (leafExtension n) := by
  obtain ⟨pre, leaf, rfl, -, hleaf⟩ := exists_leaf n
  simp only [leafExtension, hleaf, Option.getD_some] at h ⊢
  cases hsplit : rsplitOnce '.' leaf with
  | none => exact absurd (by rw [hsplit]; rfl) h
  | some parts =>
    obtain ⟨before, ext⟩ := parts
    obtain ⟨rfl, hext⟩ := rsplitOnce_eq_some.mp hsplit
    have hwhole : rsplitOnce '.' (pre ++ (before ++ '.' :: ext)) = some (pre ++ before, ext) :=
      rsplitOnce_eq_some.mpr ⟨by simp, hext⟩
    rw [wholeExtension, hwhole]
    rfl

/-- An extension of the path without a slash is one of the last component. -/
theorem leafExtension_of_whole {n ext : List Char} (h : wholeExtension n = some ext)
    (hslash : '/' ∉ ext) : leafExtension n = ext := by
  obtain ⟨⟨before, after⟩, hsplit, rfl⟩ := Option.map_eq_some_iff.mp h
  obtain ⟨rfl, hafter⟩ := rsplitOnce_eq_some.mp hsplit
  have hslash' : '/' ∉ '.' :: after := by
    rw [List.mem_cons, not_or]
    refine ⟨by decide, ?_⟩
    rw [mem_toAsciiLowercase (by decide) (by decide)] at hslash
    exact hslash
  obtain ⟨init, last, first, rest, -, hfirst, hleaf⟩ := split_append_eq '/' before ('.' :: after)
  rw [split_of_not_mem hslash'] at hfirst
  obtain ⟨rfl, rfl⟩ := List.cons.inj hfirst
  have hdot : rsplitOnce '.' (last ++ '.' :: after) = some (last, after) :=
    rsplitOnce_eq_some.mpr ⟨rfl, hafter⟩
  simp only [leafExtension, hleaf, List.getLast?_append, List.getLast?_singleton, Option.some_or,
    Option.getD_some, hdot, Option.map_some]

/-- The manifest has the extension `xml`, however it is spelled. -/
theorem leafExtension_manifest {bundle : Bool} {n : List Char}
    (h : EqIgnoreAsciiCase n (manifestPart bundle)) : leafExtension n = "xml".toList := by
  have hwhole : wholeExtension n = some "xml".toList := by
    rw [wholeExtension_of_fold h]
    cases bundle <;> decide
  exact leafExtension_of_whole hwhole (by decide)

/-- A normalized name is not changed. -/
theorem normalizeAppxPartName_idempotent {part n : List Char}
    (h : normalizeAppxPartName part = .ok n) : normalizeAppxPartName n = .ok n := by
  obtain ⟨⟨hne, hzero⟩, h⟩ := Outcome.guardThat_bind_eq_ok.mp h
  obtain ⟨habsolute, h⟩ := Outcome.guardThat_bind_eq_ok.mp h
  obtain ⟨hsegments, h⟩ := Outcome.guardThat_bind_eq_ok.mp h
  obtain rfl := Except.ok.inj h
  have hback : '\\' ∉ replace ['\\'] ['/'] part := not_mem_replace (by decide) part
  have hname : replace ['\\'] ['/'] part ≠ [] ∧
      Char.ofNat 0 ∉ replace ['\\'] ['/'] part := by
    constructor
    · intro hnil
      obtain ⟨c, rest, rfl⟩ := List.exists_cons_of_ne_nil hne
      by_cases hc : ['\\'] <+: c :: rest
      · obtain ⟨t, ht⟩ := hc
        rw [← ht, replace_append (List.cons_ne_nil _ _)] at hnil
        cases hnil
      · rw [replace_cons hc] at hnil
        cases hnil
    · exact fun hmem => hzero (mem_of_mem_replace (by decide) hmem)
  rw [normalizeAppxPartName, Outcome.guardThat_of hname, Outcome.ok_bind,
    replace_eq_self ['/'] hback]
  dsimp only
  rw [Outcome.guardThat_of habsolute, Outcome.ok_bind, Outcome.guardThat_of hsegments]
  rfl

theorem not_mem_of_normalizeAppxPartName {part n : List Char}
    (h : normalizeAppxPartName part = .ok n) : '\\' ∉ n := by
  obtain ⟨-, h⟩ := Outcome.guardThat_bind_eq_ok.mp h
  obtain ⟨-, h⟩ := Outcome.guardThat_bind_eq_ok.mp h
  obtain ⟨-, h⟩ := Outcome.guardThat_bind_eq_ok.mp h
  exact Except.ok.inj h ▸ not_mem_replace (by decide) part

/-! ## One part -/

/-- The default that a part without a declaration asks for. -/
def inferredType (bundle : Bool) (normalized : List Char) : List Char :=
  if EqIgnoreAsciiCase normalized (manifestPart bundle) then manifestType bundle
  else defaultContentTypeForExtension (leafExtension normalized)

variable {given : AppxContentTypes} {bundle : Bool}

/-- A part changes the default of its own extension, if it has no declaration of its own. -/
theorem stagePart_defaults (defaults : SortedMap.Map (List Char) (List Char)) (n : List Char) :
    (stagePart given bundle defaults n).1 =
      if explicitType given n = none ∧ leafExtension n ≠ [] then
        orInsert defaults (leafExtension n) (inferredType bundle n)
      else defaults := by
  rw [stagePart, inferredType]
  by_cases hmanifest : EqIgnoreAsciiCase n (manifestPart bundle)
  · simp only [if_pos hmanifest, Option.isNone_iff_eq_none, apply_ite Prod.fst, ite_self]
  · simp only [if_neg hmanifest]
    cases explicitType given n with
    | some contentType => simp
    | none =>
      by_cases hext : leafExtension n = []
      · simp [hext]
      · simp [hext]

theorem stagePart_manifest (defaults : SortedMap.Map (List Char) (List Char)) {n : List Char}
    (h : EqIgnoreAsciiCase n (manifestPart bundle)) :
    (stagePart given bundle defaults n).2 =
      if ((explicitType given n).or (SortedMap.get (stagePart given bundle defaults n).1
          (leafExtension n))).any (isManifestType bundle) then none
      else some (manifestType bundle) := by
  rw [stagePart]
  simp only [if_pos h, apply_ite Prod.fst, apply_ite Prod.snd, ite_self]

theorem stagePart_payload (defaults : SortedMap.Map (List Char) (List Char)) {n : List Char}
    (h : ¬ EqIgnoreAsciiCase n (manifestPart bundle)) :
    (stagePart given bundle defaults n).2 =
      (explicitType given n).or
        (if leafExtension n = [] then some contentTypeOctets else none) := by
  rw [stagePart]
  simp only [if_neg h]
  cases explicitType given n with
  | some contentType => rfl
  | none =>
    by_cases hext : leafExtension n = []
    · simp [hext]
    · simp [hext]

theorem get_orInsert (defaults : SortedMap.Map (List Char) (List Char))
    (ext contentType key : List Char) :
    SortedMap.get (orInsert defaults ext contentType) key =
      (SortedMap.get defaults key).or (if key = ext then some contentType else none) := by
  rw [orInsert]
  cases hext : SortedMap.get defaults ext with
  | some found =>
    rw [if_pos (Option.isSome_some)]
    by_cases hkey : key = ext
    · rw [if_pos hkey, hkey, hext]
      rfl
    · rw [if_neg hkey, Option.or_none]
  | none =>
    rw [if_neg (by simp), SortedMap.get_insert]
    by_cases hkey : key = ext
    · rw [if_pos hkey, if_pos hkey, hkey, hext]
      rfl
    · rw [if_neg hkey, if_neg hkey, Option.or_none]

theorem nodup_keys_orInsert {defaults : SortedMap.Map (List Char) (List Char)}
    (ext contentType : List Char) (h : (SortedMap.keys defaults).Nodup) :
    (SortedMap.keys (orInsert defaults ext contentType)).Nodup := by
  rw [orInsert]
  cases hext : SortedMap.get defaults ext with
  | some found => exact h
  | none =>
    refine SortedMap.nodup_keys_insert contentType h ?_
    intro hmem
    obtain ⟨value, hvalue⟩ := SortedMap.mem_keys_iff.mp hmem
    rw [hext] at hvalue
    cases hvalue

/-- The default that a part adds, if its extension has none. -/
def addedDefault (given : AppxContentTypes) (bundle : Bool) (n key : List Char) :
    Option (List Char) :=
  if explicitType given n = none ∧ leafExtension n ≠ [] ∧ key = leafExtension n then
    some (inferredType bundle n)
  else none

theorem get_stagePart (defaults : SortedMap.Map (List Char) (List Char)) (n key : List Char) :
    SortedMap.get (stagePart given bundle defaults n).1 key =
      (SortedMap.get defaults key).or (addedDefault given bundle n key) := by
  rw [stagePart_defaults, addedDefault]
  by_cases h : explicitType given n = none ∧ leafExtension n ≠ []
  · rw [if_pos h, get_orInsert]
    simp only [h.1, ne_eq, h.2, not_false_eq_true, true_and]
  · have hnot : ¬ (explicitType given n = none ∧ leafExtension n ≠ [] ∧ key = leafExtension n) :=
      fun hall => h ⟨hall.1, hall.2.1⟩
    rw [if_neg h, if_neg hnot, Option.or_none]

/-! ## All parts -/

/-- The loop over names that are normalized. -/
def stageNames (given : AppxContentTypes) (bundle : Bool) :
    List (List Char) → SortedMap.Map (List Char) (List Char) → AppxContentTypes
  | [], defaults => ⟨defaults, []⟩
  | n :: rest, defaults =>
    let part := stagePart given bundle defaults n
    let staged := stageNames given bundle rest part.1
    { staged with
      overrides := (part.2.toList.map fun contentType => (n, contentType)) ++ staged.overrides }

/-- The name of a part under which the reader knows it. -/
def IsPart (part n : List Char) : Prop :=
  normalizeAppxPartName part = .ok n

instance (part n : List Char) : Decidable (IsPart part n) :=
  inferInstanceAs (Decidable (_ = _))

/-- The normalized names of parts. -/
def partNames (parts : List (List Char)) : List (List Char) :=
  parts.filterMap fun part => (normalizeAppxPartName part).toOption

theorem mem_partNames {parts : List (List Char)} {n : List Char} :
    n ∈ partNames parts ↔ ∃ part ∈ parts, IsPart part n := by
  simp only [partNames, List.mem_filterMap, Outcome.toOption_eq_some, IsPart]

theorem stageParts_eq_ok {parts : List (List Char)}
    {defaults : SortedMap.Map (List Char) (List Char)} {staged : AppxContentTypes}
    (h : stageParts given bundle parts defaults = .ok staged) :
    (∀ part ∈ parts, ∃ n, IsPart part n) ∧
      staged = stageNames given bundle (partNames parts) defaults := by
  induction parts generalizing defaults staged with
  | nil => exact ⟨fun part hpart => absurd hpart List.not_mem_nil, (Except.ok.inj h).symm⟩
  | cons part rest ih =>
    obtain ⟨n, hn, h⟩ := Outcome.bind_eq_ok.mp h
    obtain ⟨later, hlater, h⟩ := Outcome.bind_eq_ok.mp h
    obtain rfl := Except.ok.inj h
    obtain ⟨hrest, rfl⟩ := ih hlater
    have hnames : partNames (part :: rest) = n :: partNames rest := by
      rw [partNames, List.filterMap_cons, Outcome.toOption_eq_some.mpr hn]
      rfl
    refine ⟨List.forall_mem_cons.mpr ⟨⟨n, hn⟩, hrest⟩, ?_⟩
    rw [hnames]
    rfl

/-- Defaults are kept, and the first part that asks for another one sets it. -/
theorem get_stageNames (names : List (List Char))
    (defaults : SortedMap.Map (List Char) (List Char)) (key : List Char) :
    SortedMap.get (stageNames given bundle names defaults).defaults key =
      (SortedMap.get defaults key).or (names.findSome? fun n => addedDefault given bundle n key) := by
  induction names generalizing defaults with
  | nil => rw [List.findSome?_nil, Option.or_none]; rfl
  | cons n rest ih =>
    show SortedMap.get (stageNames given bundle rest _).defaults key = _
    rw [ih, get_stagePart, Option.or_assoc, List.findSome?_cons]
    cases addedDefault given bundle n key <;> rfl

theorem nodup_keys_stageNames (names : List (List Char))
    {defaults : SortedMap.Map (List Char) (List Char)} (h : (SortedMap.keys defaults).Nodup) :
    (SortedMap.keys (stageNames given bundle names defaults).defaults).Nodup := by
  induction names generalizing defaults with
  | nil => exact h
  | cons n rest ih =>
    refine ih ?_
    rw [stagePart_defaults]
    split
    · exact nodup_keys_orInsert _ _ h
    · exact h

/-- No part has two overrides, and no override is for anything else. -/
theorem overrides_stageNames_sublist (names : List (List Char))
    (defaults : SortedMap.Map (List Char) (List Char)) :
    ((stageNames given bundle names defaults).overrides.map Prod.fst).Sublist names := by
  induction names generalizing defaults with
  | nil => exact List.Sublist.refl _
  | cons n rest ih =>
    show (List.map Prod.fst (_ ++ _)).Sublist (n :: rest)
    rw [List.map_append, List.map_map]
    cases (stagePart given bundle defaults n).2 with
    | none => exact (ih _).cons n
    | some contentType => exact (ih _).cons_cons n

/-- The override of a part is the one that its round pushed. -/
theorem exists_stagePart {names : List (List Char)}
    {defaults : SortedMap.Map (List Char) (List Char)} {n : List Char} (hn : n ∈ names)
    (hnodup : names.Nodup) :
    ∃ before, (∀ key, SortedMap.get (stageNames given bundle names defaults).defaults key =
        (SortedMap.get (stagePart given bundle before n).1 key).or
          (SortedMap.get (stageNames given bundle names defaults).defaults key)) ∧
      ∀ contentType, (n, contentType) ∈ (stageNames given bundle names defaults).overrides ↔
        (stagePart given bundle before n).2 = some contentType := by
  induction names generalizing defaults with
  | nil => exact absurd hn List.not_mem_nil
  | cons m rest ih =>
    rw [List.nodup_cons] at hnodup
    have hoverrides : (stageNames given bundle (m :: rest) defaults).overrides =
        ((stagePart given bundle defaults m).2.toList.map fun contentType => (m, contentType)) ++
          (stageNames given bundle rest (stagePart given bundle defaults m).1).overrides := rfl
    rcases List.mem_cons.mp hn with rfl | hrest
    · refine ⟨defaults, ?_, ?_⟩
      · intro key
        show SortedMap.get (stageNames given bundle rest _).defaults key =
          Option.or _ (SortedMap.get (stageNames given bundle rest _).defaults key)
        rw [get_stageNames]
        cases SortedMap.get (stagePart given bundle defaults n).1 key <;> rfl
      · intro contentType
        have hnot : (n, contentType) ∉
            (stageNames given bundle rest (stagePart given bundle defaults n).1).overrides := by
          intro hmem
          exact hnodup.1 ((overrides_stageNames_sublist rest _).subset
            (List.mem_map_of_mem (f := Prod.fst) hmem))
        rw [hoverrides, List.mem_append, or_iff_left hnot]
        simp [Option.mem_toList]
    · obtain ⟨before, hbefore, hown⟩ := @ih (stagePart given bundle defaults m).1 hrest hnodup.2
      refine ⟨before, hbefore, ?_⟩
      intro contentType
      rw [hoverrides, List.mem_append, ← hown contentType]
      have hne : m ≠ n := fun heq => hnodup.1 (heq ▸ hrest)
      simp [hne]

/-! ## What is staged -/

/-- The parts of a package: their names are different in any case, and none is written by
the signer itself. -/
structure PayloadNames (names : List (List Char)) : Prop where
  normalized : ∀ n ∈ names, normalizeAppxPartName n = .ok n
  distinct : (names.map toAsciiLowercase).Nodup
  reserved : ∀ n ∈ names, ¬ EqIgnoreAsciiCase n (asciiPart blockMap) ∧
    ¬ EqIgnoreAsciiCase n (asciiPart appSignature)

theorem PayloadNames.nodup {names : List (List Char)} (h : PayloadNames names) : names.Nodup :=
  List.Nodup.of_map _ h.distinct

theorem PayloadNames.eq_of_fold {names : List (List Char)} (h : PayloadNames names)
    {n m : List Char} (hn : n ∈ names) (hm : m ∈ names) (hfold : EqIgnoreAsciiCase n m) : n = m :=
  List.inj_on_of_nodup_map h.distinct hn hm hfold

/-- What `appx_content_types_for_signing` writes for parts with these names. -/
def stagedTypes (given : AppxContentTypes) (bundle : Bool) (names : List (List Char)) :
    AppxContentTypes :=
  let staged := stageNames given bundle names (SortedMap.insertAll [] given.defaults)
  { staged with
    overrides := staged.overrides ++
      [(asciiPart blockMap, contentTypeBlockMap), (asciiPart appSignature, contentTypeSignature)] }

theorem stageContentTypes_eq_ok {reader : XmlReader} {existing : Option (List UInt8)}
    {parts : List (List Char)} {staged : AppxContentTypes}
    (h : stageContentTypes reader existing parts bundle = .ok staged) :
    ∃ given, givenContentTypes reader existing = .ok given ∧
      (∀ part ∈ parts, ∃ n, IsPart part n) ∧
      staged = stagedTypes given bundle (partNames parts) := by
  obtain ⟨given, hgiven, h⟩ := Outcome.bind_eq_ok.mp h
  obtain ⟨loop, hloop, h⟩ := Outcome.bind_eq_ok.mp h
  obtain ⟨hparts, rfl⟩ := stageParts_eq_ok hloop
  exact ⟨given, hgiven, hparts, (Except.ok.inj h).symm⟩

variable {names : List (List Char)}

theorem get_insertAll_declared (hgiven : Declares given) (key : List Char) :
    SortedMap.get (SortedMap.insertAll [] given.defaults) key =
      SortedMap.get given.defaults key := by
  cases hkey : SortedMap.get given.defaults key with
  | some value =>
    exact SortedMap.get_insertAll_of_mem hgiven.defaultKeys
      ((SortedMap.get_eq_some_iff_mem hgiven.defaultKeys).mp hkey)
  | none =>
    refine SortedMap.get_insertAll_of_not_mem ?_
    rw [← lookup_isNone_iff, lookup_eq_get, hkey]
    rfl

/-- The defaults of the existing file stand, and the parts without a type add others. -/
theorem get_stagedTypes (hgiven : Declares given) (key : List Char) :
    SortedMap.get (stagedTypes given bundle names).defaults key =
      (SortedMap.get given.defaults key).or
        (names.findSome? fun n => addedDefault given bundle n key) := by
  show SortedMap.get (stageNames given bundle names _).defaults key = _
  rw [get_stageNames, get_insertAll_declared hgiven]

theorem inferredType_ne_nil (n : List Char) : inferredType bundle n ≠ [] := by
  have hmanifest : manifestType bundle ≠ [] := by cases bundle <;> decide
  have hknown : ∀ entry ∈ knownContentTypes, entry.2 ≠ [] := by decide
  rw [inferredType]
  by_cases h : EqIgnoreAsciiCase n (manifestPart bundle)
  · rw [if_pos h]
    exact hmanifest
  · rw [if_neg h, defaultContentTypeForExtension]
    cases hfind : knownContentTypes.find? fun entry => entry.1.toList = leafExtension n with
    | some entry => exact hknown entry (List.mem_of_find?_eq_some hfind)
    | none => decide

theorem leafExtension_lower (n : List Char) :
    toAsciiLowercase (leafExtension n) = leafExtension n := by
  rw [leafExtension]
  cases rsplitOnce '.' ((split '/' n).getLast?.getD []) with
  | none => rfl
  | some parts => exact toAsciiLowercase_toAsciiLowercase parts.2

/-- A mark in an extension is one in the name, and no separator. -/
theorem mem_of_mem_leafExtension {n : List Char} {c : Char}
    (hupper : ¬ (65 ≤ c.toNat ∧ c.toNat ≤ 90)) (hlower : ¬ (97 ≤ c.toNat ∧ c.toNat ≤ 122))
    (h : c ∈ leafExtension n) : c ∈ n ∧ c ≠ '/' := by
  obtain ⟨pre, leaf, hn, hslash, hleaf⟩ := exists_leaf n
  have hmem : c ∈ leaf := by
    simp only [leafExtension, hleaf, Option.getD_some] at h
    cases hsplit : rsplitOnce '.' leaf with
    | none =>
      rw [hsplit] at h
      exact absurd h List.not_mem_nil
    | some parts =>
      obtain ⟨before, ext⟩ := parts
      obtain ⟨rfl, -⟩ := rsplitOnce_eq_some.mp hsplit
      rw [hsplit] at h
      have hext : c ∈ ext := (mem_toAsciiLowercase hupper hlower).mp h
      exact List.mem_append_right _ (List.mem_cons_of_mem _ hext)
  constructor
  · exact hn ▸ List.mem_append_right _ hmem
  · exact ne_of_mem_of_not_mem hmem hslash

theorem addedDefault_eq_some {n key value : List Char}
    (h : addedDefault given bundle n key = some value) :
    explicitType given n = none ∧ leafExtension n ≠ [] ∧ key = leafExtension n ∧
      value = inferredType bundle n := by
  rw [addedDefault] at h
  by_cases hall : explicitType given n = none ∧ leafExtension n ≠ [] ∧ key = leafExtension n
  · rw [if_pos hall] at h
    exact ⟨hall.1, hall.2.1, hall.2.2, (Option.some.inj h).symm⟩
  · rw [if_neg hall] at h
    cases h

theorem nodup_keys_stagedTypes (hgiven : Declares given) :
    (SortedMap.keys (stagedTypes given bundle names).defaults).Nodup :=
  nodup_keys_stageNames names
    (SortedMap.nodup_keys_insertAll List.nodup_nil hgiven.defaultKeys
      fun _ _ => List.not_mem_nil)

/-- A staged default is one that the reader takes. -/
theorem default_stagedTypes (hgiven : Declares given) (hnames : PayloadNames names) :
    ∀ entry ∈ (stagedTypes given bundle names).defaults,
      entry.1 ≠ [] ∧ '/' ∉ entry.1 ∧ '\\' ∉ entry.1 ∧ toAsciiLowercase entry.1 = entry.1 ∧
        entry.2 ≠ [] := by
  intro entry hentry
  have hget := (SortedMap.get_eq_some_iff_mem (nodup_keys_stagedTypes hgiven)).mpr hentry
  rw [get_stagedTypes hgiven, Option.or_eq_some_iff] at hget
  rcases hget with hget | ⟨-, hget⟩
  · exact hgiven.default entry ((SortedMap.get_eq_some_iff_mem hgiven.defaultKeys).mp hget)
  · obtain ⟨n, hn, hadded⟩ := List.exists_of_findSome?_eq_some hget
    obtain ⟨-, hne, hkey, hvalue⟩ := addedDefault_eq_some hadded
    rw [hkey, hvalue]
    refine ⟨hne, ?_, ?_, leafExtension_lower n, inferredType_ne_nil n⟩
    · intro hmem
      exact (mem_of_mem_leafExtension (by decide) (by decide) hmem).2 rfl
    · intro hmem
      exact not_mem_of_normalizeAppxPartName (hnames.normalized n hn)
        (mem_of_mem_leafExtension (by decide) (by decide) hmem).1

/-- The override of a part is not empty. -/
theorem own_ne_nil (hgiven : Declares given) {before : SortedMap.Map (List Char) (List Char)}
    {n value : List Char} (h : (stagePart given bundle before n).2 = some value) : value ≠ [] := by
  by_cases hmanifest : EqIgnoreAsciiCase n (manifestPart bundle)
  · rw [stagePart_manifest before hmanifest] at h
    split at h
    · cases h
    · rw [← Option.some.inj h]
      cases bundle <;> decide
  · rw [stagePart_payload before hmanifest, Option.or_eq_some_iff] at h
    rcases h with h | ⟨-, h⟩
    · rw [explicitType, lookup_eq_get] at h
      have hmem := SortedMap.mem_of_get h
      exact hgiven.override _ hmem
    · split at h
      · rw [← Option.some.inj h]
        decide
      · cases h

theorem override_stagedTypes (hgiven : Declares given) (hnames : PayloadNames names) :
    ∀ entry ∈ (stagedTypes given bundle names).overrides, entry.2 ≠ [] := by
  intro entry hentry
  rcases List.mem_append.mp hentry with hentry | hentry
  · have hn : entry.1 ∈ names :=
      (overrides_stageNames_sublist names _).subset (List.mem_map_of_mem hentry)
    obtain ⟨before, -, hown⟩ := exists_stagePart hn hnames.nodup
    exact own_ne_nil hgiven ((hown entry.2).mp hentry)
  · rcases List.mem_cons.mp hentry with rfl | hentry
    · decide
    · rw [List.mem_singleton.mp hentry]
      decide

/-- The overrides have the names of parts, of the block map and of the signature. -/
theorem overrideKeys_stagedTypes (hnames : PayloadNames names) :
    ((stagedTypes given bundle names).overrides.map fun entry =>
      toAsciiLowercase entry.1).Nodup := by
  have hsub := (@overrides_stageNames_sublist given bundle names
    (SortedMap.insertAll [] given.defaults)).map toAsciiLowercase
  have hkeys : ((stagedTypes given bundle names).overrides.map fun entry =>
      toAsciiLowercase entry.1) =
      ((stageNames given bundle names (SortedMap.insertAll [] given.defaults)).overrides.map
        Prod.fst).map toAsciiLowercase ++
      [toAsciiLowercase (asciiPart blockMap), toAsciiLowercase (asciiPart appSignature)] := by
    rw [stagedTypes, List.map_append, List.map_map]
    rfl
  rw [hkeys, List.nodup_append]
  refine ⟨hnames.distinct.sublist hsub, by decide, ?_⟩
  intro key hkey other hother heq
  obtain ⟨n, hn, rfl⟩ := List.mem_map.mp (hsub.subset hkey)
  have hreserved := hnames.reserved n hn
  rcases List.mem_cons.mp hother with rfl | hother
  · exact hreserved.1 heq
  · exact hreserved.2 (heq.trans (List.mem_singleton.mp hother))

theorem writable_stagedTypes (hgiven : Declares given) (hnames : PayloadNames names) :
    Writable (stagedTypes given bundle names) where
  defaultKeys := nodup_keys_stagedTypes hgiven
  default := default_stagedTypes hgiven hnames
  override := override_stagedTypes hgiven hnames
  normalized := by
    intro entry hentry
    rcases List.mem_append.mp hentry with hentry | hentry
    · exact hnames.normalized entry.1
        ((overrides_stageNames_sublist names _).subset (List.mem_map_of_mem hentry))
    · rcases List.mem_cons.mp hentry with rfl | hentry
      · decide
      · rw [List.mem_singleton.mp hentry]
        decide
  overrideKeys := overrideKeys_stagedTypes hnames

end Psign.Sip.Appx
