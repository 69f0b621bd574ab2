import Psign.Sip.AppxStaging

/-!
# Staged content types and the verifier

A part has the type of its override, else the default of its extension
(`contentTypeForPart_eq`).  For what was staged and read back, this is the type that the
existing file declares, where it declares one (`contentTypeForPart_payload`), and for the
manifest the forced one, unless the existing file has an override with that type: then
nothing is written for it, and the default of its extension decides
(`manifestDefault_iff_any`).

`staged_accepted_iff` puts this together: it says for which existing files and parts the
verifier accepts what is written.  `manifest_override_forgotten` is a package for which it
does not.
-/

namespace Psign.Sip.Appx

open CodeLib CodeLib.RustStr

variable {given : AppxContentTypes} {bundle : Bool} {names : List (List Char)}

/-! ## What is read back -/

theorem lookup_readBack_default {types : AppxContentTypes}
    (hkeys : (SortedMap.keys types.defaults).Nodup) (key : List Char) :
    (readBack types).defaults.lookup key = SortedMap.get types.defaults key := by
  have hreverse : (SortedMap.keys types.defaults.reverse).Nodup := by
    show (types.defaults.reverse.map Prod.fst).Nodup
    rw [List.map_reverse, List.nodup_reverse]
    exact hkeys
  rw [lookup_eq_get]
  apply Option.ext
  intro value
  show SortedMap.get types.defaults.reverse key = some value ↔ _
  rw [SortedMap.get_eq_some_iff_mem hreverse, SortedMap.get_eq_some_iff_mem hkeys,
    List.mem_reverse]

theorem lookup_readBack_override {types : AppxContentTypes}
    (hkeys : (types.overrides.map fun entry => toAsciiLowercase entry.1).Nodup)
    (n value : List Char) :
    (readBack types).overrides.lookup (toAsciiLowercase n) = some value ↔
      ∃ m, (m, value) ∈ types.overrides ∧ EqIgnoreAsciiCase m n := by
  have hreverse : (SortedMap.keys (readBack types).overrides).Nodup := by
    show ((types.overrides.map _).reverse.map Prod.fst).Nodup
    rw [List.map_reverse, List.nodup_reverse, List.map_map]
    exact hkeys
  rw [lookup_eq_get, SortedMap.get_eq_some_iff_mem hreverse, readBack, List.mem_reverse,
    List.mem_map]
  constructor
  · intro h
    obtain ⟨⟨m, found⟩, hm, heq⟩ := h
    obtain ⟨hfold, rfl⟩ := Prod.mk.inj heq
    exact ⟨m, hm, hfold⟩
  · intro h
    obtain ⟨m, hm, hfold⟩ := h
    exact ⟨(m, value), hm, Prod.ext hfold rfl⟩

/-- The type of a part, by the override of its name and the default of its extension. -/
theorem contentTypeForPart_eq {types : AppxContentTypes} {part n : List Char}
    (hpart : IsPart part n) (hdefaults : ∀ entry ∈ types.defaults, entry.1 ≠ [] ∧ '/' ∉ entry.1) :
    contentTypeForPart types part =
      (types.overrides.lookup (toAsciiLowercase n)).or
        (types.defaults.lookup (leafExtension n)) := by
  have hnone : ∀ {key : List Char}, key = [] ∨ '/' ∈ key → types.defaults.lookup key = none := by
    intro key hkey
    rw [lookup_eq_get, Option.eq_none_iff_forall_ne_some]
    intro value hvalue
    have hentry := hdefaults _ (SortedMap.mem_of_get hvalue)
    rcases hkey with hkey | hkey
    · exact hentry.1 hkey
    · exact hentry.2 hkey
  have hwhole : (wholeExtension n).bind (fun ext => types.defaults.lookup ext) =
      types.defaults.lookup (leafExtension n) := by
    by_cases hleaf : leafExtension n = []
    · rw [hnone (.inl hleaf)]
      cases hext : wholeExtension n with
      | none => rfl
      | some ext =>
        apply hnone
        by_cases hslash : '/' ∈ ext
        · exact .inr hslash
        · exact .inl ((leafExtension_of_whole hext hslash).symm.trans hleaf)
    · rw [wholeExtension_of_leaf hleaf]
      rfl
  rw [contentTypeForPart, Outcome.toOption_eq_some.mpr hpart, ← hwhole]
  rw [Option.bind_eq_bind, Option.bind_some]
  cases hover : types.overrides.lookup (toAsciiLowercase n) with
  | some contentType => rfl
  | none =>
    rw [wholeExtension]
    cases rsplitOnce '.' n <;> rfl

theorem contentTypeForPart_given (hgiven : Declares given) {part n : List Char}
    (hpart : IsPart part n) :
    contentTypeForPart given part =
      (explicitType given n).or (SortedMap.get given.defaults (leafExtension n)) := by
  rw [contentTypeForPart_eq hpart
    fun entry hentry => ⟨(hgiven.default entry hentry).1, (hgiven.default entry hentry).2.1⟩,
    ← lookup_eq_get]
  rfl

theorem contentTypeForPart_staged (hgiven : Declares given) (hnames : PayloadNames names)
    {part n : List Char} (hpart : IsPart part n) :
    contentTypeForPart (readBack (stagedTypes given bundle names)) part =
      ((readBack (stagedTypes given bundle names)).overrides.lookup (toAsciiLowercase n)).or
        (SortedMap.get (stagedTypes given bundle names).defaults (leafExtension n)) := by
  have hdefaults := @default_stagedTypes given bundle names hgiven hnames
  rw [contentTypeForPart_eq hpart, lookup_readBack_default (nodup_keys_stagedTypes hgiven)]
  intro entry hentry
  have hentry := hdefaults entry (List.mem_reverse.mp hentry)
  exact ⟨hentry.1, hentry.2.1⟩

/-- The override of a part is the one of its round. -/
theorem exists_own (hnames : PayloadNames names) {n : List Char} (hn : n ∈ names) :
    ∃ before, (∀ key, SortedMap.get (stagedTypes given bundle names).defaults key =
        (SortedMap.get (stagePart given bundle before n).1 key).or
          (SortedMap.get (stagedTypes given bundle names).defaults key)) ∧
      (readBack (stagedTypes given bundle names)).overrides.lookup (toAsciiLowercase n) =
        (stagePart given bundle before n).2 := by
  obtain ⟨before, hbefore, hown⟩ := @exists_stagePart given bundle names
    (SortedMap.insertAll [] given.defaults) n hn hnames.nodup
  refine ⟨before, hbefore, ?_⟩
  apply Option.ext
  intro value
  rw [lookup_readBack_override (overrideKeys_stagedTypes hnames), ← hown value]
  constructor
  · intro h
    obtain ⟨m, hm, hfold⟩ := h
    rcases List.mem_append.mp hm with hm | hm
    · have hmem : m ∈ names :=
        (overrides_stageNames_sublist names _).subset (List.mem_map_of_mem (f := Prod.fst) hm)
      exact hnames.eq_of_fold hmem hn hfold ▸ hm
    · have hreserved := hnames.reserved n hn
      rcases List.mem_cons.mp hm with heq | hm
      · exact absurd ((Prod.mk.inj heq).1 ▸ hfold).symm hreserved.1
      · exact absurd ((Prod.mk.inj (List.mem_singleton.mp hm)).1 ▸ hfold).symm hreserved.2
  · intro h
    exact ⟨n, List.mem_append_left _ h, rfl⟩

theorem lookup_readBack_of_not_part (hnames : PayloadNames names) {n : List Char}
    (hn : ∀ m ∈ names, ¬ EqIgnoreAsciiCase m n)
    (hreserved : ¬ EqIgnoreAsciiCase (asciiPart blockMap) n ∧
      ¬ EqIgnoreAsciiCase (asciiPart appSignature) n) :
    (readBack (stagedTypes given bundle names)).overrides.lookup (toAsciiLowercase n) = none := by
  rw [Option.eq_none_iff_forall_ne_some]
  intro value hvalue
  obtain ⟨m, hm, hfold⟩ :=
    (lookup_readBack_override (overrideKeys_stagedTypes hnames) n value).mp hvalue
  rcases List.mem_append.mp hm with hm | hm
  · exact hn m ((overrides_stageNames_sublist names _).subset
      (List.mem_map_of_mem (f := Prod.fst) hm)) hfold
  · rcases List.mem_cons.mp hm with heq | hm
    · exact hreserved.1 ((Prod.mk.inj heq).1 ▸ hfold)
    · exact hreserved.2 ((Prod.mk.inj (List.mem_singleton.mp hm)).1 ▸ hfold)

/-! ## The types of the parts -/

/-- The package has the code integrity catalog among these parts. -/
def inventoryOf (parts : List (List Char)) : AppxPackageInventory :=
  ⟨parts.any fun part => normalizeAppxPartName part = .ok (asciiPart codeIntegrity)⟩

/-- The type that `validate_reserved_content_types` wants for the code integrity catalog. -/
def contentTypeCodeIntegrity : List Char :=
  "application/".toList ++ "vnd.ms-pkiseccat".toList

/-- What the verifier asks of the written file, and what is kept of the existing one. -/
def StagedAccepted (reader : XmlReader) (given : AppxContentTypes) (bundle : Bool) (ext : List Char)
    (parts : List (List Char)) (xml : List Char) : Prop :=
  ∃ types, validateContentTypesXml reader (Unicode.utf8Encode xml) = .ok types ∧
    validateReservedContentTypes types (inventoryOf parts) ext = .ok () ∧
    (∀ part ∈ parts, (contentTypeForPart types part).isSome = true) ∧
    ∀ part ∈ parts, ∀ n, IsPart part n → ¬ EqIgnoreAsciiCase n (manifestPart bundle) →
      ∀ contentType, contentTypeForPart given part = some contentType →
        contentTypeForPart types part = some contentType

/-- The default of the extension `xml` will be the type of the manifest: it is the one of
the existing file, or that file has none and some part without an override adds one. -/
def ManifestDefault (given : AppxContentTypes) (bundle : Bool) (parts : List (List Char)) : Prop :=
  match given.defaults.lookup "xml".toList with
  | some contentType => isManifestType bundle contentType = true
  | none => bundle = false ∧ ∃ part ∈ parts, ∃ n, IsPart part n ∧
      ¬ EqIgnoreAsciiCase n (manifestPart bundle) ∧ explicitType given n = none ∧
      leafExtension n = "xml".toList

/-- When the written file is accepted: the manifest is a part whose type is not right in an
override that the existing file has for it, or the default is right; and what the existing
file declares for the code integrity catalog is right. -/
structure TypesSuffice (given : AppxContentTypes) (bundle : Bool) (parts : List (List Char)) :
    Prop where
  manifest : (∃ part ∈ parts, ∃ n, IsPart part n ∧ EqIgnoreAsciiCase n (manifestPart bundle) ∧
      ¬ (explicitType given n).any (isManifestType bundle) = true) ∨
    ManifestDefault given bundle parts
  codeIntegrity : ∀ part ∈ parts, IsPart part (asciiPart codeIntegrity) → ∀ contentType,
    contentTypeForPart given part = some contentType →
      EqIgnoreAsciiCase contentType contentTypeCodeIntegrity

/-- A part keeps the type that it had; without one it gets one. -/
theorem contentTypeForPart_payload (hgiven : Declares given) (hnames : PayloadNames names)
    {part n : List Char} (hpart : IsPart part n) (hn : n ∈ names)
    (hmanifest : ¬ EqIgnoreAsciiCase n (manifestPart bundle)) :
    contentTypeForPart (readBack (stagedTypes given bundle names)) part =
      (contentTypeForPart given part).or
        (if leafExtension n = [] then some contentTypeOctets
        else names.findSome? fun m => addedDefault given bundle m (leafExtension n)) := by
  obtain ⟨before, -, hown⟩ := @exists_own given bundle names hnames n hn
  rw [contentTypeForPart_staged hgiven hnames hpart, hown, stagePart_payload before hmanifest,
    contentTypeForPart_given hgiven hpart, get_stagedTypes hgiven]
  cases explicitType given n with
  | some contentType => rfl
  | none =>
    by_cases hleaf : leafExtension n = []
    · have hnone : SortedMap.get given.defaults (leafExtension n) = none := by
        rw [Option.eq_none_iff_forall_ne_some]
        intro value hvalue
        exact (hgiven.default _ (SortedMap.mem_of_get hvalue)).1 hleaf
      rw [if_pos hleaf, if_pos hleaf, hnone]
      rfl
    · rw [if_neg hleaf, if_neg hleaf]
      rfl

theorem addedDefault_isSome {n : List Char} (hexplicit : explicitType given n = none)
    (hleaf : leafExtension n ≠ []) :
    addedDefault given bundle n (leafExtension n) = some (inferredType bundle n) :=
  if_pos ⟨hexplicit, hleaf, rfl⟩

theorem findSome?_isSome {n key value : List Char} (hn : n ∈ names)
    (h : addedDefault given bundle n key = some value) :
    ∃ found, (names.findSome? fun m => addedDefault given bundle m key) = some found := by
  apply Option.isSome_iff_exists.mp
  rw [List.findSome?_isSome_iff]
  exact ⟨n, hn, h ▸ rfl⟩

theorem contentTypeForPart_payload_isSome (hgiven : Declares given) (hnames : PayloadNames names)
    {part n : List Char} (hpart : IsPart part n) (hn : n ∈ names)
    (hmanifest : ¬ EqIgnoreAsciiCase n (manifestPart bundle)) :
    (contentTypeForPart (readBack (stagedTypes given bundle names)) part).isSome = true := by
  rw [contentTypeForPart_payload hgiven hnames hpart hn hmanifest,
    contentTypeForPart_given hgiven hpart]
  cases hexplicit : explicitType given n with
  | some contentType => rfl
  | none =>
    by_cases hleaf : leafExtension n = []
    · rw [if_pos hleaf]
      cases SortedMap.get given.defaults (leafExtension n) <;> rfl
    · obtain ⟨found, hfound⟩ :=
        findSome?_isSome hn (@addedDefault_isSome given bundle n hexplicit hleaf)
      rw [if_neg hleaf, hfound]
      cases SortedMap.get given.defaults (leafExtension n) <;> rfl

/-! ### The manifest -/

theorem isPart_manifest : IsPart (manifestPart bundle) (manifestPart bundle) := by
  cases bundle <;> decide

theorem not_reserved_manifest : ¬ EqIgnoreAsciiCase (asciiPart blockMap) (manifestPart bundle) ∧
    ¬ EqIgnoreAsciiCase (asciiPart appSignature) (manifestPart bundle) := by
  cases bundle <;> decide

theorem isManifestType_manifestType : isManifestType bundle (manifestType bundle) = true := by
  cases bundle <;> decide

theorem isManifestType_contentTypeManifest :
    isManifestType bundle contentTypeManifest = true ↔ bundle = false := by
  cases bundle <;> decide

/-- A manifest whose existing override is not right, or that has none, gets its type. -/
theorem any_manifest_of_not_explicit (hgiven : Declares given) (hnames : PayloadNames names)
    {n : List Char} (hn : n ∈ names) (hmanifest : EqIgnoreAsciiCase n (manifestPart bundle))
    (hexplicit : ¬ (explicitType given n).any (isManifestType bundle) = true) :
    (contentTypeForPart (readBack (stagedTypes given bundle names)) (manifestPart bundle)).any
      (isManifestType bundle) = true := by
  obtain ⟨before, hbefore, hown⟩ := @exists_own given bundle names hnames n hn
  have hleaf : leafExtension (manifestPart bundle) = leafExtension n :=
    (leafExtension_manifest rfl).trans (leafExtension_manifest hmanifest).symm
  rw [contentTypeForPart_staged hgiven hnames isPart_manifest, ← hmanifest, hown, hleaf,
    stagePart_manifest before hmanifest, hbefore]
  cases hgot : explicitType given n with
  | some contentType =>
    rw [hgot] at hexplicit
    rw [if_neg (show ¬ (Option.or (some contentType) _).any (isManifestType bundle) = true from
      hexplicit)]
    exact isManifestType_manifestType
  | none =>
    by_cases hdefault : (SortedMap.get (stagePart given bundle before n).1 (leafExtension n)).any
        (isManifestType bundle) = true
    · rw [Option.none_or, if_pos hdefault]
      cases hvalue : SortedMap.get (stagePart given bundle before n).1 (leafExtension n) with
      | none =>
        rw [hvalue] at hdefault
        cases hdefault
      | some value =>
        rw [hvalue] at hdefault
        exact hdefault
    · rw [Option.none_or, if_neg hdefault]
      exact isManifestType_manifestType

theorem defaultContentTypeForExtension_xml :
    defaultContentTypeForExtension "xml".toList = contentTypeManifest := by decide

/-- Otherwise the manifest has the default of its extension. -/
theorem manifestDefault_iff_any {parts : List (List Char)} (hgiven : Declares given)
    (hnames : PayloadNames (partNames parts))
    (hright : ∀ n ∈ partNames parts, EqIgnoreAsciiCase n (manifestPart bundle) →
      (explicitType given n).any (isManifestType bundle) = true) :
    (contentTypeForPart (readBack (stagedTypes given bundle (partNames parts)))
      (manifestPart bundle)).any (isManifestType bundle) = true ↔
        ManifestDefault given bundle parts := by
  have hxml : leafExtension (manifestPart bundle) = "xml".toList := leafExtension_manifest rfl
  have hlookup : (readBack (stagedTypes given bundle (partNames parts))).overrides.lookup
      (toAsciiLowercase (manifestPart bundle)) = none := by
    by_cases hpart : ∃ n ∈ partNames parts, EqIgnoreAsciiCase n (manifestPart bundle)
    · obtain ⟨n, hn, hmanifest⟩ := hpart
      obtain ⟨before, -, hown⟩ := @exists_own given bundle _ hnames n hn
      have hexplicit := hright n hn hmanifest
      rw [← hmanifest, hown, stagePart_manifest before hmanifest]
      cases hgot : explicitType given n with
      | none =>
        rw [hgot] at hexplicit
        cases hexplicit
      | some contentType =>
        rw [hgot] at hexplicit
        exact if_pos hexplicit
    · push Not at hpart
      exact lookup_readBack_of_not_part hnames hpart not_reserved_manifest
  -- only parts without a declaration add a default, and none of them is the manifest
  have hadds : ∀ n ∈ partNames parts, ∀ value,
      addedDefault given bundle n "xml".toList = some value →
        value = contentTypeManifest ∧ explicitType given n = none ∧
          leafExtension n = "xml".toList ∧ ¬ EqIgnoreAsciiCase n (manifestPart bundle) := by
    intro n hn value hvalue
    obtain ⟨hexplicit, -, hkey, rfl⟩ := addedDefault_eq_some hvalue
    have hmanifest : ¬ EqIgnoreAsciiCase n (manifestPart bundle) := by
      intro hmanifest
      have hany := hright n hn hmanifest
      rw [hexplicit] at hany
      cases hany
    refine ⟨?_, hexplicit, hkey.symm, hmanifest⟩
    rw [inferredType, if_neg hmanifest, ← hkey, defaultContentTypeForExtension_xml]
  rw [contentTypeForPart_staged hgiven hnames isPart_manifest, hlookup, Option.none_or, hxml,
    get_stagedTypes hgiven, ManifestDefault, lookup_eq_get]
  cases SortedMap.get given.defaults "xml".toList with
  | some contentType => exact Iff.rfl
  | none =>
    rw [Option.none_or]
    constructor
    · intro hany
      cases hfound : (partNames parts).findSome? fun n =>
          addedDefault given bundle n "xml".toList with
      | none =>
        rw [hfound] at hany
        cases hany
      | some value =>
        rw [hfound] at hany
        obtain ⟨n, hn, hvalue⟩ := List.exists_of_findSome?_eq_some hfound
        obtain ⟨rfl, hexplicit, hleaf, hmanifest⟩ := hadds n hn value hvalue
        obtain ⟨part, hpart, hname⟩ := mem_partNames.mp hn
        exact ⟨isManifestType_contentTypeManifest.mp hany, part, hpart, n, hname, hmanifest,
          hexplicit, hleaf⟩
    · intro h
      obtain ⟨hbundle, part, hpart, n, hname, hmanifest, hexplicit, hleaf⟩ := h
      have hn : n ∈ partNames parts := mem_partNames.mpr ⟨part, hpart, hname⟩
      have hadded := @addedDefault_isSome given bundle n hexplicit (hleaf ▸ by decide)
      rw [hleaf] at hadded
      obtain ⟨found, hfound⟩ := findSome?_isSome hn hadded
      obtain ⟨m, hm, hvalue⟩ := List.exists_of_findSome?_eq_some hfound
      rw [hfound, (hadds m hm found hvalue).1]
      exact isManifestType_contentTypeManifest.mpr hbundle

/-! ### The other reserved parts -/

theorem requireContentType_iff {types : AppxContentTypes} {part : List UInt8} {expected : String} :
    requireContentType types part expected = .ok () ↔
      ∃ contentType, contentTypeForPart types (asciiPart part) = some contentType ∧
        EqIgnoreAsciiCase contentType expected.toList := by
  rw [requireContentType, Outcome.bind_eq_ok]
  simp only [Outcome.ofOption_eq_ok, Outcome.guardThat_eq_ok]

theorem isPart_codeIntegrity :
    IsPart (asciiPart codeIntegrity) (asciiPart codeIntegrity) := by decide

/-- The code integrity catalog has its type, unless the existing file says otherwise. -/
theorem contentTypeForPart_codeIntegrity (hgiven : Declares given) (hnames : PayloadNames names)
    {part : List Char} (hpart : IsPart part (asciiPart codeIntegrity))
    (hn : asciiPart codeIntegrity ∈ names) :
    contentTypeForPart (readBack (stagedTypes given bundle names)) part =
      (contentTypeForPart given part).or (some contentTypeCodeIntegrity) := by
  have hmanifest : ¬ EqIgnoreAsciiCase (asciiPart codeIntegrity) (manifestPart bundle) := by
    cases bundle <;> decide
  have hleaf : leafExtension (asciiPart codeIntegrity) = "cat".toList := by decide
  have hcat : defaultContentTypeForExtension "cat".toList = contentTypeCodeIntegrity := by
    decide
  rw [contentTypeForPart_payload hgiven hnames hpart hn hmanifest,
    contentTypeForPart_given hgiven hpart, hleaf, if_neg (by decide)]
  cases hexplicit : explicitType given (asciiPart codeIntegrity) with
  | some contentType => rfl
  | none =>
    have hadded := @addedDefault_isSome given bundle _ hexplicit (hleaf ▸ by decide)
    rw [hleaf] at hadded
    obtain ⟨found, hfound⟩ := findSome?_isSome hn hadded
    obtain ⟨m, hm, hvalue⟩ := List.exists_of_findSome?_eq_some hfound
    obtain ⟨-, -, hkey, rfl⟩ := addedDefault_eq_some hvalue
    have hother : ¬ EqIgnoreAsciiCase m (manifestPart bundle) := by
      intro hsame
      rw [leafExtension_manifest hsame] at hkey
      exact absurd hkey (by decide)
    rw [hfound, inferredType, if_neg hother, ← hkey, hcat]

/-- The type of a part that the signer itself writes. -/
theorem contentTypeForPart_written (hgiven : Declares given) (hnames : PayloadNames names)
    {n contentType : List Char} (hpart : IsPart n n)
    (hn : (n, contentType) ∈ (stagedTypes given bundle names).overrides) :
    contentTypeForPart (readBack (stagedTypes given bundle names)) n = some contentType := by
  have hlookup := (lookup_readBack_override
    (@overrideKeys_stagedTypes given bundle names hnames) n contentType).mpr ⟨n, hn, rfl⟩
  rw [contentTypeForPart_staged hgiven hnames hpart, hlookup]
  rfl

/-! ## The written file and the verifier -/

theorem contentType_blockMap :
    contentTypeBlockMap = "application/vnd.ms-appx.blockmap+xml".toList := by decide

theorem contentType_signature :
    contentTypeSignature = "application/vnd.ms-appx.signature".toList := by decide

theorem contentType_codeIntegrity :
    contentTypeCodeIntegrity = "application/vnd.ms-pkiseccat".toList := by decide

/-- The manifest has the type that the verifier asks for. -/
theorem any_manifest_iff {parts : List (List Char)} (hgiven : Declares given)
    (hnames : PayloadNames (partNames parts)) :
    (contentTypeForPart (readBack (stagedTypes given bundle (partNames parts)))
      (manifestPart bundle)).any (isManifestType bundle) = true ↔
        (∃ part ∈ parts, ∃ n, IsPart part n ∧ EqIgnoreAsciiCase n (manifestPart bundle) ∧
          ¬ (explicitType given n).any (isManifestType bundle) = true) ∨
        ManifestDefault given bundle parts := by
  by_cases hwrong : ∃ part ∈ parts, ∃ n, IsPart part n ∧
      EqIgnoreAsciiCase n (manifestPart bundle) ∧
      ¬ (explicitType given n).any (isManifestType bundle) = true
  · obtain ⟨part, hpart, n, hname, hmanifest, hexplicit⟩ := hwrong
    have hany := any_manifest_of_not_explicit hgiven hnames
      (mem_partNames.mpr ⟨part, hpart, hname⟩) hmanifest hexplicit
    exact iff_of_true hany (.inl ⟨part, hpart, n, hname, hmanifest, hexplicit⟩)
  · have hright : ∀ n ∈ partNames parts, EqIgnoreAsciiCase n (manifestPart bundle) →
        (explicitType given n).any (isManifestType bundle) = true := by
      intro n hn hmanifest
      by_contra hexplicit
      obtain ⟨part, hpart, hname⟩ := mem_partNames.mp hn
      exact hwrong ⟨part, hpart, n, hname, hmanifest, hexplicit⟩
    rw [manifestDefault_iff_any hgiven hnames hright, or_iff_right hwrong]

/-- The reserved parts are accepted when the manifest and the code integrity catalog are. -/
theorem validateReservedContentTypes_iff {parts : List (List Char)} {ext : List Char}
    (hgiven : Declares given) (hnames : PayloadNames (partNames parts))
    (hext : isBundleExtension ext = bundle) :
    validateReservedContentTypes (readBack (stagedTypes given bundle (partNames parts)))
        (inventoryOf parts) ext = .ok () ↔ TypesSuffice given bundle parts := by
  have hblockMap : requireContentType (readBack (stagedTypes given bundle (partNames parts)))
      blockMap "application/vnd.ms-appx.blockmap+xml" = .ok () := by
    refine requireContentType_iff.mpr ⟨contentTypeBlockMap, ?_, ?_⟩
    · exact contentTypeForPart_written hgiven hnames (by decide)
        (List.mem_append_right _ List.mem_cons_self)
    · exact contentType_blockMap ▸ rfl
  have hsignature : requireContentType (readBack (stagedTypes given bundle (partNames parts)))
      appSignature "application/vnd.ms-appx.signature" = .ok () := by
    refine requireContentType_iff.mpr ⟨contentTypeSignature, ?_, ?_⟩
    · exact contentTypeForPart_written hgiven hnames (by decide)
        (List.mem_append_right _ (List.mem_cons_of_mem _ List.mem_cons_self))
    · exact contentType_signature ▸ rfl
  have hcodeIntegrity : (if (inventoryOf parts).hasCodeIntegrity then
        requireContentType (readBack (stagedTypes given bundle (partNames parts)))
          codeIntegrity "application/vnd.ms-pkiseccat"
      else pure ()) = .ok () ↔
      ∀ part ∈ parts, IsPart part (asciiPart codeIntegrity) → ∀ contentType,
        contentTypeForPart given part = some contentType →
          EqIgnoreAsciiCase contentType contentTypeCodeIntegrity := by
    by_cases hin : ∃ part ∈ parts, IsPart part (asciiPart codeIntegrity)
    · obtain ⟨part, hpart, hname⟩ := hin
      have hhas : (inventoryOf parts).hasCodeIntegrity = true :=
        List.any_eq_true.mpr ⟨part, hpart, decide_eq_true hname⟩
      have hsame : ∀ other, IsPart other (asciiPart codeIntegrity) →
          contentTypeForPart given other = contentTypeForPart given (asciiPart codeIntegrity) := by
        intro other hother
        rw [contentTypeForPart_given hgiven hother,
          contentTypeForPart_given hgiven isPart_codeIntegrity]
      rw [if_pos hhas, requireContentType_iff, contentTypeForPart_codeIntegrity hgiven hnames
        isPart_codeIntegrity (mem_partNames.mpr ⟨part, hpart, hname⟩), ← contentType_codeIntegrity]
      constructor
      · intro h other hother hotherName contentType hcontentType
        obtain ⟨found, hfound, heq⟩ := h
        rw [← hsame other hotherName, hcontentType] at hfound
        exact Option.some.inj hfound ▸ heq
      · intro h
        cases hexisting : contentTypeForPart given (asciiPart codeIntegrity) with
        | none => exact ⟨contentTypeCodeIntegrity, rfl, rfl⟩
        | some contentType =>
          refine ⟨contentType, rfl, h part hpart hname contentType ?_⟩
          rw [hsame part hname, hexisting]
    · have hhas : ¬ (inventoryOf parts).hasCodeIntegrity = true := by
        intro hany
        obtain ⟨part, hpart, hname⟩ := List.any_eq_true.mp hany
        exact hin ⟨part, hpart, of_decide_eq_true hname⟩
      rw [if_neg hhas]
      refine iff_of_true rfl ?_
      intro part hpart hname
      exact absurd ⟨part, hpart, hname⟩ hin
  have hmanifest : (if isBundleExtension ext then
        requireContentType (readBack (stagedTypes given bundle (partNames parts)))
          bundleManifest "application/vnd.ms-appx.bundlemanifest+xml"
      else requireContentType (readBack (stagedTypes given bundle (partNames parts)))
          appManifest "application/vnd.ms-appx.manifest+xml") = .ok () ↔
      (contentTypeForPart (readBack (stagedTypes given bundle (partNames parts)))
        (manifestPart bundle)).any (isManifestType bundle) = true := by
    have hany : ∀ found : Option (List Char), found.any (isManifestType bundle) = true ↔
        ∃ contentType, found = some contentType ∧
          EqIgnoreAsciiCase contentType (manifestType bundle) := by
      intro found
      simp only [Option.any_eq_true, isManifestType, decide_eq_true_eq]
    rw [hext, hany]
    cases bundle with
    | true =>
      rw [if_pos rfl, requireContentType_iff, show manifestType true =
        "application/vnd.ms-appx.bundlemanifest+xml".toList by decide]
      rfl
    | false =>
      rw [if_neg Bool.false_ne_true, requireContentType_iff, show manifestType false =
        "application/vnd.ms-appx.manifest+xml".toList by decide]
      rfl
  have hsplit : validateReservedContentTypes
      (readBack (stagedTypes given bundle (partNames parts))) (inventoryOf parts) ext = .ok () ↔
      (if (inventoryOf parts).hasCodeIntegrity then
          requireContentType (readBack (stagedTypes given bundle (partNames parts)))
            codeIntegrity "application/vnd.ms-pkiseccat"
        else pure ()) = .ok () ∧
      (if isBundleExtension ext then
          requireContentType (readBack (stagedTypes given bundle (partNames parts)))
            bundleManifest "application/vnd.ms-appx.bundlemanifest+xml"
        else requireContentType (readBack (stagedTypes given bundle (partNames parts)))
            appManifest "application/vnd.ms-appx.manifest+xml") = .ok () := by
    rw [validateReservedContentTypes, hblockMap, Outcome.ok_bind, hsignature, Outcome.ok_bind]
    by_cases hhas : (inventoryOf parts).hasCodeIntegrity = true
    · simp only [if_pos hhas]
      rw [Outcome.bind_eq_ok]
      constructor
      · intro h
        obtain ⟨_, hcode, h⟩ := h
        exact ⟨hcode, h⟩
      · exact fun h => ⟨(), h⟩
    · simp only [if_neg hhas]
      exact ⟨fun h => ⟨rfl, h⟩, fun h => h.2⟩
  rw [hsplit, hcodeIntegrity, hmanifest, any_manifest_iff hgiven hnames]
  exact ⟨fun h => ⟨h.2, h.1⟩, fun h => ⟨h.codeIntegrity, h.manifest⟩⟩

/-- The text that is written for signing is accepted by the verifier, with the types that the
parts had, exactly when the existing file's types of the reserved parts suffice. -/
theorem staged_accepted_iff {reader : XmlReader} {existing : Option (List UInt8)}
    {parts : List (List Char)} {ext xml : List Char}
    (hgiven : givenContentTypes reader existing = .ok given)
    (hxml : appxContentTypesForSigning reader existing parts bundle = .ok xml)
    (hdistinct : ((partNames parts).map toAsciiLowercase).Nodup)
    (hreserved : ∀ n ∈ partNames parts, ¬ EqIgnoreAsciiCase n (asciiPart contentTypesPart) ∧
      ¬ EqIgnoreAsciiCase n (asciiPart blockMap) ∧ ¬ EqIgnoreAsciiCase n (asciiPart appSignature))
    (hext : isBundleExtension ext = bundle)
    (hread : ∀ types, stageContentTypes reader existing parts bundle = .ok types →
      reader (Unicode.utf8Encode (writeContentTypes types)) = writtenEvents types) :
    StagedAccepted reader given bundle ext parts xml ↔ TypesSuffice given bundle parts := by
  obtain ⟨staged, hstaged, hwritten⟩ := Outcome.bind_eq_ok.mp hxml
  obtain rfl := Except.ok.inj hwritten
  have hreadStaged := hread staged hstaged
  obtain ⟨given', hgiven', hparts, rfl⟩ := stageContentTypes_eq_ok hstaged
  obtain rfl : given = given' := Except.ok.inj (hgiven.symm.trans hgiven')
  have hdeclares := declares_of_givenContentTypes hgiven
  have hnames : PayloadNames (partNames parts) := by
    refine ⟨?_, hdistinct, fun n hn => (hreserved n hn).2⟩
    intro n hn
    obtain ⟨part, -, hname⟩ := mem_partNames.mp hn
    exact normalizeAppxPartName_idempotent hname
  have hvalid := validate_written hreadStaged (writable_stagedTypes hdeclares hnames)
  rw [← validateReservedContentTypes_iff hdeclares hnames hext]
  constructor
  · intro h
    obtain ⟨types, htypes, haccepted, -⟩ := h
    obtain rfl := Except.ok.inj (hvalid.symm.trans htypes)
    exact haccepted
  · intro h
    refine ⟨_, hvalid, h, ?_, ?_⟩
    · intro part hpart
      obtain ⟨n, hname⟩ := hparts part hpart
      have hn : n ∈ partNames parts := mem_partNames.mpr ⟨part, hpart, hname⟩
      by_cases hmanifest : EqIgnoreAsciiCase n (manifestPart bundle)
      · have hany := (any_manifest_iff hdeclares hnames).mpr
          ((validateReservedContentTypes_iff hdeclares hnames hext).mp h).manifest
        have hsame : contentTypeForPart (readBack (stagedTypes given bundle (partNames parts)))
            part = contentTypeForPart (readBack (stagedTypes given bundle (partNames parts)))
              (manifestPart bundle) := by
          rw [contentTypeForPart_staged hdeclares hnames hname,
            contentTypeForPart_staged hdeclares hnames isPart_manifest, hmanifest,
            leafExtension_manifest hmanifest, leafExtension_manifest rfl]
        rw [hsame]
        cases hfound : contentTypeForPart
            (readBack (stagedTypes given bundle (partNames parts))) (manifestPart bundle) with
        | some contentType => rfl
        | none =>
          rw [hfound] at hany
          cases hany
      · exact contentTypeForPart_payload_isSome hdeclares hnames hname hn hmanifest
    · intro part hpart n hname hmanifest contentType hcontentType
      have hn : n ∈ partNames parts := mem_partNames.mpr ⟨part, hpart, hname⟩
      have htype := contentTypeForPart_payload hdeclares hnames hname hn hmanifest
      rw [hcontentType] at htype
      exact htype

/-- A file with the defaults of two extensions and the override of a part. -/
def declaredTypes : AppxContentTypes :=
  ⟨[("png".toList, "image/png".toList), ("xml".toList, contentTypeManifest)],
    [("data/a.bin".toList, "application/x-a".toList)]⟩

/-- The parts of its package. -/
def declaredParts : List (List Char) :=
  ["Assets\\Logo.PNG".toList, "data/a.bin".toList, "data/b.txt".toList, manifestPart false]

/-- What is written for them. -/
def declaredStaged : AppxContentTypes :=
  ⟨[("png".toList, "image/png".toList), ("txt".toList, "text/plain".toList),
      ("xml".toList, contentTypeManifest)],
    [("data/a.bin".toList, "application/x-a".toList), (asciiPart blockMap, contentTypeBlockMap),
      (asciiPart appSignature, contentTypeSignature)]⟩

/-- A reader of the two files. -/
def declaredReader : XmlReader := fun xml =>
  if xml = Unicode.utf8Encode (writeContentTypes declaredTypes) then writtenEvents declaredTypes
  else writtenEvents declaredStaged

set_option maxRecDepth 4000

theorem stageContentTypes_declared :
    givenContentTypes declaredReader
        (some (Unicode.utf8Encode (writeContentTypes declaredTypes))) =
        .ok (readBack declaredTypes) ∧
      stageContentTypes declaredReader
        (some (Unicode.utf8Encode (writeContentTypes declaredTypes))) declaredParts false =
        .ok declaredStaged := by
  have hgiven : givenContentTypes declaredReader
      (some (Unicode.utf8Encode (writeContentTypes declaredTypes))) =
      .ok (readBack declaredTypes) :=
    validate_written (if_pos rfl) ⟨⟨by decide, by decide, by decide⟩, by decide, by decide⟩
  have hloop : stageParts (readBack declaredTypes) false declaredParts
      (SortedMap.insertAll [] (readBack declaredTypes).defaults) =
      .ok ⟨declaredStaged.defaults, [("data/a.bin".toList, "application/x-a".toList)]⟩ := by
    decide +kernel
  refine ⟨hgiven, ?_⟩
  rw [stageContentTypes, hgiven, Outcome.ok_bind, hloop]
  rfl

/-- A package with an existing file, whose override and defaults are kept. -/
theorem staged_accepted_declared :
    StagedAccepted declaredReader (readBack declaredTypes) false "msix".toList declaredParts
      (writeContentTypes declaredStaged) := by
  obtain ⟨hgiven, hstaged⟩ := stageContentTypes_declared
  refine (@staged_accepted_iff _ false _ _ _ _ _ hgiven ?_ (by decide +kernel)
    (by decide +kernel) rfl ?_).mpr ⟨.inr ?_, ?_⟩
  · rw [appxContentTypesForSigning, hstaged]
    rfl
  · intro types htypes
    rw [hstaged] at htypes
    rw [← Except.ok.inj htypes]
    exact if_neg (by decide +kernel)
  · show isManifestType false contentTypeManifest = true
    decide
  · intro part hpart hname
    rcases List.mem_cons.mp hpart with rfl | hpart
    · exact absurd hname (by decide +kernel)
    · rcases List.mem_cons.mp hpart with rfl | hpart
      · exact absurd hname (by decide +kernel)
      · rcases List.mem_cons.mp hpart with rfl | hpart
        · exact absurd hname (by decide +kernel)
        · rw [List.mem_singleton.mp hpart] at hname
          exact absurd hname (by decide +kernel)

/-! ### A manifest with an override -/

/-- A file that declares the manifest of a package in an override. -/
def overriddenTypes : AppxContentTypes := ⟨[], [(manifestPart false, contentTypeManifest)]⟩

/-- What is written for its package, which has no other part. -/
def forgottenTypes : AppxContentTypes :=
  ⟨[], [(asciiPart blockMap, contentTypeBlockMap), (asciiPart appSignature, contentTypeSignature)]⟩

/-- A reader of the two files. -/
def overriddenReader : XmlReader := fun xml =>
  if xml = Unicode.utf8Encode (writeContentTypes overriddenTypes) then writtenEvents overriddenTypes
  else writtenEvents forgottenTypes

/-- The right override of the manifest is not written again, and no default replaces it. -/
theorem manifest_override_forgotten :
    validateContentTypesXml overriddenReader
        (Unicode.utf8Encode (writeContentTypes overriddenTypes)) = .ok (readBack overriddenTypes) ∧
      contentTypeForPart (readBack overriddenTypes) (manifestPart false) =
        some contentTypeManifest ∧
      appxContentTypesForSigning overriddenReader
        (some (Unicode.utf8Encode (writeContentTypes overriddenTypes))) [manifestPart false] false =
          .ok (writeContentTypes forgottenTypes) ∧
      validateContentTypesXml overriddenReader
        (Unicode.utf8Encode (writeContentTypes forgottenTypes)) = .ok (readBack forgottenTypes) ∧
      contentTypeForPart (readBack forgottenTypes) (manifestPart false) = none ∧
      validateReservedContentTypes (readBack forgottenTypes) (inventoryOf [manifestPart false])
        "msix".toList ≠ .ok () := by
  have hexisting : validateContentTypesXml overriddenReader
      (Unicode.utf8Encode (writeContentTypes overriddenTypes)) =
      .ok (readBack overriddenTypes) := by
    refine validate_written (if_pos rfl) ⟨⟨by decide, by decide, by decide⟩,
      by decide, by decide⟩
  have hwritten : validateContentTypesXml overriddenReader
      (Unicode.utf8Encode (writeContentTypes forgottenTypes)) = .ok (readBack forgottenTypes) := by
    refine validate_written (if_neg (by decide)) ⟨⟨by decide, by decide,
      by decide⟩, by decide, by decide⟩
  refine ⟨hexisting, by decide, ?_, hwritten, by decide, by decide⟩
  rw [appxContentTypesForSigning, stageContentTypes, givenContentTypes, hexisting, Outcome.ok_bind]
  have hloop : stageParts (readBack overriddenTypes) false [manifestPart false]
      (SortedMap.insertAll [] (readBack overriddenTypes).defaults) = .ok ⟨[], []⟩ := by
    decide
  rw [hloop]
  rfl

end Psign.Sip.Appx
