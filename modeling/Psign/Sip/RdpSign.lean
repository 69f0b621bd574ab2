import Psign.Sip.Rdp

/-!
# Signing remote desktop files

What a signature of a `.rdp` file covers.  The records that the parser returns are
`Canonical`, and so are those that the signer adds; printing canonical records and
parsing the text gives them back, so the verifier reads the records that were
signed (`signed_rdp_text_verifies`).

The scope lists names, and each name stands for the first record that has it.  A
second record of the same name stays in the file beside the signed one, so the
signed bytes cover the sensitive settings exactly if every setting has one value
(`scope_covers_iff`).
-/

namespace Psign.Sip

open CodeLib CodeLib.Bytes CodeLib.RustStr CodeLib.Unicode

/-! ## Canonical records -/

/-- A record as the parser leaves it. -/
structure RdpRecord.Canonical (record : RdpRecord) : Prop where
  name_colon : ':' ∉ record.name
  name_lf : '\n' ∉ record.name
  name_head : ∀ c ∈ record.name.head?, isBlank c = false
  name_last : ∀ c ∈ record.name.getLast?, isBlank c = false
  value_lf : '\n' ∉ record.value
  value_head : ∀ c ∈ record.value.head?, isBlank c = false
  value_last : ∀ c ∈ record.value.getLast?, isEolChar c = false

theorem ofChar_asChar (kind : RdpValueKind) : RdpValueKind.ofChar kind.asChar = some kind := by
  cases kind <;> decide

theorem isBlank_asChar (kind : RdpValueKind) : isBlank kind.asChar = false := by
  cases kind <;> decide

/-- The line of a canonical record is parsed as the record. -/
theorem parseLine_line {record : RdpRecord} (h : record.Canonical) :
    parseLine record.line = some record := by
  have hline : record.line.dropWhile isBlank = record.line := by
    refine dropWhile_of_head ?_
    intro c hc
    cases hname : record.name with
    | nil =>
      simp only [RdpRecord.line, hname, List.nil_append, List.head?_cons, Option.mem_some] at hc
      subst hc
      decide
    | cons d name =>
      refine h.name_head c ?_
      simpa [RdpRecord.line, hname] using hc
  have hsplit : splitOnce ':' record.line =
      some (record.name, record.kind.asChar :: ':' :: record.value) :=
    splitOnce_eq_some.mpr ⟨rfl, h.name_colon⟩
  have hne : record.line ≠ [] := by simp [RdpRecord.line]
  have hkind : (record.kind.asChar :: ':' :: record.value).dropWhile isBlank =
      record.kind.asChar :: ':' :: record.value :=
    List.dropWhile_cons_of_neg (by simp [isBlank_asChar])
  have hcolon : (':' :: record.value).dropWhile isBlank = [':'] ++ record.value :=
    List.dropWhile_cons_of_neg (by decide)
  simp only [parseLine, hline, if_neg hne, hsplit, Option.bind_eq_bind, Option.bind_some, hkind,
    ofChar_asChar, hcolon, stripPrefix_eq_some.mpr rfl, dropWhile_of_head h.value_head,
    rdropWhile_of_getLast h.name_last, rdropWhile_of_getLast h.value_last]
  rfl

/-- What is parsed of a line is canonical. -/
theorem canonical_of_parseLine {line : List Char} {record : RdpRecord} (hline : '\n' ∉ line)
    (h : parseLine line = some record) : record.Canonical := by
  have hmem : ∀ {s t : List Char}, s <:+: t → '\n' ∉ t → '\n' ∉ s :=
    fun hcontained hnot hc => hnot (hcontained.subset hc)
  simp only [parseLine] at h
  split at h
  · exact absurd h (by simp)
  · simp only [Option.bind_eq_bind, Option.bind_eq_some_iff, Prod.exists] at h
    obtain ⟨name, rest, hsplit, h⟩ := h
    obtain ⟨htrimmed, hcolon⟩ := splitOnce_eq_some.mp hsplit
    have htrimmedLf : '\n' ∉ line.dropWhile isBlank :=
      hmem (List.dropWhile_suffix _).isInfix hline
    rw [htrimmed] at htrimmedLf
    have hhead : ∀ c ∈ (line.dropWhile isBlank).head?, isBlank c = false :=
      head?_dropWhile_not line
    rw [htrimmed] at hhead
    simp only [List.mem_append, List.mem_cons, not_or] at htrimmedLf
    split at h
    · exact absurd h (by simp)
    · rename_i c after hafter
      simp only [Option.bind_eq_some_iff, Option.pure_def, Option.some.injEq] at h
      obtain ⟨kind, -, value, hvalue, rfl⟩ := h
      have hvalueLf : '\n' ∉ value := by
        have hrest : '\n' ∉ c :: after :=
          hafter ▸ hmem (List.dropWhile_suffix isBlank).isInfix htrimmedLf.2.2
        have hsuffix : '\n' ∉ after.dropWhile isBlank :=
          hmem (List.dropWhile_suffix isBlank).isInfix fun hc => hrest (List.mem_cons_of_mem _ hc)
        rw [stripPrefix_eq_some.mp hvalue] at hsuffix
        exact fun hc => hsuffix (List.mem_append_right _ hc)
      exact
        { name_colon := fun hc => hcolon ((List.rdropWhile_prefix _ _).subset hc)
          name_lf := fun hc => htrimmedLf.1 ((List.rdropWhile_prefix _ _).subset hc)
          name_head := by
            refine head?_rdropWhile fun c hc => hhead c ?_
            cases name with
            | nil => simp at hc
            | cons d name => simpa using hc
          name_last := getLast?_rdropWhile_not _
          value_lf := fun hc =>
            hvalueLf ((List.dropWhile_suffix _).subset ((List.rdropWhile_prefix _ _).subset hc))
          value_head := head?_rdropWhile (head?_dropWhile_not _)
          value_last := getLast?_rdropWhile_not _ }

theorem canonical_of_mem_parseRecords {text : List Char} {record : RdpRecord}
    (h : record ∈ parseRecords text) : record.Canonical := by
  obtain ⟨line, hline, hrecord⟩ := List.mem_filterMap.mp h
  exact canonical_of_parseLine (not_mem_of_mem_lines hline) hrecord

theorem RdpRecord.Canonical.lf_not_mem_line {record : RdpRecord} (h : record.Canonical) :
    '\n' ∉ record.line := by
  have hkind : '\n' ≠ record.kind.asChar := by cases record.kind <;> decide
  simp [RdpRecord.line, h.name_lf, h.value_lf, hkind]

theorem filterMap_parseLine_lines {records : List RdpRecord}
    (h : ∀ record ∈ records, record.Canonical) :
    (records.map RdpRecord.line).filterMap parseLine = records := by
  induction records with
  | nil => rfl
  | cons record records ih =>
    rw [List.map_cons, List.filterMap_cons_some (parseLine_line (h record List.mem_cons_self)),
      ih fun other hother => h other (List.mem_cons_of_mem _ hother)]

theorem recordsToText_eq (records : List RdpRecord) :
    recordsToText records = ((records.map RdpRecord.line).map (· ++ ['\r', '\n'])).flatten := by
  rw [recordsToText, List.map_map]
  rfl

/-- Printed canonical records are parsed back. -/
theorem parseRecords_recordsToText {records : List RdpRecord}
    (h : ∀ record ∈ records, record.Canonical) : parseRecords (recordsToText records) = records := by
  have hlf : ∀ line ∈ records.map RdpRecord.line, '\n' ∉ line := by
    intro line hline
    obtain ⟨record, hrecord, rfl⟩ := List.mem_map.mp hline
    exact (h record hrecord).lf_not_mem_line
  rw [parseRecords, recordsToText_eq, lines_of_crlf hlf, filterMap_parseLine_lines h]

/-- A NUL behind the records is no record. -/
theorem parseRecords_recordsToText_nul {records : List RdpRecord}
    (h : ∀ record ∈ records, record.Canonical) :
    parseRecords (recordsToText records ++ ['\x00']) = records := by
  have hlf : ∀ line ∈ records.map RdpRecord.line, '\n' ∉ line := by
    intro line hline
    obtain ⟨record, hrecord, rfl⟩ := List.mem_map.mp hline
    exact (h record hrecord).lf_not_mem_line
  have hnul : parseLine ['\x00'] = none := by decide
  rw [parseRecords, recordsToText_eq, lines_crlf hlf (by decide) (by simp), List.filterMap_append,
    filterMap_parseLine_lines h, List.filterMap_cons_none hnul, List.filterMap_nil, List.append_nil]

/-! ## Finding, inserting and removing -/

section records

variable {records : List RdpRecord} {record : RdpRecord} {name : List Char}

theorem name_of_findRecord (h : findRecord records name = some record) :
    record ∈ records ∧ EqIgnoreAsciiCase record.name name :=
  ⟨List.mem_of_find?_eq_some h, by simpa using List.find?_some h⟩

theorem findRecord_eq_none : findRecord records name = none ↔
    ∀ record ∈ records, ¬ EqIgnoreAsciiCase record.name name := by
  simp [findRecord]

theorem findRecord_removeRecord_self : findRecord (removeRecord records name) name = none := by
  rw [findRecord_eq_none]
  intro record hrecord
  simpa using (List.mem_filter.mp hrecord).2

theorem findRecord_removeRecord {removed : List Char} (h : ¬ EqIgnoreAsciiCase removed name) :
    findRecord (removeRecord records removed) name = findRecord records name := by
  rw [findRecord, removeRecord, List.find?_filter]
  congr 1
  funext record
  by_cases hname : EqIgnoreAsciiCase record.name name
  · have hkept : ¬ EqIgnoreAsciiCase record.name removed := fun heq => h (heq.symm.trans hname)
    simp [hname, hkept]
  · simp [hname]

theorem findRecord_append (more : List RdpRecord) :
    findRecord (records ++ more) name = (findRecord records name).or (findRecord more name) :=
  List.find?_append

theorem findRecord_singleton :
    findRecord [record] name = if EqIgnoreAsciiCase record.name name then some record else none := by
  by_cases h : EqIgnoreAsciiCase record.name name <;> simp [findRecord, h]

/-- A record whose name is not there is put at the end. -/
theorem insertOrReplace_of_none (h : findRecord records record.name = none) :
    insertOrReplace records record = records ++ [record] := by
  induction records with
  | nil => rfl
  | cons existing rest ih =>
    rw [findRecord_eq_none] at h
    rw [insertOrReplace, if_neg (h existing List.mem_cons_self), ih, List.cons_append]
    exact findRecord_eq_none.mpr fun other hother => h other (List.mem_cons_of_mem _ hother)

end records

/-! ## Prepared files -/

/-- The records that a signature leaves in the file: those of the input without the
old signature, and `Alternate Full Address`. -/
def keptRecords (records : List RdpRecord) (fullAddress : List Char) : List RdpRecord :=
  withAlternateAddress (removeRecord (removeRecord records signScopeName) signatureName) fullAddress

/-- Neither the old scope nor the old signature is kept. -/
theorem findRecord_keptRecords (records : List RdpRecord) (fullAddress : List Char)
    {name : List Char} (hname : name = signScopeName ∨ name = signatureName) :
    findRecord (keptRecords records fullAddress) name = none := by
  have hremoved : findRecord (removeRecord (removeRecord records signScopeName) signatureName)
      name = none := by
    rcases hname with rfl | rfl
    · rw [findRecord_removeRecord (by decide), findRecord_removeRecord_self]
    · exact findRecord_removeRecord_self
  have halternate : ¬ EqIgnoreAsciiCase alternateFullAddressName name := by
    rcases hname with rfl | rfl <;> decide
  rw [keptRecords, withAlternateAddress]
  split
  · rename_i hnone
    rw [insertOrReplace_of_none hnone, findRecord_append, hremoved, findRecord_singleton,
      if_neg halternate]
    rfl
  · exact hremoved

/-- The `SignScope` record for some names. -/
def signScopeRecord (names : List (List Char)) : RdpRecord :=
  ⟨signScopeName, .string, [','].intercalate names⟩

@[simp] theorem signScopeRecord_name (names : List (List Char)) :
    (signScopeRecord names).name = signScopeName := rfl

theorem scopeNames_eq_ok {records : List RdpRecord} {settings : List (List Char × Bool)}
    {names : List (List Char)} (h : scopeNames records settings = .ok names) :
    names = (settings.map Prod.fst).filter (fun name => (findRecord records name).isSome) ∧
      ∀ setting ∈ settings, setting.2 = true → (findRecord records setting.1).isSome := by
  induction settings generalizing names with
  | nil => simpa [scopeNames] using h.symm
  | cons setting settings ih =>
    obtain ⟨name, required⟩ := setting
    rw [scopeNames] at h
    cases hfind : findRecord records name with
    | none =>
      rw [hfind] at h
      by_cases hrequired : required = true
      · simp [hrequired] at h
      · simp only [hrequired, Bool.false_eq_true, if_false] at h
        obtain ⟨hnames, hall⟩ := ih h
        refine ⟨by simp [hfind, hnames], List.forall_mem_cons.mpr ⟨?_, hall⟩⟩
        exact fun hreq => absurd hreq hrequired
    | some record =>
      rw [hfind] at h
      simp only at h
      split at h
      · exact absurd h Outcome.bail_ne_ok
      · rw [Outcome.bind_eq_ok] at h
        obtain ⟨rest, hrest, h⟩ := h
        obtain ⟨hnames, hall⟩ := ih hrest
        obtain rfl := Except.ok.inj h
        refine ⟨by simp [hfind, ← hnames], List.forall_mem_cons.mpr ⟨?_, hall⟩⟩
        exact fun _ => by simp [hfind]

theorem settingLines_eq_ok {records : List RdpRecord} {names : List (List Char)}
    {text : List Char} (h : settingLines records names = .ok text) :
    text = recordsToText (names.filterMap (findRecord records)) := by
  induction names generalizing text with
  | nil => exact (Except.ok.inj h).symm
  | cons name names ih =>
    simp only [settingLines, Outcome.bind_eq_ok, Outcome.ofOption_eq_ok] at h
    obtain ⟨record, hrecord, rest, hrest, h⟩ := h
    obtain rfl := Except.ok.inj h
    rw [List.filterMap_cons_some hrecord, ih hrest]
    rfl

theorem settingLines_congr {records records' : List RdpRecord} {names : List (List Char)}
    (h : ∀ name ∈ names, findRecord records name = findRecord records' name) :
    settingLines records names = settingLines records' names := by
  induction names with
  | nil => rfl
  | cons name names ih =>
    simp only [settingLines, h name List.mem_cons_self,
      ih fun other hother => h other (List.mem_cons_of_mem _ hother)]

/-- The names of the sensitive settings are plain words. -/
theorem sensitiveSettings_plain : ∀ setting ∈ sensitiveSettings, setting.1 ≠ [] ∧
    ',' ∉ setting.1 ∧ (∀ c ∈ setting.1, isEolChar c = false) ∧
    (∀ c ∈ setting.1.head?, isBlank c = false) ∧
    ¬ EqIgnoreAsciiCase signatureName setting.1 ∧ ¬ EqIgnoreAsciiCase signScopeName setting.1 := by
  unfold sensitiveSettings signatureName signScopeName
  repeat rw [String.toList_ofList]
  decide

/-- What a prepared file holds: the kept records and the scope, and the scope has
the sensitive names that are there. -/
theorem prepareForSignature_eq_ok {records : List RdpRecord} {prepared : PreparedRdpSignature}
    (h : prepareForSignature records = .ok prepared) :
    ∃ full names, findRecord records fullAddressName = some full ∧
      names = (sensitiveSettings.map Prod.fst).filter
        (fun name => (findRecord (keptRecords records full.value) name).isSome) ∧
      names ≠ [] ∧ (∀ name ∈ names, name ∈ sensitiveSettings.map Prod.fst) ∧
      prepared.records = keptRecords records full.value ++ [signScopeRecord names] ∧
      prepared.signScope = [','].intercalate names ∧
      secureSettingsBlob prepared.records prepared.signScope = .ok prepared.secureBlob := by
  simp only [prepareForSignature, Outcome.bind_eq_ok, Outcome.ofOption_eq_ok] at h
  obtain ⟨full, hfull, names, hnames, blob, hblob, h⟩ := h
  obtain rfl := Except.ok.inj h
  obtain ⟨hfull, -⟩ := Option.filter_eq_some_iff.mp hfull
  obtain ⟨hnamesEq, hrequired⟩ := scopeNames_eq_ok hnames
  have hremoved : findRecord (removeRecord (removeRecord records signScopeName) signatureName)
      fullAddressName = findRecord records fullAddressName := by
    rw [findRecord_removeRecord (by decide), findRecord_removeRecord (by decide)]
  have hinsert : insertOrReplace (keptRecords records full.value) (signScopeRecord names) =
      keptRecords records full.value ++ [signScopeRecord names] :=
    insertOrReplace_of_none (findRecord_keptRecords records full.value (Or.inl rfl))
  have hsensitive : ∀ name ∈ names, name ∈ sensitiveSettings.map Prod.fst := by
    intro name hname
    rw [hnamesEq] at hname
    exact (List.mem_filter.mp hname).1
  refine ⟨full, names, hremoved ▸ hfull, hnamesEq, ?_, hsensitive, hinsert, rfl, hblob⟩
  intro hnil
  have hfirst := hrequired ("Full Address".toList, true) (by decide) rfl
  have hmem : "Full Address".toList ∈ names := by
    rw [hnamesEq]
    exact List.mem_filter.mpr ⟨by decide, hfirst⟩
  rw [hnil] at hmem
  exact absurd hmem List.not_mem_nil


theorem secureSettingsBlob_congr {records records' : List RdpRecord} {signScope : List Char}
    (hnames : ∀ name ∈ (split ',' signScope).filter (· ≠ []),
      findRecord records name = findRecord records' name)
    (hscope : findRecord records signScopeName = findRecord records' signScopeName) :
    secureSettingsBlob records signScope = secureSettingsBlob records' signScope := by
  rw [secureSettingsBlob, secureSettingsBlob, settingLines_congr hnames, hscope]

/-- The names of a scope are found again in its text. -/
theorem split_signScope {names : List (List Char)} (hne : names ≠ [])
    (hnames : ∀ name ∈ names, name ∈ sensitiveSettings.map Prod.fst) :
    (split ',' ([','].intercalate names)).filter (· ≠ []) = names := by
  have hplain : ∀ name ∈ names, name ≠ [] ∧ ',' ∉ name := by
    intro name hname
    obtain ⟨setting, hsetting, rfl⟩ := List.mem_map.mp (hnames name hname)
    exact ⟨(sensitiveSettings_plain setting hsetting).1,
      (sensitiveSettings_plain setting hsetting).2.1⟩
  rw [split_intercalate hne fun name hname => (hplain name hname).2]
  exact List.filter_eq_self.mpr fun name hname => by simpa using (hplain name hname).1

/-- The scope of some sensitive names is a canonical record. -/
theorem canonical_signScopeRecord {names : List (List Char)} (hne : names ≠ [])
    (hnames : ∀ name ∈ names, name ∈ sensitiveSettings.map Prod.fst) :
    (signScopeRecord names).Canonical := by
  have hplain : ∀ name ∈ names, name ≠ [] ∧ (∀ c ∈ name, isEolChar c = false) ∧
      ∀ c ∈ name.head?, isBlank c = false := by
    intro name hname
    obtain ⟨setting, hsetting, rfl⟩ := List.mem_map.mp (hnames name hname)
    obtain ⟨hnil, -, heol, hhead, -⟩ := sensitiveSettings_plain setting hsetting
    exact ⟨hnil, heol, hhead⟩
  have heol : ∀ c ∈ (signScopeRecord names).value, isEolChar c = false := by
    intro c hc
    rcases mem_intercalate hc with rfl | ⟨name, hname, hc⟩
    · decide
    · exact (hplain name hname).2.1 c hc
  have hhead : ∀ c ∈ (signScopeRecord names).value.head?, isBlank c = false := by
    cases names with
    | nil => exact absurd rfl hne
    | cons name names =>
      obtain ⟨hnil, -, hblank⟩ := hplain name List.mem_cons_self
      show ∀ c ∈ ([','].intercalate (name :: names)).head?, isBlank c = false
      rw [head?_intercalate hnil]
      exact hblank
  exact
    { name_colon := by show ':' ∉ signScopeName; decide
      name_lf := by show '\n' ∉ signScopeName; decide
      name_head := by show ∀ c ∈ signScopeName.head?, isBlank c = false; decide
      name_last := by show ∀ c ∈ signScopeName.getLast?, isBlank c = false; decide
      value_lf := fun hlf => absurd (heol _ hlf) (by decide)
      value_head := hhead
      value_last := fun c hc => heol c (List.mem_of_getLast? hc) }

/-- `Alternate Full Address` for the value of a canonical record. -/
theorem canonical_alternate {record : RdpRecord} (h : record.Canonical) :
    RdpRecord.Canonical ⟨alternateFullAddressName, .string, record.value⟩ where
  name_colon := by show ':' ∉ alternateFullAddressName; decide
  name_lf := by show '\n' ∉ alternateFullAddressName; decide
  name_head := by show ∀ c ∈ alternateFullAddressName.head?, isBlank c = false; decide
  name_last := by show ∀ c ∈ alternateFullAddressName.getLast?, isBlank c = false; decide
  value_lf := h.value_lf
  value_head := h.value_head
  value_last := h.value_last

theorem findRecord_removed {records : List RdpRecord} {setting : List Char × Bool}
    (hsetting : setting ∈ sensitiveSettings) :
    findRecord (removeRecord (removeRecord records signScopeName) signatureName) setting.1 =
      findRecord records setting.1 := by
  obtain ⟨-, -, -, -, hsignature, hscope⟩ := sensitiveSettings_plain setting hsetting
  rw [findRecord_removeRecord hsignature, findRecord_removeRecord hscope]

theorem findRecord_removed_alternate (records : List RdpRecord) :
    findRecord (removeRecord (removeRecord records signScopeName) signatureName)
      alternateFullAddressName = findRecord records alternateFullAddressName :=
  findRecord_removed (show (alternateFullAddressName, false) ∈ sensitiveSettings by decide)

/-- What is kept was there, or is the `Alternate Full Address` that was not. -/
theorem mem_keptRecords {records : List RdpRecord} {fullAddress : List Char} {record : RdpRecord}
    (h : record ∈ keptRecords records fullAddress) :
    record ∈ records ∨ findRecord records alternateFullAddressName = none ∧
      record = ⟨alternateFullAddressName, .string, fullAddress⟩ := by
  have hremoved : ∀ {other}, other ∈ removeRecord (removeRecord records signScopeName) signatureName →
      other ∈ records :=
    fun hother => (List.mem_filter.mp (List.mem_filter.mp hother).1).1
  rw [keptRecords, withAlternateAddress] at h
  split at h
  · rename_i hnone
    rw [insertOrReplace_of_none hnone, List.mem_append, List.mem_singleton] at h
    rw [findRecord_removed_alternate] at hnone
    exact h.imp hremoved fun heq => ⟨hnone, heq⟩
  · exact Or.inl (hremoved h)

/-- The records of a prepared file are canonical. -/
theorem canonical_of_prepareForSignature {text : List Char} {prepared : PreparedRdpSignature}
    (h : prepareForSignature (parseRecords text) = .ok prepared) :
    ∀ record ∈ prepared.records, record.Canonical := by
  obtain ⟨full, names, hfull, -, hne, hsensitive, hrecords, -, -⟩ := prepareForSignature_eq_ok h
  intro record hrecord
  rw [hrecords, List.mem_append, List.mem_singleton] at hrecord
  rcases hrecord with hkept | rfl
  · rcases mem_keptRecords hkept with hinput | ⟨-, rfl⟩
    · exact canonical_of_mem_parseRecords hinput
    · exact canonical_alternate (canonical_of_mem_parseRecords (name_of_findRecord hfull).1)
  · exact canonical_signScopeRecord hne hsensitive

/-! ## The signature record -/

variable (base64 : Base64Engine)

/-- Base64 text has no white space to trim. -/
theorem trim_encode (bytes : List UInt8) : trim (base64.encode bytes) = base64.encode bytes := by
  have hblack : ∀ c ∈ base64.encode bytes, isWhitespace c = false := by
    intro c hc
    have hchar := toNat_of_isBase64Char (base64.isBase64Char_of_mem_encode bytes c hc)
    simp only [isWhitespace, Bool.or_eq_false_iff, Bool.and_eq_false_iff, decide_eq_false_iff_not,
      beq_eq_false_iff_ne]
    omega
  exact trim_of_black hblack

theorem canonical_signature (bytes : List UInt8) :
    RdpRecord.Canonical ⟨signatureName, .string, base64.encode bytes⟩ := by
  have hblack : ∀ c ∈ base64.encode bytes, isBlank c = false ∧ isEolChar c = false := by
    intro c hc
    have hchar := (toNat_of_isBase64Char (base64.isBase64Char_of_mem_encode bytes c hc)).1
    have hne : ∀ d : Char, d.toNat ≤ 0x20 → (c == d) = false := by
      intro d hd
      rw [beq_eq_false_iff_ne]
      intro heq
      rw [heq] at hchar
      omega
    exact ⟨by simp [isBlank, hne _ (by decide : ' '.toNat ≤ 0x20), hne _ (by decide : '\t'.toNat ≤ 0x20)],
      by simp [isEolChar, hne _ (by decide : '\r'.toNat ≤ 0x20), hne _ (by decide : '\n'.toNat ≤ 0x20)]⟩
  exact
    { name_colon := by show ':' ∉ signatureName; decide
      name_lf := by show '\n' ∉ signatureName; decide
      name_head := by show ∀ c ∈ signatureName.head?, isBlank c = false; decide
      name_last := by show ∀ c ∈ signatureName.getLast?, isBlank c = false; decide
      value_lf := fun hlf => absurd (hblack _ hlf).2 (by decide)
      value_head := fun c hc => (hblack c (List.mem_of_mem_head? hc)).1
      value_last := fun c hc => (hblack c (List.mem_of_getLast? hc)).2 }

/-- The length of a signature that fits 32 bits frames it. -/
theorem signaturePkcs7FromSerialized_serialize {pkcs7 : List UInt8}
    (h : pkcs7.length < 2 ^ 32) :
    signaturePkcs7FromSerialized (serializeSignature pkcs7) = .ok pkcs7 := by
  have hversion : u32At (serializeSignature pkcs7) 0 = 0x00010001 := by
    rw [serializeSignature, List.append_assoc, List.append_assoc]
    exact u32At_u32le (by decide) _
  have hkind : u32At (serializeSignature pkcs7) 4 = 1 := by
    rw [serializeSignature, List.append_assoc, List.append_assoc]
    exact (u32At_append_right (u32le 0x00010001) _ 0).trans (u32At_u32le (by decide) _)
  have hframe : u32At (serializeSignature pkcs7) 8 = pkcs7.length := by
    rw [serializeSignature, List.append_assoc, Nat.mod_eq_of_lt h]
    exact (u32At_append_right (u32le 0x00010001 ++ u32le 1) _ 0).trans (u32At_u32le h _)
  have hlength : (serializeSignature pkcs7).length = 12 + pkcs7.length := by
    simp only [serializeSignature, List.length_append, length_u32le]
  have hdrop : (serializeSignature pkcs7).drop 12 = pkcs7 := rfl
  rw [signaturePkcs7FromSerialized, hversion, hkind, hframe, hlength, hdrop, if_neg (by omega),
    if_neg (by decide), if_neg (by decide), if_neg (by omega)]

theorem signatureRecordPkcs7_of_findRecord {records : List RdpRecord} {pkcs7 : List UInt8}
    (h : pkcs7.length < 2 ^ 32)
    (hfind : findRecord records signatureName =
      some ⟨signatureName, .string, base64.encode (serializeSignature pkcs7)⟩) :
    signatureRecordPkcs7 base64 records = .ok pkcs7 := by
  have hdecode : base64.decode (trim (base64.encode (serializeSignature pkcs7))) =
      .ok (serializeSignature pkcs7) := by
    rw [trim_encode, base64.decode_encode]
  simp only [signatureRecordPkcs7, signaturePkcs7FromBase64, Outcome.bind_eq_ok,
    Outcome.ofOption_eq_ok, Outcome.mapErr_eq_ok]
  exact ⟨_, hfind, _, hdecode, signaturePkcs7FromSerialized_serialize h⟩

/-- The file is written in an encoding that is read back. -/
theorem decodeRdpText_encodeNativeUnicode (text : List Char) :
    decodeRdpText (encodeNativeUnicode text) = text := by
  rw [decodeRdpText, encodeNativeUnicode, if_pos (List.prefix_append _ _)]
  show fromUtf16Lossy (mapPairs fromLeBytes (utf16leBytes (encodeUtf16 text))) = text
  rw [mapPairs_utf16leBytes, fromUtf16Lossy_encodeUtf16]

/-! ## A signed file is verified -/

/-- The text of a signed file is parsed as the signed records: the signature
record holds the PKCS#7, and the scope that is read selects the settings that were
signed. -/
theorem signed_rdp_text_verifies {text : List Char} {prepared : PreparedRdpSignature}
    {pkcs7 : List UInt8} (hprepared : prepareForSignature (parseRecords text) = .ok prepared)
    (hlength : pkcs7.length < 2 ^ 32) :
    let signed := recordsToText (applyPkcs7Signature base64 prepared.records pkcs7)
    signatureRecordPkcs7 base64 (parseRecords signed) = .ok pkcs7 ∧
      (∃ scope, findRecord (parseRecords signed) signScopeName = some scope ∧
        secureSettingsBlob (parseRecords signed) scope.value = .ok prepared.secureBlob) ∧
      decodeRdpText (encodeNativeUnicode signed) = signed := by
  intro signed
  obtain ⟨full, names, hfull, hnames, hne, hsensitive, hrecords, hscope, hblob⟩ :=
    prepareForSignature_eq_ok hprepared
  have hcanonical := canonical_of_prepareForSignature hprepared
  have hsignature : findRecord prepared.records signatureName = none := by
    rw [hrecords, findRecord_append, findRecord_keptRecords _ _ (Or.inr rfl), findRecord_singleton,
      signScopeRecord_name, if_neg (by decide)]
    rfl
  have happly : applyPkcs7Signature base64 prepared.records pkcs7 = prepared.records ++
      [⟨signatureName, .string, base64.encode (serializeSignature pkcs7)⟩] :=
    insertOrReplace_of_none hsignature
  have hparsed : parseRecords signed = applyPkcs7Signature base64 prepared.records pkcs7 := by
    refine parseRecords_recordsToText ?_
    intro record hrecord
    rw [happly, List.mem_append, List.mem_singleton] at hrecord
    rcases hrecord with hrecord | rfl
    · exact hcanonical record hrecord
    · exact canonical_signature base64 _
  -- the signature record is behind all others and has a name of its own
  have hfind : ∀ name, ¬ EqIgnoreAsciiCase signatureName name →
      findRecord (parseRecords signed) name = findRecord prepared.records name := by
    intro name hname
    rw [hparsed, happly, findRecord_append, findRecord_singleton, if_neg hname, Option.or_none]
  have hscopeFind : findRecord prepared.records signScopeName = some (signScopeRecord names) := by
    rw [hrecords, findRecord_append, findRecord_keptRecords _ _ (Or.inl rfl), findRecord_singleton,
      signScopeRecord_name, if_pos (by decide)]
    rfl
  refine ⟨?_, ⟨signScopeRecord names, ?_, ?_⟩, decodeRdpText_encodeNativeUnicode signed⟩
  · refine signatureRecordPkcs7_of_findRecord base64 hlength ?_
    rw [hparsed, happly, findRecord_append, hsignature, findRecord_singleton,
      if_pos (by show EqIgnoreAsciiCase signatureName signatureName; decide)]
    rfl
  · rw [hfind _ (by decide), hscopeFind]
  · rw [← hblob, hscope]
    refine secureSettingsBlob_congr ?_ (hfind _ (by decide))
    intro name hname
    rw [signScopeRecord, split_signScope hne hsensitive] at hname
    obtain ⟨setting, hsetting, rfl⟩ := List.mem_map.mp (hsensitive name hname)
    exact hfind _ (sensitiveSettings_plain setting hsetting).2.2.2.2.1


/-- A file with one server port, prepared. -/
def onePort : PreparedRdpSignature where
  records :=
    [⟨"full address".toList, .string, ['a']⟩, ⟨"server port".toList, .integer, ['1']⟩,
      ⟨"Alternate Full Address".toList, .string, ['a']⟩,
      ⟨"SignScope".toList, .string, "Full Address,Alternate Full Address,Server Port".toList⟩]
  signScope := "Full Address,Alternate Full Address,Server Port".toList
  secureBlob := utf16leBytes (encodeUtf16
    ("full address:s:a\r\nAlternate Full Address:s:a\r\nserver port:i:1\r\nSignScope:s:" ++
      "Full Address,Alternate Full Address,Server Port\r\n\x00").toList)

set_option maxRecDepth 2000

theorem prepareForSignature_onePort : prepareForSignature
    (parseRecords "full address:s:a\r\nserver port:i:1\r\n".toList) = .ok onePort := by
  unfold prepareForSignature sensitiveSettings onePort
  repeat rw [String.toList_ofList]
  decide

theorem signed_rdp_text_verifies_onePort :
    let signed := recordsToText (applyPkcs7Signature Base64Engine.standard onePort.records [1, 2, 3])
    signatureRecordPkcs7 Base64Engine.standard (parseRecords signed) = .ok [1, 2, 3] ∧
      (∃ scope, findRecord (parseRecords signed) signScopeName = some scope ∧
        secureSettingsBlob (parseRecords signed) scope.value = .ok onePort.secureBlob) ∧
      decodeRdpText (encodeNativeUnicode signed) = signed := by
  exact signed_rdp_text_verifies Base64Engine.standard prepareForSignature_onePort (by decide)

/-! ## Coverage -/

/-- A record sets a setting for a client that looks neither at case nor at white
space around the name. -/
def RdpRecord.IsSetting (record : RdpRecord) (name : List Char) : Prop :=
  EqIgnoreAsciiCase (trim record.name) name

instance (record : RdpRecord) (name : List Char) : Decidable (record.IsSetting name) :=
  inferInstanceAs (Decidable (EqIgnoreAsciiCase _ _))

/-- The records that are in the signed bytes. -/
def signedRecords (secureBlob : List UInt8) : List RdpRecord :=
  parseRecords (fromUtf16Lossy (mapPairs fromLeBytes secureBlob))

/-- The value of every sensitive record in the file is signed under its name. -/
def ScopeCovers (prepared : PreparedRdpSignature) : Prop :=
  ∀ record ∈ prepared.records, ∀ setting ∈ sensitiveSettings, record.IsSetting setting.1 →
    ∃ signed ∈ signedRecords prepared.secureBlob, signed.IsSetting setting.1 ∧
      signed.kind = record.kind ∧ signed.value = record.value

instance (prepared : PreparedRdpSignature) : Decidable (ScopeCovers prepared) :=
  inferInstanceAs (Decidable (∀ record ∈ _, ∀ setting ∈ _, _ → ∃ signed ∈ _, _))

/-- The record that a file has for a setting: the first of that name, and for the
alternate address the full address where there is none. -/
def settingRecord (records : List RdpRecord) (name : List Char) : Option RdpRecord :=
  match findRecord records name with
  | some record => some record
  | none =>
    if name = alternateFullAddressName then
      (findRecord records fullAddressName).map fun full => ⟨name, .string, full.value⟩
    else none

/-- All records of a sensitive setting have the kind and the value of the first. -/
def OneValuePerSetting (records : List RdpRecord) : Prop :=
  ∀ record ∈ records, ∀ setting ∈ sensitiveSettings, record.IsSetting setting.1 →
    ∃ first, settingRecord records setting.1 = some first ∧
      first.kind = record.kind ∧ first.value = record.value

/-- The names of the sensitive settings have no white space around them. -/
theorem trim_sensitive : ∀ setting ∈ sensitiveSettings, trim setting.1 = setting.1 := by
  unfold sensitiveSettings
  repeat rw [String.toList_ofList]
  decide

theorem isSetting_of_eqIgnoreAsciiCase {record : RdpRecord} {setting : List Char × Bool}
    (hsetting : setting ∈ sensitiveSettings) (h : EqIgnoreAsciiCase record.name setting.1) :
    record.IsSetting setting.1 := by
  have htrim := EqIgnoreAsciiCase.trim h
  rwa [trim_sensitive setting hsetting] at htrim

/-- A record with a name of the signature is no sensitive setting. -/
theorem not_isSetting_of_own {record : RdpRecord} {own : List Char} {setting : List Char × Bool}
    (hsetting : setting ∈ sensitiveSettings) (hown : own = signScopeName ∨ own = signatureName)
    (h : EqIgnoreAsciiCase record.name own) : ¬ record.IsSetting setting.1 := by
  intro hrecord
  obtain ⟨-, -, -, -, hsignature, hscope⟩ := sensitiveSettings_plain setting hsetting
  have htrim := EqIgnoreAsciiCase.trim h
  rcases hown with rfl | rfl
  · rw [show trim signScopeName = signScopeName by decide] at htrim
    exact hscope (htrim.symm.trans hrecord)
  · rw [show trim signatureName = signatureName by decide] at htrim
    exact hsignature (htrim.symm.trans hrecord)

theorem findRecord_congr {records : List RdpRecord} {name name' : List Char}
    (h : EqIgnoreAsciiCase name name') : findRecord records name = findRecord records name' := by
  have hsame : ∀ record : RdpRecord,
      EqIgnoreAsciiCase record.name name ↔ EqIgnoreAsciiCase record.name name' :=
    fun record => ⟨fun hname => hname.trans h, fun hname => hname.trans h.symm⟩
  simp only [findRecord, hsame]

/-- The alternate address is the only sensitive setting that may be added. -/
theorem eq_alternate_of_sensitive : ∀ setting ∈ sensitiveSettings,
    (EqIgnoreAsciiCase alternateFullAddressName setting.1 ↔ setting.1 = alternateFullAddressName) := by
  unfold sensitiveSettings alternateFullAddressName
  repeat rw [String.toList_ofList]
  decide

/-- What is kept for a sensitive setting. -/
theorem findRecord_keptRecords_eq {records : List RdpRecord} {full : RdpRecord}
    (hfull : findRecord records fullAddressName = some full) {setting : List Char × Bool}
    (hsetting : setting ∈ sensitiveSettings) :
    findRecord (keptRecords records full.value) setting.1 = settingRecord records setting.1 := by
  have halternate := findRecord_removed_alternate records
  rw [keptRecords, withAlternateAddress, settingRecord]
  cases hother : findRecord records alternateFullAddressName with
  | some alternate =>
    rw [hother] at halternate
    rw [halternate]
    show findRecord (removeRecord (removeRecord records signScopeName) signatureName) setting.1 = _
    rw [findRecord_removed hsetting]
    cases hfind : findRecord records setting.1 with
    | some record => rfl
    | none =>
      have hne : setting.1 ≠ alternateFullAddressName := by
        intro heq
        rw [heq, hother] at hfind
        exact absurd hfind (by simp)
      show none = if setting.1 = alternateFullAddressName then _ else none
      rw [if_neg hne]
  | none =>
    rw [hother] at halternate
    rw [halternate]
    show findRecord (insertOrReplace _ _) setting.1 = _
    rw [insertOrReplace_of_none halternate, findRecord_append, findRecord_removed hsetting]
    cases hfind : findRecord records setting.1 with
    | some record => rfl
    | none =>
      show findRecord [_] setting.1 = if setting.1 = alternateFullAddressName then _ else none
      rw [findRecord_singleton, hfull]
      by_cases heq : setting.1 = alternateFullAddressName
      · rw [if_pos heq, if_pos ((eq_alternate_of_sensitive setting hsetting).mpr heq), heq]
        rfl
      · rw [if_neg heq, if_neg fun h => heq ((eq_alternate_of_sensitive setting hsetting).mp h)]

/-- A sensitive record of the input is kept. -/
theorem mem_keptRecords_of_isSetting {records : List RdpRecord} {fullAddress : List Char}
    {record : RdpRecord} {setting : List Char × Bool} (hsetting : setting ∈ sensitiveSettings)
    (hrecord : record ∈ records) (h : record.IsSetting setting.1) :
    record ∈ keptRecords records fullAddress := by
  have hremoved : record ∈ removeRecord (removeRecord records signScopeName) signatureName := by
    have hscope : ¬ EqIgnoreAsciiCase record.name signScopeName :=
      fun heq => not_isSetting_of_own hsetting (Or.inl rfl) heq h
    have hsignature : ¬ EqIgnoreAsciiCase record.name signatureName :=
      fun heq => not_isSetting_of_own hsetting (Or.inr rfl) heq h
    simp only [removeRecord, List.mem_filter, hrecord, hscope, hsignature, not_false_eq_true,
      decide_true, and_self]
  rw [keptRecords, withAlternateAddress]
  split
  · rename_i hnone
    rw [insertOrReplace_of_none hnone]
    exact List.mem_append_left _ hremoved
  · exact hremoved

/-- The signed bytes have the settings of the scope, and the scope. -/
theorem signedRecords_secureSettingsBlob {records : List RdpRecord} {signScope : List Char}
    {blob : List UInt8} (hcanonical : ∀ record ∈ records, record.Canonical)
    (h : secureSettingsBlob records signScope = .ok blob) :
    ∃ scope, findRecord records signScopeName = some scope ∧
      signedRecords blob = ((split ',' signScope).filter (· ≠ [])).filterMap (findRecord records) ++
        [scope] := by
  simp only [secureSettingsBlob, Outcome.bind_eq_ok, Outcome.ofOption_eq_ok] at h
  obtain ⟨text, htext, scope, hscope, h⟩ := h
  obtain rfl := Except.ok.inj h
  refine ⟨scope, hscope, ?_⟩
  have hsigned : ∀ record ∈ ((split ',' signScope).filter (· ≠ [])).filterMap (findRecord records) ++
      [scope], record.Canonical := by
    intro record hrecord
    rw [List.mem_append, List.mem_singleton] at hrecord
    rcases hrecord with hrecord | rfl
    · obtain ⟨name, -, hfind⟩ := List.mem_filterMap.mp hrecord
      exact hcanonical record (name_of_findRecord hfind).1
    · exact hcanonical record (name_of_findRecord hscope).1
  have htextEq : text ++ recordToLine scope = recordsToText
      (((split ',' signScope).filter (· ≠ [])).filterMap (findRecord records) ++ [scope]) := by
    rw [settingLines_eq_ok htext]
    simp [recordsToText]
  rw [signedRecords, mapPairs_utf16leBytes, fromUtf16Lossy_encodeUtf16, htextEq,
    parseRecords_recordsToText_nul hsigned]

/-- The signed record of a setting is the one that the input has for it. -/
theorem mem_signedRecords_iff {text : List Char} {prepared : PreparedRdpSignature}
    (hprepared : prepareForSignature (parseRecords text) = .ok prepared)
    {setting : List Char × Bool} (hsetting : setting ∈ sensitiveSettings) {signed : RdpRecord} :
    signed ∈ signedRecords prepared.secureBlob ∧ signed.IsSetting setting.1 ↔
      settingRecord (parseRecords text) setting.1 = some signed := by
  obtain ⟨full, names, hfull, hnames, hne, hsensitive, hrecords, hscope, hblob⟩ :=
    prepareForSignature_eq_ok hprepared
  obtain ⟨scope, hscopeFind, hsigned⟩ :=
    signedRecords_secureSettingsBlob (canonical_of_prepareForSignature hprepared) hblob
  rw [hscope, split_signScope hne hsensitive] at hsigned
  have hkept : ∀ other ∈ sensitiveSettings, findRecord prepared.records other.1 =
      findRecord (keptRecords (parseRecords text) full.value) other.1 := by
    intro other hother
    rw [hrecords, findRecord_append, findRecord_singleton, signScopeRecord_name,
      if_neg (sensitiveSettings_plain other hother).2.2.2.2.2, Option.or_none]
  rw [← findRecord_keptRecords_eq hfull hsetting, hsigned, List.mem_append, List.mem_singleton]
  constructor
  · intro h
    obtain ⟨hmem | rfl, hname⟩ := h
    · obtain ⟨name, hname', hfind⟩ := List.mem_filterMap.mp hmem
      obtain ⟨other, hother, rfl⟩ := List.mem_map.mp (hsensitive name hname')
      have hsame := isSetting_of_eqIgnoreAsciiCase hother (name_of_findRecord hfind).2
      rw [← hfind, hkept other hother]
      exact findRecord_congr (hname.symm.trans hsame)
    · exact absurd hname (not_isSetting_of_own hsetting (Or.inl rfl) (name_of_findRecord hscopeFind).2)
  · intro h
    have hname : setting.1 ∈ names := by
      rw [hnames, List.mem_filter]
      exact ⟨List.mem_map_of_mem hsetting, by rw [h]; rfl⟩
    refine ⟨Or.inl (List.mem_filterMap.mpr ⟨setting.1, hname, ?_⟩), ?_⟩
    · rw [hkept setting hsetting, h]
    · exact isSetting_of_eqIgnoreAsciiCase hsetting (name_of_findRecord h).2

/-- A sensitive record of a prepared file is one of the input, or the one that the
input stands for. -/
theorem mem_or_settingRecord_of_mem_prepared {text : List Char} {prepared : PreparedRdpSignature}
    (hprepared : prepareForSignature (parseRecords text) = .ok prepared)
    {setting : List Char × Bool} (hsetting : setting ∈ sensitiveSettings) {record : RdpRecord}
    (hrecord : record ∈ prepared.records) (hname : record.IsSetting setting.1) :
    record ∈ parseRecords text ∨ settingRecord (parseRecords text) setting.1 = some record := by
  obtain ⟨full, names, hfull, -, -, -, hrecords, -, -⟩ := prepareForSignature_eq_ok hprepared
  rw [hrecords, List.mem_append, List.mem_singleton] at hrecord
  rcases hrecord with hkept | rfl
  · rcases mem_keptRecords hkept with hinput | ⟨hnone, rfl⟩
    · exact Or.inl hinput
    · right
      have htrim : trim alternateFullAddressName = alternateFullAddressName := by decide
      rw [RdpRecord.IsSetting, htrim] at hname
      have heq := (eq_alternate_of_sensitive setting hsetting).mp hname
      rw [heq, settingRecord, hnone, hfull]
      rfl
  · exact absurd hname (not_isSetting_of_own hsetting (Or.inl rfl) rfl)

/-- The blob of a prepared file covers its sensitive records exactly if the input
has one value for each. -/
theorem scope_covers_iff {text : List Char} {prepared : PreparedRdpSignature}
    (hprepared : prepareForSignature (parseRecords text) = .ok prepared) :
    ScopeCovers prepared ↔ OneValuePerSetting (parseRecords text) := by
  constructor
  · intro hcovers record hrecord setting hsetting hname
    obtain ⟨full, names, -, -, -, -, hrecords, -, -⟩ := prepareForSignature_eq_ok hprepared
    have hmem : record ∈ prepared.records := by
      rw [hrecords]
      exact List.mem_append_left _ (mem_keptRecords_of_isSetting hsetting hrecord hname)
    obtain ⟨signed, hsigned, hsignedName, hsame⟩ := hcovers record hmem setting hsetting hname
    exact ⟨signed, (mem_signedRecords_iff hprepared hsetting).mp ⟨hsigned, hsignedName⟩, hsame⟩
  · intro hone record hrecord setting hsetting hname
    rcases mem_or_settingRecord_of_mem_prepared hprepared hsetting hrecord hname with hinput | hown
    · obtain ⟨first, hfirst, hsame⟩ := hone record hinput setting hsetting hname
      obtain ⟨hsigned, hsignedName⟩ := (mem_signedRecords_iff hprepared hsetting).mpr hfirst
      exact ⟨first, hsigned, hsignedName, hsame⟩
    · obtain ⟨hsigned, hsignedName⟩ := (mem_signedRecords_iff hprepared hsetting).mpr hown
      exact ⟨record, hsigned, hsignedName, rfl, rfl⟩

theorem scope_covers_iff_onePort :
    prepareForSignature (parseRecords "full address:s:a\r\nserver port:i:1\r\n".toList) =
      .ok onePort ∧
    (ScopeCovers onePort ↔
      OneValuePerSetting (parseRecords "full address:s:a\r\nserver port:i:1\r\n".toList)) :=
  ⟨prepareForSignature_onePort, scope_covers_iff prepareForSignature_onePort⟩

/-- The second of two server ports stays in the file and is not signed. -/
theorem second_port_not_covered : ∃ prepared, prepareForSignature
    (parseRecords "full address:s:a\r\nserver port:i:1\r\nserver port:i:2\r\n".toList) =
      .ok prepared ∧ ¬ ScopeCovers prepared := by
  refine ⟨{ onePort with records :=
    [⟨"full address".toList, .string, ['a']⟩, ⟨"server port".toList, .integer, ['1']⟩,
      ⟨"server port".toList, .integer, ['2']⟩, ⟨"Alternate Full Address".toList, .string, ['a']⟩,
      ⟨"SignScope".toList, .string, onePort.signScope⟩] }, ?_, ?_⟩
  · unfold prepareForSignature sensitiveSettings onePort
    repeat rw [String.toList_ofList]
    decide
  · unfold ScopeCovers sensitiveSettings onePort
    repeat rw [String.toList_ofList]
    decide

end Psign.Sip
