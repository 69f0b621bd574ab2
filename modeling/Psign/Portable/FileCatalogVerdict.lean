import Psign.Portable.FileCatalog

/-!
# The verdict of a file catalog test

What `portable_test_file_catalog` reports, in terms of the members of the catalog
and the files alone (`portableTestFileCatalog_valid_iff`), and how this differs
from what the verdict stands for.

`Verdict` is the meaning: every file that is not skipped is a member with its
digest, and every member has its file, or is skipped itself, or is the member of a
skipped file.  The code misses it in two ways.  A file can be skipped by its path
or by its bare name, which excuses the file and not its member
(`SkippedByPathOnly`).  A member without a name, and a member that another one of
the same normalized name follows, are not in the map and are never looked at
(`DropsMember`).
-/

namespace Psign.Portable

open CodeLib CodeLib.RustStr Psign.Sip

/-! ## What the verdict stands for -/

/-- The key that the map holds a member under. -/
def memberKey (member : CatalogMember) : Option (List Char) :=
  member.subjectName.map normalizeCatalogMemberKey

/-- The key that a file is looked up with. -/
def subjectKey (subject : CatalogSubjectPlan) : List Char :=
  normalizeCatalogMemberKey subject.memberName

variable (parser : PeParser) (hashes : Hashes)

/-- The file has the digest of the member. -/
def HasDigest (member : CatalogMember) (subject : CatalogSubjectPlan) : Prop :=
  ∃ bytes, subject.path.contents = .ok bytes ∧
    catalogMemberDigestForSubject parser hashes member bytes = .ok member.digest

/-- The file is a file of the member: its name and its digest. -/
def Matches (member : CatalogMember) (subject : CatalogSubjectPlan) : Prop :=
  memberKey member = some (subjectKey subject) ∧ HasDigest parser hashes member subject

/-- Nothing has to be found for the member: a skip entry names it, or the file of
its name is skipped. -/
def Excused (skipKeys : List (List Char)) (subjects : List CatalogSubjectPlan)
    (member : CatalogMember) : Prop :=
  ∃ key, memberKey member = some key ∧
    (key ∈ skipKeys ∨ ∃ subject ∈ subjects, isSkipped skipKeys subject ∧ subjectKey subject = key)

/-- The files fit the catalog. -/
structure Verdict (members : List CatalogMember) (subjects : List CatalogSubjectPlan)
    (skipKeys : List (List Char)) : Prop where
  files : ∀ subject ∈ subjects, isSkipped skipKeys subject = false →
    ∃ member ∈ members, Matches parser hashes member subject
  members : ∀ member ∈ members,
    (∃ subject ∈ subjects, Matches parser hashes member subject) ∨
      Excused skipKeys subjects member

/-! ## What is tested -/

/-- The last member of a normalized name. -/
def lastNamed (members : List CatalogMember) (key : List Char) : Option CatalogMember :=
  members.reverse.find? fun member => decide (memberKey member = some key)

/-- Every file that is not skipped has the digest of the last member of its name. -/
def LastMembersMatch (members : List CatalogMember) (subjects : List CatalogSubjectPlan)
    (skipKeys : List (List Char)) : Prop :=
  ∀ subject ∈ subjects, isSkipped skipKeys subject = false →
    ∃ member, lastNamed members (subjectKey subject) = some member ∧
      HasDigest parser hashes member subject

/-- Every name of a member is a skip key or the name of a file that is not skipped. -/
def NamesTested (members : List CatalogMember) (subjects : List CatalogSubjectPlan)
    (skipKeys : List (List Char)) : Prop :=
  ∀ member ∈ members, ∀ key, memberKey member = some key →
    key ∈ skipKeys ∨
      ∃ subject ∈ subjects, isSkipped skipKeys subject = false ∧ subjectKey subject = key

/-- Every name of a member is a skip key or the name of a file. -/
def NamesKnown (members : List CatalogMember) (subjects : List CatalogSubjectPlan)
    (skipKeys : List (List Char)) : Prop :=
  ∀ member ∈ members, ∀ key, memberKey member = some key →
    key ∈ skipKeys ∨ ∃ subject ∈ subjects, subjectKey subject = key

/-- A file is skipped by its path or its bare name only, and is in the catalog. -/
def SkippedByPathOnly (members : List CatalogMember) (subjects : List CatalogSubjectPlan)
    (skipKeys : List (List Char)) : Prop :=
  ∃ subject ∈ subjects, isSkipped skipKeys subject ∧ subjectKey subject ∉ skipKeys ∧
    ∃ member ∈ members, memberKey member = some (subjectKey subject)

/-- A member has no name, or a file that is tested has its name and not its digest. -/
def DropsMember (members : List CatalogMember) (subjects : List CatalogSubjectPlan)
    (skipKeys : List (List Char)) : Prop :=
  ∃ member ∈ members, memberKey member = none ∨
    ∃ subject ∈ subjects, isSkipped skipKeys subject = false ∧
      memberKey member = some (subjectKey subject) ∧ ¬ HasDigest parser hashes member subject

/-! ## The map of the members -/

theorem lastNamed_append (members : List CatalogMember) (member : CatalogMember)
    (key : List Char) :
    lastNamed (members ++ [member]) key =
      if memberKey member = some key then some member else lastNamed members key := by
  unfold lastNamed
  rw [List.reverse_append, List.reverse_singleton, List.singleton_append, List.find?_cons]
  by_cases h : memberKey member = some key <;> simp [h]

/-- The map holds the last member of each name. -/
theorem get_memberByName (members : List CatalogMember) (key : List Char) :
    SortedMap.get (memberByName members) key = lastNamed members key := by
  induction members using List.reverseRecOn with
  | nil => rfl
  | append_singleton members member ih =>
    rw [lastNamed_append, memberByName, List.foldl_append, ← memberByName]
    rw [List.foldl_cons, List.foldl_nil]
    cases hname : member.subjectName with
    | none => simp [memberKey, hname, ih]
    | some name =>
      dsimp only
      rw [SortedMap.get_insert, ih]
      simp only [memberKey, hname, Option.map_some, Option.some.injEq, eq_comm]

theorem exists_lastNamed {members : List CatalogMember} {key : List Char} :
    (∃ member, lastNamed members key = some member) ↔
      ∃ member ∈ members, memberKey member = some key := by
  rw [← Option.isSome_iff_exists, lastNamed, List.find?_isSome]
  simp

theorem lastNamed_eq_some {members : List CatalogMember} {key : List Char} {member : CatalogMember}
    (h : lastNamed members key = some member) :
    member ∈ members ∧ memberKey member = some key := by
  unfold lastNamed at h
  have hmem := List.mem_of_find?_eq_some h
  have hkey := List.find?_some h
  exact ⟨List.mem_reverse.mp hmem, of_decide_eq_true hkey⟩

/-- The keys of the map are the names of the members. -/
theorem mem_keys_memberByName {members : List CatalogMember} {key : List Char} :
    key ∈ SortedMap.keys (memberByName members) ↔ ∃ member ∈ members, memberKey member = some key := by
  rw [SortedMap.mem_keys_iff, ← exists_lastNamed]
  simp only [get_memberByName]

/-! ## The loop over the files -/

/-- The test of one file: it found the last member of its name, and the digest is
the same. -/
def FileValid (byName : SortedMap.Map (List Char) CatalogMember) (subject : CatalogSubjectPlan) :
    Prop :=
  ∃ member, SortedMap.get byName (subjectKey subject) = some member ∧
    HasDigest parser hashes member subject

/-- Every item is valid. -/
def AllValid (items : List PortableCatalogPathItem) : Prop :=
  ∀ item ∈ items, item.status = .valid

theorem allValid_append {items more : List PortableCatalogPathItem} :
    AllValid (items ++ more) ↔ AllValid items ∧ AllValid more :=
  List.forall_mem_append

variable {byName : SortedMap.Map (List Char) CatalogMember} {skipKeys : List (List Char)}

theorem testSubject_of_skipped {progress : TestProgress} {subject : CatalogSubjectPlan}
    (h : isSkipped skipKeys subject = true) :
    testSubject parser hashes byName skipKeys progress subject =
      .ok { progress with skippedItems := progress.skippedItems ++ [subject.memberName] } := by
  unfold testSubject
  rw [if_pos h]

/-- A file that is tested gets one item, valid if the test is passed. -/
theorem testSubject_of_tested {progress progress' : TestProgress} {subject : CatalogSubjectPlan}
    (hskip : isSkipped skipKeys subject = false)
    (h : testSubject parser hashes byName skipKeys progress subject = .ok progress') :
    progress'.seenPathKeys = progress.seenPathKeys ++ [subjectKey subject] ∧
      ∃ item, progress'.pathItems = progress.pathItems ++ [item] ∧
        (item.status = .valid ↔ FileValid parser hashes byName subject) := by
  unfold testSubject at h
  rw [if_neg (by simp [hskip])] at h
  cases hget : SortedMap.get byName (normalizeCatalogMemberKey subject.memberName) with
  | none =>
    rw [hget] at h
    cases Except.ok.inj h
    refine ⟨rfl, _, rfl, ?_⟩
    simp [FileValid, subjectKey, hget]
  | some member =>
    rw [hget] at h
    obtain ⟨bytes, hbytes, h⟩ := Outcome.bind_eq_ok.mp h
    obtain ⟨actual, hactual, h⟩ := Outcome.bind_eq_ok.mp h
    rw [Outcome.mapErr_eq_ok] at hbytes hactual
    cases Except.ok.inj h
    refine ⟨rfl, _, rfl, ?_⟩
    have hdigest : FileValid parser hashes byName subject ↔ actual = member.digest := by
      constructor
      · rintro ⟨found, hfound, data, hdata, hsame⟩
        cases hget.symm.trans hfound
        cases hbytes.symm.trans hdata
        exact Except.ok.inj (hactual.symm.trans hsame)
      · intro hsame
        exact ⟨member, hget, bytes, hbytes, hsame ▸ hactual⟩
    rw [hdigest]
    by_cases hsame : actual = member.digest <;> simp [hsame]

theorem testSubject_of_fileValid {subject : CatalogSubjectPlan} (progress : TestProgress)
    (h : FileValid parser hashes byName subject) :
    ∃ progress', testSubject parser hashes byName skipKeys progress subject = .ok progress' := by
  by_cases hskip : isSkipped skipKeys subject
  · exact ⟨_, testSubject_of_skipped parser hashes hskip⟩
  · obtain ⟨member, hget, bytes, hbytes, hdigest⟩ := h
    unfold testSubject
    rw [if_neg hskip]
    rw [subjectKey] at hget
    simp [hget, hbytes, hdigest, Outcome.mapErr]

/-- What the loop over the files collects. -/
theorem foldlM_testSubject {subjects : List CatalogSubjectPlan} {progress progress' : TestProgress}
    (h : subjects.foldlM (testSubject parser hashes byName skipKeys) progress = .ok progress') :
    (∀ key, key ∈ progress'.seenPathKeys ↔ key ∈ progress.seenPathKeys ∨
      ∃ subject ∈ subjects, isSkipped skipKeys subject = false ∧ subjectKey subject = key) ∧
    (AllValid progress'.pathItems ↔ AllValid progress.pathItems ∧
      ∀ subject ∈ subjects, isSkipped skipKeys subject = false →
        FileValid parser hashes byName subject) := by
  induction subjects generalizing progress with
  | nil =>
    cases Except.ok.inj h
    simp
  | cons subject subjects ih =>
    rw [List.foldlM_cons] at h
    obtain ⟨next, hstep, hrest⟩ := Outcome.bind_eq_ok.mp h
    obtain ⟨hseen, hvalid⟩ := ih hrest
    by_cases hskip : isSkipped skipKeys subject = true
    · rw [testSubject_of_skipped parser hashes hskip] at hstep
      cases Except.ok.inj hstep
      exact ⟨by simpa [hskip] using hseen, by simpa [hskip] using hvalid⟩
    · rw [Bool.not_eq_true] at hskip
      obtain ⟨hkeys, item, hitems, hitem⟩ := testSubject_of_tested parser hashes hskip hstep
      constructor
      · intro key
        rw [hseen, hkeys, List.mem_append, List.mem_singleton, List.exists_mem_cons_iff, or_assoc]
        simp only [hskip, true_and, eq_comm (a := key)]
      · rw [hvalid, hitems, allValid_append]
        simp only [List.forall_mem_cons, hskip, true_implies, ← hitem, and_assoc]
        simp [AllValid]

/-- The loop ends where every file is skipped or valid. -/
theorem exists_foldlM_testSubject {subjects : List CatalogSubjectPlan} (progress : TestProgress)
    (h : ∀ subject ∈ subjects, isSkipped skipKeys subject = false →
      FileValid parser hashes byName subject) :
    ∃ progress', subjects.foldlM (testSubject parser hashes byName skipKeys) progress =
      .ok progress' := by
  induction subjects generalizing progress with
  | nil => exact ⟨progress, rfl⟩
  | cons subject subjects ih =>
    have hstep : ∃ next, testSubject parser hashes byName skipKeys progress subject = .ok next := by
      by_cases hskip : isSkipped skipKeys subject = true
      · exact ⟨_, testSubject_of_skipped parser hashes hskip⟩
      · exact testSubject_of_fileValid parser hashes progress
          (h subject List.mem_cons_self (Bool.not_eq_true _ ▸ hskip))
    obtain ⟨next, hnext⟩ := hstep
    obtain ⟨progress', hrest⟩ := ih next fun s hs => h s (List.mem_cons_of_mem _ hs)
    exact ⟨progress', by rw [List.foldlM_cons, hnext]; exact hrest⟩

/-! ## The files that are collected -/

private theorem rejectDuplicatesFrom_of_nodup (subjects : List CatalogSubjectPlan)
    (seen : List (List Char)) (hnodup : (subjects.map subjectKey).Nodup)
    (hseen : ∀ subject ∈ subjects, subjectKey subject ∉ seen) :
    rejectDuplicatesFrom seen subjects = .ok () := by
  induction subjects generalizing seen with
  | nil => rfl
  | cons subject subjects ih =>
    rw [List.map_cons, List.nodup_cons] at hnodup
    have hnew : normalizeCatalogMemberKey subject.memberName ∉ seen :=
      hseen subject List.mem_cons_self
    unfold rejectDuplicatesFrom
    rw [if_neg hnew]
    apply ih _ hnodup.2
    intro other hother hmem
    rcases List.mem_cons.mp hmem with hsame | hmem
    · exact hnodup.1 (List.mem_map.mpr ⟨other, hother, hsame⟩)
    · exact hseen other (List.mem_cons_of_mem _ hother) hmem

/-- Files with different names are collected, in the order of their names. -/
theorem collectCatalogSubjects_of_nodup {found : List CatalogSubjectPlan} (hne : found ≠ [])
    (hnodup : (found.map subjectKey).Nodup) :
    collectCatalogSubjects found = .ok (found.insertionSort subjectLe) := by
  have hperm : (found.insertionSort subjectLe).Perm found := List.perm_insertionSort _ _
  have hsorted : ((found.insertionSort subjectLe).map subjectKey).Nodup :=
    ((hperm.map subjectKey).nodup_iff).mpr hnodup
  have hnonempty : found.insertionSort subjectLe ≠ [] := fun h =>
    hne (List.nil_perm.mp (h ▸ hperm))
  simp only [collectCatalogSubjects, rejectDuplicateCatalogMemberNames]
  rw [rejectDuplicatesFrom_of_nodup _ [] hsorted (by simp), Outcome.ok_bind,
    Outcome.guardThat_of hnonempty]
  rfl

/-! ## What the verdict implies -/

section

variable {members : List CatalogMember} {subjects : List CatalogSubjectPlan}

theorem isSkipped_of_mem {subject : CatalogSubjectPlan} (h : subjectKey subject ∈ skipKeys) :
    isSkipped skipKeys subject = true := by
  unfold isSkipped
  rw [subjectKey] at h
  simp [h]

/-- A member that is excused has no file that is tested. -/
theorem not_excused_of_tested (hnodup : (subjects.map subjectKey).Nodup) {member : CatalogMember}
    {subject : CatalogSubjectPlan} (hsubject : subject ∈ subjects)
    (htested : isSkipped skipKeys subject = false)
    (hkey : memberKey member = some (subjectKey subject)) :
    ¬ Excused skipKeys subjects member := by
  intro ⟨key, hexcused, hskip⟩
  cases hkey.symm.trans hexcused
  rcases hskip with hskip | ⟨other, hother, hskipped, heq⟩
  · exact absurd (isSkipped_of_mem hskip) (by simp [htested])
  · rw [List.inj_on_of_nodup_map hnodup hother hsubject heq, htested] at hskipped
    exact absurd hskipped (by decide)

/-- In a verdict, a file that is tested has the digest of every member of its name. -/
theorem Verdict.hasDigest (h : Verdict parser hashes members subjects skipKeys)
    (hnodup : (subjects.map subjectKey).Nodup) {member : CatalogMember} (hmember : member ∈ members)
    {subject : CatalogSubjectPlan} (hsubject : subject ∈ subjects)
    (htested : isSkipped skipKeys subject = false)
    (hkey : memberKey member = some (subjectKey subject)) : HasDigest parser hashes member subject := by
  rcases h.members member hmember with ⟨other, hother, hother_key, hdigest⟩ | hexcused
  · have heq : subjectKey other = subjectKey subject :=
      Option.some.inj (hother_key.symm.trans hkey)
    exact List.inj_on_of_nodup_map hnodup hother hsubject heq ▸ hdigest
  · exact absurd hexcused (not_excused_of_tested hnodup hsubject htested hkey)

/-- A file that is tested is a file of the last member of its name. -/
theorem Verdict.lastMembersMatch (h : Verdict parser hashes members subjects skipKeys)
    (hnodup : (subjects.map subjectKey).Nodup) :
    LastMembersMatch parser hashes members subjects skipKeys := by
  intro subject hsubject htested
  obtain ⟨named, hnamed, hname, -⟩ := h.files subject hsubject htested
  obtain ⟨last, hlast⟩ := exists_lastNamed.mpr ⟨named, hnamed, hname⟩
  obtain ⟨hmem, hkey⟩ := lastNamed_eq_some hlast
  exact ⟨last, hlast, h.hasDigest parser hashes hnodup hmem hsubject htested hkey⟩

theorem Verdict.namesKnown (h : Verdict parser hashes members subjects skipKeys) :
    NamesKnown members subjects skipKeys := by
  intro member hmember key hkey
  rcases h.members member hmember with ⟨subject, hsubject, hmatch⟩ | ⟨key', hexcused, hskip⟩
  · exact .inr ⟨subject, hsubject, Option.some.inj (hmatch.1.symm.trans hkey)⟩
  · cases hkey.symm.trans hexcused
    rcases hskip with hskip | ⟨subject, hsubject, -, heq⟩
    · exact .inl hskip
    · exact .inr ⟨subject, hsubject, heq⟩

theorem NamesTested.namesKnown (h : NamesTested members subjects skipKeys) :
    NamesKnown members subjects skipKeys := by
  intro member hmember key hkey
  rcases h member hmember key hkey with hskip | ⟨subject, hsubject, -, heq⟩
  · exact .inl hskip
  · exact .inr ⟨subject, hsubject, heq⟩

/-- Where every name is known, a name that is not tested is the name of a file that is
skipped by its path. -/
theorem namesTested_iff (hnodup : (subjects.map subjectKey).Nodup)
    (hknown : NamesKnown members subjects skipKeys) :
    NamesTested members subjects skipKeys ↔ ¬ SkippedByPathOnly members subjects skipKeys := by
  constructor
  · intro htested ⟨subject, hsubject, hskip, hkey, member, hmember, hname⟩
    rcases htested member hmember _ hname with hin | ⟨other, hother, hother_tested, heq⟩
    · exact hkey hin
    · rw [← List.inj_on_of_nodup_map hnodup hother hsubject heq, hother_tested] at hskip
      exact absurd hskip (by decide)
  · intro hnone member hmember key hkey
    rcases hknown member hmember key hkey with hskip | ⟨subject, hsubject, rfl⟩
    · exact .inl hskip
    · by_cases hin : subjectKey subject ∈ skipKeys
      · exact .inl hin
      · right
        refine ⟨subject, hsubject, ?_, rfl⟩
        by_contra hskip
        exact hnone ⟨subject, hsubject, by simpa using hskip, hin, member, hmember, hkey⟩

/-- Where the last members match and every name is known, the verdict fails only for a
member that is not looked at. -/
theorem verdict_iff (hnodup : (subjects.map subjectKey).Nodup)
    (hmatch : LastMembersMatch parser hashes members subjects skipKeys)
    (hknown : NamesKnown members subjects skipKeys) :
    Verdict parser hashes members subjects skipKeys ↔
      ¬ DropsMember parser hashes members subjects skipKeys := by
  constructor
  · intro hverdict ⟨member, hmember, hdrop⟩
    rcases hdrop with hnone | ⟨subject, hsubject, htested, hkey, hdigest⟩
    · rcases hverdict.members member hmember with ⟨_, _, hkey, _⟩ | ⟨key, hkey, _⟩
      · exact absurd (hnone.symm.trans hkey) (by simp)
      · exact absurd (hnone.symm.trans hkey) (by simp)
    · exact hdigest (hverdict.hasDigest parser hashes hnodup hmember hsubject htested hkey)
  · intro hkept
    constructor
    · intro subject hsubject htested
      obtain ⟨last, hlast, hdigest⟩ := hmatch subject hsubject htested
      obtain ⟨hmem, hkey⟩ := lastNamed_eq_some hlast
      exact ⟨last, hmem, hkey, hdigest⟩
    · intro member hmember
      cases hkey : memberKey member with
      | none => exact absurd ⟨member, hmember, .inl hkey⟩ hkept
      | some key =>
        rcases hknown member hmember key hkey with hskip | ⟨subject, hsubject, rfl⟩
        · exact .inr ⟨key, hkey, .inl hskip⟩
        · by_cases htested : isSkipped skipKeys subject
          · exact .inr ⟨_, hkey, .inr ⟨subject, hsubject, htested, rfl⟩⟩
          · refine .inl ⟨subject, hsubject, hkey, ?_⟩
            by_contra hdigest
            exact hkept ⟨member, hmember,
              .inr ⟨subject, hsubject, by simpa using htested, hkey, hdigest⟩⟩

end

/-! ## The verdict of the code -/

section

variable {σ : Type} (catalogFilePath : List Char) (filesToSkip : List (List Char)) (signature : σ)

/-- The test reports `Valid`. -/
def ReportsValid (members : List CatalogMember) (found : List CatalogSubjectPlan) : Prop :=
  ∃ response, portableTestFileCatalog parser hashes catalogFilePath (.ok members) (.ok found)
    filesToSkip (.ok signature) = .ok response ∧ response.status = .valid

theorem all_insertionSort_valid (items : List PortableCatalogPathItem) :
    ((items.insertionSort fun a b => catalogPathSortKey a.path ≤ catalogPathSortKey b.path).all
      fun item => decide (item.status = .valid)) = true ↔ AllValid items := by
  rw [List.all_eq_true]
  simp only [List.mem_insertionSort, decide_eq_true_eq]
  rfl

/-- No member is reported as missing where every key is seen or skipped. -/
theorem allValid_missing {byName : SortedMap.Map (List Char) CatalogMember}
    {known : List Char → Bool} :
    AllValid ((byName.filter fun entry => !known entry.1).map fun entry => missingItem entry.2) ↔
      ∀ key ∈ SortedMap.keys byName, known key = true := by
  constructor
  · intro h key hkey
    obtain ⟨entry, hentry, rfl⟩ := List.mem_map.mp hkey
    by_contra hknown
    have hmem : entry ∈ byName.filter fun entry => !known entry.1 :=
      List.mem_filter.mpr ⟨hentry, by simpa using hknown⟩
    exact absurd (h _ (List.mem_map_of_mem hmem)) (by simp [missingItem])
  · intro h item hitem
    obtain ⟨entry, hentry, rfl⟩ := List.mem_map.mp hitem
    obtain ⟨hmem, hknown⟩ := List.mem_filter.mp hentry
    rw [h entry.1 (List.mem_map_of_mem hmem)] at hknown
    exact absurd hknown (by decide)

/-- The report is the end of the loop over the files, and the members that are left. -/
theorem reportsValid_iff {members : List CatalogMember} {found : List CatalogSubjectPlan}
    (hne : found ≠ []) (hnodup : (found.map subjectKey).Nodup) :
    ReportsValid parser hashes catalogFilePath filesToSkip signature members found ↔
      ∃ progress, (found.insertionSort subjectLe).foldlM
          (testSubject parser hashes (memberByName members) (filesToSkip.flatMap catalogSkipKeys))
          ⟨[], [], []⟩ = .ok progress ∧
        AllValid progress.pathItems ∧
        ∀ key ∈ SortedMap.keys (memberByName members),
          key ∈ progress.seenPathKeys ∨ key ∈ filesToSkip.flatMap catalogSkipKeys := by
  unfold ReportsValid portableTestFileCatalog
  simp only [Outcome.ok_bind, collectCatalogSubjects_of_nodup hne hnodup]
  cases hfold : (found.insertionSort subjectLe).foldlM
      (testSubject parser hashes (memberByName members) (filesToSkip.flatMap catalogSkipKeys))
      ⟨[], [], []⟩ with
  | error failure => simp
  | ok progress =>
    simp only [Outcome.ok_bind, Outcome.pure_eq_ok, Except.ok.injEq, exists_eq_left']
    have hreport : ∀ items : List PortableCatalogPathItem,
        (if (items.insertionSort fun a b => catalogPathSortKey a.path ≤ catalogPathSortKey b.path).all
          fun item => decide (item.status = .valid) then PortableCatalogValidationStatus.valid
          else .validationFailed) = .valid ↔ AllValid items := by
      intro items
      rw [← all_insertionSort_valid]
      split <;> simp_all
    rw [hreport, allValid_append, @allValid_missing _ fun key =>
      progress.seenPathKeys.contains key || (filesToSkip.flatMap catalogSkipKeys).contains key]
    simp only [Bool.or_eq_true, List.contains_iff_mem]

/-- `Valid` is reported when every tested file has the digest of the last member of
its name, and every name of a member is tested or a skip key. -/
theorem portableTestFileCatalog_valid_iff {members : List CatalogMember}
    {found : List CatalogSubjectPlan} (hne : found ≠ [])
    (hnodup : (found.map subjectKey).Nodup) :
    ReportsValid parser hashes catalogFilePath filesToSkip signature members found ↔
      LastMembersMatch parser hashes members found (filesToSkip.flatMap catalogSkipKeys) ∧
        NamesTested members found (filesToSkip.flatMap catalogSkipKeys) := by
  have hmem : ∀ subject, subject ∈ found.insertionSort subjectLe ↔ subject ∈ found :=
    fun subject => List.mem_insertionSort _
  have hfiles : (∀ subject ∈ found.insertionSort subjectLe,
      isSkipped (filesToSkip.flatMap catalogSkipKeys) subject = false →
        FileValid parser hashes (memberByName members) subject) ↔
      LastMembersMatch parser hashes members found (filesToSkip.flatMap catalogSkipKeys) := by
    simp only [LastMembersMatch, FileValid, get_memberByName, hmem]
  rw [reportsValid_iff parser hashes catalogFilePath filesToSkip signature hne hnodup]
  constructor
  · rintro ⟨progress, hfold, hvalid, hkeys⟩
    obtain ⟨hseen, hitems⟩ := foldlM_testSubject parser hashes hfold
    refine ⟨hfiles.mp (hitems.mp hvalid).2, ?_⟩
    intro member hmember key hkey
    rcases hkeys key (mem_keys_memberByName.mpr ⟨member, hmember, hkey⟩) with hin | hin
    · rcases (hseen key).mp hin with hnil | ⟨subject, hsubject, htested⟩
      · exact absurd hnil List.not_mem_nil
      · exact .inr ⟨subject, (hmem subject).mp hsubject, htested⟩
    · exact .inl hin
  · rintro ⟨hmatch, hnames⟩
    obtain ⟨progress, hfold⟩ := exists_foldlM_testSubject parser hashes ⟨[], [], []⟩
      (hfiles.mpr hmatch)
    obtain ⟨hseen, hitems⟩ := foldlM_testSubject parser hashes hfold
    refine ⟨progress, hfold, hitems.mpr ⟨by simp [AllValid], hfiles.mpr hmatch⟩, ?_⟩
    intro key hin
    obtain ⟨member, hmember, hkey⟩ := mem_keys_memberByName.mp hin
    rcases hnames member hmember key hkey with hskip | ⟨subject, hsubject, htested⟩
    · exact .inr hskip
    · exact .inl ((hseen key).mpr (.inr ⟨subject, (hmem subject).mpr hsubject, htested⟩))

/-- **The verdict of a file catalog test.**  The test reports `Valid` exactly when the
files fit the catalog, except where every tested file has the digest of the last member
of its name and every name of a member is known: there it does if a file of the catalog
is skipped by its path only and a member is not looked at, or neither. -/
theorem file_catalog_verdict_iff (members : List CatalogMember) {found : List CatalogSubjectPlan}
    (hne : found ≠ []) (hnodup : (found.map subjectKey).Nodup) :
    (ReportsValid parser hashes catalogFilePath filesToSkip signature members found ↔
        Verdict parser hashes members found (filesToSkip.flatMap catalogSkipKeys)) ↔
      (LastMembersMatch parser hashes members found (filesToSkip.flatMap catalogSkipKeys) →
        NamesKnown members found (filesToSkip.flatMap catalogSkipKeys) →
        (SkippedByPathOnly members found (filesToSkip.flatMap catalogSkipKeys) ↔
          DropsMember parser hashes members found (filesToSkip.flatMap catalogSkipKeys))) := by
  rw [portableTestFileCatalog_valid_iff parser hashes catalogFilePath filesToSkip signature hne hnodup]
  by_cases hmatch : LastMembersMatch parser hashes members found
      (filesToSkip.flatMap catalogSkipKeys)
  · by_cases hknown : NamesKnown members found (filesToSkip.flatMap catalogSkipKeys)
    · rw [namesTested_iff hnodup hknown, verdict_iff parser hashes hnodup hmatch hknown]
      simp only [hmatch, hknown, true_and, true_implies, not_iff_not]
    · -- an unknown name is neither tested nor excused
      refine iff_of_true (iff_of_false ?_ ?_) fun _ h => absurd h hknown
      · exact fun h => hknown h.2.namesKnown
      · exact fun h => hknown (h.namesKnown parser hashes)
  · refine iff_of_true (iff_of_false ?_ ?_) fun h => absurd h hmatch
    · exact fun h => hmatch h.1
    · exact fun h => hmatch (h.lastMembersMatch parser hashes hnodup)

end

/-! ## A file that is skipped by its bare name -/

/-- The member of a file, with the digest of `Hashes.truncating`. -/
def memberOf (name : String) (bytes : List UInt8) : CatalogMember where
  subjectIdentifier := []
  subjectName := some name.toList
  dataOid := idSpcCabData
  digestAlgorithmOid := oidSha256
  digest := Hashes.truncating.hash .sha256 bytes

/-- A file below the root directory of a request. -/
def fileOf (directories : List String) (name : String) (bytes : List UInt8) : CatalogSubjectPlan where
  path := {
    components := ("/" :: "cat" :: directories ++ [name]).map String.toList
    text := (String.intercalate "/" ("/cat" :: directories ++ [name])).toList
    fileName := some name.toList
    contents := .ok bytes }
  memberName := (String.intercalate "/" (directories ++ [name])).toList

/-- The test of one file that is its member. -/
theorem file_catalog_verdict_one_file :
    ReportsValid .headers .truncating "/cat.cat".toList [] () [memberOf "a.txt" [97]]
        [fileOf [] "A.txt" [97]] ↔
      Verdict .headers .truncating [memberOf "a.txt" [97]] [fileOf [] "A.txt" [97]] [] := by
  refine (file_catalog_verdict_iff .headers .truncating "/cat.cat".toList [] () _ (by simp)
    (by decide)).mpr fun _ _ => iff_of_false ?_ ?_
  · intro ⟨subject, _, hskip, _⟩
    exact absurd hskip (by simp [isSkipped])
  · intro ⟨member, hmember, hdrop⟩
    cases List.mem_singleton.mp hmember
    rcases hdrop with hnone | ⟨subject, hsubject, _, _, hdigest⟩
    · exact absurd hnone (by decide)
    · cases List.mem_singleton.mp hsubject
      exact hdigest ⟨[97], rfl, rfl⟩

/-- The files `a.txt` and `sub/b.txt` are in the catalog, and `b.txt` is skipped: the
files fit, and the test fails for the member `sub/b.txt`. -/
theorem file_catalog_skip_by_bare_name :
    ¬ (ReportsValid .headers .truncating "/cat.cat".toList ["b.txt".toList] ()
        [memberOf "a.txt" [97], memberOf "sub/b.txt" [98]]
        [fileOf [] "a.txt" [97], fileOf ["sub"] "b.txt" [98]] ↔
      Verdict .headers .truncating [memberOf "a.txt" [97], memberOf "sub/b.txt" [98]]
        [fileOf [] "a.txt" [97], fileOf ["sub"] "b.txt" [98]]
        (["b.txt".toList].flatMap catalogSkipKeys)) := by
  have hreport : ¬ ReportsValid .headers .truncating "/cat.cat".toList ["b.txt".toList] ()
      [memberOf "a.txt" [97], memberOf "sub/b.txt" [98]]
      [fileOf [] "a.txt" [97], fileOf ["sub"] "b.txt" [98]] := by
    intro ⟨response, hrun, hvalid⟩
    have hstatus : (portableTestFileCatalog .headers .truncating "/cat.cat".toList
        (.ok [memberOf "a.txt" [97], memberOf "sub/b.txt" [98]])
        (.ok [fileOf [] "a.txt" [97], fileOf ["sub"] "b.txt" [98]]) ["b.txt".toList]
        (.ok ())).map PortableTestFileCatalogResponse.status = .ok .validationFailed := by
      decide
    rw [hrun] at hstatus
    exact absurd (hvalid.symm.trans (Except.ok.inj hstatus)) (by decide)
  have hverdict : Verdict .headers .truncating [memberOf "a.txt" [97], memberOf "sub/b.txt" [98]]
      [fileOf [] "a.txt" [97], fileOf ["sub"] "b.txt" [98]]
      (["b.txt".toList].flatMap catalogSkipKeys) := by
    constructor
    · intro subject hsubject htested
      rcases List.mem_pair.mp hsubject with rfl | rfl
      · exact ⟨memberOf "a.txt" [97], by simp, by decide, [97], rfl, rfl⟩
      · exact absurd htested (by decide)
    · intro member hmember
      rcases List.mem_pair.mp hmember with rfl | rfl
      · exact .inl ⟨fileOf [] "a.txt" [97], by simp, by decide, [97], rfl, rfl⟩
      · exact .inr ⟨"sub/b.txt".toList, by decide, .inr ⟨fileOf ["sub"] "b.txt" [98], by simp,
          by decide, by decide⟩⟩
  exact fun h => hreport (h.mpr hverdict)

end Psign.Portable
