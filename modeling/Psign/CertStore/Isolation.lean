import Psign.CertStore.Store

/-!
# Isolation of stores

A store is a directory, found by joining the base directory, the scope and the
name of the store.  Whatever a command does outside of the files it is given as
arguments it does to files directly in that directory (`within_certStoreCommand`).

The name of a store is checked for path separators, but not for `.` and `..`.
For every other name the directory is `<base>/<scope>/<store>`; under these two
the system goes to the directory of the scope and to the base directory.  So a
command stays under `<base>/<scope>/<store>` exactly when the name is neither of
the two (`store_isolation_iff`), and two different stores are the same directory
exactly when both are called `..`.
-/

namespace Psign.CertStore

open CodeLib CodeLib.FileSystem

variable {PrivateKey PublicKey : Type} [DecidableEq PublicKey]
variable (lib : CertLibrary PrivateKey PublicKey) (env : Environment)

/-! ## What a command touches -/

/-- The path of a file directly in the directory of the store. -/
def InStore (loc : StoreLocation) (path : Path) : Prop :=
  ∃ name, path = resolve loc.storeDir ++ [name]

theorem inStore_certPath (loc : StoreLocation) (thumbprint : List Char) :
    InStore loc (certPath loc thumbprint) :=
  ⟨_, certPath_eq loc thumbprint⟩

theorem inStore_keyPath (loc : StoreLocation) (thumbprint : List Char) :
    InStore loc (keyPath loc thumbprint) :=
  ⟨_, keyPath_eq loc thumbprint⟩

/-- An access that a command may make: it reads what it is told to read, writes
what it is told to write, and all else is in the store. -/
def Permitted (loc : StoreLocation) (inputs outputs : List Path) (access : Access) : Prop :=
  InStore loc access.path ∨ (∃ path ∈ inputs, access = .read path) ∨ access.path ∈ outputs

variable {loc : StoreLocation} {inputs outputs : List Path}

theorem within_writeIfNeeded {path : Path} (content : List UInt8) (hpath : InStore loc path) :
    FileM.Within (Permitted loc inputs outputs) (writeIfNeeded path content) := by
  refine (FileM.within_pathExists (Or.inl hpath)).bind fun present => ?_
  split
  · exact FileM.within_pure _
  · exact (FileM.within_write content (Or.inl hpath)).bind fun _ => FileM.within_pure _

theorem within_readExisting (what : String) {path : Path} (hpath : InStore loc path) :
    FileM.Within (Permitted loc inputs outputs) (readExisting what path) :=
  (FileM.within_pathExists (Or.inl hpath)).bind fun _ =>
    (FileM.within_lift _).bind fun _ => FileM.within_read (Or.inl hpath)

omit [DecidableEq PublicKey] in
theorem within_detailsFromDerPath (der : List UInt8) (path : Path) :
    FileM.Within (Permitted loc inputs outputs) (detailsFromDerPath lib loc der path) :=
  (FileM.within_lift _).bind fun _ =>
    (FileM.within_pathExists (Or.inl (inStore_keyPath loc _))).bind fun _ => FileM.within_pure _

omit [DecidableEq PublicKey] in
theorem within_listEntries {entries : List Path} (h : ∀ path ∈ entries, InStore loc path) :
    FileM.Within (Permitted loc inputs outputs) (listEntries lib loc entries) := by
  induction entries with
  | nil => exact FileM.within_pure _
  | cons path rest ih =>
    have hrest := ih fun p hp => h p (List.mem_cons_of_mem _ hp)
    rw [listEntries]
    split
    · refine (FileM.within_read (Or.inl (h path List.mem_cons_self))).bind fun der => ?_
      exact (within_detailsFromDerPath lib der path).bind fun _ =>
        hrest.bind fun _ => FileM.within_pure _
    · exact hrest

theorem within_refuseExisting (what : String) {out : Path} (force : Bool) (hout : out ∈ outputs) :
    FileM.Within (Permitted loc inputs outputs) (refuseExisting what out force) :=
  (FileM.within_pathExists (Or.inr (Or.inr hout))).bind fun _ => FileM.within_lift _

/-! ## One lemma for each command -/

variable {selection : CertStoreSelectionArgs}

theorem within_importCert (hloc : resolveLocation env selection = .ok loc) (cert : Path)
    (key : Option Path) :
    FileM.Within (Permitted loc (cert :: key.toList) outputs)
      (importCert lib env selection cert key) := by
  refine FileM.within_lift_bind fun loc' hloc' => ?_
  obtain rfl : loc' = loc := Except.ok.inj (hloc'.symm.trans hloc)
  refine (FileM.within_read (Or.inr (Or.inl ⟨cert, List.mem_cons_self, rfl⟩))).bind fun bytes => ?_
  refine (FileM.within_lift _).bind fun der => ?_
  refine (within_writeIfNeeded _ (inStore_certPath loc' _)).bind fun imported => ?_
  cases key with
  | none => exact FileM.within_pure _
  | some key =>
    refine (FileM.within_read (Or.inr (Or.inl ⟨key, by simp, rfl⟩))).bind fun keyBytes => ?_
    refine (FileM.within_lift _).bind fun loaded => (FileM.within_lift _).bind fun _ => ?_
    exact (within_writeIfNeeded _ (inStore_keyPath loc' _)).bind fun _ => FileM.within_pure _

theorem within_importPfx (hloc : resolveLocation env selection = .ok loc) (pfx : Path)
    (password : List Char) :
    FileM.Within (Permitted loc [pfx] outputs) (importPfx lib env selection pfx password) := by
  refine FileM.within_lift_bind fun loc' hloc' => ?_
  obtain rfl : loc' = loc := Except.ok.inj (hloc'.symm.trans hloc)
  refine (FileM.within_read (Or.inr (Or.inl ⟨pfx, List.mem_cons_self, rfl⟩))).bind fun bytes => ?_
  refine (FileM.within_lift _).bind fun loaded => ?_
  refine (within_writeIfNeeded _ (inStore_certPath loc' _)).bind fun imported => ?_
  exact (within_writeIfNeeded _ (inStore_keyPath loc' _)).bind fun _ => FileM.within_pure _

omit [DecidableEq PublicKey] in
theorem within_listCerts (hloc : resolveLocation env selection = .ok loc) :
    FileM.Within (Permitted loc inputs outputs) (listCerts lib env selection) := by
  refine FileM.within_lift_bind fun loc' hloc' => ?_
  obtain rfl : loc' = loc := Except.ok.inj (hloc'.symm.trans hloc)
  refine FileM.within_readDir_bind fun entries hentries => ?_
  exact (within_listEntries lib hentries).bind fun _ => FileM.within_pure _

omit [DecidableEq PublicKey] in
theorem within_printCert (hloc : resolveLocation env selection = .ok loc) (sha1 : List Char) :
    FileM.Within (Permitted loc inputs outputs) (printCert lib env selection sha1) := by
  refine FileM.within_lift_bind fun loc' hloc' => ?_
  obtain rfl : loc' = loc := Except.ok.inj (hloc'.symm.trans hloc)
  refine (FileM.within_lift _).bind fun thumbprint => ?_
  refine (within_readExisting _ (inStore_certPath loc' thumbprint)).bind fun der => ?_
  exact within_detailsFromDerPath lib der _

theorem within_exportedKey (thumbprint : List Char) (args : CertStoreExportArgs) :
    FileM.Within (Permitted loc inputs outputs) (exportedKey loc thumbprint args) := by
  unfold exportedKey
  split
  · refine (FileM.within_pathExists (Or.inl (inStore_keyPath loc thumbprint))).bind fun _ => ?_
    exact (FileM.within_lift _).bind fun _ => (FileM.within_lift _).bind fun _ => FileM.within_pure _
  · exact FileM.within_pure _

/-- The key that is exported goes to the output that was asked for. -/
theorem mem_of_exportedKey {thumbprint : List Char} {args : CertStoreExportArgs} {w w' : World}
    {keyOut : Option Path} (h : exportedKey loc thumbprint args w = (.ok keyOut, w')) :
    ∀ path ∈ keyOut, path ∈ args.keyOut := by
  unfold exportedKey at h
  split at h
  · obtain ⟨_, _, _, h⟩ := FileM.bind_eq_ok h
    obtain ⟨_, _, _, h⟩ := FileM.bind_eq_ok h
    obtain ⟨out, _, hout, h⟩ := FileM.bind_eq_ok h
    have hout := Outcome.ofOption_eq_ok.mp (Prod.mk.inj hout).1
    obtain rfl := Except.ok.inj (Prod.mk.inj h).1
    intro path hpath
    rw [hout]
    exact hpath
  · obtain rfl := Except.ok.inj (Prod.mk.inj h).1
    intro path hpath
    cases hpath

omit [DecidableEq PublicKey] in
theorem within_exportCert (hloc : resolveLocation env selection = .ok loc)
    (args : CertStoreExportArgs) :
    FileM.Within (Permitted loc inputs (args.out :: args.keyOut.toList))
      (exportCert lib env selection args) := by
  refine FileM.within_lift_bind fun loc' hloc' => ?_
  obtain rfl : loc' = loc := Except.ok.inj (hloc'.symm.trans hloc)
  have hout : args.out ∈ args.out :: args.keyOut.toList := List.mem_cons_self
  refine (FileM.within_lift _).bind fun thumbprint => ?_
  refine (within_readExisting _ (inStore_certPath loc' thumbprint)).bind fun der => ?_
  refine (FileM.within_lift _).bind fun _ => ?_
  refine (within_exportedKey thumbprint args).bind_of (fun _ _ _ => mem_of_exportedKey)
    fun keyOut hkeyOut => ?_
  refine (within_refuseExisting _ _ hout).bind fun _ => ?_
  cases keyOut with
  | none => exact (FileM.within_write _ (Or.inr (Or.inr hout))).bind fun _ => FileM.within_pure _
  | some keyOut =>
    have hmem : keyOut ∈ args.out :: args.keyOut.toList :=
      List.mem_cons_of_mem _ (Option.mem_toList.mpr (hkeyOut keyOut rfl))
    refine (within_refuseExisting _ _ hmem).bind fun _ => ?_
    refine (FileM.within_write _ (Or.inr (Or.inr hout))).bind fun _ => ?_
    refine (within_readExisting _ (inStore_keyPath loc' thumbprint)).bind fun keyPem => ?_
    exact (FileM.within_write _ (Or.inr (Or.inr hmem))).bind fun _ => FileM.within_pure _

theorem within_removeCert (hloc : resolveLocation env selection = .ok loc) (sha1 : List Char) :
    FileM.Within (Permitted loc inputs outputs) (removeCert env selection sha1) := by
  refine FileM.within_lift_bind fun loc' hloc' => ?_
  obtain rfl : loc' = loc := Except.ok.inj (hloc'.symm.trans hloc)
  refine (FileM.within_lift _).bind fun thumbprint => ?_
  have hcert := inStore_certPath loc' thumbprint
  have hkey := inStore_keyPath loc' thumbprint
  refine (FileM.within_pathExists (Or.inl hcert)).bind fun _ => (FileM.within_lift _).bind fun _ => ?_
  refine (FileM.within_removeFile (Or.inl hcert)).bind fun _ => ?_
  refine (FileM.within_pathExists (Or.inl hkey)).bind fun keyPresent => ?_
  split
  · exact (FileM.within_removeFile (Or.inl hkey)).bind fun _ => FileM.within_pure _
  · exact FileM.within_pure _

theorem within_success {α : Type} {P : Access → Prop} {program : FileM α}
    (h : FileM.Within P program) : FileM.Within P (FileM.success program) :=
  h.bind fun _ => FileM.within_pure _

/-- A command reads what it is told to read and writes what it is told to write;
all else it does to files directly in the directory of its store. -/
theorem within_certStoreCommand (hloc : resolveLocation env selection = .ok loc)
    (command : CertStoreCommand) :
    FileM.Within (Permitted loc command.inputs command.outputs)
      (certStoreCommand lib env selection command) := by
  cases command with
  | importCert cert key => exact within_success (within_importCert lib env hloc cert key)
  | importPfx pfx password => exact within_success (within_importPfx lib env hloc pfx password)
  | list => exact within_success (within_listCerts lib env hloc)
  | print sha1 => exact within_success (within_printCert lib env hloc sha1)
  | exportCert args => exact within_success (within_exportCert lib env hloc args)
  | remove sha1 => exact within_success (within_removeCert env hloc sha1)

/-! ## Isolation -/

/-- Whatever a command does, its accesses are strictly under
`<base>/<scope>/<store>`, the files it was given as arguments apart, and no file
of the second store is other than before unless the command was told to write
it. -/
def Isolated (base : List Name) (selection : CertStoreSelectionArgs) (scope storeName : List Char)
    (second : StoreLocation) : Prop :=
  ∀ command w,
    (∃ accesses, (certStoreCommand lib env selection command w).2.log = w.log ++ accesses ∧
      ∀ a ∈ accesses, a.path ∈ command.inputs ∨ a.path ∈ command.outputs ∨
        StrictlyUnder (resolve base ++ [scope, storeName]) a.path) ∧
    ∀ path, InStore second path → path ∉ command.outputs →
      (certStoreCommand lib env selection command w).2.files.get path = w.files.get path

/-- The location of a store under a base directory. -/
def storeLocation (base : List Name) (machineStore : Bool) (storeName : List Char) :
    StoreLocation :=
  ⟨scopeOf machineStore, storeName, base ++ [scopeOf machineStore, storeName]⟩

theorem resolveLocation_of {base : List Name} {storeName : List Char}
    (hbase : resolveBaseDir env selection.certStoreDir = .ok base)
    (hname : normalizeStoreName selection.storeName = .ok storeName) :
    resolveLocation env selection = .ok (storeLocation base selection.machineStore storeName) :=
  (resolveLocation_eq_ok env).mpr ⟨base, storeName, hbase, hname, rfl⟩

/-- The directory of a store that is not called `.` or `..`. -/
theorem resolve_storeLocation {base : List Name} {machineStore : Bool} {storeName : List Char}
    (hdot : storeName ≠ ['.']) (hdots : storeName ≠ ['.', '.']) :
    resolve (storeLocation base machineStore storeName).storeDir =
      resolve base ++ [scopeOf machineStore, storeName] := by
  show resolve (base ++ [_, _]) = _
  rw [resolve_storeDir, resolveStep_of_ne hdot hdots, List.append_assoc]
  rfl

theorem resolve_storeLocation_dot (base : List Name) (machineStore : Bool) :
    resolve (storeLocation base machineStore ['.']).storeDir =
      resolve base ++ [scopeOf machineStore] :=
  (resolve_storeDir base machineStore ['.']).trans (if_pos rfl)

theorem resolve_storeLocation_dots (base : List Name) (machineStore : Bool) :
    resolve (storeLocation base machineStore ['.', '.']).storeDir = resolve base := by
  refine (resolve_storeDir base machineStore ['.', '.']).trans ?_
  rw [resolveStep, if_neg (by decide), if_pos rfl, List.dropLast_concat]

theorem scopeOf_inj {m m' : Bool} (h : scopeOf m = scopeOf m') : m = m' := by
  cases m <;> cases m' <;> first | rfl | exact absurd h (by decide)

/-- Two different stores are one directory exactly when both are called `..`. -/
theorem storeDir_eq_iff {base : List Name} {m m' : Bool} {name name' : List Char}
    (hother : m ≠ m' ∨ name ≠ name') :
    resolve (storeLocation base m name).storeDir = resolve (storeLocation base m' name').storeDir ↔
      name = ['.', '.'] ∧ name' = ['.', '.'] := by
  have hlen : ∀ m name, (resolve (storeLocation base m name).storeDir).length =
      (resolve base).length + (if name = ['.'] then 1 else if name = ['.', '.'] then 0 else 2) := by
    intro m name
    by_cases hdot : name = ['.']
    · subst hdot
      rw [resolve_storeLocation_dot]
      simp
    · by_cases hdots : name = ['.', '.']
      · subst hdots
        rw [resolve_storeLocation_dots]
        rfl
      · rw [resolve_storeLocation hdot hdots]
        simp [hdot, hdots]
  constructor
  · intro h
    have hlengths := congrArg List.length h
    rw [hlen, hlen] at hlengths
    by_cases hdots : name = ['.', '.']
    · subst hdots
      refine ⟨rfl, ?_⟩
      by_contra hne
      rw [if_neg (by decide), if_pos rfl, if_neg hne] at hlengths
      split at hlengths <;> omega
    · exfalso
      by_cases hdot : name = ['.']
      · have hdot' : name' = ['.'] := by
          by_contra hne
          rw [if_pos hdot, if_neg hne] at hlengths
          split at hlengths <;> omega
        rw [hdot, hdot', resolve_storeLocation_dot, resolve_storeLocation_dot] at h
        have hscope := scopeOf_inj (List.singleton_inj.mp (List.append_cancel_left h))
        rcases hother with hm | hn
        · exact hm hscope
        · exact hn (hdot.trans hdot'.symm)
      · have hplain : name' ≠ ['.'] ∧ name' ≠ ['.', '.'] := by
          rw [if_neg hdot, if_neg hdots] at hlengths
          constructor
          · intro hname'
            rw [if_pos hname'] at hlengths
            omega
          · intro hname'
            rw [if_neg (by rw [hname']; decide), if_pos hname'] at hlengths
            omega
        rw [resolve_storeLocation hdot hdots, resolve_storeLocation hplain.1 hplain.2] at h
        obtain ⟨hscope, hrest⟩ := List.cons.inj (List.append_cancel_left h)
        rcases hother with hm | hn
        · exact hm (scopeOf_inj hscope)
        · exact hn (List.singleton_inj.mp hrest)
  · intro ⟨hname, hname'⟩
    rw [hname, hname', resolve_storeLocation_dots, resolve_storeLocation_dots]

/-- Stores with a file in common are one directory. -/
theorem storeDir_eq_of_inStore {loc loc' : StoreLocation} {path : Path} (h : InStore loc path)
    (h' : InStore loc' path) : resolve loc.storeDir = resolve loc'.storeDir := by
  obtain ⟨name, rfl⟩ := h
  obtain ⟨name', heq⟩ := h'
  exact (List.append_inj' heq rfl).1

/-- A thumbprint to run a command with. -/
def zeroSha1 : List Char :=
  List.replicate 40 '0'

theorem normalizeSha1Hex_zeroSha1 : normalizeSha1Hex zeroSha1 = .ok zeroSha1 := by
  decide

/-- A removal looks for the certificate in the directory of its store. -/
theorem log_remove (hloc : resolveLocation env selection = .ok loc) :
    (certStoreCommand lib env selection (.remove zeroSha1) ⟨[], []⟩).2.log =
      [.read (certPath loc zeroSha1)] := by
  have habsent : (⟨[], []⟩ : World).files.get (certPath loc zeroSha1) = none := rfl
  obtain ⟨failure, hrun⟩ := removeCert_of_absent env hloc normalizeSha1Hex_zeroSha1 habsent
  rw [certStoreCommand, FileM.success_run_snd, hrun]
  rfl

/-- A removal deletes a certificate that is there. -/
theorem get_remove (hloc : resolveLocation env selection = .ok loc) :
    (certStoreCommand lib env selection (.remove zeroSha1)
      ⟨[(certPath loc zeroSha1, [])], []⟩).2.files.get (certPath loc zeroSha1) = none := by
  have hpresent : (⟨[(certPath loc zeroSha1, [])], []⟩ : World).files.get
      (certPath loc zeroSha1) = some [] := by
    simp [Files.get]
  obtain ⟨report, log, hrun, _⟩ := removeCert_of_present env hloc normalizeSha1Hex_zeroSha1 hpresent
  rw [certStoreCommand, FileM.success_run_snd, hrun]
  show Files.get (removed _ _ _) _ = none
  rw [removed, Files.get_erase_of_ne _ (certPath_ne_keyPath loc _ _), Files.get_erase_self]

variable {base : List Name} {first second : CertStoreSelectionArgs} {name name' : List Char}

/-- A command leaves the files of every other store as they are exactly when not
both stores are called `..`. -/
theorem second_store_unchanged_iff
    (hbase : resolveBaseDir env first.certStoreDir = .ok base)
    (hname : normalizeStoreName first.storeName = .ok name)
    (hother : first.machineStore ≠ second.machineStore ∨ name ≠ name') :
    (∀ command w path, InStore (storeLocation base second.machineStore name') path →
        path ∉ command.outputs →
        (certStoreCommand lib env first command w).2.files.get path = w.files.get path) ↔
      ¬ (name = ['.', '.'] ∧ name' = ['.', '.']) := by
  have hloc := resolveLocation_of env hbase hname
  rw [← storeDir_eq_iff hother]
  constructor
  · intro h heq
    have hin : InStore (storeLocation base second.machineStore name')
        (certPath (storeLocation base first.machineStore name) zeroSha1) :=
      ⟨_, (certPath_eq _ _).trans (congrArg (· ++ _) heq)⟩
    have hsame := h (.remove zeroSha1)
      ⟨[(certPath (storeLocation base first.machineStore name) zeroSha1, [])], []⟩ _ hin (by
      intro hmem
      cases hmem)
    rw [get_remove lib env hloc] at hsame
    simp [Files.get] at hsame
  · intro hne command w path hin hout
    obtain ⟨accesses, _, hpermitted, hsame⟩ := within_certStoreCommand lib env hloc command w
    refine hsame path fun a ha hchanges => ?_
    have hpath : a.path = path := by
      rcases hchanges with rfl | rfl <;> rfl
    rcases hpermitted a ha with hstore | ⟨input, _, hread⟩ | hout'
    · exact hne (storeDir_eq_of_inStore (hpath ▸ hstore) hin)
    · rw [hread] at hchanges
      rcases hchanges with h | h <;> cases h
    · exact hout (hpath ▸ hout')

/-- For two different stores under one base directory: every command on the first
stays under its `<base>/<scope>/<store>` and leaves the files of the second as
they are exactly when the first is called neither `.` nor `..`. -/
theorem store_isolation_iff
    (hbase : resolveBaseDir env first.certStoreDir = .ok base)
    (hname : normalizeStoreName first.storeName = .ok name)
    (hother : first.machineStore ≠ second.machineStore ∨ name ≠ name') :
    Isolated lib env base first (scopeOf first.machineStore) name
        (storeLocation base second.machineStore name') ↔
      name ≠ ['.'] ∧ name ≠ ['.', '.'] := by
  have hloc := resolveLocation_of env hbase hname
  constructor
  · intro h
    -- the certificate a removal looks for is not where it should be
    obtain ⟨⟨accesses, hlog, hunder⟩, _⟩ := h (.remove zeroSha1) ⟨[], []⟩
    rw [log_remove lib env hloc, List.nil_append] at hlog
    subst hlog
    have hcert := hunder _ List.mem_cons_self
    simp only [CertStoreCommand.inputs, CertStoreCommand.outputs, List.not_mem_nil, false_or]
      at hcert
    obtain ⟨child, rest, hpath⟩ := hcert
    have hlen := congrArg List.length hpath
    simp only [Access.path, certPath_eq, List.length_append, List.length_cons, List.length_nil]
      at hlen
    constructor
    · intro hdot
      rw [hdot, resolve_storeLocation_dot] at hlen
      simp only [List.length_append, List.length_cons, List.length_nil] at hlen
      omega
    · intro hdots
      rw [hdots, resolve_storeLocation_dots] at hlen
      omega
  · intro ⟨hdot, hdots⟩ command w
    constructor
    · obtain ⟨accesses, hlog, hpermitted, _⟩ := within_certStoreCommand lib env hloc command w
      refine ⟨accesses, hlog, fun a ha => ?_⟩
      rcases hpermitted a ha with ⟨file, hfile⟩ | ⟨input, hinput, hread⟩ | hout
      · refine Or.inr (Or.inr ⟨file, [], ?_⟩)
        rw [hfile, resolve_storeLocation hdot hdots]
      · exact Or.inl (by rw [hread]; exact hinput)
      · exact Or.inr (Or.inl hout)
    · have hapart : ¬ (name = ['.', '.'] ∧ name' = ['.', '.']) := fun h => hdots h.1
      exact (second_store_unchanged_iff lib env hbase hname hother).mpr hapart command w

/-! ## Stores called `..` -/

/-- A store of the current user or of the machine below `/s`. -/
def storeBelow (machineStore : Bool) (storeName : List Char) : CertStoreSelectionArgs :=
  ⟨some ["s".toList], machineStore, storeName⟩

/-- A removal from the store `..` of the current user deletes a file of the store
`..` of the machine. -/
theorem remove_reaches_other_store :
    ¬ Isolated CertLibrary.bytes (fun _ => none) ["s".toList] (storeBelow false "..".toList)
      "CurrentUser".toList "..".toList (storeLocation ["s".toList] true "..".toList) := by
  intro h
  have hin : InStore (storeLocation ["s".toList] true "..".toList)
      ["s".toList, certName zeroSha1] :=
    ⟨certName zeroSha1, by decide⟩
  have hkept := (h (.remove zeroSha1) ⟨[(["s".toList, certName zeroSha1], [])], []⟩).2 _ hin
    (by decide)
  exact absurd hkept (by decide)

theorem store_isolation_iff_of_my :
    Isolated CertLibrary.bytes (fun _ => none) ["s".toList] (storeBelow false "my".toList)
        "CurrentUser".toList "MY".toList (storeLocation ["s".toList] true "MY".toList) ↔
      "MY".toList ≠ ['.'] ∧ "MY".toList ≠ ['.', '.'] :=
  @store_isolation_iff UInt8 UInt8 _ CertLibrary.bytes (fun _ => none) ["s".toList]
    (storeBelow false "my".toList) (storeBelow true "my".toList) "MY".toList "MY".toList rfl
    (by decide) (Or.inl (by decide))

end Psign.CertStore
