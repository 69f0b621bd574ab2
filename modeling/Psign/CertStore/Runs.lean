import Psign.CertStore.Store

/-!
# Runs of commands on one store

What the files of a store are after any sequence of `import`, `import-pfx` and
`remove` commands, started with an empty store.

Above the files stands a ledger (`holding`): what the successful commands so far
say the store has for a thumbprint.  The files reflect the ledger
(`StoreOk`), and `resolveSigningIdentity` succeeds exactly for the thumbprints
the ledger has an identity for.

`importCert` writes the certificate before it looks at the key file.  When the key
cannot be used the command fails with the certificate written, so a run keeps its
promises as long as no step does that (`StepOk`); `importPfx` has matched key and
certificate before it writes.
-/

namespace Psign.CertStore

open CodeLib CodeLib.FileSystem CodeLib.Unicode

variable {PrivateKey PublicKey : Type} [DecidableEq PublicKey]
variable (lib : CertLibrary PrivateKey PublicKey) (env : Environment)

/-! ## Commands and the ledger -/

/-- The commands that change a store. -/
inductive StoreCommand where
  | importCert (cert : Path) (key : Option Path)
  | importPfx (pfx : Path) (password : List Char)
  | remove (sha1 : List Char)

/-- What a successful command reports. -/
inductive Event where
  | imported (thumbprint : List Char) (withKey : Bool)
  | removed (thumbprint : List Char)
  deriving DecidableEq

/-- Run one command. -/
def runCommand (selection : CertStoreSelectionArgs) : StoreCommand → FileM Event
  | .importCert cert key => do
      let report ← importCert lib env selection cert key
      return .imported report.thumbprintSha1 report.keyPath.isSome
  | .importPfx pfx password => do
      let report ← importPfx lib env selection pfx password
      return .imported report.thumbprintSha1 report.keyPath.isSome
  | .remove sha1 => do
      let report ← removeCert env selection sha1
      return .removed report.thumbprintSha1

/-- The files and the events of a run. -/
structure RunState where
  world : World
  events : List Event

/-- One command after the other; a command that fails adds no event. -/
def stepRun (selection : CertStoreSelectionArgs) (s : RunState) (command : StoreCommand) :
    RunState :=
  match runCommand lib env selection command s.world with
  | (.ok event, w) => ⟨w, s.events ++ [event]⟩
  | (.error _, w) => ⟨w, s.events⟩

def runCommands (selection : CertStoreSelectionArgs) (s : RunState) (commands : List StoreCommand) :
    RunState :=
  commands.foldl (stepRun lib env selection) s

/-- What a store has for a thumbprint. -/
inductive Holding where
  | nothing
  | certificate
  | identity
  deriving DecidableEq, Repr

/-- The ledger entry of a thumbprint after one more event. -/
def Holding.after (thumbprint : List Char) (held : Holding) : Event → Holding
  | .imported thumbprint' withKey =>
      if thumbprint' = thumbprint then
        if withKey = true ∨ held = identity then identity else certificate
      else held
  | .removed thumbprint' => if thumbprint' = thumbprint then nothing else held

/-- What the successful commands say the store has for a thumbprint. -/
def holding (events : List Event) (thumbprint : List Char) : Holding :=
  events.foldl (Holding.after thumbprint) .nothing

theorem holding_concat (events : List Event) (event : Event) (thumbprint : List Char) :
    holding (events ++ [event]) thumbprint = (holding events thumbprint).after thumbprint event := by
  rw [holding, List.foldl_append]
  rfl

/-! ## What a command does to the files -/

/-- Write a file unless it is there. -/
def ensureFile (files : Files) (path : Path) (content : List UInt8) : Files :=
  if (files.get path).isSome then files else files.insert path content

theorem writeIfNeeded_run (path : Path) (content : List UInt8) (w : World) :
    ∃ written log, writeIfNeeded path content w =
      (.ok written, ⟨ensureFile w.files path content, log⟩) := by
  rw [writeIfNeeded, FileM.pathExists_bind_run, ensureFile]
  cases (w.files.get path).isSome with
  | true => exact ⟨_, _, rfl⟩
  | false => exact ⟨_, _, rfl⟩

theorem get_ensureFile_of_ne {path path' : Path} (files : Files) (content : List UInt8)
    (h : path' ≠ path) : (ensureFile files path content).get path' = files.get path' := by
  unfold ensureFile
  split
  · rfl
  · exact Files.get_insert_of_ne files content h

theorem isSome_get_ensureFile (files : Files) (path : Path) (content : List UInt8) :
    ((ensureFile files path content).get path).isSome = true := by
  unfold ensureFile
  split
  · assumption
  · rw [Files.get_insert_self]
    rfl

/-- The key file can be used with a certificate: it holds a private key that
matches, which is written as `pem`. -/
def KeyUsable (files : Files) (der : List UInt8) (key : Path) (pem : List Char) : Prop :=
  ∃ bytes privateKey, files.get key = some bytes ∧
    pkcs8KeyPemOf lib key bytes = .ok (pem, privateKey) ∧
    ensureKeyMatchesCert lib der privateKey = .ok ()

variable {selection : CertStoreSelectionArgs} {loc : StoreLocation}

/-- What an import can do: fail before it writes anything, write the certificate
and fail at the key, or succeed. -/
theorem importCert_cases (hloc : resolveLocation env selection = .ok loc) (cert : Path)
    (key : Option Path) (w : World) :
    (∃ failure log, importCert lib env selection cert key w = (.error failure, ⟨w.files, log⟩)) ∨
    ∃ bytes der, w.files.get cert = some bytes ∧ certDerOf lib cert bytes = .ok der ∧
      ∃ files, files = ensureFile w.files (certPath loc (sha1ThumbprintUpper lib der)) der ∧
      ((∃ k failure log, key = some k ∧ (∀ pem, ¬ KeyUsable lib files der k pem) ∧
          importCert lib env selection cert key w = (.error failure, ⟨files, log⟩)) ∨
        (key = none ∧ ∃ report log,
          importCert lib env selection cert key w = (.ok report, ⟨files, log⟩) ∧
          report.thumbprintSha1 = sha1ThumbprintUpper lib der ∧ report.keyPath = none) ∨
        (∃ k pem report log, key = some k ∧ KeyUsable lib files der k pem ∧
          importCert lib env selection cert key w =
            (.ok report, ⟨ensureFile files (keyPath loc (sha1ThumbprintUpper lib der))
              (utf8Encode pem), log⟩) ∧
          report.thumbprintSha1 = sha1ThumbprintUpper lib der ∧ report.keyPath.isSome = true)) := by
  rw [importCert, FileM.lift_bind_run_of_ok hloc, FileM.read_bind_run]
  cases hbytes : w.files.get cert with
  | none =>
    left
    exact ⟨_, _, rfl⟩
  | some bytes =>
    rw [Outcome.ofOption, FileM.lift_bind_run_of_ok rfl]
    cases hder : certDerOf lib cert bytes with
    | error failure =>
      left
      exact ⟨_, _, rfl⟩
    | ok der =>
      right
      refine ⟨bytes, der, rfl, hder, _, rfl, ?_⟩
      rw [FileM.lift_bind_run_of_ok rfl]
      simp only
      obtain ⟨written, log, hwrite⟩ := writeIfNeeded_run
        (certPath loc (sha1ThumbprintUpper lib der)) der ⟨w.files, w.log ++ [.read cert]⟩
      rw [FileM.bind_run_of_ok hwrite]
      generalize ensureFile w.files (certPath loc (sha1ThumbprintUpper lib der)) der = files
      cases key with
      | none => exact Or.inr (Or.inl ⟨rfl, _, _, rfl, rfl, rfl⟩)
      | some k =>
        simp only
        rw [FileM.read_bind_run]
        simp only
        cases hkey : files.get k with
        | none =>
          refine Or.inl ⟨k, _, _, rfl, fun pem ⟨_, _, hget, _⟩ => ?_, rfl⟩
          rw [hkey] at hget
          cases hget
        | some keyBytes =>
          rw [Outcome.ofOption, FileM.lift_bind_run_of_ok rfl]
          cases hpem : pkcs8KeyPemOf lib k keyBytes with
          | error failure =>
            refine Or.inl ⟨k, _, _, rfl, fun pem ⟨_, _, hget, hload, _⟩ => ?_, rfl⟩
            obtain rfl := Option.some.inj (hkey.symm.trans hget)
            rw [hpem] at hload
            cases hload
          | ok loaded =>
            obtain ⟨pem, privateKey⟩ := loaded
            rw [FileM.lift_bind_run_of_ok rfl]
            simp only
            cases hmatch : ensureKeyMatchesCert lib der privateKey with
            | error failure =>
              refine Or.inl ⟨k, _, _, rfl, fun pem' ⟨_, _, hget, hload, hmatch'⟩ => ?_, rfl⟩
              obtain rfl := Option.some.inj (hkey.symm.trans hget)
              obtain ⟨_, rfl⟩ := Prod.mk.inj (Except.ok.inj (hpem.symm.trans hload))
              rw [hmatch] at hmatch'
              cases hmatch'
            | ok _ =>
              rw [FileM.lift_bind_run_of_ok rfl]
              obtain ⟨keyWritten, keyLog, hkeyWrite⟩ := writeIfNeeded_run
                (keyPath loc (sha1ThumbprintUpper lib der)) (utf8Encode pem)
                ⟨files, log ++ [.read k]⟩
              rw [FileM.bind_run_of_ok hkeyWrite]
              exact Or.inr (Or.inr ⟨k, pem, _, _, rfl, ⟨keyBytes, privateKey, hkey, hpem, hmatch⟩,
                rfl, rfl, rfl⟩)

/-- What an import of a PFX file can do: fail before it writes anything, or write
both files unless they are there. -/
theorem importPfx_cases (hloc : resolveLocation env selection = .ok loc) (pfx : Path)
    (password : List Char) (w : World) :
    (∃ failure log, importPfx lib env selection pfx password w =
      (.error failure, ⟨w.files, log⟩)) ∨
    ∃ bytes der pem report log, w.files.get pfx = some bytes ∧
      loadPfxCertAndKey lib bytes password = .ok (der, pem) ∧
      importPfx lib env selection pfx password w =
        (.ok report, ⟨ensureFile
          (ensureFile w.files (certPath loc (sha1ThumbprintUpper lib der)) der)
          (keyPath loc (sha1ThumbprintUpper lib der)) (utf8Encode pem), log⟩) ∧
      report.thumbprintSha1 = sha1ThumbprintUpper lib der ∧ report.keyPath.isSome = true := by
  rw [importPfx, FileM.lift_bind_run_of_ok hloc, FileM.read_bind_run]
  cases hbytes : w.files.get pfx with
  | none => exact Or.inl ⟨_, _, rfl⟩
  | some bytes =>
    rw [Outcome.ofOption, FileM.lift_bind_run_of_ok rfl]
    rcases hload : loadPfxCertAndKey lib bytes password with (message | _) | ⟨der, pem⟩
    · exact Or.inl ⟨_, _, rfl⟩
    · exact Or.inl ⟨_, _, rfl⟩
    · right
      obtain ⟨written, log, hwrite⟩ := writeIfNeeded_run
        (certPath loc (sha1ThumbprintUpper lib der)) der ⟨w.files, w.log ++ [.read pfx]⟩
      rw [FileM.lift_bind_run_of_ok (Outcome.context_eq_ok.mpr rfl)]
      simp only
      rw [FileM.bind_run_of_ok hwrite]
      obtain ⟨keyWritten, keyLog, hkeyWrite⟩ := writeIfNeeded_run
        (keyPath loc (sha1ThumbprintUpper lib der)) (utf8Encode pem)
        ⟨ensureFile w.files (certPath loc (sha1ThumbprintUpper lib der)) der, log⟩
      rw [FileM.bind_run_of_ok hkeyWrite]
      exact ⟨bytes, der, pem, _, _, rfl, hload, rfl, rfl, rfl⟩

/-! ## Keys that were loaded -/

/-- The content is the text of a private key that matches the certificate. -/
def IsKeyOf (content der : List UInt8) : Prop :=
  ∃ privateKey pem, lib.toPemStr privateKey = .ok pem ∧ content = utf8Encode (pem ++ ['\n']) ∧
    ensureKeyMatchesCert lib der privateKey = .ok ()

/-- A key file that can be used is written as the text of its key. -/
theorem KeyUsable.isKeyOf {files : Files} {der : List UInt8} {key : Path} {pem : List Char}
    (h : KeyUsable lib files der key pem) : IsKeyOf lib (utf8Encode pem) der := by
  obtain ⟨bytes, privateKey, _, hload, hmatch⟩ := h
  simp only [pkcs8KeyPemOf, canonicalPkcs8KeyPem, Outcome.bind_eq_ok, Outcome.context_eq_ok,
    Outcome.pure_eq_ok, Except.ok.injEq, Prod.mk.injEq] at hload
  obtain ⟨_, _, key', _, canonical, ⟨pem', hpem', rfl⟩, rfl, rfl⟩ := hload
  exact ⟨key', pem', hpem', rfl, hmatch⟩

/-- The keys of a PFX file are written as their texts. -/
def KeysWritten (collected : Collected PrivateKey) : Prop :=
  ∀ entry ∈ collected.keys, ∃ pem, lib.toPemStr entry.2 = .ok pem ∧ entry.1 = pem ++ ['\n']

mutual

theorem keysWritten_collectSafeBag {PrivateKey PublicKey : Type}
    (lib : CertLibrary PrivateKey PublicKey) : ∀ (bag : SafeBag PrivateKey)
    {acc acc' : Collected PrivateKey}, collectSafeBag lib bag acc = .ok acc' →
    KeysWritten lib acc → KeysWritten lib acc'
  | .privateKey key, acc, acc', h, hacc => by
    simp only [collectSafeBag, Outcome.bind_eq_ok, Outcome.context_eq_ok, Outcome.pure_eq_ok,
      Except.ok.injEq] at h
    obtain ⟨pem, hpem, rfl⟩ := h
    intro entry hentry
    rcases List.mem_append.mp hentry with hentry | hentry
    · exact hacc entry hentry
    · obtain rfl := List.mem_singleton.mp hentry
      exact ⟨pem, hpem, rfl⟩
  | .certificate der, acc, acc', h, hacc => by
    simp only [collectSafeBag, Outcome.bind_eq_ok, Outcome.context_eq_ok, Outcome.pure_eq_ok,
      Except.ok.injEq] at h
    obtain ⟨_, _, rfl⟩ := h
    exact hacc
  | .nested bags, acc, acc', h, hacc => keysWritten_collectSafeBags lib bags h hacc
  | .other, acc, acc', h, hacc => by
    obtain rfl := Except.ok.inj h
    exact hacc

theorem keysWritten_collectSafeBags {PrivateKey PublicKey : Type}
    (lib : CertLibrary PrivateKey PublicKey) : ∀ (bags : List (SafeBag PrivateKey))
    {acc acc' : Collected PrivateKey}, collectSafeBags lib bags acc = .ok acc' →
    KeysWritten lib acc → KeysWritten lib acc'
  | [], acc, acc', h, hacc => by
    obtain rfl := Except.ok.inj h
    exact hacc
  | bag :: rest, acc, acc', h, hacc => by
    rw [collectSafeBags, Outcome.bind_eq_ok] at h
    obtain ⟨next, hbag, hrest⟩ := h
    exact keysWritten_collectSafeBags lib rest hrest (keysWritten_collectSafeBag lib bag hbag hacc)

end

omit [DecidableEq PublicKey] in
theorem keysWritten_collectPfxBags {contents : List (Option (List (SafeBag PrivateKey)))}
    {acc acc' : Collected PrivateKey} (h : collectPfxBags lib contents acc = .ok acc')
    (hacc : KeysWritten lib acc) : KeysWritten lib acc' := by
  induction contents generalizing acc with
  | nil =>
    obtain rfl := Except.ok.inj h
    exact hacc
  | cons bags rest ih =>
    cases bags with
    | none => exact ih h hacc
    | some bags =>
      rw [collectPfxBags, Outcome.bind_eq_ok] at h
      obtain ⟨next, hbags, hrest⟩ := h
      exact ih hrest (keysWritten_collectSafeBags lib bags hbags hacc)

theorem exists_of_firstMatchingPair {keys : List (List Char × PrivateKey)} {certs : List (List UInt8)}
    {der : List UInt8} {pem : List Char} (h : firstMatchingPair lib keys certs = some (der, pem)) :
    ∃ privateKey, (pem, privateKey) ∈ keys ∧ ensureKeyMatchesCert lib der privateKey = .ok () := by
  induction certs with
  | nil => cases h
  | cons cert rest ih =>
    rw [firstMatchingPair] at h
    split at h
    · rename_i key hkey
      obtain ⟨rfl, rfl⟩ := Prod.mk.inj (Option.some.inj h)
      rw [firstMatchingKey] at hkey
      have hfound := List.find?_some hkey
      obtain ⟨u, hu⟩ := Option.isSome_iff_exists.mp hfound
      exact ⟨key.2, List.mem_of_find?_eq_some hkey, Outcome.toOption_eq_some.mp hu⟩
    · exact ih h

/-- A PFX file gives a certificate with the text of a key that matches it. -/
theorem isKeyOf_of_loadPfxCertAndKey {bytes : List UInt8} {password : List Char}
    {der : List UInt8} {pem : List Char}
    (h : loadPfxCertAndKey lib bytes password = .ok (der, pem)) :
    IsKeyOf lib (utf8Encode pem) der := by
  simp only [loadPfxCertAndKey, Outcome.bind_eq_ok, Outcome.ofOption_eq_ok] at h
  obtain ⟨contents, _, collected, hcollected, _, _, _, _, hpair⟩ := h
  obtain ⟨privateKey, hmem, hmatch⟩ := exists_of_firstMatchingPair lib hpair
  obtain ⟨text, htext, rfl⟩ := keysWritten_collectPfxBags lib hcollected (by simp [KeysWritten]) _ hmem
  exact ⟨privateKey, text, htext, rfl, hmatch⟩

/-! ## The invariant -/

/-- Every file of the store is a certificate under its own thumbprint, or the
private key of the certificate beside it; and the store has what the ledger
says. -/
structure StoreOk (loc : StoreLocation) (files : Files) (held : List Char → Holding) : Prop where
  only : ∀ name, (files.get (resolve loc.storeDir ++ [name])).isSome = true →
    ∃ thumbprint, name = certName thumbprint ∨ name = keyName thumbprint
  cert : ∀ thumbprint der, files.get (certPath loc thumbprint) = some der →
    sha1ThumbprintUpper lib der = thumbprint ∧ lib.certificateFromDer der = .ok ()
  key : ∀ thumbprint content, files.get (keyPath loc thumbprint) = some content →
    ∃ der, files.get (certPath loc thumbprint) = some der ∧ IsKeyOf lib content der
  cert_iff : ∀ thumbprint, (files.get (certPath loc thumbprint)).isSome = true ↔
    held thumbprint ≠ .nothing
  key_iff : ∀ thumbprint, (files.get (keyPath loc thumbprint)).isSome = true ↔
    held thumbprint = .identity

/-- The ledger after one more event. -/
def heldAfter (held : List Char → Holding) (event : Event) (thumbprint : List Char) : Holding :=
  (held thumbprint).after thumbprint event

variable {files : Files} {held : List Char → Holding}

theorem storeOk_of_empty (h : ∀ name, files.get (resolve loc.storeDir ++ [name]) = none) :
    StoreOk lib loc files fun _ => .nothing := by
  have hcert : ∀ thumbprint, files.get (certPath loc thumbprint) = none := by
    intro thumbprint
    rw [certPath_eq, h]
  have hkey : ∀ thumbprint, files.get (keyPath loc thumbprint) = none := by
    intro thumbprint
    rw [keyPath_eq, h]
  constructor
  · intro name hname
    simp [h] at hname
  · intro thumbprint der hder
    simp [hcert] at hder
  · intro thumbprint content hcontent
    simp [hkey] at hcontent
  · simp [hcert]
  · simp [hkey]

/-- No other certificate has the thumbprint of this one. -/
def CollisionFree (loc : StoreLocation) (files : Files) (der : List UInt8) : Prop :=
  ∀ content, files.get (certPath loc (sha1ThumbprintUpper lib der)) = some content →
    sha1ThumbprintUpper lib content = sha1ThumbprintUpper lib der → content = der

/-- Behind an import the certificate is there. -/
theorem get_certPath_ensureFile (hok : StoreOk lib loc files held) {der : List UInt8}
    (hfree : CollisionFree lib loc files der) :
    (ensureFile files (certPath loc (sha1ThumbprintUpper lib der)) der).get
      (certPath loc (sha1ThumbprintUpper lib der)) = some der := by
  unfold ensureFile
  split
  · rename_i hsome
    obtain ⟨content, hcontent⟩ := Option.isSome_iff_exists.mp hsome
    rw [hcontent, hfree content hcontent (hok.cert _ _ hcontent).1]
  · exact Files.get_insert_self ..

theorem after_imported_ne_nothing {thumbprint thumbprint' : List Char} {h : Holding}
    {withKey : Bool} :
    h.after thumbprint (.imported thumbprint' withKey) ≠ .nothing ↔
      thumbprint' = thumbprint ∨ h ≠ .nothing := by
  show (if _ then if _ then Holding.identity else Holding.certificate else h) ≠ _ ↔ _
  by_cases heq : thumbprint' = thumbprint
  · rw [if_pos heq]
    split <;> simp [heq]
  · simp [heq]

theorem after_imported_eq_identity {thumbprint thumbprint' : List Char} {h : Holding}
    {withKey : Bool} :
    h.after thumbprint (.imported thumbprint' withKey) = .identity ↔
      thumbprint' = thumbprint ∧ withKey = true ∨ h = .identity := by
  show (if _ then if _ then Holding.identity else Holding.certificate else h) = _ ↔ _
  by_cases heq : thumbprint' = thumbprint
  · cases withKey <;> simp [heq]
  · simp [heq]

/-- Writing a certificate keeps the invariant. -/
theorem StoreOk.ensureCert (hok : StoreOk lib loc files held) {der : List UInt8}
    (hfree : CollisionFree lib loc files der) (hparse : lib.certificateFromDer der = .ok ()) :
    StoreOk lib loc (ensureFile files (certPath loc (sha1ThumbprintUpper lib der)) der)
      (heldAfter held (.imported (sha1ThumbprintUpper lib der) false)) := by
  have hself := get_certPath_ensureFile lib hok hfree
  have hcert : ∀ thumbprint, sha1ThumbprintUpper lib der ≠ thumbprint →
      (ensureFile files (certPath loc (sha1ThumbprintUpper lib der)) der).get
        (certPath loc thumbprint) = files.get (certPath loc thumbprint) := by
    intro thumbprint hne
    exact get_ensureFile_of_ne files der fun h => hne (certPath_inj.mp h).symm
  have hkey : ∀ thumbprint, (ensureFile files (certPath loc (sha1ThumbprintUpper lib der)) der).get
      (keyPath loc thumbprint) = files.get (keyPath loc thumbprint) := by
    intro thumbprint
    exact get_ensureFile_of_ne files der (certPath_ne_keyPath loc _ _).symm
  constructor
  · intro name hname
    by_cases heq : resolve loc.storeDir ++ [name] = certPath loc (sha1ThumbprintUpper lib der)
    · rw [certPath_eq, List.append_right_inj, List.singleton_inj] at heq
      exact ⟨_, Or.inl heq⟩
    · rw [get_ensureFile_of_ne files der heq] at hname
      exact hok.only name hname
  · intro thumbprint der' hder'
    by_cases heq : sha1ThumbprintUpper lib der = thumbprint
    · subst heq
      obtain rfl := Option.some.inj (hself.symm.trans hder')
      exact ⟨rfl, hparse⟩
    · rw [hcert thumbprint heq] at hder'
      exact hok.cert thumbprint der' hder'
  · intro thumbprint content hcontent
    rw [hkey] at hcontent
    obtain ⟨der', hder', hmatch⟩ := hok.key thumbprint content hcontent
    by_cases heq : sha1ThumbprintUpper lib der = thumbprint
    · subst heq
      obtain rfl := hfree der' hder' (hok.cert _ _ hder').1
      exact ⟨_, hself, hmatch⟩
    · exact ⟨der', (hcert thumbprint heq).trans hder', hmatch⟩
  · intro thumbprint
    rw [heldAfter, after_imported_ne_nothing]
    by_cases heq : sha1ThumbprintUpper lib der = thumbprint
    · subst heq
      simp [hself]
    · rw [hcert thumbprint heq, hok.cert_iff]
      simp [heq]
  · intro thumbprint
    rw [heldAfter, after_imported_eq_identity, hkey, hok.key_iff]
    simp

/-- Writing the key of a certificate that is there keeps the invariant. -/
theorem StoreOk.ensureKey (hok : StoreOk lib loc files held) {thumbprint : List Char}
    {der content : List UInt8} (hder : files.get (certPath loc thumbprint) = some der)
    (hmatch : IsKeyOf lib content der) :
    StoreOk lib loc (ensureFile files (keyPath loc thumbprint) content)
      (heldAfter held (.imported thumbprint true)) := by
  have hcert : ∀ thumbprint', (ensureFile files (keyPath loc thumbprint) content).get
      (certPath loc thumbprint') = files.get (certPath loc thumbprint') := by
    intro thumbprint'
    exact get_ensureFile_of_ne files content (certPath_ne_keyPath loc _ _)
  have hkey : ∀ thumbprint', thumbprint ≠ thumbprint' →
      (ensureFile files (keyPath loc thumbprint) content).get (keyPath loc thumbprint') =
        files.get (keyPath loc thumbprint') := by
    intro thumbprint' hne
    exact get_ensureFile_of_ne files content fun h => hne (keyPath_inj.mp h).symm
  constructor
  · intro name hname
    by_cases heq : resolve loc.storeDir ++ [name] = keyPath loc thumbprint
    · rw [keyPath_eq, List.append_right_inj, List.singleton_inj] at heq
      exact ⟨_, Or.inr heq⟩
    · rw [get_ensureFile_of_ne files content heq] at hname
      exact hok.only name hname
  · intro thumbprint' der' hder'
    exact hok.cert thumbprint' der' (hcert thumbprint' ▸ hder')
  · intro thumbprint' content' hcontent'
    rw [hcert]
    by_cases heq : thumbprint = thumbprint'
    · subst heq
      unfold ensureFile at hcontent'
      split at hcontent'
      · exact hok.key _ _ hcontent'
      · rw [Files.get_insert_self] at hcontent'
        obtain rfl := Option.some.inj hcontent'
        exact ⟨der, hder, hmatch⟩
    · rw [hkey thumbprint' heq] at hcontent'
      exact hok.key thumbprint' content' hcontent'
  · intro thumbprint'
    rw [heldAfter, after_imported_ne_nothing, hcert, hok.cert_iff]
    constructor
    · exact Or.inr
    · intro h
      rcases h with rfl | h
      · exact (hok.cert_iff _).mp (by rw [hder]; rfl)
      · exact h
  · intro thumbprint'
    rw [heldAfter, after_imported_eq_identity]
    by_cases heq : thumbprint = thumbprint'
    · subst heq
      simp [isSome_get_ensureFile]
    · rw [hkey thumbprint' heq, hok.key_iff]
      simp [heq]

/-- Writing both files keeps the invariant. -/
theorem StoreOk.ensureBoth (hok : StoreOk lib loc files held) {der content : List UInt8}
    (hfree : CollisionFree lib loc files der) (hparse : lib.certificateFromDer der = .ok ())
    (hmatch : IsKeyOf lib content der) :
    StoreOk lib loc
      (ensureFile (ensureFile files (certPath loc (sha1ThumbprintUpper lib der)) der)
        (keyPath loc (sha1ThumbprintUpper lib der)) content)
      (heldAfter held (.imported (sha1ThumbprintUpper lib der) true)) := by
  have hboth := (hok.ensureCert lib hfree hparse).ensureKey lib
    (get_certPath_ensureFile lib hok hfree) hmatch
  have hheld : heldAfter (heldAfter held (.imported (sha1ThumbprintUpper lib der) false))
      (.imported (sha1ThumbprintUpper lib der) true) =
      heldAfter held (.imported (sha1ThumbprintUpper lib der) true) := by
    funext thumbprint
    unfold heldAfter Holding.after
    by_cases heq : sha1ThumbprintUpper lib der = thumbprint
    · simp [heq]
    · simp [heq]
  rw [hheld] at hboth
  exact hboth

/-- A removal keeps the invariant. -/
theorem StoreOk.remove (hok : StoreOk lib loc files held) (thumbprint : List Char) :
    StoreOk lib loc (removed files loc thumbprint) (heldAfter held (.removed thumbprint)) := by
  have hne := certPath_ne_keyPath loc
  have hself : (removed files loc thumbprint).get (certPath loc thumbprint) = none := by
    rw [removed, Files.get_erase_of_ne _ (hne _ _), Files.get_erase_self]
  have hkeySelf : (removed files loc thumbprint).get (keyPath loc thumbprint) = none :=
    Files.get_erase_self ..
  have hcert : ∀ thumbprint', thumbprint ≠ thumbprint' →
      (removed files loc thumbprint).get (certPath loc thumbprint') =
        files.get (certPath loc thumbprint') := by
    intro thumbprint' hother
    rw [removed, Files.get_erase_of_ne _ (hne _ _),
      Files.get_erase_of_ne _ fun h => hother (certPath_inj.mp h).symm]
  have hkey : ∀ thumbprint', thumbprint ≠ thumbprint' →
      (removed files loc thumbprint).get (keyPath loc thumbprint') =
        files.get (keyPath loc thumbprint') := by
    intro thumbprint' hother
    rw [removed, Files.get_erase_of_ne _ fun h => hother (keyPath_inj.mp h).symm,
      Files.get_erase_of_ne _ (hne _ _).symm]
  constructor
  · intro name hname
    refine hok.only name ?_
    obtain ⟨content, hcontent⟩ := Option.isSome_iff_exists.mp hname
    by_cases hc : resolve loc.storeDir ++ [name] = certPath loc thumbprint
    · rw [hc, hself] at hcontent
      cases hcontent
    · by_cases hk : resolve loc.storeDir ++ [name] = keyPath loc thumbprint
      · rw [hk, hkeySelf] at hcontent
        cases hcontent
      · rw [removed, Files.get_erase_of_ne _ hk, Files.get_erase_of_ne _ hc] at hcontent
        rw [hcontent]
        rfl
  · intro thumbprint' der hder
    by_cases heq : thumbprint = thumbprint'
    · rw [← heq, hself] at hder
      cases hder
    · exact hok.cert thumbprint' der (hcert thumbprint' heq ▸ hder)
  · intro thumbprint' content hcontent
    by_cases heq : thumbprint = thumbprint'
    · rw [← heq, hkeySelf] at hcontent
      cases hcontent
    · rw [hcert thumbprint' heq]
      exact hok.key thumbprint' content (hkey thumbprint' heq ▸ hcontent)
  · intro thumbprint'
    unfold heldAfter Holding.after
    by_cases heq : thumbprint = thumbprint'
    · subst heq
      simp [hself]
    · simp [heq, hcert thumbprint' heq, hok.cert_iff]
  · intro thumbprint'
    unfold heldAfter Holding.after
    by_cases heq : thumbprint = thumbprint'
    · subst heq
      simp [hkeySelf]
    · simp [heq, hkey thumbprint' heq, hok.key_iff]

/-! ## One step -/

/-- An import of the certificate meets no collision of thumbprints. -/
def StepCollisionFree (loc : StoreLocation) (w : World) : StoreCommand → Prop
  | .importCert cert _ => ∀ bytes der, w.files.get cert = some bytes →
      certDerOf lib cert bytes = .ok der → CollisionFree lib loc w.files der
  | .importPfx pfx password => ∀ bytes der pem, w.files.get pfx = some bytes →
      loadPfxCertAndKey lib bytes password = .ok (der, pem) → CollisionFree lib loc w.files der
  | .remove _ => True

/-- The command does not fail behind its first write, and imports only what a
later command can parse: the key of an import can be used unless the certificate
is in the store already, and the certificate of a PFX file parses. -/
def StepOk (loc : StoreLocation) (w : World) : StoreCommand → Prop
  | .importCert cert key => ∀ bytes der k, w.files.get cert = some bytes →
      certDerOf lib cert bytes = .ok der → key = some k →
      (w.files.get (certPath loc (sha1ThumbprintUpper lib der))).isSome = true ∨
        ∃ pem, KeyUsable lib
          (ensureFile w.files (certPath loc (sha1ThumbprintUpper lib der)) der) der k pem
  | .importPfx pfx password => ∀ bytes der pem, w.files.get pfx = some bytes →
      loadPfxCertAndKey lib bytes password = .ok (der, pem) → lib.certificateFromDer der = .ok ()
  | .remove _ => True

/-- A command that fails leaves the files as they were. -/
def UnchangedOnError (selection : CertStoreSelectionArgs) (w : World) (command : StoreCommand) :
    Prop :=
  ∀ failure w', runCommand lib env selection command w = (.error failure, w') →
    w'.files = w.files

omit [DecidableEq PublicKey] in
theorem certificateFromDer_of_certDerOf {cert : Path} {bytes der : List UInt8}
    (h : certDerOf lib cert bytes = .ok der) : lib.certificateFromDer der = .ok () := by
  simp only [certDerOf, Outcome.bind_eq_ok, Outcome.context_eq_ok, Outcome.pure_eq_ok,
    Except.ok.injEq] at h
  obtain ⟨der', _, u, hparse, rfl⟩ := h
  exact hparse

/-- What a step does: a failing command leaves the files as they were, and a
successful one keeps the invariant with its event in the ledger. -/
theorem runCommand_cases (hloc : resolveLocation env selection = .ok loc) {w : World}
    (hok : StoreOk lib loc w.files held) {command : StoreCommand}
    (hfree : StepCollisionFree lib loc w command) (hstep : StepOk lib loc w command) :
    (∃ failure log, runCommand lib env selection command w = (.error failure, ⟨w.files, log⟩)) ∨
    ∃ event files log, runCommand lib env selection command w = (.ok event, ⟨files, log⟩) ∧
      StoreOk lib loc files (heldAfter held event) := by
  cases command with
  | importCert cert key =>
    rcases importCert_cases lib env hloc cert key w with ⟨failure, log, hrun⟩ |
      ⟨bytes, der, hbytes, hder, files, rfl, ⟨k, failure, log, rfl, hunusable, hrun⟩ |
        ⟨rfl, report, log, hrun, hthumb, hkey⟩ | ⟨k, pem, report, log, rfl, husable, hrun, hthumb, hkey⟩⟩
    · exact Or.inl ⟨failure, log, FileM.bind_run_of_error hrun⟩
    · -- the key cannot be used, so the certificate was there before
      left
      rcases hstep bytes der k hbytes hder rfl with hpresent | ⟨pem, husable⟩
      · rw [ensureFile, if_pos hpresent] at hrun
        exact ⟨failure, log, FileM.bind_run_of_error hrun⟩
      · exact absurd husable (hunusable pem)
    · right
      refine ⟨_, _, log, FileM.bind_run_of_ok hrun, ?_⟩
      rw [hthumb, hkey]
      exact hok.ensureCert lib (hfree bytes der hbytes hder) (certificateFromDer_of_certDerOf lib hder)
    · right
      refine ⟨_, _, log, FileM.bind_run_of_ok hrun, ?_⟩
      rw [hthumb, hkey]
      exact hok.ensureBoth lib (hfree bytes der hbytes hder)
        (certificateFromDer_of_certDerOf lib hder) (KeyUsable.isKeyOf lib husable)
  | importPfx pfx password =>
    rcases importPfx_cases lib env hloc pfx password w with ⟨failure, log, hrun⟩ |
      ⟨bytes, der, pem, report, log, hbytes, hload, hrun, hthumb, hkey⟩
    · exact Or.inl ⟨failure, log, FileM.bind_run_of_error hrun⟩
    · right
      refine ⟨_, _, log, FileM.bind_run_of_ok hrun, ?_⟩
      rw [hthumb, hkey]
      exact hok.ensureBoth lib (hfree bytes der pem hbytes hload) (hstep bytes der pem hbytes hload)
        (isKeyOf_of_loadPfxCertAndKey lib hload)
  | remove sha1 =>
    cases hsha1 : normalizeSha1Hex sha1 with
    | error failure =>
      left
      refine ⟨failure, w.log, FileM.bind_run_of_error ?_⟩
      rw [removeCert, FileM.lift_bind_run_of_ok hloc, hsha1]
      rfl
    | ok thumbprint =>
      cases hcert : w.files.get (certPath loc thumbprint) with
      | none =>
        obtain ⟨failure, hrun⟩ := removeCert_of_absent env hloc hsha1 hcert
        exact Or.inl ⟨failure, _, FileM.bind_run_of_error hrun⟩
      | some der =>
        obtain ⟨report, log, hrun, hthumb⟩ := removeCert_of_present env hloc hsha1 hcert
        right
        refine ⟨_, _, log, FileM.bind_run_of_ok hrun, ?_⟩
        rw [hthumb]
        exact hok.remove lib thumbprint

/-! ## The signing identity of a thumbprint -/

omit [DecidableEq PublicKey] in
/-- The text a key was written as is read back as that key. -/
theorem validatePkcs8KeyPem_of_toPemStr {privateKey : PrivateKey} {pem : List Char}
    (h : lib.toPemStr privateKey = .ok pem) :
    validatePkcs8KeyPem lib (utf8Encode (pem ++ ['\n'])) = .ok privateKey := by
  obtain ⟨data, hparse, hkey⟩ := lib.parsePem_toPemStr h
  refine Outcome.bind_eq_ok.mpr ⟨_, Outcome.context_eq_ok.mpr hparse, ?_⟩
  exact Outcome.guardThat_bind_eq_ok.mpr ⟨rfl, Outcome.context_eq_ok.mpr hkey⟩

theorem readExisting_run {path : Path} {content : List UInt8} {w : World}
    (h : w.files.get path = some content) (what : String) :
    ∃ log, readExisting what path w = (.ok content, ⟨w.files, log⟩) := by
  rw [readExisting, FileM.pathExists_bind_run, h,
    FileM.lift_bind_run_of_ok (Outcome.guardThat_of Option.isSome_some), FileM.read, h]
  exact ⟨_, rfl⟩

theorem files_readExisting (what : String) (path : Path) (w : World) :
    (readExisting what path w).2.files = w.files := by
  rw [readExisting, FileM.pathExists_bind_run, FileM.lift_bind_run]
  split <;> rfl

/-- A store in order has a signing identity for the thumbprints that the ledger
has one for. -/
theorem resolveSigningIdentity_iff (hloc : resolveLocation env selection = .ok loc) {w : World}
    (hok : StoreOk lib loc w.files held) {sha1 thumbprint : List Char}
    (hsha1 : normalizeSha1Hex sha1 = .ok thumbprint) :
    (∃ identity w', resolveSigningIdentity lib env selection sha1 w = (.ok identity, w')) ↔
      held thumbprint = .identity := by
  rw [← hok.key_iff]
  constructor
  · intro ⟨identity, w', hrun⟩
    rw [resolveSigningIdentity, FileM.lift_bind_run_of_ok hloc, FileM.lift_bind_run_of_ok hsha1] at hrun
    obtain ⟨certDer, w₁, hcert, hrun⟩ := FileM.bind_eq_ok hrun
    obtain ⟨_, w₂, hparse, hrun⟩ := FileM.bind_eq_ok hrun
    obtain ⟨_, hw₂⟩ := Prod.mk.inj hparse
    obtain ⟨keyBytes, w₃, hkey, _⟩ := FileM.bind_eq_ok hrun
    have hfiles : w₂.files = w.files := by
      have h := files_readExisting "certificate" (certPath loc thumbprint) w
      rw [hcert] at h
      rw [← hw₂, ← h]
    have hbytes := Outcome.ofOption_eq_ok.mp (Prod.mk.inj hkey).1
    rw [hfiles] at hbytes
    rw [hbytes]
    rfl
  · intro hkey
    obtain ⟨content, hcontent⟩ := Option.isSome_iff_exists.mp hkey
    obtain ⟨der, hder, privateKey, pem, hpem, rfl, hmatch⟩ := hok.key thumbprint content hcontent
    obtain ⟨_, hparse⟩ := hok.cert thumbprint der hder
    obtain ⟨log, hread⟩ := readExisting_run hder "certificate"
    have htext : textOf (utf8Encode (pem ++ ['\n'])) = .ok (utf8Encode (pem ++ ['\n'])) := by
      refine Outcome.guardThat_bind_eq_ok.mpr ⟨?_, rfl⟩
      rw [fromUtf8_utf8Encode]
      rfl
    have hcanonical : canonicalPkcs8KeyPem lib privateKey = .ok (pem ++ ['\n']) :=
      Outcome.bind_eq_ok.mpr ⟨pem, Outcome.context_eq_ok.mpr hpem, rfl⟩
    rw [resolveSigningIdentity, FileM.lift_bind_run_of_ok hloc, FileM.lift_bind_run_of_ok hsha1,
      FileM.bind_run_of_ok hread, FileM.lift_bind_run_of_ok (Outcome.context_eq_ok.mpr hparse),
      FileM.read_bind_run, hcontent, FileM.lift_bind_run_of_ok (Outcome.ofOption_eq_ok.mpr rfl),
      FileM.lift_bind_run_of_ok (Outcome.context_eq_ok.mpr htext),
      FileM.lift_bind_run_of_ok
        (Outcome.context_eq_ok.mpr (validatePkcs8KeyPem_of_toPemStr lib hpem)),
      FileM.lift_bind_run_of_ok hmatch, FileM.lift_bind_run_of_ok hcanonical]
    exact ⟨_, _, rfl⟩

/-! ## Whole runs -/

/-- Every command of a run satisfies `P` in the state it starts in. -/
def EachStep (selection : CertStoreSelectionArgs) (P : World → StoreCommand → Prop) :
    RunState → List StoreCommand → Prop
  | _, [] => True
  | s, command :: rest =>
      P s.world command ∧ EachStep selection P (stepRun lib env selection s command) rest

/-- A step keeps the invariant. -/
theorem storeOk_stepRun (hloc : resolveLocation env selection = .ok loc) {s : RunState}
    (hok : StoreOk lib loc s.world.files (holding s.events)) {command : StoreCommand}
    (hfree : StepCollisionFree lib loc s.world command) (hstep : StepOk lib loc s.world command) :
    StoreOk lib loc (stepRun lib env selection s command).world.files
        (holding (stepRun lib env selection s command).events) ∧
      UnchangedOnError lib env selection s.world command := by
  rcases runCommand_cases lib env hloc hok hfree hstep with ⟨failure, log, hrun⟩ |
    ⟨event, files, log, hrun, hafter⟩
  · constructor
    · rw [stepRun, hrun]
      exact hok
    · intro failure' w' hfailed
      rw [hrun] at hfailed
      rw [← (Prod.mk.inj hfailed).2]
  · constructor
    · rw [stepRun, hrun]
      have hheld : holding (s.events ++ [event]) = heldAfter (holding s.events) event := by
        funext thumbprint
        exact holding_concat s.events event thumbprint
      simp only [hheld]
      exact hafter
    · intro failure' w' hfailed
      rw [hrun] at hfailed
      cases (Prod.mk.inj hfailed).1

theorem storeOk_runCommands (hloc : resolveLocation env selection = .ok loc)
    {commands : List StoreCommand} {s : RunState}
    (hok : StoreOk lib loc s.world.files (holding s.events))
    (hfree : EachStep lib env selection (StepCollisionFree lib loc) s commands)
    (hstep : EachStep lib env selection (StepOk lib loc) s commands) :
    StoreOk lib loc (runCommands lib env selection s commands).world.files
        (holding (runCommands lib env selection s commands).events) ∧
      EachStep lib env selection (UnchangedOnError lib env selection) s commands := by
  induction commands generalizing s with
  | nil => exact ⟨hok, trivial⟩
  | cons command rest ih =>
    obtain ⟨hnext, hunchanged⟩ := storeOk_stepRun lib env hloc hok hfree.1 hstep.1
    obtain ⟨hlast, heach⟩ := ih hnext hfree.2 hstep.2
    exact ⟨hlast, hunchanged, heach⟩

/-- Every certificate of a store is under its own thumbprint, and every key is the
private key of the certificate beside it; there are no other files. -/
def FilesInOrder (loc : StoreLocation) (files : Files) : Prop :=
  (∀ thumbprint der, files.get (certPath loc thumbprint) = some der →
    sha1ThumbprintUpper lib der = thumbprint ∧ lib.certificateFromDer der = .ok ()) ∧
  (∀ thumbprint content, files.get (keyPath loc thumbprint) = some content →
    ∃ der privateKey, files.get (certPath loc thumbprint) = some der ∧
      validatePkcs8KeyPem lib content = .ok privateKey ∧
      ensureKeyMatchesCert lib der privateKey = .ok ()) ∧
  ∀ name, (files.get (resolve loc.storeDir ++ [name])).isSome = true →
    ∃ thumbprint, name = certName thumbprint ∨ name = keyName thumbprint

theorem StoreOk.filesInOrder (hok : StoreOk lib loc files held) : FilesInOrder lib loc files := by
  refine ⟨hok.cert, fun thumbprint content hcontent => ?_, hok.only⟩
  obtain ⟨der, hder, privateKey, pem, hpem, rfl, hmatch⟩ := hok.key thumbprint content hcontent
  exact ⟨der, privateKey, hder, validatePkcs8KeyPem_of_toPemStr lib hpem, hmatch⟩

/-- In a run on an empty store in which no import fails behind its first write,
the files are in order, failing commands leave them as they were, and a
thumbprint has a signing identity exactly when the successful commands say so. -/
theorem store_run_promises (hloc : resolveLocation env selection = .ok loc) {w : World}
    (hempty : ∀ name, w.files.get (resolve loc.storeDir ++ [name]) = none)
    {commands : List StoreCommand}
    (hfree : EachStep lib env selection (StepCollisionFree lib loc) ⟨w, []⟩ commands)
    (hstep : EachStep lib env selection (StepOk lib loc) ⟨w, []⟩ commands) :
    FilesInOrder lib loc (runCommands lib env selection ⟨w, []⟩ commands).world.files ∧
      EachStep lib env selection (UnchangedOnError lib env selection) ⟨w, []⟩ commands ∧
      ∀ sha1 thumbprint, normalizeSha1Hex sha1 = .ok thumbprint →
        ((∃ identity w', resolveSigningIdentity lib env selection sha1
            (runCommands lib env selection ⟨w, []⟩ commands).world = (.ok identity, w')) ↔
          holding (runCommands lib env selection ⟨w, []⟩ commands).events thumbprint =
            .identity) := by
  have hstart : StoreOk lib loc w.files (holding []) := storeOk_of_empty lib hempty
  obtain ⟨hok, heach⟩ := storeOk_runCommands lib env hloc (s := ⟨w, []⟩) hstart hfree hstep
  exact ⟨hok.filesInOrder lib, heach, fun sha1 thumbprint hsha1 =>
    resolveSigningIdentity_iff lib env hloc hok hsha1⟩

/-! ## A key that does not match -/

/-- A selection of the store `MY` below `/s`. -/
def mySelection : CertStoreSelectionArgs :=
  ⟨some ["s".toList], false, "MY".toList⟩

/-- A certificate, its key, and a key of another certificate. -/
def myFiles : Files :=
  [(["c".toList], [0x30, 0x01, 0x05]),
    (["k".toList], utf8Encode (keyFraming.1 ++ "BQ==".toList ++ keyFraming.2 ++ ['\n'])),
    (["other".toList], utf8Encode (keyFraming.1 ++ "Bw==".toList ++ keyFraming.2 ++ ['\n']))]

def noEnvironment : Environment := fun _ => none

/-- The state in which the store is empty. -/
def emptyStore : RunState :=
  ⟨⟨myFiles, []⟩, []⟩

/-- The import of a certificate with the key of another one fails, and the
certificate is in the store. -/
theorem failed_import_leaves_certificate :
    ¬ EachStep CertLibrary.bytes noEnvironment mySelection
      (UnchangedOnError CertLibrary.bytes noEnvironment mySelection) emptyStore
      [.importCert ["c".toList] (some ["other".toList])] := by
  intro ⟨hunchanged, _⟩
  have hfailed : (runCommand CertLibrary.bytes noEnvironment mySelection
      (.importCert ["c".toList] (some ["other".toList])) emptyStore.world).1 =
        Outcome.bail "private key does not match certificate public key" := by
    decide
  have hwritten : (runCommand CertLibrary.bytes noEnvironment mySelection
      (.importCert ["c".toList] (some ["other".toList])) emptyStore.world).2.files ≠ myFiles := by
    decide
  exact hwritten (hunchanged _ _ (Prod.ext hfailed rfl))

/-- The location of the store `MY` below `/s`. -/
def myLocation : StoreLocation :=
  ⟨"CurrentUser".toList, "MY".toList, ["s".toList, "CurrentUser".toList, "MY".toList]⟩

/-- The certificate of the file `c`. -/
def myCertificate : List UInt8 := [0x30, 0x01, 0x05]

/-- Its certificate is imported with its key and removed, and imported again without and
with the key; between them the import of a file that does not exist fails. -/
def importAgain : List StoreCommand :=
  [.importCert ["c".toList] (some ["k".toList]),
    .remove (sha1ThumbprintUpper CertLibrary.bytes myCertificate),
    .importCert ["c".toList] none, .importCert ["missing".toList] none,
    .importCert ["c".toList] (some ["k".toList])]

/-- The import of the certificate where the store has no other one in its place. -/
theorem step_of_my_import {w : World} {key : Option Path}
    (hcert : w.files.get ["c".toList] = some myCertificate)
    (hplace : w.files.get (certPath myLocation
        (sha1ThumbprintUpper CertLibrary.bytes myCertificate)) = none ∨
      w.files.get (certPath myLocation
        (sha1ThumbprintUpper CertLibrary.bytes myCertificate)) = some myCertificate)
    (husable : ∀ k, key = some k → ∃ pem, KeyUsable CertLibrary.bytes
      (ensureFile w.files (certPath myLocation
        (sha1ThumbprintUpper CertLibrary.bytes myCertificate)) myCertificate) myCertificate k pem) :
    StepCollisionFree CertLibrary.bytes myLocation w (.importCert ["c".toList] key) ∧
      StepOk CertLibrary.bytes myLocation w (.importCert ["c".toList] key) := by
  have hder : certDerOf CertLibrary.bytes ["c".toList] myCertificate = .ok myCertificate := by
    decide
  constructor
  · intro bytes der hbytes hload content hcontent _
    obtain rfl := Option.some.inj (hcert.symm.trans hbytes)
    obtain rfl := Except.ok.inj (hder.symm.trans hload)
    rcases hplace with hplace | hplace
    · rw [hplace] at hcontent
      cases hcontent
    · exact Option.some.inj (hcontent.symm.trans hplace)
  · intro bytes der k hbytes hload hk
    obtain rfl := Option.some.inj (hcert.symm.trans hbytes)
    obtain rfl := Except.ok.inj (hder.symm.trans hload)
    exact Or.inr (husable k hk)

/-- Its key can be used. -/
theorem keyUsable_mine {files : Files}
    (hkey : files.get ["k".toList] =
      some (utf8Encode (keyFraming.1 ++ "BQ==".toList ++ keyFraming.2 ++ ['\n']))) :
    ∃ pem, KeyUsable CertLibrary.bytes files myCertificate ["k".toList] pem :=
  ⟨keyFraming.1 ++ "BQ==".toList ++ keyFraming.2 ++ ['\n'], _, 5, hkey, by decide, by decide⟩

set_option maxRecDepth 4000

theorem store_run_promises_of_importAgain :
    FilesInOrder CertLibrary.bytes myLocation
        (runCommands CertLibrary.bytes noEnvironment mySelection emptyStore importAgain).world.files ∧
      EachStep CertLibrary.bytes noEnvironment mySelection
        (UnchangedOnError CertLibrary.bytes noEnvironment mySelection) emptyStore importAgain ∧
      ∀ sha1 thumbprint, normalizeSha1Hex sha1 = .ok thumbprint →
        ((∃ identity w', resolveSigningIdentity CertLibrary.bytes noEnvironment mySelection sha1
            (runCommands CertLibrary.bytes noEnvironment mySelection emptyStore
              importAgain).world = (.ok identity, w')) ↔
          holding (runCommands CertLibrary.bytes noEnvironment mySelection emptyStore
            importAgain).events thumbprint = .identity) := by
  have hfirst := @step_of_my_import ⟨myFiles, []⟩ (some ["k".toList]) (by decide) (by decide)
    (fun k hk => Option.some.inj hk ▸ keyUsable_mine (by decide +kernel))
  have hthird := @step_of_my_import
    (runCommands CertLibrary.bytes noEnvironment mySelection emptyStore
      (importAgain.take 2)).world none (by decide +kernel) (by decide +kernel)
    (fun k hk => absurd hk (Option.some_ne_none k).symm)
  have hlast := @step_of_my_import
    (runCommands CertLibrary.bytes noEnvironment mySelection emptyStore
      (importAgain.take 4)).world (some ["k".toList]) (by decide +kernel) (by decide +kernel)
    (fun k hk => Option.some.inj hk ▸ keyUsable_mine (by decide +kernel))
  have hmissing : (runCommands CertLibrary.bytes noEnvironment mySelection emptyStore
      (importAgain.take 3)).world.files.get ["missing".toList] = none := by
    decide +kernel
  refine store_run_promises CertLibrary.bytes noEnvironment (w := ⟨myFiles, []⟩)
    (by decide) (fun name => ?_) ⟨hfirst.1, trivial, hthird.1, ?_, hlast.1, trivial⟩
    ⟨hfirst.2, trivial, hthird.2, ?_, hlast.2, trivial⟩
  · have hlen : ∀ file ∈ myFiles, file.1.length = 1 := by decide
    rw [Files.get, List.find?_eq_none.mpr, Option.map_none]
    intro file hfile hpath
    have hlength := congrArg List.length (beq_iff_eq.mp hpath)
    rw [hlen file hfile] at hlength
    have hdir : (resolve myLocation.storeDir).length = 3 := by decide
    rw [List.length_append, hdir] at hlength
    exact absurd hlength (by simp)
  · intro bytes der hbytes
    exact absurd (hbytes.symm.trans hmissing) (Option.some_ne_none bytes)
  · intro bytes der k hbytes
    exact absurd (hbytes.symm.trans hmissing) (Option.some_ne_none bytes)

end Psign.CertStore
