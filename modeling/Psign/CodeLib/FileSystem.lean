import Psign.CodeLib.Outcome

/-!
# Files

Programs on a file system that keep a record of what they touch.  The file system
is a finite map from paths to contents; a path is the list of its components
below the root, and directories are there when a file in them is.  A program
names a path by components that may be `.` and `..`; `resolve` is the path the
system goes to.

`Within P` bounds a program: whatever it reads, writes or deletes satisfies `P`,
and a file that it has not written or deleted is as it was.  It is proved along
the program (`Within.bind` and one lemma for each operation).
-/

namespace CodeLib.FileSystem

/-! ## Paths -/

/-- A component of a path. -/
abbrev Name := List Char

/-- A path of the file system: its components below the root. -/
abbrev Path := List Name

/-- Go from a directory to a component. -/
def resolveStep (dir : Path) (name : Name) : Path :=
  if name = ['.'] then dir
  else if name = ['.', '.'] then dir.dropLast
  else dir ++ [name]

/-- The path that components with `.` and `..` in them lead to. -/
def resolve (raw : List Name) : Path :=
  raw.foldl resolveStep []

theorem resolve_append (raw more : List Name) :
    resolve (raw ++ more) = more.foldl resolveStep (resolve raw) :=
  List.foldl_append

theorem resolve_concat (raw : List Name) (name : Name) :
    resolve (raw ++ [name]) = resolveStep (resolve raw) name := by
  rw [resolve_append]
  rfl

theorem resolveStep_of_ne {name : Name} (hdot : name ≠ ['.']) (hdots : name ≠ ['.', '.'])
    (dir : Path) : resolveStep dir name = dir ++ [name] := by
  rw [resolveStep, if_neg hdot, if_neg hdots]

/-- A path below a directory. -/
def StrictlyUnder (dir path : Path) : Prop :=
  ∃ name rest, path = dir ++ name :: rest

/-! ## Files and their record -/

/-- The contents of the files. -/
abbrev Files := List (Path × List UInt8)

namespace Files

/-- The content of a file. -/
def get (files : Files) (path : Path) : Option (List UInt8) :=
  (files.find? fun file => file.1 == path).map (·.2)

/-- Delete a file. -/
def erase (files : Files) (path : Path) : Files :=
  files.filter fun file => file.1 != path

/-- Write a file. -/
def insert (files : Files) (path : Path) (content : List UInt8) : Files :=
  (path, content) :: files.erase path

@[simp] theorem get_erase_self (files : Files) (path : Path) : (files.erase path).get path = none := by
  rw [get, erase, List.find?_eq_none.mpr, Option.map_none]
  intro file hfile hpath
  simp only [List.mem_filter, bne_iff_ne, ne_eq] at hfile
  exact hfile.2 (by simpa using hpath)

theorem get_erase_of_ne {path path' : Path} (files : Files) (h : path' ≠ path) :
    (files.erase path).get path' = files.get path' := by
  induction files with
  | nil => rfl
  | cons file files ih =>
    unfold get erase at ih ⊢
    rw [List.filter_cons]
    by_cases hfile : file.1 = path
    · rw [if_neg (by simp [hfile]), List.find?_cons]
      split
      · rename_i heq
        exact absurd ((beq_iff_eq.mp heq).symm.trans hfile) h
      · exact ih
    · rw [if_pos (by simpa using hfile), List.find?_cons, List.find?_cons]
      split
      · rfl
      · exact ih

@[simp] theorem get_insert_self (files : Files) (path : Path) (content : List UInt8) :
    (files.insert path content).get path = some content := by
  simp [get, insert]

theorem get_insert_of_ne {path path' : Path} (files : Files) (content : List UInt8)
    (h : path' ≠ path) : (files.insert path content).get path' = files.get path' := by
  rw [← get_erase_of_ne files h]
  unfold get insert
  rw [List.find?_cons_of_neg (by simpa using fun heq => h heq.symm)]

end Files

/-- What a program does to a file. -/
inductive Access where
  | read (path : Path)
  | write (path : Path)
  | delete (path : Path)
  deriving DecidableEq, Repr

namespace Access

/-- The path of an access. -/
def path : Access → Path
  | read path | write path | delete path => path

/-- The access can change the file. -/
def Changes (access : Access) (path : Path) : Prop :=
  access = write path ∨ access = delete path

end Access

/-- The files, and what has been done to them so far. -/
structure World where
  files : Files
  log : List Access
  deriving DecidableEq

/-- A program on files. -/
abbrev FileM (α : Type) := World → Outcome α × World

namespace FileM

variable {α β : Type}

/-- Go on with the value of a program; a failure ends it. -/
def andThen (program : FileM α) (next : α → FileM β) : FileM β := fun w =>
  match program w with
  | (.ok a, w') => next a w'
  | (.error failure, w') => (.error failure, w')

instance : Monad FileM where
  pure a := fun w => (.ok a, w)
  bind := andThen

/-- A program of which only the success counts. -/
def success (program : FileM α) : FileM Unit :=
  program >>= fun _ => pure ()

/-- A computation that touches nothing. -/
def lift (result : Outcome α) : FileM α := fun w => (result, w)

/-- `Path::exists`, for a file. -/
def pathExists (path : Path) : FileM Bool := fun w =>
  (.ok (w.files.get path).isSome, { w with log := w.log ++ [.read path] })

/-- `fs::read`. -/
def read (path : Path) : FileM (List UInt8) := fun w =>
  (Outcome.ofOption (w.files.get path) "No such file or directory",
    { w with log := w.log ++ [.read path] })

/-- `fs::write`. -/
def write (path : Path) (content : List UInt8) : FileM Unit := fun w =>
  (.ok (), { files := w.files.insert path content, log := w.log ++ [.write path] })

/-- `fs::remove_file` of a file that is there. -/
def removeFile (path : Path) : FileM Unit := fun w =>
  (.ok (), { files := w.files.erase path, log := w.log ++ [.delete path] })

/-- `fs::read_dir`: the files directly in a directory. -/
def readDir (dir : Path) : FileM (List Path) := fun w =>
  (.ok ((w.files.map (·.1)).filter fun path => path.dropLast == dir && path != []), w)

/-! ### Runs -/

theorem bind_eq (program : FileM α) (next : α → FileM β) (w : World) :
    (program >>= next) w =
      match program w with
      | (.ok a, w') => next a w'
      | (.error failure, w') => (.error failure, w') := rfl

@[simp] theorem pure_run (a : α) (w : World) : (pure a : FileM α) w = (.ok a, w) := rfl

@[simp] theorem lift_run (result : Outcome α) (w : World) : lift result w = (result, w) := rfl

/-- Behind a computation that touches nothing. -/
theorem lift_bind_run (result : Outcome α) (next : α → FileM β) (w : World) :
    (lift result >>= next) w =
      match result with
      | .ok a => next a w
      | .error failure => (.error failure, w) := by
  cases result <;> rfl

theorem lift_bind_run_of_ok {result : Outcome α} {a : α} (h : result = .ok a)
    (next : α → FileM β) (w : World) : (lift result >>= next) w = next a w := by
  rw [lift_bind_run, h]

theorem pathExists_bind_run (path : Path) (next : Bool → FileM β) (w : World) :
    (pathExists path >>= next) w =
      next (w.files.get path).isSome ⟨w.files, w.log ++ [.read path]⟩ := rfl

theorem write_bind_run (path : Path) (content : List UInt8) (next : Unit → FileM β) (w : World) :
    (write path content >>= next) w =
      next () ⟨w.files.insert path content, w.log ++ [.write path]⟩ := rfl

theorem removeFile_bind_run (path : Path) (next : Unit → FileM β) (w : World) :
    (removeFile path >>= next) w = next () ⟨w.files.erase path, w.log ++ [.delete path]⟩ := rfl

theorem read_bind_run (path : Path) (next : List UInt8 → FileM β) (w : World) :
    (read path >>= next) w =
      (lift (Outcome.ofOption (w.files.get path) "No such file or directory") >>= next)
        ⟨w.files, w.log ++ [.read path]⟩ := by
  rw [lift_bind_run, bind_eq, read]
  cases Outcome.ofOption (w.files.get path) "No such file or directory" <;> rfl

theorem bind_run_of_ok {program : FileM α} {next : α → FileM β} {w w' : World} {a : α}
    (h : program w = (.ok a, w')) : (program >>= next) w = next a w' := by
  rw [bind_eq, h]

theorem bind_run_of_error {program : FileM α} {next : α → FileM β} {w w' : World}
    {failure : Failure} (h : program w = (.error failure, w')) :
    (program >>= next) w = (.error failure, w') := by
  rw [bind_eq, h]

@[simp] theorem success_run_snd (program : FileM α) (w : World) :
    (success program w).2 = (program w).2 := by
  rw [success, bind_eq]
  rcases program w with ⟨_ | _, _⟩ <;> rfl

/-- A program with a value has one behind its first part. -/
theorem bind_eq_ok {program : FileM α} {next : α → FileM β} {w w'' : World} {b : β}
    (h : (program >>= next) w = (.ok b, w'')) :
    ∃ a w', program w = (.ok a, w') ∧ next a w' = (.ok b, w'') := by
  rw [bind_eq] at h
  split at h
  · rename_i a w' hrun
    exact ⟨a, w', hrun, h⟩
  · cases (Prod.mk.inj h).1

/-! ## What a program touches -/

/-- Every access of the program satisfies `P`, and a file that it does not write
or delete is as it was. -/
def Within (P : Access → Prop) (program : FileM α) : Prop :=
  ∀ w, ∃ accesses, (program w).2.log = w.log ++ accesses ∧ (∀ a ∈ accesses, P a) ∧
    ∀ path, (∀ a ∈ accesses, ¬ a.Changes path) → (program w).2.files.get path = w.files.get path

variable {P : Access → Prop}

theorem within_pure (a : α) : Within P (pure a : FileM α) :=
  fun _ => ⟨[], (List.append_nil _).symm, by simp, fun _ _ => rfl⟩

theorem within_lift (result : Outcome α) : Within P (lift result) :=
  fun _ => ⟨[], (List.append_nil _).symm, by simp, fun _ _ => rfl⟩

/-- A program behind one whose values satisfy `Q`. -/
theorem Within.bind_of {program : FileM α} {next : α → FileM β} {Q : α → Prop}
    (h : Within P program) (hvalue : ∀ w a w', program w = (.ok a, w') → Q a)
    (hnext : ∀ a, Q a → Within P (next a)) : Within P (program >>= next) := by
  intro w
  obtain ⟨first, hlog, hfirst, hsame⟩ := h w
  rw [bind_eq]
  cases hrun : program w with
  | mk result w' =>
    rw [hrun] at hlog hsame
    cases result with
    | error failure => exact ⟨first, hlog, hfirst, hsame⟩
    | ok a =>
      obtain ⟨second, hlog', hsecond, hsame'⟩ := hnext a (hvalue w a w' hrun) w'
      refine ⟨first ++ second, ?_, ?_, ?_⟩
      · show (next a w').2.log = _
        rw [hlog', hlog, List.append_assoc]
      · intro access haccess
        rcases List.mem_append.mp haccess with haccess | haccess
        · exact hfirst access haccess
        · exact hsecond access haccess
      · intro path hpath
        show (next a w').2.files.get path = _
        rw [hsame' path fun a ha => hpath a (List.mem_append_right _ ha)]
        exact hsame path fun a ha => hpath a (List.mem_append_left _ ha)

theorem Within.bind {program : FileM α} {next : α → FileM β} (h : Within P program)
    (hnext : ∀ a, Within P (next a)) : Within P (program >>= next) :=
  h.bind_of (Q := fun _ => True) (fun _ _ _ _ => trivial) fun a _ => hnext a

theorem within_pathExists {path : Path} (h : P (.read path)) : Within P (pathExists path) :=
  fun _ => ⟨[.read path], rfl, by simpa using h, fun _ _ => rfl⟩

theorem within_read {path : Path} (h : P (.read path)) : Within P (read path) :=
  fun _ => ⟨[.read path], rfl, by simpa using h, fun _ _ => rfl⟩

theorem within_write {path : Path} (content : List UInt8) (h : P (.write path)) :
    Within P (write path content) := by
  intro w
  refine ⟨[.write path], rfl, by simpa using h, fun path' hpath => ?_⟩
  refine Files.get_insert_of_ne w.files content fun heq => ?_
  exact hpath _ List.mem_cons_self (Or.inl (by rw [heq]))

theorem within_removeFile {path : Path} (h : P (.delete path)) : Within P (removeFile path) := by
  intro w
  refine ⟨[.delete path], rfl, by simpa using h, fun path' hpath => ?_⟩
  refine Files.get_erase_of_ne w.files fun heq => ?_
  exact hpath _ List.mem_cons_self (Or.inr (by rw [heq]))

/-- Behind a computation that touches nothing. -/
theorem within_lift_bind {result : Outcome α} {next : α → FileM β}
    (h : ∀ a, result = .ok a → Within P (next a)) : Within P (lift result >>= next) := by
  cases result with
  | ok a => exact h a rfl
  | error failure => exact within_lift _

/-- Behind the listing of a directory. -/
theorem within_readDir_bind {dir : Path} {next : List Path → FileM β}
    (h : ∀ entries, (∀ path ∈ entries, ∃ name, path = dir ++ [name]) → Within P (next entries)) :
    Within P (readDir dir >>= next) := by
  intro w
  refine h _ (fun path hpath => ?_) w
  simp only [List.mem_filter, Bool.and_eq_true, beq_iff_eq, bne_iff_ne, ne_eq] at hpath
  obtain ⟨_, hdir, hne⟩ := hpath
  refine ⟨path.getLast hne, ?_⟩
  rw [← hdir, List.dropLast_concat_getLast hne]

end FileM

end CodeLib.FileSystem
