import Psign.CodeLib.Outcome
import Psign.CodeLib.RustStr
import Psign.CodeLib.Unicode

/-!
# Response files

`response_argv.rs`: an argument `@path` stands for the lines of a file, one argument a line, and a
line may again be `@path`.  A file that is the only argument of the program holds several
commands with blank lines between them.

The depth of an include is counted down: `readFlatArgsFromFile files left` may still go `left`
files deep, so it ends for every include graph.  `FileArgs` says what a file stands for without
the loops of the code, and `expansion_of_expandInvocations` that an expansion that succeeds is
that.

A line is decoded first and looked at for its `@` afterwards.  The second `@` that makes an
argument literal on the command line is not looked at there (`appendResponseLine_spelling`), and
no file delivers an argument that starts with `@` and goes on (`eq_at_of_mem`).
-/

namespace Psign.Cli

open CodeLib CodeLib.RustStr CodeLib.Unicode

/-! ## The code -/

def maxResponseDepth : ℕ := 8

def maxResponseLines : ℕ := 4096

/-- The texts of the files, by path. -/
abbrev ResponseFiles := List Char → Option (List Char)

variable (files : ResponseFiles)

/-- `read_response_text`. -/
def readResponseText (path : List Char) : Outcome (List Char) :=
  Outcome.ofOption (files path) ("reading response file " ++ String.ofList path)

/-- `is_response_path_arg`. -/
def isResponsePathArg (arg : List Char) : Option (List Char) :=
  match stripPrefix ['@'] arg with
  | none => none
  | some rest => if rest = [] ∨ ['@', '@'] <+: arg then none else some rest

/-- `normalized_line`. -/
def normalizedLine (line : List Char) : List Char :=
  trim (line.rdropWhile (· = '\r'))

/-- `decode_response_arg_token`. -/
def decodeResponseArgToken (line : List Char) : List Char :=
  let t := trim line
  if 2 ≤ (utf8Encode t).length ∧ ['"'] <+: t ∧ ['"'] <:+ t then
    replace ['"', '"'] ['"'] ((t.drop 1).dropLast)
  else t

/-- The path that a decoded line includes. -/
def includedPath (decoded : List Char) : Option (List Char) :=
  (stripPrefix ['@'] decoded).filter fun inner => inner ≠ []

/-- `append_response_line`: what a line adds, where `read` reads an included file. -/
def appendResponseLine (read : List Char → Outcome (List (List Char))) (rawLine : List Char) :
    Outcome (List (List Char)) :=
  let t := normalizedLine rawLine
  if t = [] then .ok []
  else
    let decoded := decodeResponseArgToken t
    match includedPath decoded with
    | some inner => read inner
    | none => .ok [decoded]

/-- The loop of `read_flat_args_from_file`, after `linesSeen` lines. -/
def appendResponseLines (read : List Char → Outcome (List (List Char))) (message : String) :
    (linesSeen : ℕ) → List (List Char) → Outcome (List (List Char))
  | _, [] => .ok []
  | linesSeen, line :: rest => do
    Outcome.guardThat (linesSeen + 1 ≤ maxResponseLines) message
    let args ← appendResponseLine read line
    let more ← appendResponseLines read message (linesSeen + 1) rest
    return args ++ more

/-- `read_flat_args_from_file`, at the depth that leaves `left` files to nest. -/
def readFlatArgsFromFile : (left : ℕ) → List Char → Outcome (List (List Char))
  | 0, _ => Outcome.bail "response file nesting exceeds 8 (@-includes are too deep)"
  | left + 1, path => do
    let text ← readResponseText files path
    appendResponseLines (readFlatArgsFromFile left)
      ("response file " ++ String.ofList path ++ " exceeds 4096 lines") 0 (lines text)

/-- The loop of `parse_multi_command_blocks`, with the block that is open. -/
def commandBlocksFrom (read : List Char → Outcome (List (List Char))) :
    (linesSeen : ℕ) → (current : List (List Char)) → List (List Char) →
      Outcome (List (List (List Char)))
  | _, current, [] => .ok (if current = [] then [] else [current])
  | linesSeen, current, line :: rest => do
    Outcome.guardThat (linesSeen + 1 ≤ maxResponseLines) "response file exceeds 4096 lines"
    if normalizedLine line = [] then
      let more ← commandBlocksFrom read (linesSeen + 1) [] rest
      return if current = [] then more else current :: more
    else
      let args ← appendResponseLine read line
      commandBlocksFrom read (linesSeen + 1) (current ++ args) rest

/-- `parse_multi_command_blocks`: the includes of its lines are at depth 1. -/
def parseMultiCommandBlocks (text : List Char) : Outcome (List (List (List Char))) := do
  let blocks ← commandBlocksFrom (readFlatArgsFromFile files maxResponseDepth) 0 [] (lines text)
  Outcome.guardThat (blocks ≠ []) "response file is empty (no arguments)"
  return blocks

/-- What one argument of the command line adds. -/
def spliceArg (arg : List Char) : Outcome (List (List Char)) :=
  if ['@', '@'] <+: arg then .ok [if arg.length = 2 then ['@'] else arg.drop 1]
  else
    match isResponsePathArg arg with
    | some path => readFlatArgsFromFile files (maxResponseDepth + 1) path
    | none => .ok [arg]

/-- `expand_invocations`. -/
def expandInvocations (executable : List Char) (tail : List (List Char)) :
    Outcome (List (List (List Char))) :=
  let splice : Outcome (List (List (List Char))) := do
    let parts ← tail.mapM (spliceArg files)
    return [executable :: parts.flatten]
  match tail with
  | [arg] =>
    match isResponsePathArg arg with
    | some path => do
      let text ← readResponseText files path
      let blocks ← parseMultiCommandBlocks files text
      return blocks.map (executable :: ·)
    | none => splice
  | _ => splice

/-! ## What the files stand for -/

variable {files}

/-- A line stands for no argument, for what the file it includes stands for, or for itself. -/
def LineArgs (included : List Char → List (List Char) → Prop) (line : List Char)
    (args : List (List Char)) : Prop :=
  (normalizedLine line = [] ∧ args = []) ∨
    normalizedLine line ≠ [] ∧
      match includedPath (decodeResponseArgToken (normalizedLine line)) with
      | some inner => included inner args
      | none => args = [decodeResponseArgToken (normalizedLine line)]

variable (files) in
/-- A file stands for what its lines stand for, one after the other; no more than `left` files
are open at a time. -/
def FileArgs : (left : ℕ) → (path : List Char) → (args : List (List Char)) → Prop
  | 0, _, _ => False
  | left + 1, path, args =>
    ∃ text parts, files path = some text ∧ (lines text).length ≤ maxResponseLines ∧
      List.Forall₂ (LineArgs (FileArgs left)) (lines text) parts ∧ args = parts.flatten

theorem lineArgs_of_appendResponseLine {read : List Char → Outcome (List (List Char))}
    {included : List Char → List (List Char) → Prop}
    (hread : ∀ path args, read path = .ok args → included path args) {line : List Char}
    {args : List (List Char)} (h : appendResponseLine read line = .ok args) :
    LineArgs included line args := by
  unfold appendResponseLine at h
  dsimp only at h
  split at h
  · rename_i hblank
    exact Or.inl ⟨hblank, (Except.ok.inj h).symm⟩
  · rename_i hblank
    refine Or.inr ⟨hblank, ?_⟩
    split at h
    · exact hread _ args h
    · exact (Except.ok.inj h).symm

theorem forall₂_of_appendResponseLines {read : List Char → Outcome (List (List Char))}
    {included : List Char → List (List Char) → Prop}
    (hread : ∀ path args, read path = .ok args → included path args) {message : String}
    {ls : List (List Char)} : ∀ {seen : ℕ} {args : List (List Char)}, seen ≤ maxResponseLines →
      appendResponseLines read message seen ls = .ok args →
      seen + ls.length ≤ maxResponseLines ∧
        ∃ parts, List.Forall₂ (LineArgs included) ls parts ∧ args = parts.flatten := by
  induction ls with
  | nil =>
    intro seen args hseen h
    obtain rfl := Except.ok.inj h
    exact ⟨hseen, [], List.Forall₂.nil, rfl⟩
  | cons line ls ih =>
    intro seen args _ h
    obtain ⟨hguard, h⟩ := Outcome.guardThat_bind_eq_ok.mp h
    obtain ⟨first, hfirst, h⟩ := Outcome.bind_eq_ok.mp h
    obtain ⟨more, hmore, hargs⟩ := Outcome.bind_eq_ok.mp h
    obtain rfl := Except.ok.inj hargs
    obtain ⟨hlength, parts, hparts, rfl⟩ := ih hguard hmore
    refine ⟨by rw [List.length_cons]; omega, first :: parts, ?_, rfl⟩
    exact List.Forall₂.cons (lineArgs_of_appendResponseLine hread hfirst) hparts

/-- A file that is read stands for the arguments that are returned. -/
theorem fileArgs_of_readFlatArgsFromFile {left : ℕ} : ∀ {path : List Char}
    {args : List (List Char)}, readFlatArgsFromFile files left path = .ok args →
      FileArgs files left path args := by
  induction left with
  | zero =>
    intro path args h
    exact absurd h Outcome.bail_ne_ok
  | succ left ih =>
    intro path args h
    simp only [readFlatArgsFromFile, readResponseText, Outcome.bind_eq_ok,
      Outcome.ofOption_eq_ok] at h
    obtain ⟨text, htext, hlines⟩ := h
    obtain ⟨hlength, parts, hparts, hargs⟩ :=
      forall₂_of_appendResponseLines (fun _ _ => ih) (Nat.zero_le _) hlines
    exact ⟨text, parts, htext, by omega, hparts, hargs⟩

/-- The blocks are the arguments of the lines, in order. -/
theorem forall₂_of_commandBlocksFrom {read : List Char → Outcome (List (List Char))}
    {included : List Char → List (List Char) → Prop}
    (hread : ∀ path args, read path = .ok args → included path args) {ls : List (List Char)} :
    ∀ {seen : ℕ} {current : List (List Char)} {blocks : List (List (List Char))},
      commandBlocksFrom read seen current ls = .ok blocks →
      (∀ block ∈ blocks, block ≠ []) ∧ ∃ parts, List.Forall₂ (LineArgs included) ls parts ∧
        blocks.flatten = current ++ parts.flatten := by
  induction ls with
  | nil =>
    intro seen current blocks h
    obtain rfl := Except.ok.inj h
    refine ⟨?_, [], List.Forall₂.nil, ?_⟩
    · intro block hblock
      split at hblock
      · exact absurd hblock List.not_mem_nil
      · rename_i hne
        rw [List.mem_singleton.mp hblock]
        exact hne
    · split
      · rename_i hnil
        rw [hnil]
        rfl
      · simp
  | cons line ls ih =>
    intro seen current blocks h
    simp only [commandBlocksFrom, Outcome.guardThat_bind_eq_ok] at h
    obtain ⟨_, h⟩ := h
    split at h
    · rename_i hblank
      obtain ⟨more, hmore, hblocks⟩ := Outcome.bind_eq_ok.mp h
      obtain rfl := Except.ok.inj hblocks
      obtain ⟨hne, parts, hparts, hflat⟩ := ih hmore
      rw [List.nil_append] at hflat
      refine ⟨?_, [] :: parts, List.Forall₂.cons (Or.inl ⟨hblank, rfl⟩) hparts, ?_⟩
      · intro block hblock
        split at hblock
        · exact hne block hblock
        · rename_i hcurrent
          rcases List.mem_cons.mp hblock with rfl | hblock
          · exact hcurrent
          · exact hne block hblock
      · rw [List.flatten_cons, List.nil_append, ← hflat]
        split
        · rename_i hnil
          rw [hnil, List.nil_append]
        · rw [List.flatten_cons]
    · obtain ⟨args, hargs, hmore⟩ := Outcome.bind_eq_ok.mp h
      obtain ⟨hne, parts, hparts, hflat⟩ := ih hmore
      refine ⟨hne, args :: parts,
        List.Forall₂.cons (lineArgs_of_appendResponseLine hread hargs) hparts, ?_⟩
      rw [hflat, List.flatten_cons, List.append_assoc]

/-! ## What an expansion is -/

variable (files) in
/-- What an argument of the command line stands for. -/
def TailArgs (arg : List Char) (args : List (List Char)) : Prop :=
  (['@', '@'] <+: arg ∧ args = [arg.drop 1]) ∨
    ¬ ['@', '@'] <+: arg ∧
      match isResponsePathArg arg with
      | some path => FileArgs files (maxResponseDepth + 1) path args
      | none => args = [arg]

variable (files) in
/-- The commands of a file of commands, or the one command with its files spliced in. -/
def Expansion (executable : List Char) (tail : List (List Char))
    (invocations : List (List (List Char))) : Prop :=
  (∃ (arg path text : List Char) (parts blocks : List (List (List Char))),
      tail = [arg] ∧ isResponsePathArg arg = some path ∧ files path = some text ∧
      List.Forall₂ (LineArgs (FileArgs files maxResponseDepth)) (lines text) parts ∧
      (∀ block ∈ blocks, block ≠ []) ∧ blocks.flatten = parts.flatten ∧
      invocations = blocks.map (executable :: ·)) ∨
    ∃ parts, List.Forall₂ (TailArgs files) tail parts ∧ invocations = [executable :: parts.flatten]

theorem tailArgs_of_spliceArg {arg : List Char} {args : List (List Char)}
    (h : spliceArg files arg = .ok args) : TailArgs files arg args := by
  unfold spliceArg at h
  split at h
  · rename_i hdouble
    refine Or.inl ⟨hdouble, ?_⟩
    obtain rfl := Except.ok.inj h
    obtain ⟨rest, rfl⟩ := hdouble
    split
    · rename_i hlength
      simp only [List.length_append, List.length_cons, List.length_nil] at hlength
      obtain rfl : rest = [] := List.eq_nil_of_length_eq_zero (by omega)
      rfl
    · rfl
  · rename_i hsingle
    refine Or.inr ⟨hsingle, ?_⟩
    split at h
    · exact fileArgs_of_readFlatArgsFromFile h
    · exact (Except.ok.inj h).symm

theorem forall₂_of_mapM_spliceArg {tail : List (List Char)} {parts : List (List (List Char))}
    (h : tail.mapM (spliceArg files) = .ok parts) : List.Forall₂ (TailArgs files) tail parts := by
  induction tail generalizing parts with
  | nil =>
    obtain rfl := Except.ok.inj h
    exact List.Forall₂.nil
  | cons arg tail ih =>
    rw [List.mapM_cons] at h
    obtain ⟨args, hargs, h⟩ := Outcome.bind_eq_ok.mp h
    obtain ⟨rest, hrest, h⟩ := Outcome.bind_eq_ok.mp h
    obtain rfl := Except.ok.inj h
    exact List.Forall₂.cons (tailArgs_of_spliceArg hargs) (ih hrest)

/-- An expansion that succeeds is what the files stand for. -/
theorem expansion_of_expandInvocations {executable : List Char} {tail : List (List Char)}
    {invocations : List (List (List Char))}
    (h : expandInvocations files executable tail = .ok invocations) :
    Expansion files executable tail invocations := by
  have hsplice : ∀ {tail}, (do
      let parts ← tail.mapM (spliceArg files)
      return [executable :: parts.flatten]) = Except.ok invocations →
      Expansion files executable tail invocations := by
    intro tail h
    obtain ⟨parts, hparts, h⟩ := Outcome.bind_eq_ok.mp h
    exact Or.inr ⟨parts, forall₂_of_mapM_spliceArg hparts, (Except.ok.inj h).symm⟩
  unfold expandInvocations at h
  dsimp only at h
  split at h
  · rename_i arg
    split at h
    · rename_i path hpath
      obtain ⟨text, htext, h⟩ := Outcome.bind_eq_ok.mp h
      obtain ⟨blocks, hblocks, h⟩ := Outcome.bind_eq_ok.mp h
      obtain ⟨blocks', hfrom, hblocks⟩ := Outcome.bind_eq_ok.mp hblocks
      obtain ⟨_, hblocks⟩ := Outcome.guardThat_bind_eq_ok.mp hblocks
      obtain rfl := Except.ok.inj hblocks
      obtain ⟨hne, parts, hparts, hflat⟩ :=
        forall₂_of_commandBlocksFrom (fun _ _ => fileArgs_of_readFlatArgsFromFile) hfrom
      exact Or.inl ⟨arg, path, text, parts, blocks', rfl, hpath, Outcome.ofOption_eq_ok.mp htext,
        hparts, hne, hflat, (Except.ok.inj h).symm⟩
    · exact hsplice h
  · exact hsplice h

/-! ## The spelling of an argument -/

/-- An argument as it is to be written on a line: in quotes, its quotes doubled, and with one
more `@` where it starts with one. -/
def spelling (arg : List Char) : List Char :=
  '"' :: (replace ['"'] ['"', '"'] (if ['@'] <+: arg then '@' :: arg else arg) ++ ['"'])

theorem trim_quoted (inner : List Char) : trim ('"' :: (inner ++ ['"'])) = '"' :: (inner ++ ['"']) := by
  have hlast : ('"' :: (inner ++ ['"'])).getLast? = some '"' := by
    rw [← List.cons_append, List.getLast?_concat]
  have h := @trim_append [] ('"' :: (inner ++ ['"'])) [] (by simp [Blank])
    (by simp [Blank]) (by simp [isWhitespace]) (by simp [hlast, isWhitespace]) (List.cons_ne_nil _ _)
  simpa using h

theorem normalizedLine_quoted (inner : List Char) :
    normalizedLine ('"' :: (inner ++ ['"'])) = '"' :: (inner ++ ['"']) := by
  have hlast : ('"' :: (inner ++ ['"'])).getLast? = some '"' := by
    rw [← List.cons_append, List.getLast?_concat]
  rw [normalizedLine, rdropWhile_of_getLast (by simp [hlast]), trim_quoted]

/-- Quotes are taken off a quoted line, and doubled quotes in it undone. -/
theorem decodeResponseArgToken_quoted (text : List Char) :
    decodeResponseArgToken ('"' :: (replace ['"'] ['"', '"'] text ++ ['"'])) = text := by
  have hlength : 2 ≤ (utf8Encode ('"' :: (replace ['"'] ['"', '"'] text ++ ['"']))).length := by
    have hquote : utf8Encode ['"'] = [0x22] := by decide
    have happend : ∀ s t, utf8Encode (s ++ t) = utf8Encode s ++ utf8Encode t := fun _ _ =>
      List.flatMap_append
    rw [show '"' :: (replace ['"'] ['"', '"'] text ++ ['"']) =
      ['"'] ++ (replace ['"'] ['"', '"'] text ++ ['"']) from rfl, happend, happend, hquote]
    simp only [List.length_append, List.length_cons, List.length_nil]
    omega
  have hquoted : ['"'] <+: '"' :: (replace ['"'] ['"', '"'] text ++ ['"']) ∧
      ['"'] <:+ '"' :: (replace ['"'] ['"', '"'] text ++ ['"']) :=
    ⟨⟨_, rfl⟩, ⟨'"' :: replace ['"'] ['"', '"'] text, rfl⟩⟩
  rw [decodeResponseArgToken, trim_quoted, if_pos ⟨hlength, hquoted⟩, List.drop_succ_cons,
    List.drop_zero, List.dropLast_concat, replace_replace_doubled]

/-- What a line with a spelled argument adds: the argument, or the file that an argument with
its `@` doubled is taken to name. -/
theorem appendResponseLine_spelling (read : List Char → Outcome (List (List Char)))
    (arg : List Char) :
    appendResponseLine read (spelling arg) = if ['@'] <+: arg then read arg else .ok [arg] := by
  unfold appendResponseLine spelling
  dsimp only
  rw [normalizedLine_quoted, if_neg (List.cons_ne_nil _ _), decodeResponseArgToken_quoted]
  by_cases hat : ['@'] <+: arg
  · have hne : arg ≠ [] := by
      intro hnil
      rw [hnil] at hat
      exact absurd hat (by decide)
    have hinner : includedPath ('@' :: arg) = some arg := by
      rw [includedPath, stripPrefix_eq_some.mpr (show '@' :: arg = ['@'] ++ arg from rfl)]
      simp [hne]
    rw [if_pos hat, if_pos hat, hinner]
  · have hnone : includedPath arg = none := by
      rw [includedPath, stripPrefix, if_neg hat]
      rfl
    rw [if_neg hat, if_neg hat, hnone]

/-- What ends a line in front of the rest of a file; the last line may end with the file. -/
def EndsLine (eol after : List Char) : Prop :=
  eol = ['\n'] ∨ eol = ['\r', '\n'] ∨ eol = [] ∧ after = []

/-- A spelled argument stays on its line. -/
theorem lines_spelling {arg : List Char} (hline : '\n' ∉ arg) {eol after : List Char}
    (heol : EndsLine eol after) :
    lines (spelling arg ++ eol ++ after) = spelling arg :: lines after := by
  have hmem : '\n' ∉ spelling arg := by
    intro hmem
    rw [spelling, List.mem_cons, List.mem_append] at hmem
    rcases hmem with hmem | hmem | hmem
    · exact absurd hmem (by decide)
    · have hinner := mem_of_mem_replace (by decide) hmem
      split at hinner
      · rcases List.mem_cons.mp hinner with hinner | hinner
        · exact absurd hinner (by decide)
        · exact hline hinner
      · exact hline hinner
    · exact absurd hmem (by decide)
  have hlast : (spelling arg).getLast? = some '"' := by
    rw [spelling, ← List.cons_append, List.getLast?_concat]
  rcases heol with rfl | rfl | ⟨rfl, rfl⟩
  · have hsplit := linesInclusive_append_line (spelling arg) hmem after
    rw [List.append_assoc, lines]
    show (linesInclusive (spelling arg ++ '\n' :: after)).map stripEol = _
    rw [hsplit, List.map_cons, stripEol_lf (by rw [hlast]; decide)]
    rfl
  · have hcr : '\n' ∉ spelling arg ++ ['\r'] := by
      rw [List.mem_append, not_or]
      exact ⟨hmem, by decide⟩
    have hsplit := linesInclusive_append_line (spelling arg ++ ['\r']) hcr after
    have hshape : spelling arg ++ ['\r', '\n'] ++ after =
        spelling arg ++ ['\r'] ++ '\n' :: after := by
      simp
    rw [lines, hshape, hsplit, List.map_cons, List.append_assoc]
    show stripEol (spelling arg ++ ['\r', '\n']) :: _ = _
    rw [stripEol_crlf]
    rfl
  · have hlines := @lines_crlf [] (fun line hline => absurd hline List.not_mem_nil) _ hmem
      (List.cons_ne_nil _ _)
    rw [List.append_nil, List.append_nil]
    exact hlines

/-! ## What a file cannot deliver -/

/-- An argument that starts with `@` and goes on does not come out of a file. -/
theorem eq_at_of_mem {left : ℕ} : ∀ {path : List Char} {args : List (List Char)},
    FileArgs files left path args → ∀ arg ∈ args, ['@'] <+: arg → arg = ['@'] := by
  induction left with
  | zero =>
    intro path args h
    exact absurd h id
  | succ left ih =>
    intro path args h arg harg hat
    obtain ⟨text, parts, _, _, hparts, rfl⟩ := h
    obtain ⟨part, hpart, hmem⟩ := List.mem_flatten.mp harg
    clear harg
    obtain ⟨line, hline⟩ : ∃ line, LineArgs (FileArgs files left) line part := by
      generalize lines text = ls at hparts
      induction hparts with
      | nil => exact absurd hpart List.not_mem_nil
      | cons hfirst _ ihparts =>
        rcases List.mem_cons.mp hpart with rfl | hpart
        · exact ⟨_, hfirst⟩
        · exact ihparts hpart
    rcases hline with ⟨_, rfl⟩ | ⟨_, hline⟩
    · exact absurd hmem List.not_mem_nil
    · split at hline
      · exact ih hline arg hmem hat
      · rename_i hnone
        rw [hline] at hmem
        obtain rfl := List.mem_singleton.mp hmem
        obtain ⟨rest, hrest⟩ := hat
        rw [includedPath, stripPrefix_eq_some.mpr hrest.symm] at hnone
        have hnil : rest = [] := by simpa using hnone
        rw [← hrest, hnil]
        rfl

/-- The spelling delivers the argument: on a line of any response file, the includes of which
may still nest `left` deep, it adds this one argument. -/
def Delivered (left : ℕ) (arg : List Char) : Prop :=
  ∀ (files : ResponseFiles) (before eol after : List Char),
    before = [] ∨ ['\n'] <:+ before → EndsLine eol after →
    ∃ line, lines (before ++ (spelling arg ++ eol ++ after)) = lines before ++ line :: lines after ∧
      appendResponseLine (readFlatArgsFromFile files left) line = .ok [arg]

theorem delivered_iff {arg : List Char} (hline : '\n' ∉ arg) (left : ℕ) :
    Delivered left arg ↔ ¬ ['@'] <+: arg := by
  constructor
  · intro h hat
    obtain ⟨line, hlines, hargs⟩ := h (fun _ => none) [] ['\n'] [] (Or.inl rfl) (Or.inl rfl)
    rw [List.nil_append, lines_spelling hline (Or.inl rfl)] at hlines
    rw [← (List.cons.inj hlines).1, appendResponseLine_spelling, if_pos hat] at hargs
    -- there is no file, so what is read cannot be the argument
    cases left with
    | zero => exact Outcome.bail_ne_ok hargs
    | succ left => exact Outcome.bail_ne_ok hargs
  · intro hat files before eol after hbefore heol
    refine ⟨spelling arg, ?_, ?_⟩
    · rcases hbefore with rfl | hbefore
      · exact lines_spelling hline heol
      · obtain ⟨start, rfl⟩ := hbefore
        rw [List.append_assoc]
        show lines (start ++ '\n' :: (spelling arg ++ eol ++ after)) = _
        rw [lines_append_lf, lines_spelling hline heol]
    · rw [appendResponseLine_spelling, if_neg hat]

variable (files) in
/-- An expansion that succeeds is what the files stand for, with at most eight includes inside
each other.  The spelling of an argument delivers it, at each depth, unless it starts with `@`;
and no file at all delivers an argument that starts with `@` and goes on. -/
theorem response_files :
    (∀ executable tail invocations, expandInvocations files executable tail = .ok invocations →
      Expansion files executable tail invocations) ∧
    (∀ left arg, left ≤ maxResponseDepth → '\n' ∉ arg → (Delivered left arg ↔ ¬ ['@'] <+: arg)) ∧
    ∀ left path args, readFlatArgsFromFile files left path = .ok args →
      ∀ arg ∈ args, ['@'] <+: arg → arg = ['@'] := by
  refine ⟨?_, ?_, ?_⟩
  · intro executable tail invocations h
    exact expansion_of_expandInvocations h
  · intro left arg _ hline
    exact delivered_iff hline left
  · intro left path args h
    exact eq_at_of_mem (fileArgs_of_readFlatArgsFromFile h)

/-- A response file whose one line is `"@@a"`. -/
def doubledAtFile : ResponseFiles := fun path =>
  if path = "r".toList then some "\"@@a\"\n".toList else none

/-- On the command line `@@a` is the argument `@a`; in a response file it is the file `@a`. -/
theorem doubled_at_is_included :
    ¬ Delivered maxResponseDepth "@a".toList ∧
      expandInvocations doubledAtFile "psign-tool".toList ["verify".toList, "@@a".toList] =
        .ok [["psign-tool".toList, "verify".toList, "@a".toList]] ∧
      expandInvocations doubledAtFile "psign-tool".toList ["@r".toList] =
        Outcome.bail "reading response file @a" := by
  refine ⟨?_, by decide, by decide⟩
  intro h
  obtain ⟨line, hlines, hargs⟩ := h (fun _ => none) [] ['\n'] [] (Or.inl rfl) (Or.inl rfl)
  have hspelling : lines ([] ++ (spelling "@a".toList ++ ['\n'] ++ [])) =
      ["\"@@a\"".toList] := by
    decide
  rw [hspelling] at hlines
  obtain rfl := (List.cons.inj hlines).1
  revert hargs
  decide

end Psign.Cli
