import Psign.CodeLib.RustStr
import Psign.CodeLib.Utf8

/-!
# Slash switches on the command line

`native_argv.rs`: the slash switches of `signtool.exe` are rewritten to options with dashes before
the command line is parsed.  The first argument that spells a verb decides which switches there
are.

`switchTable` is the table of the switches of each verb, with the values they take; the code is a
`match` with one arm for each row.  `segments` takes the arguments behind the verb apart into
arguments that are kept and switches with their values, and `translateFrom_eq` says that what is
returned is these, written one by one.  A value is written without the white space around it,
and a switch at the end gets a value of its own.
-/

namespace Psign.Cli

open CodeLib CodeLib.RustStr CodeLib.Unicode

/-! ## The code -/

/-- `OsString`: an argument, with the text it is taken for. -/
structure OsStrings where
  OsString : Type
  toStringLossy : OsString → List Char
  fromString : List Char → OsString
  toStringLossy_fromString : ∀ s, toStringLossy (fromString s) = s

/-- The arguments of a Unix system are bytes. -/
def OsStrings.unix : OsStrings where
  OsString := List UInt8
  toStringLossy := utf8Lossy
  fromString := utf8Encode
  toStringLossy_fromString := utf8Lossy_utf8Encode

instance : DecidableEq OsStrings.unix.OsString :=
  inferInstanceAs (DecidableEq (List UInt8))

/-- `Verb`. -/
inductive Verb where
  | certStore
  | verify
  | sign
  | timestamp
  | catdb
  | remove
  | rdp
  deriving DecidableEq, Repr

/-- `is_verb`. -/
def isVerb (s : List Char) : Option Verb :=
  [("verify".toList, Verb.verify), ("cert-store".toList, Verb.certStore),
    ("certstore".toList, Verb.certStore), ("sign".toList, Verb.sign),
    ("timestamp".toList, Verb.timestamp), ("catdb".toList, Verb.catdb),
    ("remove".toList, Verb.remove), ("rdp".toList, Verb.rdp)].lookup (toAsciiLowercase s)

/-- What an arm of `translate_slash_switch` does: it writes options; or options and the next
argument, or a default where there is none, in lower case for digest names; or the two next
arguments, if neither is blank. -/
inductive SwitchShape where
  | flag (pieces : List (List Char))
  | value (pieces : List (List Char)) (default : List Char) (lower : Bool)
  | signAuth
  deriving DecidableEq, Repr

namespace SwitchShape

def option (name : String) : SwitchShape := .flag [name.toList]

def text (name : String) (default : String) : SwitchShape :=
  .value [name.toList] default.toList false

def digest (name : String) (default : String) : SwitchShape :=
  .value [name.toList] default.toList true

end SwitchShape

open SwitchShape in
/-- The arms of `translate_slash_switch`. -/
def switchTable : Verb → List (String × SwitchShape)
  | .verify =>
    [("pa", flag ["--policy".toList, "pa".toList]), ("kp", option "--kp"), ("all", option "--all"),
      ("tw", option "--tw"), ("ms", option "--ms"), ("p7", option "--p7"), ("d", option "--d"),
      ("ph", option "--ph"), ("vr", option "--vr"), ("testroot", option "--testroot"),
      ("w2010pca", option "--w2010pca"), ("now2010pca", option "--now2010pca"),
      ("sl", option "--sl"), ("bp", option "--bp"), ("enclave", option "--enclave"),
      ("a", flag ["--catalog-search".toList, "all".toList]),
      ("ad", flag ["--catalog-search".toList, "default-db".toList]),
      ("as", flag ["--catalog-search".toList, "system".toList]),
      ("pg", .value ["--policy".toList, "pg".toList, "--policy-guid".toList] [] false),
      ("ag", text "--ag" ""), ("c", text "--c" ""), ("hash", digest "--hash" "sha256"),
      ("o", text "--os-version-check" ""), ("r", text "--r" ""), ("sha1", text "--sha1" ""),
      ("ca", text "--ca" ""), ("u", text "--u" ""), ("ds", text "--ds" "0"),
      ("p7content", text "--p7content" ""), ("p7s", text "--p7s" ""),
      ("rust-sip-pe-digest-check", option "--rust-sip-pe-digest-check"),
      ("rust-sip-script-digest-check", option "--rust-sip-script-digest-check"),
      ("rust-sip-msi-digest-check", option "--rust-sip-msi-digest-check"),
      ("rust-sip-esd-digest-check", option "--rust-sip-esd-digest-check"),
      ("rust-sip-msix-digest-check", option "--rust-sip-msix-digest-check"),
      ("rust-sip-cab-digest-check", option "--rust-sip-cab-digest-check"),
      ("rust-sip-catalog-digest-check", option "--rust-sip-catalog-digest-check"),
      ("rust-sip-all-digest-checks", option "--rust-sip-all-digest-checks")]
  | .certStore =>
    [("sm", option "--sm"), ("p", text "--p" ""), ("s", text "--s" "MY"),
      ("sha1", text "--sha1" "")]
  | .sign =>
    [("a", option "--a"), ("sm", option "--sm"), ("as", option "--as"), ("ph", option "--ph"),
      ("nph", option "--nph"), ("uw", option "--uw"), ("dxml", option "--dxml"),
      ("ds", option "--ds"), ("f", text "--f" ""), ("p", text "--p" ""), ("n", text "--n" ""),
      ("i", text "--i" ""), ("sha1", text "--sha1" ""), ("csp", text "--csp" ""),
      ("kc", text "--kc" ""), ("s", text "--s" "MY"), ("fd", digest "--fd" "sha256"),
      ("tr", text "--tr" ""), ("tseal", text "--tseal" ""), ("t", text "--t" ""),
      ("td", digest "--td" "sha256"), ("d", text "--d" ""), ("du", text "--du" ""),
      ("ac", text "--ac" ""), ("r", text "--r" ""), ("u", text "--u" ""),
      ("dlib", text "--dlib" ""), ("dmdf", text "--dmdf" ""), ("dg", text "--dg" ""),
      ("di", text "--di" ""), ("p7", text "--p7" ""), ("p7co", text "--p7co" ""),
      ("p7ce", text "--p7ce" ""), ("c", text "--certificate-template" ""), ("sa", signAuth),
      ("fdchw", option "--fdchw"), ("tdchw", option "--tdchw"), ("rmc", option "--rmc"),
      ("seal", option "--seal"), ("itos", option "--itos"), ("force", option "--force"),
      ("nosealwarn", option "--nosealwarn"), ("noenclavewarn", option "--noenclavewarn"),
      ("rust-sip", digest "--rust-sip" "pe")]
  | .timestamp =>
    [("tr", text "--tr" ""), ("tseal", text "--tseal" ""), ("t", text "--t" ""),
      ("td", digest "--td" "sha256"), ("tp", text "--tp" "0"), ("p7", option "--p7"),
      ("force", option "--force"), ("nosealwarn", option "--nosealwarn")]
  | .catdb =>
    [("d", option "--d"), ("g", text "--g" ""), ("r", option "--r"), ("u", option "--u")]
  | .remove => [("s", option "--s"), ("c", option "--c"), ("u", option "--u")]
  | .rdp =>
    [("sha1", text "--sha1" ""), ("sha256", text "--sha256" ""), ("l", option "--dry-run")]

/-- The arm for a key. -/
def switchShape (verb : Verb) (key : List Char) : Option SwitchShape :=
  ((switchTable verb).find? fun row => row.1.toList = key).map (·.2)

/-- A value as an arm writes it. -/
def cased (lower : Bool) (v : List Char) : List Char :=
  if lower then toAsciiLowercase v else v

/-- `translate_slash_switch`: what is written, and how many following arguments are used up. -/
def translateSlashSwitch (verb : Verb) (key : List Char) (next next2 : Option (List Char)) :
    List (List Char) × ℕ :=
  let n := next.map trim
  let n2 := next2.map trim
  match switchShape verb key with
  | none => ([], 0)
  | some (.flag pieces) => (pieces, 0)
  | some (.value pieces default lower) => (pieces ++ [cased lower (n.getD default)], 1)
  | some .signAuth =>
    let oid := n.getD []
    let val := n2.getD []
    if oid = [] ∨ val = [] then ([], 0) else (["--sign-auth".toList, oid, val], 2)

/-- `is_windows_slash_switch`, of the text of an argument. -/
def isWindowsSlashSwitch (s : List Char) : Prop :=
  2 ≤ (utf8Encode s).length ∧ ['/'] <+: s ∧ ¬ ['/', '/'] <+: s

instance (s : List Char) : Decidable (isWindowsSlashSwitch s) :=
  inferInstanceAs (Decidable (_ ∧ _))

/-- `strip_leading_slash`. -/
def stripLeadingSlash (s : List Char) : List Char :=
  toAsciiLowercase (s.dropWhile (· = '/'))

/-- `try_global_slash`. -/
def tryGlobalSlash (s : List Char) : Option (List Char) :=
  if isWindowsSlashSwitch s then
    [("q".toList, "-q".toList), ("v".toList, "-v".toList),
      ("debug".toList, "--debug".toList)].lookup (stripLeadingSlash s)
  else none

variable (os : OsStrings)

/-- The loop of `normalize_native_signtool_argv` over the arguments behind the verb, `skip` of
which are used up. -/
def translateFrom (verb : Verb) : (skip : ℕ) → List os.OsString → List os.OsString
  | _, [] => []
  | skip + 1, _ :: rest => translateFrom verb skip rest
  | 0, arg :: rest =>
    let s := os.toStringLossy arg
    match tryGlobalSlash s with
    | some g => os.fromString g :: translateFrom verb 0 rest
    | none =>
      if ¬ isWindowsSlashSwitch s then arg :: translateFrom verb 0 rest
      else
        let t := translateSlashSwitch verb (stripLeadingSlash s) (rest[0]?.map os.toStringLossy)
          (rest[1]?.map os.toStringLossy)
        if t.1 = [] then arg :: translateFrom verb 0 rest
        else t.1.map os.fromString ++ translateFrom verb t.2 rest

/-- The verb that the text of an argument spells. -/
def verbOf (arg : os.OsString) : Option Verb :=
  isVerb (trim (os.toStringLossy arg))

/-- The arguments up to the first that spells a verb, that argument, and the rest. -/
def splitAtVerb : List os.OsString →
    Option (List os.OsString × os.OsString × Verb × List os.OsString)
  | [] => none
  | arg :: rest =>
    match verbOf os arg with
    | some verb => some ([], arg, verb, rest)
    | none => (splitAtVerb rest).map fun (pre, found) => (arg :: pre, found)

/-- An argument in front of the verb. -/
def globalArg (arg : os.OsString) : os.OsString :=
  match tryGlobalSlash (os.toStringLossy arg) with
  | some g => os.fromString g
  | none => arg

/-- The verb as it is written. -/
def verbArg (arg : os.OsString) : os.OsString :=
  os.fromString (toAsciiLowercase (os.toStringLossy arg))

/-- `normalize_native_signtool_argv`. -/
def normalizeNativeSigntoolArgv : List os.OsString → List os.OsString
  | [] => []
  | exe :: args =>
    match splitAtVerb os args with
    | none => exe :: args
    | some (pre, arg, verb, rest) =>
      exe :: (pre.map (globalArg os) ++ verbArg os arg :: translateFrom os verb 0 rest)

/-! ## Segments -/

/-- An argument that is kept, a switch of every verb, or a switch with the arguments it uses
up. -/
inductive Segment where
  | kept (arg : os.OsString)
  | global (arg : os.OsString) (g : List Char)
  | switch (arg : os.OsString) (shape : SwitchShape) (values : List os.OsString)

variable {os}

namespace Segment

def input : Segment os → List os.OsString
  | kept arg => [arg]
  | global arg _ => [arg]
  | switch arg _ values => arg :: values

def values : Segment os → List os.OsString
  | kept _ => []
  | global _ _ => []
  | switch _ _ values => values

end Segment

/-- What a switch with these values is written as: its options, and the values without the white
space around them. -/
def SwitchShape.written (shape : SwitchShape) (values : List os.OsString) : List (List Char) :=
  match shape, values with
  | .flag pieces, _ => pieces
  | .value pieces default lower, [] => pieces ++ [cased lower default]
  | .value pieces _ lower, v :: _ => pieces ++ [cased lower (trim (os.toStringLossy v))]
  | .signAuth, values => "--sign-auth".toList :: values.map fun v => trim (os.toStringLossy v)

/-- What a segment is written as. -/
def Segment.output : Segment os → List os.OsString
  | kept arg => [arg]
  | global _ g => [os.fromString g]
  | switch _ shape values => (shape.written values).map os.fromString

/-- No value for `/sa`: one of the two next arguments is missing or blank. -/
def SignAuthUnfinished (rest : List os.OsString) : Prop :=
  ((rest[0]?.map fun v => trim (os.toStringLossy v)).getD [] = []) ∨
    (rest[1]?.map fun v => trim (os.toStringLossy v)).getD [] = []

instance (rest : List os.OsString) : Decidable (SignAuthUnfinished rest) :=
  inferInstanceAs (Decidable (_ ∨ _))

/-- The segment that a switch starts: a switch with a value takes the next argument, if there is
one. -/
def switchSegment (arg : os.OsString) (rest : List os.OsString) : Option SwitchShape → Segment os
  | none => .kept arg
  | some (.flag pieces) => .switch arg (.flag pieces) []
  | some (.value pieces default lower) => .switch arg (.value pieces default lower) (rest.take 1)
  | some .signAuth =>
    if SignAuthUnfinished rest then .kept arg else .switch arg .signAuth (rest.take 2)

/-- The segment that an argument starts. -/
def segmentOf (verb : Verb) (arg : os.OsString) (rest : List os.OsString) : Segment os :=
  match tryGlobalSlash (os.toStringLossy arg) with
  | some g => .global arg g
  | none =>
    if isWindowsSlashSwitch (os.toStringLossy arg) then
      switchSegment arg rest (switchShape verb (stripLeadingSlash (os.toStringLossy arg)))
    else .kept arg

/-- The segments of the arguments behind the verb, `skip` of which belong to the segment before. -/
def segments (verb : Verb) : (skip : ℕ) → List os.OsString → List (Segment os)
  | _, [] => []
  | skip + 1, _ :: rest => segments verb skip rest
  | 0, arg :: rest =>
    segmentOf verb arg rest :: segments verb (segmentOf verb arg rest).values.length rest

/-! ## The table -/

/-- What holds of every row: an option does not start with a slash, nor does a default. -/
def SwitchShape.Plain : SwitchShape → Prop
  | .flag pieces => pieces ≠ [] ∧ ∀ piece ∈ pieces, ¬ ['/'] <+: piece
  | .value pieces default lower =>
    (∀ piece ∈ pieces, ¬ ['/'] <+: piece) ∧ ¬ ['/'] <+: cased lower default
  | .signAuth => True

instance (shape : SwitchShape) : Decidable shape.Plain := by
  cases shape <;> unfold SwitchShape.Plain <;> infer_instance

theorem plain_switchTable (verb : Verb) : ∀ row ∈ switchTable verb, row.2.Plain := by
  cases verb <;> decide

theorem plain_switchShape {verb : Verb} {key : List Char} {shape : SwitchShape}
    (h : switchShape verb key = some shape) : shape.Plain := by
  obtain ⟨row, hrow, rfl⟩ := Option.map_eq_some_iff.mp h
  exact plain_switchTable verb row (List.mem_of_find?_eq_some hrow)

theorem mem_globals {s g : List Char} (h : tryGlobalSlash s = some g) :
    g ∈ ["-q".toList, "-v".toList, "--debug".toList] := by
  unfold tryGlobalSlash at h
  split at h
  · simp only [List.lookup] at h
    split at h
    · obtain rfl := Option.some.inj h
      exact List.mem_cons_self
    · split at h
      · obtain rfl := Option.some.inj h
        exact List.mem_cons_of_mem _ List.mem_cons_self
      · split at h
        · obtain rfl := Option.some.inj h
          exact List.mem_cons_of_mem _ (List.mem_cons_of_mem _ List.mem_cons_self)
        · cases h
  · cases h

/-! ## What is written -/

/-- The segments are the arguments. -/
theorem flatMap_input_segments (verb : Verb) (rest : List os.OsString) :
    ∀ skip, (segments verb skip rest).flatMap Segment.input = rest.drop skip := by
  induction rest with
  | nil =>
    intro skip
    cases skip <;> rfl
  | cons arg rest ih =>
    intro skip
    cases skip with
    | succ skip => exact ih skip
    | zero =>
      have hinput : (segmentOf verb arg rest).input =
          arg :: rest.take (segmentOf verb arg rest).values.length := by
        unfold segmentOf
        split
        · rfl
        · split
          · unfold switchSegment
            split
            · rfl
            · rfl
            · simp [Segment.input, Segment.values]
            · split
              · rfl
              · simp [Segment.input, Segment.values]
          · rfl
      rw [segments, List.flatMap_cons, ih, hinput, List.cons_append, List.take_append_drop]
      rfl

/-- What `translate_slash_switch` returns is the segment that the switch starts. -/
theorem translateSlashSwitch_spec (verb : Verb) (key : List Char) (arg : os.OsString)
    (rest : List os.OsString) :
    let t := translateSlashSwitch verb key (rest[0]?.map os.toStringLossy)
      (rest[1]?.map os.toStringLossy)
    (t.1 = [] ∧ switchSegment arg rest (switchShape verb key) = .kept arg) ∨
      t.1 ≠ [] ∧ ∃ shape values,
        switchSegment arg rest (switchShape verb key) = .switch arg shape values ∧
        t.1 = shape.written values ∧ rest.drop t.2 = rest.drop values.length := by
  unfold translateSlashSwitch switchSegment
  cases hshape : switchShape verb key with
  | none => exact Or.inl ⟨rfl, rfl⟩
  | some shape =>
    have hplain := plain_switchShape hshape
    cases shape with
    | flag pieces => exact Or.inr ⟨hplain.1, _, _, rfl, rfl, rfl⟩
    | value pieces default lower =>
      refine Or.inr ⟨by simp, _, _, rfl, ?_, ?_⟩
      · cases rest <;> rfl
      · cases rest <;> rfl
    | signAuth =>
      dsimp only
      rw [Option.map_map, Option.map_map]
      by_cases hunfinished : SignAuthUnfinished rest
      · rw [if_pos hunfinished]
        exact Or.inl ⟨congrArg Prod.fst (if_pos hunfinished), rfl⟩
      · rw [if_neg hunfinished]
        refine Or.inr ?_
        -- neither of the two next arguments is missing
        match rest, hunfinished with
        | [], h => exact absurd (Or.inl rfl) h
        | [_], h => exact absurd (Or.inr rfl) h
        | v :: w :: rest, h =>
          have hpair : (if SignAuthUnfinished (v :: w :: rest) then (([] : List (List Char)), 0)
              else (["--sign-auth".toList, trim (os.toStringLossy v), trim (os.toStringLossy w)], 2)) =
                (["--sign-auth".toList, trim (os.toStringLossy v), trim (os.toStringLossy w)], 2) :=
            if_neg h
          refine ⟨?_, .signAuth, [v, w], rfl, ?_, ?_⟩
          · exact (congrArg Prod.fst hpair).trans_ne (List.cons_ne_nil _ _)
          · exact congrArg Prod.fst hpair
          · exact congrArg (fun t : List (List Char) × ℕ => (v :: w :: rest).drop t.2) hpair

theorem translateFrom_drop (verb : Verb) (rest : List os.OsString) :
    ∀ skip, translateFrom os verb skip rest = translateFrom os verb 0 (rest.drop skip) := by
  induction rest with
  | nil =>
    intro skip
    cases skip <;> rfl
  | cons arg rest ih =>
    intro skip
    cases skip with
    | zero => rfl
    | succ skip => exact ih skip

/-- What is returned are the segments, each written. -/
theorem translateFrom_eq (verb : Verb) (rest : List os.OsString) :
    ∀ skip, translateFrom os verb skip rest = (segments verb skip rest).flatMap Segment.output := by
  induction rest with
  | nil =>
    intro skip
    cases skip <;> rfl
  | cons arg rest ih =>
    intro skip
    cases skip with
    | succ skip => exact ih skip
    | zero =>
      rw [segments, List.flatMap_cons, ← ih, translateFrom]
      unfold segmentOf
      split
      · rfl
      · split
        · rfl
        · rename_i hslash
          rw [if_pos (not_not.mp hslash)]
          have hspec := translateSlashSwitch_spec verb
            (stripLeadingSlash (os.toStringLossy arg)) arg rest
          dsimp only at hspec ⊢
          rcases hspec with ⟨hnil, hsegment⟩ | ⟨hne, shape, values, hsegment, hwritten, heat⟩
          · rw [if_pos hnil, hsegment]
            rfl
          · rw [if_neg hne, hsegment, translateFrom_drop, heat, hwritten]
            show _ = (shape.written values).map os.fromString ++ translateFrom os verb values.length rest
            rw [translateFrom_drop verb rest values.length]

/-! ## Arguments that are not switches -/

theorem isWindowsSlashSwitch_iff {s : List Char} :
    isWindowsSlashSwitch s ↔ ∃ c rest, s = '/' :: c :: rest ∧ c ≠ '/' := by
  constructor
  · intro h
    obtain ⟨hlength, ⟨rest, rfl⟩, hdouble⟩ := h
    cases rest with
    | nil => exact absurd hlength (by decide)
    | cons c rest =>
      refine ⟨c, rest, rfl, ?_⟩
      rintro rfl
      exact hdouble ⟨rest, rfl⟩
  · intro h
    obtain ⟨c, rest, rfl, hc⟩ := h
    have hpos : 1 ≤ (utf8Encode [c]).length := by
      have hback := utf8Lossy_utf8Encode [c]
      by_contra hshort
      have hnil : utf8Encode [c] = [] := List.eq_nil_of_length_eq_zero (by omega)
      rw [hnil] at hback
      exact absurd hback.symm (List.cons_ne_nil c [])
    have hslash : (utf8Encode ['/']).length = 1 := by decide
    refine ⟨?_, ⟨c :: rest, rfl⟩, ?_⟩
    · rw [show '/' :: c :: rest = ['/'] ++ ([c] ++ rest) from rfl, utf8Encode_append,
        utf8Encode_append, List.length_append, List.length_append, hslash]
      omega
    · intro hdouble
      obtain ⟨more, hmore⟩ := hdouble
      exact hc (List.cons.inj (List.cons.inj hmore).2).1.symm

/-- A switch of every verb, or one of this verb. -/
def KnownSwitch (verb : Verb) (s : List Char) : Prop :=
  isWindowsSlashSwitch s ∧
    ((tryGlobalSlash s).isSome ∨ (switchShape verb (stripLeadingSlash s)).isSome)

instance (verb : Verb) (s : List Char) : Decidable (KnownSwitch verb s) :=
  inferInstanceAs (Decidable (_ ∧ _))

theorem not_knownSwitch {verb : Verb} {s : List Char} (h : ¬ ['/'] <+: s) : ¬ KnownSwitch verb s :=
  fun hknown => h hknown.1.2.1

/-- An argument that is no switch starts a segment of its own. -/
theorem segmentOf_of_not_known {verb : Verb} {arg : os.OsString} (rest : List os.OsString)
    (h : ¬ KnownSwitch verb (os.toStringLossy arg)) : segmentOf verb arg rest = .kept arg := by
  unfold segmentOf
  by_cases hslash : isWindowsSlashSwitch (os.toStringLossy arg)
  · have hnone := not_or.mp fun hsome => h ⟨hslash, hsome⟩
    rw [Option.not_isSome_iff_eq_none, Option.not_isSome_iff_eq_none] at hnone
    rw [hnone.1, hnone.2]
    exact if_pos hslash
  · have hglobal : tryGlobalSlash (os.toStringLossy arg) = none := if_neg hslash
    rw [hglobal]
    exact if_neg hslash

/-- Without switches nothing changes. -/
theorem translateFrom_eq_self {verb : Verb} {rest : List os.OsString}
    (h : ∀ arg ∈ rest, ¬ KnownSwitch verb (os.toStringLossy arg)) :
    translateFrom os verb 0 rest = rest := by
  induction rest with
  | nil => rfl
  | cons arg rest ih =>
    have ih := ih fun a ha => h a (List.mem_cons_of_mem _ ha)
    rw [translateFrom_eq, segments, segmentOf_of_not_known rest (h arg List.mem_cons_self),
      List.flatMap_cons]
    show [arg] ++ (segments verb 0 rest).flatMap Segment.output = arg :: rest
    rw [← translateFrom_eq, ih]
    rfl

/-! ## Once and twice -/

theorem splitAtVerb_append {pre rest : List os.OsString} {arg : os.OsString} {verb : Verb}
    (hpre : ∀ a ∈ pre, verbOf os a = none) (hverb : verbOf os arg = some verb) :
    splitAtVerb os (pre ++ arg :: rest) = some (pre, arg, verb, rest) := by
  induction pre with
  | nil =>
    rw [List.nil_append, splitAtVerb, hverb]
  | cons a pre ih =>
    have ih := ih fun b hb => hpre b (List.mem_cons_of_mem _ hb)
    rw [List.cons_append, splitAtVerb, hpre a List.mem_cons_self, ih]
    rfl

/-- What is returned for a command line with a verb. -/
theorem normalizeNativeSigntoolArgv_eq {exe arg : os.OsString} {pre rest : List os.OsString}
    {verb : Verb} (hpre : ∀ a ∈ pre, verbOf os a = none) (hverb : verbOf os arg = some verb) :
    normalizeNativeSigntoolArgv os (exe :: (pre ++ arg :: rest)) =
      exe :: (pre.map (globalArg os) ++ verbArg os arg :: translateFrom os verb 0 rest) := by
  rw [normalizeNativeSigntoolArgv, splitAtVerb_append hpre hverb]

theorem isVerb_toAsciiLowercase (s : List Char) : isVerb (toAsciiLowercase s) = isVerb s := by
  rw [isVerb, toAsciiLowercase_toAsciiLowercase, ← isVerb]

theorem verbOf_verbArg (arg : os.OsString) : verbOf os (verbArg os arg) = verbOf os arg := by
  rw [verbOf, verbArg, os.toStringLossy_fromString, trim_toAsciiLowercase, isVerb_toAsciiLowercase,
    ← verbOf]

theorem verbArg_verbArg (arg : os.OsString) : verbArg os (verbArg os arg) = verbArg os arg := by
  rw [verbArg, verbArg, os.toStringLossy_fromString, toAsciiLowercase_toAsciiLowercase]

/-- The options of every verb are no switches and no verbs. -/
theorem globals_spec {s g : List Char} (h : tryGlobalSlash s = some g) :
    ¬ ['/'] <+: g ∧ isVerb (trim g) = none := by
  have hall : ∀ g ∈ ["-q".toList, "-v".toList, "--debug".toList],
      ¬ ['/'] <+: g ∧ isVerb (trim g) = none := by
    decide
  exact hall g (mem_globals h)

theorem verbOf_globalArg {arg : os.OsString} (h : verbOf os arg = none) :
    verbOf os (globalArg os arg) = none := by
  unfold globalArg
  split
  · rename_i g hg
    rw [verbOf, os.toStringLossy_fromString]
    exact (globals_spec hg).2
  · exact h

theorem globalArg_of_not_slash {arg : os.OsString}
    (h : ¬ isWindowsSlashSwitch (os.toStringLossy arg)) : globalArg os arg = arg := by
  have hnone : tryGlobalSlash (os.toStringLossy arg) = none := if_neg h
  rw [globalArg, hnone]

theorem globalArg_globalArg (arg : os.OsString) :
    globalArg os (globalArg os arg) = globalArg os arg := by
  cases hg : tryGlobalSlash (os.toStringLossy arg) with
  | none =>
    have hself : globalArg os arg = arg := by rw [globalArg, hg]
    rw [hself, hself]
  | some g =>
    have hwritten : globalArg os arg = os.fromString g := by rw [globalArg, hg]
    rw [hwritten]
    apply globalArg_of_not_slash
    rw [os.toStringLossy_fromString]
    exact fun hslash => (globals_spec hg).1 hslash.2.1

/-- Lower case keeps switches apart from other texts. -/
theorem knownSwitch_toAsciiLowercase {verb : Verb} {s : List Char} :
    KnownSwitch verb (toAsciiLowercase s) ↔ KnownSwitch verb s := by
  have hslash : ∀ c : Char, c.toLower = '/' ↔ c = '/' := fun c =>
    toLower_eq_iff (by decide) (by decide) c
  have hswitch : isWindowsSlashSwitch (toAsciiLowercase s) ↔ isWindowsSlashSwitch s := by
    rw [isWindowsSlashSwitch_iff, isWindowsSlashSwitch_iff]
    constructor
    · intro h
      obtain ⟨c, rest, hs, hc⟩ := h
      match s, hs with
      | [_], hs => exact absurd (List.cons.inj hs).2.symm (List.cons_ne_nil _ _)
      | d :: e :: more, hs =>
        obtain ⟨hd, hs⟩ := List.cons.inj hs
        obtain ⟨he, -⟩ := List.cons.inj hs
        refine ⟨e, more, by rw [(hslash d).mp hd], ?_⟩
        rintro rfl
        exact hc (he.symm.trans ((hslash '/').mpr rfl))
    · intro h
      obtain ⟨c, rest, rfl, hc⟩ := h
      exact ⟨c.toLower, toAsciiLowercase rest, rfl, fun hlower => hc ((hslash c).mp hlower)⟩
  have hkey : stripLeadingSlash (toAsciiLowercase s) = stripLeadingSlash s := by
    have hsame : (fun c : Char => decide (c = '/')) ∘ Char.toLower = fun c => decide (c = '/') :=
      funext fun c => decide_eq_decide.mpr (hslash c)
    have hdrop : (toAsciiLowercase s).dropWhile (· = '/') =
        toAsciiLowercase (s.dropWhile (· = '/')) := by
      rw [toAsciiLowercase, List.dropWhile_map, hsame, ← toAsciiLowercase]
    rw [stripLeadingSlash, hdrop, toAsciiLowercase_toAsciiLowercase, ← stripLeadingSlash]
  unfold KnownSwitch tryGlobalSlash
  rw [hkey]
  simp only [hswitch]

/-- No switch is left when the segment is written: no value of it is one, and it is no `/sa`
without its values. -/
def Segment.Settled (verb : Verb) : Segment os → Prop
  | kept arg => ¬ KnownSwitch verb (os.toStringLossy arg)
  | global _ _ => True
  | switch _ _ values => ∀ v ∈ values, ¬ KnownSwitch verb (trim (os.toStringLossy v))

instance (verb : Verb) (segment : Segment os) : Decidable (segment.Settled verb) := by
  cases segment <;> unfold Segment.Settled <;> infer_instance

/-- What is written for a switch is no switch again. -/
theorem not_known_of_mem_written {verb : Verb} {shape : SwitchShape} {values : List os.OsString}
    (hplain : shape.Plain)
    (hvalues : ∀ v ∈ values, ¬ KnownSwitch verb (trim (os.toStringLossy v))) :
    ∀ s ∈ shape.written values, ¬ KnownSwitch verb s := by
  intro s hs
  cases shape with
  | flag pieces => exact not_knownSwitch (hplain.2 s hs)
  | value pieces default lower =>
    cases values with
    | nil =>
      rcases List.mem_append.mp hs with hs | hs
      · exact not_knownSwitch (hplain.1 s hs)
      · rw [List.mem_singleton.mp hs]
        exact not_knownSwitch hplain.2
    | cons v values =>
      rcases List.mem_append.mp hs with hs | hs
      · exact not_knownSwitch (hplain.1 s hs)
      · rw [List.mem_singleton.mp hs]
        have hv := hvalues v List.mem_cons_self
        cases lower
        · exact hv
        · exact mt knownSwitch_toAsciiLowercase.mp hv
  | signAuth =>
    rcases List.mem_cons.mp hs with rfl | hs
    · exact not_knownSwitch (by decide)
    · obtain ⟨v, hv, rfl⟩ := List.mem_map.mp hs
      exact hvalues v hv

/-- A switch segment comes from the table. -/
theorem plain_of_segmentOf {verb : Verb} {arg arg' : os.OsString} {rest values : List os.OsString}
    {shape : SwitchShape} (h : segmentOf verb arg rest = .switch arg' shape values) :
    shape.Plain := by
  unfold segmentOf at h
  split at h
  · cases h
  · split at h
    · unfold switchSegment at h
      split at h
      · cases h
      · rename_i hshape
        obtain ⟨_, rfl, _⟩ := Segment.switch.inj h
        exact plain_switchShape hshape
      · rename_i hshape
        obtain ⟨_, rfl, _⟩ := Segment.switch.inj h
        exact plain_switchShape hshape
      · split at h
        · cases h
        · obtain ⟨_, rfl, _⟩ := Segment.switch.inj h
          trivial
    · cases h

theorem global_of_segmentOf {verb : Verb} {arg arg' : os.OsString} {rest : List os.OsString}
    {g : List Char} (h : segmentOf verb arg rest = .global arg' g) :
    tryGlobalSlash (os.toStringLossy arg) = some g := by
  unfold segmentOf at h
  split at h
  · rename_i hg
    obtain ⟨_, rfl⟩ := Segment.global.inj h
    exact hg
  · split at h
    · unfold switchSegment at h
      split at h
      · cases h
      · cases h
      · cases h
      · split at h <;> cases h
    · cases h

theorem exists_segmentOf_of_mem {verb : Verb} {segment : Segment os} {rest : List os.OsString} :
    ∀ {skip : ℕ}, segment ∈ segments verb skip rest →
      ∃ arg after, segment = segmentOf verb arg after := by
  induction rest with
  | nil =>
    intro skip h
    cases skip <;> exact absurd h List.not_mem_nil
  | cons arg rest ih =>
    intro skip h
    cases skip with
    | succ skip => exact ih h
    | zero =>
      rcases List.mem_cons.mp h with rfl | h
      · exact ⟨arg, rest, rfl⟩
      · exact ih h

theorem not_known_of_settled {verb : Verb} {rest : List os.OsString}
    (hsettled : ∀ segment ∈ segments verb 0 rest, segment.Settled verb) :
    ∀ arg ∈ translateFrom os verb 0 rest, ¬ KnownSwitch verb (os.toStringLossy arg) := by
  intro arg harg
  rw [translateFrom_eq] at harg
  obtain ⟨segment, hmem, harg⟩ := List.mem_flatMap.mp harg
  have hsettled := hsettled segment hmem
  obtain ⟨first, after, hsegment⟩ := exists_segmentOf_of_mem hmem
  cases segment with
  | kept kept =>
    rw [List.mem_singleton.mp harg]
    exact hsettled
  | global global g =>
    rw [List.mem_singleton.mp harg, os.toStringLossy_fromString]
    exact not_knownSwitch (globals_spec (global_of_segmentOf hsegment.symm)).1
  | switch switch shape values =>
    obtain ⟨s, hs, rfl⟩ := List.mem_map.mp harg
    rw [os.toStringLossy_fromString]
    exact not_known_of_mem_written (plain_of_segmentOf hsegment.symm) hsettled s hs

/-- What is kept is not a switch that was found: it is none of the verb's, or a `/sa` of which a
value is missing or blank. -/
def Segment.Sound (verb : Verb) : Segment os → Prop
  | kept arg => ¬ KnownSwitch verb (os.toStringLossy arg) ∨
      switchShape verb (stripLeadingSlash (os.toStringLossy arg)) = some .signAuth
  | global arg g => tryGlobalSlash (os.toStringLossy arg) = some g
  | switch arg shape _ => isWindowsSlashSwitch (os.toStringLossy arg) ∧
      switchShape verb (stripLeadingSlash (os.toStringLossy arg)) = some shape

theorem sound_segmentOf (verb : Verb) (arg : os.OsString) (rest : List os.OsString) :
    (segmentOf verb arg rest).Sound verb := by
  by_cases hknown : KnownSwitch verb (os.toStringLossy arg)
  · unfold segmentOf
    split
    · rename_i g hg
      exact hg
    · rename_i hnone
      rw [if_pos hknown.1]
      have hsome : (switchShape verb (stripLeadingSlash (os.toStringLossy arg))).isSome := by
        rcases hknown.2 with hglobal | hshape
        · rw [hnone] at hglobal
          exact absurd hglobal (by decide)
        · exact hshape
      obtain ⟨shape, hshape⟩ := Option.isSome_iff_exists.mp hsome
      rw [hshape]
      cases shape with
      | flag pieces => exact ⟨hknown.1, hshape⟩
      | value pieces default lower => exact ⟨hknown.1, hshape⟩
      | signAuth =>
        unfold switchSegment
        dsimp only
        split
        · exact Or.inr hshape
        · exact ⟨hknown.1, hshape⟩
  · rw [segmentOf_of_not_known rest hknown]
    exact Or.inl hknown

/-- The arguments of a command line with a verb are taken apart into segments: the arguments that
are kept stand in the result as they were and in their order, and each switch is followed by its
values, without white space around them, or by its default at the end of the command line.
Without slash arguments only the case of the verb changes, and the result does not change any
more where no value is a switch. -/
theorem normalize_segments {exe arg : os.OsString} {pre rest : List os.OsString} {verb : Verb}
    (hpre : ∀ a ∈ pre, verbOf os a = none) (hverb : verbOf os arg = some verb) :
    (segments verb 0 rest).flatMap Segment.input = rest ∧
    (∀ segment ∈ segments verb 0 rest, segment.Sound verb) ∧
    normalizeNativeSigntoolArgv os (exe :: (pre ++ arg :: rest)) =
      exe :: (pre.map (globalArg os) ++
        verbArg os arg :: (segments verb 0 rest).flatMap Segment.output) ∧
    ((∀ a ∈ pre ++ rest, ¬ isWindowsSlashSwitch (os.toStringLossy a)) →
      normalizeNativeSigntoolArgv os (exe :: (pre ++ arg :: rest)) =
        exe :: (pre ++ verbArg os arg :: rest)) ∧
    ((∀ segment ∈ segments verb 0 rest, segment.Settled verb) →
      normalizeNativeSigntoolArgv os (normalizeNativeSigntoolArgv os (exe :: (pre ++ arg :: rest))) =
        normalizeNativeSigntoolArgv os (exe :: (pre ++ arg :: rest))) := by
  have honce := @normalizeNativeSigntoolArgv_eq os exe arg pre rest verb hpre hverb
  refine ⟨?_, ?_, ?_, ?_, ?_⟩
  · exact flatMap_input_segments verb rest 0
  · intro segment hmem
    obtain ⟨first, after, rfl⟩ := exists_segmentOf_of_mem hmem
    exact sound_segmentOf verb first after
  · rw [honce, translateFrom_eq]
  · intro hslash
    have hglobals : pre.map (globalArg os) = pre := by
      refine (List.map_congr_left fun a ha => ?_).trans (List.map_id _)
      exact globalArg_of_not_slash (hslash a (List.mem_append_left _ ha))
    rw [honce, hglobals, translateFrom_eq_self fun a ha hknown =>
      hslash a (List.mem_append_right _ ha) hknown.1]
  · intro hsettled
    have hglobals : ∀ a ∈ pre.map (globalArg os), verbOf os a = none := by
      intro a ha
      obtain ⟨b, hb, rfl⟩ := List.mem_map.mp ha
      exact verbOf_globalArg (hpre b hb)
    have htwice : (pre.map (globalArg os)).map (globalArg os) = pre.map (globalArg os) := by
      rw [List.map_map]
      exact List.map_congr_left fun a _ => globalArg_globalArg a
    rw [honce, normalizeNativeSigntoolArgv_eq hglobals ((verbOf_verbArg arg).trans hverb), htwice,
      verbArg_verbArg, translateFrom_eq_self (not_known_of_settled hsettled)]

/-- A command line in bytes. -/
def bytesOf (args : List String) : List OsStrings.unix.OsString :=
  args.map fun arg => OsStrings.unix.fromString arg.toList

/-- Two switches, the second with a value, and a file. -/
theorem normalize_segments_sample :
    normalizeNativeSigntoolArgv OsStrings.unix
        (bytesOf ["psign-tool", "/v", "Sign", "/as", "/p", " x ", "a.exe"]) =
      bytesOf ["psign-tool", "-v", "sign", "--as", "--p", "x", "a.exe"] ∧
    normalizeNativeSigntoolArgv OsStrings.unix (normalizeNativeSigntoolArgv OsStrings.unix
        (bytesOf ["psign-tool", "/v", "Sign", "/as", "/p", " x ", "a.exe"])) =
      normalizeNativeSigntoolArgv OsStrings.unix
        (bytesOf ["psign-tool", "/v", "Sign", "/as", "/p", " x ", "a.exe"]) := by
  have h := @normalize_segments OsStrings.unix
    (OsStrings.unix.fromString "psign-tool".toList) (OsStrings.unix.fromString "Sign".toList)
    (bytesOf ["/v"]) (bytesOf ["/as", "/p", " x ", "a.exe"]) .sign (by decide)
    (by decide)
  exact ⟨h.2.2.1.trans (by decide), h.2.2.2.2 (by decide)⟩

/-- A value is changed, one is made up, and doing it again changes more. -/
theorem normalize_changes_values :
    normalizeNativeSigntoolArgv OsStrings.unix
        (bytesOf ["psign-tool", "sign", "/p", " x ", "a.exe"]) =
      bytesOf ["psign-tool", "sign", "--p", "x", "a.exe"] ∧
    normalizeNativeSigntoolArgv OsStrings.unix (bytesOf ["psign-tool", "sign", "/fd"]) =
      bytesOf ["psign-tool", "sign", "--fd", "sha256"] ∧
    normalizeNativeSigntoolArgv OsStrings.unix (bytesOf ["psign-tool", "sign", "/n", "/as"]) =
      bytesOf ["psign-tool", "sign", "--n", "/as"] ∧
    normalizeNativeSigntoolArgv OsStrings.unix (bytesOf ["psign-tool", "sign", "--n", "/as"]) =
      bytesOf ["psign-tool", "sign", "--n", "--as"] := by
  decide

end Psign.Cli
