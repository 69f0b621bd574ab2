import Psign.Code.ClickOnce
import Psign.CodeLib.Edits
import Psign.CodeLib.Markup

/-!
# The search for start tags

What `find_xml_start_tag_by_local_name` finds.  On a text in which every `<` has a `>` behind it
the search does not depend on what follows the text (`findStartTagFrom_append`), so it can be
followed from piece to piece of a document.  Within a piece it knows no comments, no CDATA sections
and no quotes.
-/

namespace Psign.Code

open CodeLib CodeLib.Edits CodeLib.Markup

/-- A stretch that ends within the first part. -/
theorem takeWhile_append_of_mem {p : Char → Bool} {s : List Char} {c : Char} (hc : c ∈ s)
    (hp : p c = false) (t : List Char) : (s ++ t).takeWhile p = s.takeWhile p := by
  rw [List.takeWhile_append, if_neg]
  intro hlen
  have hall := List.takeWhile_eq_self_iff.mp
    ((List.takeWhile_prefix p).eq_of_length hlen)
  have hpc := hall c hc
  rw [hp] at hpc
  exact absurd hpc (by decide)

theorem tagName_append {s : List Char} (h : '>' ∈ s) (t : List Char) :
    tagName (s ++ t) = tagName s :=
  takeWhile_append_of_mem h (by simp) t

/-- The stretch up to the first `>`, and what is behind it. -/
theorem exists_inside {rest : List Char} (h : '>' ∈ rest) :
    ∃ inside behind, rest = inside ++ '>' :: behind ∧ '>' ∉ inside ∧
      rest.takeWhile (· ≠ '>') = inside := by
  obtain ⟨inside, behind, hrest, hnot⟩ := List.eq_append_cons_of_mem h
  refine ⟨inside, behind, hrest, hnot, ?_⟩
  rw [hrest, List.takeWhile_append_of_pos fun c hc => by simpa using ne_of_mem_of_not_mem hc hnot,
    List.takeWhile_cons_of_neg (by simp), List.append_nil]

variable {localName : List Char}

/-! ## Where the search stops -/

/-- The search stops at a tag. -/
theorem findStartTagFrom_eq_some {skip pos : ℕ} {text : List Char} {tag : XmlStartTagSpan}
    (h : findStartTagFrom localName skip pos text = .ok (some tag)) :
    ∃ before inside behind, text = before ++ '<' :: (inside ++ '>' :: behind) ∧ '>' ∉ inside ∧
      tag.start = pos + before.length ∧ tag.stop = tag.start + 1 + inside.length ∧
      tag.name = tagName (inside ++ '>' :: behind) ∧ tagLocalName tag.name = localName := by
  induction text generalizing skip pos with
  | nil =>
    cases skip <;> exact nomatch h
  | cons c rest ih =>
    have hmore : ∀ {skip}, findStartTagFrom localName skip (pos + 1) rest = .ok (some tag) →
        ∃ before inside behind, c :: rest = before ++ '<' :: (inside ++ '>' :: behind) ∧
          '>' ∉ inside ∧ tag.start = pos + before.length ∧
          tag.stop = tag.start + 1 + inside.length ∧
          tag.name = tagName (inside ++ '>' :: behind) ∧ tagLocalName tag.name = localName := by
      intro skip h
      obtain ⟨before, inside, behind, rfl, hinside, hstart, hfound⟩ := ih h
      refine ⟨c :: before, inside, behind, rfl, hinside, ?_, hfound⟩
      rw [hstart, List.length_cons]
      omega
    cases skip with
    | succ skip => exact hmore h
    | zero =>
      rw [findStartTagFrom] at h
      split at h
      · rename_i hc
        split at h
        · exact nomatch h
        · split at h
          · exact hmore h
          · split at h
            · rename_i hgt
              dsimp only at h
              split at h
              · rename_i hlocal
                obtain ⟨inside, behind, hrest, hinside, htake⟩ := exists_inside hgt
                obtain rfl := Option.some.inj (Except.ok.inj h)
                refine ⟨[], inside, behind, ?_, hinside, rfl, ?_, ?_, hlocal⟩
                · rw [hc, hrest]
                  rfl
                · rw [htake]
                · rw [← hrest]
              · exact hmore h
            · exact nomatch h
      · exact hmore h

/-- Where the search starts counting does not matter. -/
theorem findStartTagFrom_shift (skip pos k : ℕ) (text : List Char) :
    findStartTagFrom localName skip (pos + k) text =
      (findStartTagFrom localName skip pos text).map
        (Option.map fun tag => ⟨tag.start + k, tag.stop + k, tag.name⟩) := by
  induction text generalizing skip pos with
  | nil => cases skip <;> rfl
  | cons c rest ih =>
    have hmore : ∀ skip, findStartTagFrom localName skip (pos + k + 1) rest =
        (findStartTagFrom localName skip (pos + 1) rest).map
          (Option.map fun tag => ⟨tag.start + k, tag.stop + k, tag.name⟩) := by
      intro skip
      rw [← ih skip (pos + 1), Nat.add_right_comm]
    cases skip with
    | succ skip => exact hmore skip
    | zero =>
      rw [findStartTagFrom, findStartTagFrom]
      split
      · split
        · rfl
        · split
          · exact hmore 0
          · split
            · dsimp only
              split
              · show Except.ok (some _) = Except.ok (some _)
                rw [Nat.add_right_comm pos k, Nat.add_right_comm _ k]
              · exact hmore _
            · rfl
      · exact hmore 0

/-- On a sealed text the search does not depend on what follows. -/
theorem findStartTagFrom_append {raw : List Char} (hraw : Sealed raw) {skip pos : ℕ}
    (hskip : skip ≤ raw.length) (rest : List Char) :
    (findStartTagFrom localName skip pos raw = .ok none ∧
        findStartTagFrom localName skip pos (raw ++ rest) =
          findStartTagFrom localName 0 (pos + raw.length) rest) ∨
      ∃ tag, findStartTagFrom localName skip pos raw = .ok (some tag) ∧
        findStartTagFrom localName skip pos (raw ++ rest) = .ok (some tag) := by
  induction raw generalizing skip pos with
  | nil =>
    obtain rfl := Nat.le_zero.mp hskip
    exact Or.inl ⟨rfl, rfl⟩
  | cons c raw ih =>
    have hsealed := hraw.of_suffix (List.suffix_cons c raw)
    have hmore : ∀ {skip}, skip ≤ raw.length →
        (findStartTagFrom localName skip (pos + 1) raw = .ok none ∧
            findStartTagFrom localName skip (pos + 1) (raw ++ rest) =
              findStartTagFrom localName 0 (pos + (c :: raw).length) rest) ∨
          ∃ tag, findStartTagFrom localName skip (pos + 1) raw = .ok (some tag) ∧
            findStartTagFrom localName skip (pos + 1) (raw ++ rest) = .ok (some tag) := by
      intro skip hskip
      rw [List.length_cons, Nat.add_comm raw.length, ← Nat.add_assoc]
      exact ih hsealed hskip
    cases skip with
    | succ skip => exact hmore (Nat.le_of_succ_le_succ hskip)
    | zero =>
      rw [List.cons_append, findStartTagFrom, findStartTagFrom]
      by_cases hc : c = '<'
      · rw [if_pos hc, if_pos hc]
        have hgt : '>' ∈ raw := hraw raw (by rw [hc])
        obtain ⟨first, more, rfl⟩ := List.exists_cons_of_ne_nil (List.ne_nil_of_mem hgt)
        rw [List.cons_append, List.head?_cons, List.head?_cons]
        dsimp only
        by_cases hfirst : first = '/' ∨ first = '!' ∨ first = '?'
        · rw [if_pos hfirst, if_pos hfirst]
          exact hmore (Nat.zero_le _)
        · have hgt' : '>' ∈ first :: (more ++ rest) := List.mem_append_left rest hgt
          obtain ⟨inside, behind, hraw, hinside, htake⟩ := exists_inside hgt
          have htake' : (first :: (more ++ rest)).takeWhile (· ≠ '>') = inside := by
            rw [← List.cons_append, takeWhile_append_of_mem hgt (by simp), htake]
          have hname : tagName (first :: (more ++ rest)) = tagName (first :: more) :=
            tagName_append hgt rest
          rw [if_neg hfirst, if_neg hfirst, if_pos hgt, if_pos hgt', htake, htake', hname]
          by_cases hlocal : tagLocalName (tagName (first :: more)) = localName
          · rw [if_pos hlocal, if_pos hlocal]
            exact Or.inr ⟨_, rfl, rfl⟩
          · rw [if_neg hlocal, if_neg hlocal]
            refine hmore ?_
            rw [hraw, List.length_append, List.length_cons]
            omega
      · rw [if_neg hc, if_neg hc]
        exact hmore (Nat.zero_le _)

/-! ## The tag as a span -/

/-- The tag that the search finds, with what is before it and behind it. -/
def findLocalTag (localName text : List Char) :
    Outcome (Option (List Char × List Char × List Char)) := do
  let found ← findXmlStartTagByLocalName text localName
  return found.map fun tag =>
    (text.take tag.start, (text.take (tag.stop + 1)).drop tag.start, text.drop (tag.stop + 1))

theorem findLocalTag_eq_some {text before span behind : List Char} :
    findLocalTag localName text = .ok (some (before, span, behind)) ↔
      ∃ inside, span = '<' :: (inside ++ ['>']) ∧ '>' ∉ inside ∧ text = before ++ (span ++ behind) ∧
        ∃ tag, findXmlStartTagByLocalName text localName = .ok (some tag) ∧
          tag.start = before.length := by
  constructor
  · intro h
    obtain ⟨found, hfound, hpure⟩ := Outcome.bind_eq_ok.mp h
    obtain ⟨tag, rfl, hparts⟩ := Option.map_eq_some_iff.mp (Except.ok.inj hpure)
    obtain ⟨lead, inside, rest, rfl, hinside, hstart, hstop, _⟩ := findStartTagFrom_eq_some hfound
    rw [Nat.zero_add] at hstart
    have htext : lead ++ '<' :: (inside ++ '>' :: rest) =
        (lead ++ '<' :: (inside ++ ['>'])) ++ rest := by simp
    have hlen : tag.stop + 1 = (lead ++ '<' :: (inside ++ ['>'])).length := by
      simp only [List.length_append, List.length_cons, List.length_nil]
      omega
    obtain ⟨hbefore, hspan⟩ := Prod.mk.inj hparts
    obtain ⟨hspan, hbehind⟩ := Prod.mk.inj hspan
    rw [← hbefore, ← hspan, ← hbehind, htext, hlen, List.take_left, List.drop_left, hstart,
      List.drop_left, List.append_assoc, List.take_left]
    exact ⟨inside, rfl, hinside, by simp, tag, by rw [← List.append_assoc, ← htext]; exact hfound,
      hstart⟩
  · intro h
    obtain ⟨inside, rfl, hinside, htext, tag, hfound, hstart⟩ := h
    obtain ⟨lead, inside', rest, htext', hinside', hstart', hstop, _⟩ :=
      findStartTagFrom_eq_some hfound
    rw [Nat.zero_add] at hstart'
    have hlead : before = lead ∧ '<' :: (inside ++ ['>']) ++ behind =
        '<' :: (inside' ++ '>' :: rest) :=
      List.append_inj (htext.symm.trans htext') (by omega)
    obtain ⟨rfl, hrest⟩ := hlead
    have hsplit : inside = inside' ∧ '>' :: behind = '>' :: rest := by
      apply @run_append_inj (· ≠ '>')
      · exact fun c hc => by simpa using ne_of_mem_of_not_mem hc hinside
      · exact fun c hc => by simpa using ne_of_mem_of_not_mem hc hinside'
      · simp
      · simp
      · simpa using hrest
    obtain ⟨rfl, hbehind⟩ := hsplit
    have hlen : tag.stop + 1 = (before ++ '<' :: (inside ++ ['>'])).length := by
      simp only [List.length_append, List.length_cons, List.length_nil]
      omega
    rw [findLocalTag, hfound]
    show Except.ok (some (text.take tag.start, (text.take (tag.stop + 1)).drop tag.start,
      text.drop (tag.stop + 1))) = _
    rw [hlen, hstart, htext, ← List.append_assoc, List.take_left, List.drop_left, List.drop_left,
      List.append_assoc, List.take_left]

theorem findLocalTag_eq_none {text : List Char} :
    findLocalTag localName text = .ok none ↔
      findXmlStartTagByLocalName text localName = .ok none := by
  rw [findLocalTag, Outcome.bind_eq_ok]
  constructor
  · intro h
    obtain ⟨found, hfound, h⟩ := h
    rw [hfound, Option.map_eq_none_iff.mp (Except.ok.inj h)]
  · intro h
    exact ⟨none, h, rfl⟩

theorem local_findLocalTag : Local (findLocalTag localName) Sealed where
  suffix hraw hsuffix := hraw.of_suffix hsuffix
  none := by
    intro raw hraw h rest
    rcases @findStartTagFrom_append localName raw hraw 0 0 (Nat.zero_le _) rest with
      ⟨_, happend⟩ | ⟨tag, htag, _⟩
    · rw [findStartTagFrom_shift] at happend
      rw [findLocalTag, findLocalTag, findXmlStartTagByLocalName, happend,
        findXmlStartTagByLocalName]
      cases findStartTagFrom localName 0 0 rest with
      | error failure => rfl
      | ok found =>
        cases found with
        | none => rfl
        | some tag =>
          show Except.ok (some ((raw ++ rest).take (tag.start + raw.length),
              ((raw ++ rest).take (tag.stop + raw.length + 1)).drop (tag.start + raw.length),
              (raw ++ rest).drop (tag.stop + raw.length + 1))) =
            Except.ok (some (raw ++ rest.take tag.start, (rest.take (tag.stop + 1)).drop tag.start,
              rest.drop (tag.stop + 1)))
          have hstop : tag.stop + raw.length + 1 = raw.length + (tag.stop + 1) := by omega
          rw [hstop, Nat.add_comm tag.start, List.take_length_add_append,
            List.take_length_add_append, List.drop_length_add_append,
            List.drop_length_add_append]
    · exact nomatch htag.symm.trans (findLocalTag_eq_none.mp h)
  some := by
    intro raw before span behind hraw h rest
    obtain ⟨inside, rfl, hinside, rfl, tag, htag, hstart⟩ := findLocalTag_eq_some.mp h
    rcases @findStartTagFrom_append localName _ hraw 0 0 (Nat.zero_le _) rest with
      ⟨hnone, _⟩ | ⟨tag', htag', happend⟩
    · exact nomatch hnone.symm.trans htag
    · obtain rfl := Option.some.inj (Except.ok.inj (htag'.symm.trans htag))
      exact findLocalTag_eq_some.mpr ⟨inside, rfl, hinside, by simp, tag', happend, hstart⟩
  total := by
    intro raw hraw
    rcases @findStartTagFrom_append localName raw hraw 0 0 (Nat.zero_le _) [] with
      ⟨h, _⟩ | ⟨tag, h, _⟩
    · exact ⟨none, findLocalTag_eq_none.mpr h⟩
    · rw [findLocalTag, findXmlStartTagByLocalName, h]
      exact ⟨_, rfl⟩

end Psign.Code
