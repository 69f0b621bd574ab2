import Psign.CodeLib.Slice
import Psign.CodeLib.Subslice

/-!
# Reading a stream in pieces

A peer delivers a stream in pieces of its own choosing (`Pieces`).  A reader collects them and
looks for something in what it has so far, until it finds it, the peer stops, or it holds more
than it is ready to hold (`readUntil`).

What is found once must stay where it is when more comes in (`Settled`).  Then a reader that
does not give up has read the stream, whatever the pieces were (`readUntil_spec`); whether it
gives up depends on the ends of the pieces only (`overruns_iff`).  So the pieces matter for a
stream that settles within one buffer behind the limit (`exists_both_of_between`), and for no
other stream (`not_overruns_of_le`, `overruns_of_lt`, `overruns_iff_of_none`).
-/

namespace CodeLib.Stream

variable {α ρ : Type} {size limit : ℕ}

/-! ## Pieces -/

/-- A stream as successive reads into a buffer of `size` elements deliver it.  A read of nothing is
the end of the stream, so every piece has an element. -/
structure Pieces (size : ℕ) (α : Type) where
  pieces : List (List α)
  bounds : ∀ piece ∈ pieces, piece ≠ [] ∧ piece.length ≤ size

namespace Pieces

/-- What is delivered. -/
def stream (p : Pieces size α) : List α :=
  p.pieces.flatten

/-- One delivery after another. -/
def append (p q : Pieces size α) : Pieces size α where
  pieces := p.pieces ++ q.pieces
  bounds piece hpiece := (List.mem_append.mp hpiece).elim (p.bounds piece) (q.bounds piece)

/-- A single piece. -/
def single (piece : List α) (h : piece ≠ [] ∧ piece.length ≤ size) : Pieces size α where
  pieces := [piece]
  bounds other hother := by
    obtain rfl := List.mem_singleton.mp hother
    exact h

/-- Full buffers as long as there is enough. -/
def even (hsize : 0 < size) (s : List α) : Pieces size α where
  pieces := Slice.chunks size s
  bounds _ hpiece := ⟨Slice.ne_nil_of_mem_chunks hsize hpiece, Slice.length_le_of_mem_chunks hpiece⟩

@[simp] theorem stream_append (p q : Pieces size α) : (p.append q).stream = p.stream ++ q.stream :=
  List.flatten_append

@[simp] theorem stream_single (piece : List α) (h : piece ≠ [] ∧ piece.length ≤ size) :
    (single piece h).stream = piece := by
  simp [stream, single]

@[simp] theorem stream_even (hsize : 0 < size) (s : List α) : (even hsize s).stream = s :=
  Slice.flatten_chunks hsize s

end Pieces

/-- The lengths that a reader has received behind each of the pieces. -/
def Boundary (pieces : List (List α)) (n : ℕ) : Prop :=
  ∃ front back, pieces = front ++ back ∧ front ≠ [] ∧ front.flatten.length = n

theorem boundary_nil (n : ℕ) : ¬ Boundary ([] : List (List α)) n := by
  rintro ⟨front, back, hsplit, hne, -⟩
  exact hne (List.append_eq_nil_iff.mp hsplit.symm).1

theorem boundary_cons {piece : List α} {pieces : List (List α)} {n : ℕ} :
    Boundary (piece :: pieces) n ↔
      n = piece.length ∨ ∃ m, Boundary pieces m ∧ n = piece.length + m := by
  constructor
  · rintro ⟨front, back, hsplit, hne, hn⟩
    cases front with
    | nil => exact absurd rfl hne
    | cons first front =>
      obtain ⟨rfl, htail⟩ := List.cons.inj hsplit
      rw [List.flatten_cons, List.length_append] at hn
      cases front with
      | nil => exact Or.inl hn.symm
      | cons second front =>
        exact Or.inr ⟨_, ⟨second :: front, back, htail, by simp, rfl⟩, hn.symm⟩
  · intro h
    rcases h with rfl | ⟨m, ⟨front, back, rfl, -, rfl⟩, rfl⟩
    · exact ⟨[piece], pieces, rfl, by simp, by simp⟩
    · exact ⟨piece :: front, back, rfl, by simp, by simp⟩

theorem boundary_append {pieces more : List (List α)} {n : ℕ} :
    Boundary (pieces ++ more) n ↔
      Boundary pieces n ∨ ∃ m, Boundary more m ∧ n = pieces.flatten.length + m := by
  induction pieces generalizing n with
  | nil => simp [boundary_nil]
  | cons piece pieces ih =>
    rw [List.cons_append, boundary_cons, boundary_cons, List.flatten_cons, List.length_append]
    constructor
    · rintro (rfl | ⟨m, hm, rfl⟩)
      · exact Or.inl (Or.inl rfl)
      · rcases ih.mp hm with hm | ⟨k, hk, rfl⟩
        · exact Or.inl (Or.inr ⟨m, hm, rfl⟩)
        · exact Or.inr ⟨k, hk, by omega⟩
    · rintro ((rfl | ⟨m, hm, rfl⟩) | ⟨k, hk, rfl⟩)
      · exact Or.inl rfl
      · exact Or.inr ⟨m, ih.mpr (Or.inl hm), rfl⟩
      · exact Or.inr ⟨_, ih.mpr (Or.inr ⟨k, hk, rfl⟩), by omega⟩

theorem Boundary.le {pieces : List (List α)} {n : ℕ} (h : Boundary pieces n) :
    n ≤ pieces.flatten.length := by
  obtain ⟨front, back, rfl, -, rfl⟩ := h
  simp

/-- The last piece ends the stream. -/
theorem boundary_flatten {pieces : List (List α)} (hne : pieces ≠ []) :
    Boundary pieces pieces.flatten.length :=
  ⟨pieces, [], (List.append_nil _).symm, hne, rfl⟩

/-- Some piece ends within one buffer behind any place of the stream. -/
theorem exists_boundary {pieces : List (List α)} (hsize : ∀ piece ∈ pieces, piece.length ≤ size)
    {lo : ℕ} (hlo : lo < pieces.flatten.length) :
    ∃ n, Boundary pieces n ∧ lo < n ∧ n ≤ lo + size := by
  induction pieces generalizing lo with
  | nil => exact absurd hlo (Nat.not_lt_zero lo)
  | cons piece pieces ih =>
    have hpiece := hsize piece (List.mem_cons_self ..)
    by_cases hin : lo < piece.length
    · exact ⟨piece.length, boundary_cons.mpr (Or.inl rfl), hin, by omega⟩
    · rw [List.flatten_cons, List.length_append] at hlo
      obtain ⟨n, hn, hgt, hle⟩ := ih (fun p hp => hsize p (List.mem_cons_of_mem _ hp))
        (show lo - piece.length < pieces.flatten.length by omega)
      exact ⟨piece.length + n, boundary_cons.mpr (Or.inr ⟨n, hn, rfl⟩), by omega, by omega⟩

/-! ## The reader -/

/-- Why a reader stops. -/
inductive Stop (α ρ : Type) where
  /-- It found this in what it has so far, and has not taken the rest. -/
  | found (result : ρ) (received : List α) (rest : List (List α))
  /-- It has too much without having found it. -/
  | tooLong
  /-- There are no more pieces. -/
  | ended
  deriving DecidableEq

/-- Read pieces until `find` finds something, or more than `limit` elements are there. -/
def readUntil (find : List α → Option ρ) (limit : ℕ) : List α → List (List α) → Stop α ρ
  | _, [] => .ended
  | received, piece :: rest =>
    match find (received ++ piece) with
    | some result => .found result (received ++ piece) rest
    | none =>
      if limit < (received ++ piece).length then .tooLong
      else readUntil find limit (received ++ piece) rest

/-- Read pieces as long as fewer than `need` elements are there. -/
def readAtLeast (need : ℕ) : List α → List (List α) → Option (List α)
  | received, [] => if received.length < need then none else some received
  | received, piece :: rest =>
    if received.length < need then readAtLeast need (received ++ piece) rest else some received

/-- What is found stays found when more comes in. -/
def Settled (find : List α → Option ρ) : Prop :=
  ∀ s more r, find s = some r → find (s ++ more) = some r

/-- The reader has too much at the end of some piece. -/
def Overruns (find : List α → Option ρ) (limit : ℕ) (received : List α) (pieces : List (List α)) :
    Prop :=
  ∃ n, Boundary pieces n ∧ find (received ++ pieces.flatten.take n) = none ∧
    limit < received.length + n

/-- What a reader does, in terms of the stream. -/
def StopsAt (find : List α → Option ρ) (limit : ℕ) (received : List α) (pieces : List (List α)) :
    Stop α ρ → Prop
  | .found result taken rest => find (received ++ pieces.flatten) = some result ∧
      find taken = some result ∧ taken ++ rest.flatten = received ++ pieces.flatten ∧
      ¬ Overruns find limit received pieces
  | .tooLong => Overruns find limit received pieces
  | .ended => find (received ++ pieces.flatten) = none ∧ ¬ Overruns find limit received pieces

theorem Settled.eq_none {find : List α → Option ρ} (h : Settled find) {s more : List α}
    (hnone : find (s ++ more) = none) : find s = none := by
  cases hs : find s with
  | none => rfl
  | some r => exact absurd (h s more r hs) (by rw [hnone]; simp)

section cons

variable {find : List α → Option ρ} {received piece : List α} {pieces : List (List α)}

theorem overruns_cons : Overruns find limit received (piece :: pieces) ↔
    (find (received ++ piece) = none ∧ limit < (received ++ piece).length) ∨
      Overruns find limit (received ++ piece) pieces := by
  unfold Overruns
  constructor
  · rintro ⟨n, hn, hnone, hlimit⟩
    rcases boundary_cons.mp hn with rfl | ⟨m, hm, rfl⟩
    · refine Or.inl ⟨?_, by rw [List.length_append]; exact hlimit⟩
      simpa using hnone
    · refine Or.inr ⟨m, hm, ?_, by rw [List.length_append]; omega⟩
      rw [List.flatten_cons, List.take_length_add_append, ← List.append_assoc] at hnone
      exact hnone
  · rintro (⟨hnone, hlimit⟩ | ⟨m, hm, hnone, hlimit⟩)
    · refine ⟨piece.length, boundary_cons.mpr (Or.inl rfl), ?_, ?_⟩
      · simpa using hnone
      · rwa [List.length_append] at hlimit
    · refine ⟨piece.length + m, boundary_cons.mpr (Or.inr ⟨m, hm, rfl⟩), ?_, ?_⟩
      · rw [List.flatten_cons, List.take_length_add_append, ← List.append_assoc]
        exact hnone
      · rw [List.length_append] at hlimit
        omega

/-- A reader that found something does not have too much. -/
theorem not_overruns_of_some (hfind : Settled find) {r : ρ} (h : find received = some r) :
    ¬ Overruns find limit received pieces := by
  rintro ⟨n, -, hnone, -⟩
  rw [hfind.eq_none hnone] at h
  cases h

end cons

/-- The reader reads the stream, whatever the pieces are. -/
theorem readUntil_spec {find : List α → Option ρ} (hfind : Settled find) {received : List α}
    (hnone : find received = none) (pieces : List (List α)) :
    StopsAt find limit received pieces (readUntil find limit received pieces) := by
  induction pieces generalizing received with
  | nil =>
    refine ⟨by simpa using hnone, ?_⟩
    rintro ⟨n, hn, -⟩
    exact boundary_nil n hn
  | cons piece pieces ih =>
    have hstream : received ++ (piece :: pieces).flatten = (received ++ piece) ++ pieces.flatten := by
      rw [List.flatten_cons, List.append_assoc]
    unfold readUntil
    split
    · rename_i r hr
      refine ⟨?_, hr, hstream.symm, ?_⟩
      · rw [hstream]
        exact hfind _ _ _ hr
      · rw [overruns_cons, not_or, hr]
        exact ⟨fun h => Option.some_ne_none r h.1, not_overruns_of_some hfind hr⟩
    · rename_i hmore
      split
      · rename_i hlimit
        exact overruns_cons.mpr (Or.inl ⟨hmore, hlimit⟩)
      · rename_i hlimit
        have hrest := ih hmore
        have hsame : Overruns find limit received (piece :: pieces) ↔
            Overruns find limit (received ++ piece) pieces := by
          rw [overruns_cons]
          exact or_iff_right fun h => hlimit h.2
        cases hstop : readUntil find limit (received ++ piece) pieces with
        | found r taken rest =>
          rw [hstop] at hrest
          obtain ⟨hr, htaken, hsplit, hnot⟩ := hrest
          exact ⟨hstream ▸ hr, htaken, hstream ▸ hsplit, mt hsame.mp hnot⟩
        | tooLong =>
          rw [hstop] at hrest
          exact hsame.mpr hrest
        | ended =>
          rw [hstop] at hrest
          exact ⟨hstream ▸ hrest.1, mt hsame.mp hrest.2⟩

/-- Enough is there exactly when the stream has enough, and what is there starts the stream. -/
theorem readAtLeast_spec (need : ℕ) (received : List α) (pieces : List (List α)) :
    (readAtLeast need received pieces = none ∧ (received ++ pieces.flatten).length < need) ∨
      ∃ taken rest, readAtLeast need received pieces = some taken ∧ need ≤ taken.length ∧
        received ++ pieces.flatten = taken ++ rest := by
  induction pieces generalizing received with
  | nil =>
    unfold readAtLeast
    by_cases h : received.length < need
    · exact Or.inl ⟨if_pos h, by simpa using h⟩
    · exact Or.inr ⟨received, [], if_neg h, by omega, rfl⟩
  | cons piece pieces ih =>
    unfold readAtLeast
    by_cases h : received.length < need
    · rw [if_pos h, List.flatten_cons, ← List.append_assoc]
      exact ih (received ++ piece)
    · exact Or.inr ⟨received, _, if_neg h, by omega, rfl⟩

/-! ## The ends of the pieces -/

/-- The reader finds something as soon as it has `need` elements of the stream. -/
def Needs (find : List α → Option ρ) (s : List α) (need : ℕ) : Prop :=
  ∀ n ≤ s.length, (find (s.take n) = none ↔ n < need)

theorem overruns_iff {find : List α → Option ρ} {pieces : List (List α)} {need : ℕ}
    (hneed : Needs find pieces.flatten need) :
    Overruns find limit [] pieces ↔ ∃ n, Boundary pieces n ∧ limit < n ∧ n < need := by
  unfold Overruns
  constructor
  · rintro ⟨n, hn, hnone, hlimit⟩
    exact ⟨n, hn, by simpa using hlimit, (hneed n hn.le).mp hnone⟩
  · rintro ⟨n, hn, hlimit, hlt⟩
    exact ⟨n, hn, (hneed n hn.le).mpr hlt, by simpa using hlimit⟩

/-- In a stream that never settles, the end of it is too much if any of it is. -/
theorem overruns_iff_of_none {find : List α → Option ρ} (p : Pieces size α)
    (hneed : Needs find p.stream (p.stream.length + 1)) :
    Overruns find limit [] p.pieces ↔ limit < p.stream.length := by
  rw [overruns_iff hneed]
  constructor
  · intro h
    obtain ⟨n, hn, hlimit, -⟩ := h
    exact Nat.lt_of_lt_of_le hlimit hn.le
  · intro hlimit
    have hne : p.pieces ≠ [] := by
      intro hnil
      have hlength : p.stream.length = 0 := by
        unfold Pieces.stream
        rw [hnil, List.flatten_nil, List.length_nil]
      omega
    exact ⟨_, boundary_flatten hne, hlimit, Nat.lt_succ_self _⟩

/-- A stream that settles up to the limit is read in whatever pieces it comes. -/
theorem not_overruns_of_le {find : List α → Option ρ} {need : ℕ} (p : Pieces size α)
    (hneed : Needs find p.stream need) (hle : need ≤ limit + 1) :
    ¬ Overruns find limit [] p.pieces := by
  rw [overruns_iff hneed]
  rintro ⟨n, -, hlimit, hlt⟩
  omega

/-- A stream that does not settle within a buffer behind the limit is never read. -/
theorem overruns_of_lt {find : List α → Option ρ} {need : ℕ} (p : Pieces size α)
    (hneed : Needs find p.stream need) (hlt : limit + size < need) (hlong : limit < p.stream.length) :
    Overruns find limit [] p.pieces := by
  rw [overruns_iff hneed]
  obtain ⟨n, hn, hgt, hle⟩ := exists_boundary (fun piece hpiece => (p.bounds piece hpiece).2) hlong
  exact ⟨n, hn, hgt, by omega⟩

/-- In between, it depends on the pieces. -/
theorem exists_both_of_between {find : List α → Option ρ} {s : List α} {need : ℕ}
    (hneed : Needs find s need) (hlow : limit + 1 < need) (hhigh : need ≤ limit + size)
    (hlength : need ≤ s.length) :
    (∃ p : Pieces size α, p.stream = s ∧ Overruns find limit [] p.pieces) ∧
      ∃ p : Pieces size α, p.stream = s ∧ ¬ Overruns find limit [] p.pieces := by
  have hsize : 0 < size := by omega
  constructor
  · -- A piece that ends right behind the limit.
    let p := (Pieces.even hsize (s.take (limit + 1))).append (Pieces.even hsize (s.drop (limit + 1)))
    have hstream : p.stream = s := by simp [p]
    have hfront : (Slice.chunks size (s.take (limit + 1))).flatten.length = limit + 1 := by
      rw [Slice.flatten_chunks hsize, List.length_take]
      omega
    refine ⟨p, hstream, (overruns_iff (show Needs find p.stream need from hstream ▸ hneed)).mpr
      ⟨limit + 1, boundary_append.mpr (Or.inl ?_), by omega, hlow⟩⟩
    have hne : Slice.chunks size (s.take (limit + 1)) ≠ [] := by
      intro hnil
      rw [hnil] at hfront
      exact absurd hfront (by simp)
    have hlast := boundary_flatten hne
    rwa [hfront] at hlast
  · -- One piece from the limit to where the stream settles.
    have hmiddle : ((s.drop limit).take (need - limit)).length = need - limit := by
      rw [List.length_take, List.length_drop]
      omega
    let p := (Pieces.even hsize (s.take limit)).append
      ((Pieces.single ((s.drop limit).take (need - limit))
        ⟨List.length_pos_iff.mp (by omega), by omega⟩).append (Pieces.even hsize (s.drop need)))
    have hstream : p.stream = s := by
      have hrest : s.drop need = (s.drop limit).drop (need - limit) := by
        rw [List.drop_drop]
        congr 1
        omega
      simp only [p, Pieces.stream_append, Pieces.stream_even, Pieces.stream_single]
      rw [hrest, List.take_append_drop, List.take_append_drop]
    refine ⟨p, hstream, ?_⟩
    rw [overruns_iff (show Needs find p.stream need from hstream ▸ hneed)]
    rintro ⟨n, hn, hgt, hlt⟩
    have hfront : (Slice.chunks size (s.take limit)).flatten.length = limit := by
      rw [Slice.flatten_chunks hsize, List.length_take]
      omega
    rcases boundary_append.mp hn with hn | ⟨m, hm, hnm⟩
    · have hle := hn.le
      rw [show (Pieces.even hsize (s.take limit)).pieces = Slice.chunks size (s.take limit) from rfl,
        hfront] at hle
      omega
    · rw [show (Pieces.even hsize (s.take limit)).pieces = Slice.chunks size (s.take limit) from rfl,
        hfront] at hnm
      rcases boundary_cons.mp hm with rfl | ⟨k, -, rfl⟩ <;> omega

/-! ## Looking for a pattern -/

section pattern

variable [DecidableEq α]

/-- The first occurrence of a pattern does not move. -/
theorem settled_firstAt? (pattern : List α) : Settled (Subslice.firstAt? pattern) := by
  intro s more i hi
  refine Subslice.firstAt?_of_take_eq hi (Nat.le_refl _) ?_
  rw [List.take_append_of_le_length (Subslice.firstAt?_add_length_le hi)]

/-- The first occurrence is found as soon as it is there as a whole. -/
theorem needs_firstAt? {pattern s : List α} {i : ℕ} (hi : Subslice.firstAt? pattern s = some i) :
    Needs (Subslice.firstAt? pattern) s (i + pattern.length) := by
  intro n _
  constructor
  · intro hnone
    by_contra hge
    have hsame : (s.take n).take (i + pattern.length) = s.take (i + pattern.length) := by
      rw [List.take_take, Nat.min_eq_left (by omega)]
    have htake := Subslice.firstAt?_of_take_eq hi (Nat.le_refl _) hsame.symm
    rw [hnone] at htake
    cases htake
  · intro hlt
    cases hn : Subslice.firstAt? pattern (s.take n) with
    | none => rfl
    | some j =>
      have hj := settled_firstAt? pattern (s.take n) (s.drop n) j hn
      rw [List.take_append_drop, hi] at hj
      obtain rfl := Option.some.inj hj
      have hle := Subslice.firstAt?_add_length_le hn
      rw [List.length_take] at hle
      omega

/-- A pattern that is not in the stream is not in any part that was received. -/
theorem needs_firstAt?_of_none {pattern s : List α} (hnone : Subslice.firstAt? pattern s = none) :
    Needs (Subslice.firstAt? pattern) s (s.length + 1) := by
  intro n hn
  refine iff_of_true ?_ (by omega)
  have hall : Subslice.firstAt? pattern (s.take n ++ s.drop n) = none := by
    rw [List.take_append_drop]
    exact hnone
  exact (settled_firstAt? pattern).eq_none hall

end pattern

/-! ## Lines and an empty line -/

section header

variable {cr lf : α}

private theorem not_prefix_of_head {line text : List α} (hcr : cr ∉ line) {j : ℕ}
    (hj : j < line.length) : ¬ [cr, lf, cr, lf] <+: line.drop j ++ text := by
  intro h
  rw [List.drop_eq_getElem_cons hj, List.cons_append, List.cons_prefix_cons] at h
  exact hcr (h.1 ▸ List.getElem_mem hj)

variable [DecidableEq α]

/-- A line with something on it in front of a line that has something on it, too, only shifts the
search for an empty line. -/
theorem firstAt?_line_append {line text : List α} (hne : cr ≠ lf) (hcr : cr ∉ line)
    (htext : text.head? ≠ some cr) :
    Subslice.firstAt? [cr, lf, cr, lf] (line ++ [cr, lf] ++ text) =
      (Subslice.firstAt? [cr, lf, cr, lf] text).map (· + (line.length + 2)) := by
  have hlead : ∀ j < (line ++ [cr, lf]).length,
      ¬ [cr, lf, cr, lf] <+: (line ++ [cr, lf]).drop j ++ text := by
    intro j hj h
    rw [List.length_append, List.length_cons, List.length_singleton] at hj
    rcases Nat.lt_trichotomy j line.length with hlt | rfl | hgt
    · rw [List.drop_append_of_le_length hlt.le, List.append_assoc] at h
      exact not_prefix_of_head hcr hlt h
    · rw [List.drop_left] at h
      obtain ⟨rest, hrest⟩ := h
      have htail : text = cr :: lf :: rest := by simpa using hrest.symm
      exact htext (by rw [htail]; rfl)
    · obtain rfl : j = line.length + 1 := by omega
      rw [← List.drop_drop, List.drop_left, List.drop_one, List.tail_cons, List.cons_append,
        List.cons_prefix_cons] at h
      exact hne h.1
  rw [Subslice.firstAt?_append_of_not hlead, List.length_append]
  rfl

/-- The empty line behind lines that have something on them. -/
theorem firstAt?_header (hne : cr ≠ lf) {ls : List (List α)} {last : List α}
    (hls : ∀ line ∈ ls ++ [last], line ≠ [] ∧ cr ∉ line) (rest : List α) :
    Subslice.firstAt? [cr, lf, cr, lf]
        ((ls.map (· ++ [cr, lf])).flatten ++ last ++ ([cr, lf, cr, lf] ++ rest)) =
      some ((ls.map (· ++ [cr, lf])).flatten ++ last).length := by
  have hhead : ∀ {line text : List α}, line ≠ [] ∧ cr ∉ line → (line ++ text).head? ≠ some cr := by
    intro line text hline h
    obtain ⟨x, more, rfl⟩ := List.exists_cons_of_ne_nil hline.1
    obtain rfl := Option.some.inj h
    exact hline.2 List.mem_cons_self
  induction ls with
  | nil =>
    have hlast := hls last (List.mem_append_right _ List.mem_cons_self)
    rw [List.map_nil, List.flatten_nil, List.nil_append,
      Subslice.firstAt?_append_of_not fun j hj => not_prefix_of_head hlast.2 hj,
      Subslice.firstAt?_append_self, Option.map_some, Nat.zero_add]
  | cons line ls ih =>
    have hline := hls line List.mem_cons_self
    have ih := ih fun l hl => hls l (List.mem_cons_of_mem _ hl)
    have hshape : ((line :: ls).map (· ++ [cr, lf])).flatten ++ last ++ ([cr, lf, cr, lf] ++ rest) =
        line ++ [cr, lf] ++ ((ls.map (· ++ [cr, lf])).flatten ++ last ++ ([cr, lf, cr, lf] ++ rest)) := by
      simp
    have hnext : ((ls.map (· ++ [cr, lf])).flatten ++ last ++ ([cr, lf, cr, lf] ++ rest)).head? ≠
        some cr := by
      cases ls with
      | nil =>
        rw [List.map_nil, List.flatten_nil, List.nil_append]
        exact hhead (hls last (by simp))
      | cons next ls =>
        rw [List.map_cons, List.flatten_cons, List.append_assoc, List.append_assoc, List.append_assoc]
        exact hhead (hls next (by simp))
    rw [hshape, firstAt?_line_append hne hline.2 hnext, ih, Option.map_some]
    simp only [List.map_cons, List.flatten_cons, List.length_append, List.length_cons,
      List.length_nil, Option.some.injEq]
    omega

end header

end CodeLib.Stream
