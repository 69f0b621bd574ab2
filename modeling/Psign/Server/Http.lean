import Psign.CodeLib.Decimal
import Psign.CodeLib.Run
import Psign.CodeLib.RustStr
import Psign.CodeLib.Stream
import Psign.CodeLib.Utf8
import Psign.Sip.AppxXml

/-!
# Requests to the test server

`read_http_request` of `psign-server.rs`, which all four servers call for each connection.

A `Connection` is what the reads of a socket return: pieces of at most 4096 octets, and then
the end of the stream or an error.  `requestOf` is what the octets mean without the pieces.
The server reads the request of the octets unless the header is too long, which depends on the
pieces for a header that ends in the 4095 octets behind the limit, and for no other
(`read_http_requests_agree_iff`).

An index out of range panics, and the servers handle their connections on the main thread.  A
`Content-Length` that does not fit behind the header in a `usize` ends the server
(`serve_panics_iff`).
-/

namespace Psign.Server

open CodeLib CodeLib.RustStr CodeLib.Stream CodeLib.Unicode

/-! ## The request -/

/-- `HttpRequest`. -/
structure HttpRequest where
  method : List Char
  path : List Char
  headers : List (List Char × List Char)
  body : List UInt8
  deriving DecidableEq, Repr

/-- `HttpRequest::header`. -/
def HttpRequest.header (request : HttpRequest) (name : List Char) : Option (List Char) :=
  (request.headers.find? fun header => decide (EqIgnoreAsciiCase header.1 name)).map Prod.snd

/-- The reads of a connection: what they return, and the error behind it if there is one. -/
structure Connection extends Pieces 4096 UInt8 where
  failure : Option String

/-- CR LF CR LF. -/
def blankLine : List UInt8 := [0x0d, 0x0a, 0x0d, 0x0a]

/-- `find_header_end`. -/
def findHeaderEnd (buf : List UInt8) : Option Nat :=
  Subslice.firstAt? blankLine buf

/-- `SplitWhitespace::next`: the next word and what is left. -/
def nextWord (s : List Char) : Option (List Char × List Char) :=
  let rest := s.dropWhile isWhitespace
  if rest = [] then none
  else some (rest.takeWhile fun c => !isWhitespace c, rest.dropWhile fun c => !isWhitespace c)

/-- The `content_len` of the lines behind the request line. -/
def contentLen (fields : List (List Char)) : Nat :=
  (fields.findSome? fun line => do
    let (name, value) ← splitOnce ':' line
    if EqIgnoreAsciiCase name "content-length".toList then Sip.Appx.parseU64 (trim value)
    else none).getD 0

/-- The `parsed_headers` of the lines behind the request line. -/
def parsedHeaders (fields : List (List Char)) : List (List Char × List Char) :=
  fields.filterMap fun line =>
    (splitOnce ':' line).map fun field => (trim field.1, trim field.2)

/-- What stands before the blank line. -/
structure RequestHead where
  method : List Char
  path : List Char
  contentLen : Nat
  headers : List (List Char × List Char)
  deriving DecidableEq, Repr

/-- The part of `read_http_request` between the two loops. -/
def parseHead (bytes : List UInt8) : Outcome RequestHead := do
  let headers ← Outcome.ofOption (fromUtf8 bytes) "HTTP headers are not UTF-8"
  let requestLine ← Outcome.ofOption (lines headers).head? "missing HTTP request line"
  let (method, requestParts) ← Outcome.ofOption (nextWord requestLine) "missing HTTP method"
  let (path, _) ← Outcome.ofOption (nextWord requestParts) "missing HTTP path"
  return ⟨method, path, contentLen (lines headers).tail, parsedHeaders (lines headers).tail⟩

/-- A read that returns nothing: the error of the read, or the end of the stream. -/
def endOfReads {α : Type} (failure : Option String) (reading closed : String) : Outcome α :=
  match failure with
  | some e => Outcome.bail (reading ++ ": " ++ e)
  | none => Outcome.bail closed

/-- The loop that reads the body, and the result.  The sum that does not fit in a `usize` panics
where overflow is checked; where it wraps, it is less than where the body starts, and the slice
panics. -/
def readBody (failure : Option String) (buf : List UInt8) (rest : List (List UInt8))
    (bodyStart : Nat) (head : RequestHead) : Run HttpRequest :=
  if 2 ^ 64 ≤ bodyStart + head.contentLen then .panicked
  else
    match readAtLeast (bodyStart + head.contentLen) buf rest with
    | none => .returned (endOfReads failure "read HTTP body"
        "client closed before HTTP body completed")
    | some buf =>
      .ok ⟨head.method, head.path, head.headers, (buf.drop bodyStart).take head.contentLen⟩

/-- `read_http_request`. -/
def readHttpRequest (conn : Connection) : Run HttpRequest :=
  match readUntil findHeaderEnd (64 * 1024) [] conn.pieces with
  | .ended => .returned (endOfReads conn.failure "read HTTP request"
      "client closed before HTTP headers completed")
  | .tooLong => Run.bail "HTTP headers too large"
  | .found headerEnd buf rest =>
    .returned (parseHead (buf.take headerEnd)) >>= readBody conn.failure buf rest (headerEnd + 4)

/-! ## The request of the octets -/

/-- The request with this head whose body starts here. -/
def bodyOf (failure : Option String) (bytes : List UInt8) (bodyStart : Nat) (head : RequestHead) :
    Run HttpRequest :=
  if 2 ^ 64 ≤ bodyStart + head.contentLen then .panicked
  else if bytes.length < bodyStart + head.contentLen then
    .returned (endOfReads failure "read HTTP body" "client closed before HTTP body completed")
  else .ok ⟨head.method, head.path, head.headers, (bytes.drop bodyStart).take head.contentLen⟩

/-- The request at the start of a stream. -/
def requestOf (failure : Option String) (bytes : List UInt8) : Run HttpRequest :=
  match findHeaderEnd bytes with
  | none => .returned (endOfReads failure "read HTTP request"
      "client closed before HTTP headers completed")
  | some headerEnd =>
    .returned (parseHead (bytes.take headerEnd)) >>= bodyOf failure bytes (headerEnd + 4)

theorem settled_findHeaderEnd : Settled findHeaderEnd :=
  settled_firstAt? blankLine

/-- The body is cut out of the stream, whatever has been taken of it. -/
theorem readBody_eq {failure : Option String} {buf : List UInt8} {rest : List (List UInt8)}
    {bodyStart : Nat} (head : RequestHead) :
    readBody failure buf rest bodyStart head = bodyOf failure (buf ++ rest.flatten) bodyStart head := by
  unfold readBody bodyOf
  split
  · rfl
  · rcases readAtLeast_spec (bodyStart + head.contentLen) buf rest with
      ⟨hnone, hshort⟩ | ⟨taken, more, hsome, hlong, hsplit⟩
    · rw [hnone, if_pos hshort]
    · rw [hsome, hsplit, List.length_append, if_neg (by omega)]
      dsimp only
      rw [List.drop_append_of_le_length (by omega), List.take_append_of_le_length]
      rw [List.length_drop]
      omega

/-- The server reads the request of the octets, unless it has too many of them without having seen
the blank line. -/
theorem readHttpRequest_eq (conn : Connection) :
    (Overruns findHeaderEnd (64 * 1024) [] conn.pieces ∧
        readHttpRequest conn = Run.bail "HTTP headers too large") ∨
      (¬ Overruns findHeaderEnd (64 * 1024) [] conn.pieces ∧
        readHttpRequest conn = requestOf conn.failure conn.stream) := by
  have hspec := @readUntil_spec UInt8 Nat (64 * 1024) findHeaderEnd settled_findHeaderEnd [] rfl
    conn.pieces
  unfold readHttpRequest requestOf
  cases hstop : readUntil findHeaderEnd (64 * 1024) [] conn.pieces with
  | tooLong =>
    rw [hstop] at hspec
    exact Or.inl ⟨hspec, rfl⟩
  | ended =>
    rw [hstop] at hspec
    obtain ⟨hnone, hnot⟩ := hspec
    rw [show findHeaderEnd conn.stream = none from hnone]
    exact Or.inr ⟨hnot, rfl⟩
  | found headerEnd buf rest =>
    rw [hstop] at hspec
    obtain ⟨hsome, hbuf, hsplit, hnot⟩ := hspec
    have hstream : conn.stream = buf ++ rest.flatten := hsplit.symm
    have hle := Subslice.firstAt?_add_length_le hbuf
    refine Or.inr ⟨hnot, ?_⟩
    rw [show findHeaderEnd conn.stream = some headerEnd from hsome, hstream]
    dsimp only
    rw [List.take_append_of_le_length (by omega)]
    congr 1
    funext head
    exact readBody_eq head

/-! ## Pieces that do not matter -/

/-- The text of the error of a header that is too long. -/
def tooLarge : Run HttpRequest :=
  Run.bail "HTTP headers too large"

theorem parseHead_ne_tooLarge (bytes : List UInt8) :
    parseHead bytes ≠ Outcome.bail "HTTP headers too large" := by
  unfold parseHead
  cases fromUtf8 bytes with
  | none => simp [Outcome.ofOption, Outcome.bail]
  | some headers =>
    rw [Outcome.ofOption, Outcome.ok_bind]
    cases (lines headers).head? with
    | none => simp [Outcome.ofOption, Outcome.bail]
    | some requestLine =>
      rw [Outcome.ofOption, Outcome.ok_bind]
      cases nextWord requestLine with
      | none => simp [Outcome.ofOption, Outcome.bail]
      | some word =>
        rw [Outcome.ofOption, Outcome.ok_bind]
        cases hpath : nextWord word.2 with
        | none => simp [hpath, Outcome.ofOption, Outcome.bail]
        | some path => simp [hpath, Outcome.ofOption, Outcome.bail]

theorem endOfReads_ne_tooLarge {α : Type} (failure : Option String) {reading closed : String}
    (hreading : reading.toList.head? = some 'r') (hclosed : closed.toList.head? = some 'c') :
    (endOfReads failure reading closed : Outcome α) ≠ Outcome.bail "HTTP headers too large" := by
  intro h
  unfold endOfReads at h
  cases failure with
  | none =>
    have htext := Failure.error.inj (Except.error.inj h)
    rw [htext] at hclosed
    exact absurd hclosed (by decide)
  | some e =>
    have htext := congrArg (fun text => text.toList.head?) (Failure.error.inj (Except.error.inj h))
    obtain ⟨rest, hrest⟩ := List.head?_eq_some_iff.mp hreading
    simp [String.toList_append, hrest] at htext

theorem bodyOf_ne_tooLarge (failure : Option String) (bytes : List UInt8) (bodyStart : Nat)
    (head : RequestHead) : bodyOf failure bytes bodyStart head ≠ tooLarge := by
  intro h
  unfold bodyOf tooLarge Run.bail at h
  split at h
  · cases h
  · split at h
    · exact endOfReads_ne_tooLarge failure (by decide) (by decide) (Run.returned.inj h)
    · cases h

theorem requestOf_ne_tooLarge (failure : Option String) (bytes : List UInt8) :
    requestOf failure bytes ≠ tooLarge := by
  intro h
  unfold requestOf at h
  split at h
  · exact endOfReads_ne_tooLarge failure (by decide) (by decide) (Run.returned.inj h)
  · rename_i headerEnd _
    cases hhead : parseHead (bytes.take headerEnd) with
    | ok head =>
      rw [hhead] at h
      exact bodyOf_ne_tooLarge failure bytes (headerEnd + 4) head h
    | error e =>
      have herror : (.returned (.error e) : Run HttpRequest) = tooLarge := by rw [← h, hhead]; rfl
      refine parseHead_ne_tooLarge (bytes.take headerEnd) (hhead.trans ?_)
      exact congrArg Except.error (Except.error.inj (Run.returned.inj herror))

/-- The octets of the stream that the reader needs before it has the blank line, and whether the
pieces may decide. -/
theorem overruns_iff_overruns {bytes : List UInt8} (p q : Pieces 4096 UInt8)
    (hp : p.stream = bytes) (hq : q.stream = bytes)
    (hout : ∀ headerEnd, findHeaderEnd bytes = some headerEnd →
      headerEnd + 4 ≤ 64 * 1024 + 1 ∨ 64 * 1024 + 4096 < headerEnd + 4) :
    Overruns findHeaderEnd (64 * 1024) [] p.pieces ↔ Overruns findHeaderEnd (64 * 1024) [] q.pieces := by
  cases hend : findHeaderEnd bytes with
  | none =>
    have hneed := needs_firstAt?_of_none hend
    rw [overruns_iff_of_none p (hp ▸ hneed), overruns_iff_of_none q (hq ▸ hneed), hp, hq]
  | some headerEnd =>
    have hneed := needs_firstAt? hend
    have hle := Subslice.firstAt?_add_length_le hend
    rcases hout headerEnd hend with hshort | hlong
    · exact iff_of_false (not_overruns_of_le p (hp ▸ hneed) hshort)
        (not_overruns_of_le q (hq ▸ hneed) hshort)
    · have hlength : 64 * 1024 < bytes.length := by
        rw [show blankLine.length = 4 from rfl] at hle
        omega
      exact iff_of_true (overruns_of_lt p (hp ▸ hneed) hlong (hp ▸ hlength))
        (overruns_of_lt q (hq ▸ hneed) hlong (hq ▸ hlength))

/-- All deliveries of these octets are read as the same request, or as the same error, exactly if
the blank line does not end in the 4095 octets behind the limit. -/
theorem read_http_requests_agree_iff (bytes : List UInt8) (failure : Option String) :
    (∀ c c' : Connection, c.stream = bytes → c'.stream = bytes → c.failure = failure →
        c'.failure = failure → readHttpRequest c = readHttpRequest c') ↔
      ∀ headerEnd, findHeaderEnd bytes = some headerEnd →
        headerEnd + 4 ≤ 64 * 1024 + 1 ∨ 64 * 1024 + 4096 < headerEnd + 4 := by
  constructor
  · intro hagree headerEnd hend
    by_contra hbetween
    have hle := Subslice.firstAt?_add_length_le hend
    obtain ⟨⟨p, hp, hover⟩, q, hq, hfits⟩ := @exists_both_of_between UInt8 Nat 4096 (64 * 1024)
      findHeaderEnd bytes _ (needs_firstAt? hend) (by rw [show blankLine.length = 4 from rfl]; omega)
      (by rw [show blankLine.length = 4 from rfl]; omega) hle
    have hsame := hagree ⟨p, failure⟩ ⟨q, failure⟩ hp hq rfl rfl
    rcases readHttpRequest_eq ⟨p, failure⟩ with ⟨-, hread⟩ | ⟨hnot, -⟩
    · rcases readHttpRequest_eq ⟨q, failure⟩ with ⟨hover', -⟩ | ⟨-, hread'⟩
      · exact hfits hover'
      · rw [hread, hread'] at hsame
        exact requestOf_ne_tooLarge _ _ hsame.symm
    · exact hnot hover
  · intro hout c c' hc hc' hfailure hfailure'
    have hsame := overruns_iff_overruns c.toPieces c'.toPieces hc hc' hout
    rcases readHttpRequest_eq c with ⟨hover, hread⟩ | ⟨hnot, hread⟩
    · rcases readHttpRequest_eq c' with ⟨-, hread'⟩ | ⟨hnot', -⟩
      · rw [hread, hread']
      · exact absurd (hsame.mp hover) hnot'
    · rcases readHttpRequest_eq c' with ⟨hover', -⟩ | ⟨-, hread'⟩
      · exact absurd (hsame.mpr hover') hnot
      · rw [hread, hread', hc, hc', hfailure, hfailure']

/-! ## Panics -/

/-- A header whose `Content-Length` does not fit behind it in a `usize`. -/
def Oversized (bytes : List UInt8) : Prop :=
  ∃ headerEnd head, findHeaderEnd bytes = some headerEnd ∧
    parseHead (bytes.take headerEnd) = .ok head ∧ 2 ^ 64 ≤ headerEnd + 4 + head.contentLen

theorem bodyOf_eq_panicked {failure : Option String} {bytes : List UInt8} {bodyStart : Nat}
    {head : RequestHead} :
    bodyOf failure bytes bodyStart head = .panicked ↔ 2 ^ 64 ≤ bodyStart + head.contentLen := by
  unfold bodyOf
  split
  · rename_i h
    exact iff_of_true rfl h
  · rename_i h
    refine iff_of_false ?_ h
    split <;> simp [Run.ok]

theorem requestOf_eq_panicked {failure : Option String} {bytes : List UInt8} :
    requestOf failure bytes = .panicked ↔ Oversized bytes := by
  unfold requestOf Oversized
  cases hend : findHeaderEnd bytes with
  | none => simp
  | some headerEnd =>
    dsimp only
    rw [Run.bind_eq_panicked]
    constructor
    · rintro (h | ⟨head, hhead, hbody⟩)
      · cases h
      · exact ⟨headerEnd, head, rfl, Run.returned.inj hhead, bodyOf_eq_panicked.mp hbody⟩
    · rintro ⟨_, head, hsame, hhead, hbody⟩
      obtain rfl := Option.some.inj hsame
      exact Or.inr ⟨head, congrArg Run.returned hhead, bodyOf_eq_panicked.mpr hbody⟩

/-- Reading a request panics for an oversized one, unless the header was too long before it was
read. -/
theorem readHttpRequest_eq_panicked (conn : Connection) :
    readHttpRequest conn = .panicked ↔
      ¬ Overruns findHeaderEnd (64 * 1024) [] conn.pieces ∧ Oversized conn.stream := by
  rcases readHttpRequest_eq conn with ⟨hover, hread⟩ | ⟨hnot, hread⟩
  · rw [hread]
    exact iff_of_false (by simp [Run.bail]) fun h => h.1 hover
  · rw [hread, requestOf_eq_panicked]
    exact (and_iff_right hnot).symm

/-! ## Requests as clients write them -/

/-- A word of the request line. -/
def IsWord (s : List Char) : Prop :=
  s ≠ [] ∧ ∀ c ∈ s, isWhitespace c = false

/-- A header field that is read as it was written: nothing to trim, and no colon in the name. -/
def IsField (field : List Char × List Char) : Prop :=
  ':' ∉ field.1 ∧ trim field.1 = field.1 ∧ trim field.2 = field.2 ∧
    ∀ c ∈ field.1 ++ field.2, c ≠ '\r' ∧ c ≠ '\n'

/-- The field is the one with the length of the body. -/
def IsLength (field : List Char × List Char) : Prop :=
  EqIgnoreAsciiCase field.1 "content-length".toList

instance (field : List Char × List Char) : Decidable (IsLength field) :=
  inferInstanceAs (Decidable (EqIgnoreAsciiCase _ _))

/-- The header fields say how long the body is; an empty one may be left out. -/
def Sized (fields : List (List Char × List Char)) (length : Nat) : Prop :=
  (∃ front name back, fields = front ++ (name, Nat.toDigits 10 length) :: back ∧
      IsLength (name, Nat.toDigits 10 length) ∧ ∀ field ∈ front, ¬ IsLength field) ∨
    (length = 0 ∧ ∀ field ∈ fields, ¬ IsLength field)

/-- A request that a client writes. -/
structure WrittenRequest where
  method : List Char
  path : List Char
  version : List Char
  fields : List (List Char × List Char)
  body : List UInt8
  method_word : IsWord method
  path_word : IsWord path
  version_word : IsWord version
  isField : ∀ field ∈ fields, IsField field
  sized : Sized fields body.length

namespace WrittenRequest

/-- The first line. -/
def requestLine (w : WrittenRequest) : List Char :=
  w.method ++ ' ' :: (w.path ++ ' ' :: w.version)

/-- The line of a header field. -/
def fieldLine (field : List Char × List Char) : List Char :=
  field.1 ++ ':' :: ' ' :: field.2

/-- The lines of the header. -/
def headLines (w : WrittenRequest) : List (List Char) :=
  w.requestLine :: w.fields.map fieldLine

/-- The header with the blank line. -/
def head (w : WrittenRequest) : List UInt8 :=
  utf8Encode ((w.headLines.map (· ++ ['\r', '\n'])).flatten ++ ['\r', '\n'])

/-- What the client sends. -/
def bytes (w : WrittenRequest) : List UInt8 :=
  w.head ++ w.body

/-- What the server should have of it. -/
def request (w : WrittenRequest) : HttpRequest :=
  ⟨w.method, w.path, w.fields, w.body⟩

end WrittenRequest

section written

variable {w : WrittenRequest}

theorem trim_space_cons (s : List Char) : trim (' ' :: s) = trim s := by
  unfold trim
  rw [List.dropWhile_cons_of_pos (by decide)]

theorem IsWord.nextWord_append {word rest : List Char} (h : IsWord word)
    (hrest : rest = [] ∨ rest.head? = some ' ') : nextWord (word ++ rest) = some (word, rest) := by
  obtain ⟨c, more, rfl⟩ := List.exists_cons_of_ne_nil h.1
  have hhead : isWhitespace c = false := h.2 c List.mem_cons_self
  have hstart : (c :: more ++ rest).dropWhile isWhitespace = c :: more ++ rest := by
    rw [List.cons_append, List.dropWhile_cons_of_neg (by simp [hhead])]
  have hblack : ∀ d ∈ c :: more, (!isWhitespace d) = true := by
    intro d hd
    rw [h.2 d hd]
    rfl
  have hstop : rest.takeWhile (fun d => !isWhitespace d) = [] ∧
      rest.dropWhile (fun d => !isWhitespace d) = rest := by
    rcases hrest with rfl | hspace
    · exact ⟨rfl, rfl⟩
    · obtain ⟨tail, rfl⟩ := List.head?_eq_some_iff.mp hspace
      exact ⟨rfl, rfl⟩
  unfold nextWord
  rw [hstart]
  dsimp only
  rw [if_neg (by simp), List.takeWhile_append_of_pos hblack, List.dropWhile_append_of_pos hblack,
    hstop.1, hstop.2, List.append_nil]

theorem nextWord_space_cons (s : List Char) : nextWord (' ' :: s) = nextWord s := by
  unfold nextWord
  rw [List.dropWhile_cons_of_pos (by decide)]

theorem splitOnce_fieldLine {field : List Char × List Char} (h : IsField field) :
    splitOnce ':' (WrittenRequest.fieldLine field) = some (field.1, ' ' :: field.2) :=
  splitOnce_eq_some.mpr ⟨rfl, h.1⟩

theorem parseU64_toDigits {n : Nat} (h : n < 2 ^ 64) :
    Sip.Appx.parseU64 (Nat.toDigits 10 n) = some n := by
  have hread := Decimal.ofDigits_toDigits n
  have hdigits : ∀ c ∈ Nat.toDigits 10 n, c.isDigit = true := fun c hc =>
    Nat.isDigit_of_mem_toDigits (by decide) (by decide) hc
  have hne : Nat.toDigits 10 n ≠ [] := Nat.toDigits_ne_nil
  unfold Decimal.ofDigits at hread
  revert hread hdigits hne
  generalize Nat.toDigits 10 n = ds
  intro hread hdigits hne
  unfold Sip.Appx.parseU64
  split
  · exact absurd (hdigits '+' List.mem_cons_self) (by decide)
  · dsimp only
    rw [hread, if_pos ⟨hne, List.all_eq_true.mpr hdigits, h⟩]

/-- A line of the header has something on it, and no end of line. -/
theorem of_mem_headLines (w : WrittenRequest) {line : List Char} (h : line ∈ w.headLines) :
    line ≠ [] ∧ '\r' ∉ line ∧ '\n' ∉ line := by
  have hword : ∀ {word : List Char}, IsWord word → '\r' ∉ word ∧ '\n' ∉ word := by
    intro word hword
    constructor
    · intro hmem
      exact absurd (hword.2 _ hmem) (by decide)
    · intro hmem
      exact absurd (hword.2 _ hmem) (by decide)
  have hfield : ∀ {field : List Char × List Char}, IsField field →
      WrittenRequest.fieldLine field ≠ [] ∧ '\r' ∉ WrittenRequest.fieldLine field ∧
        '\n' ∉ WrittenRequest.fieldLine field := by
    intro field hfield
    have hmarks : ∀ c : Char, c ≠ ':' → c ≠ ' ' → c ∉ field.1 ++ field.2 →
        c ∉ WrittenRequest.fieldLine field := by
      intro c hcolon hspace hnot hmem
      unfold WrittenRequest.fieldLine at hmem
      simp only [List.mem_append, List.mem_cons] at hmem hnot
      tauto
    refine ⟨by unfold WrittenRequest.fieldLine; simp, ?_, ?_⟩
    · exact hmarks _ (by decide) (by decide) fun hmem => (hfield.2.2.2 _ hmem).1 rfl
    · exact hmarks _ (by decide) (by decide) fun hmem => (hfield.2.2.2 _ hmem).2 rfl
  unfold WrittenRequest.headLines at h
  rcases List.mem_cons.mp h with rfl | h
  · have hm := hword w.method_word
    have hp := hword w.path_word
    have hv := hword w.version_word
    have hne := w.method_word.1
    unfold WrittenRequest.requestLine
    simp [hm, hp, hv]
  · obtain ⟨field, hmem, rfl⟩ := List.mem_map.mp h
    exact hfield (w.isField field hmem)

theorem findSome?_length {front : List (List Char × List Char)}
    (hfield : ∀ field ∈ front, IsField field) (hfront : ∀ field ∈ front, ¬ IsLength field) :
    ((front.map WrittenRequest.fieldLine).findSome? fun line => do
      let (name, value) ← splitOnce ':' line
      if EqIgnoreAsciiCase name "content-length".toList then Sip.Appx.parseU64 (trim value)
      else none) = none := by
  rw [List.findSome?_eq_none_iff]
  intro line hline
  obtain ⟨field, hmem, rfl⟩ := List.mem_map.mp hline
  rw [splitOnce_fieldLine (hfield field hmem)]
  exact if_neg (hfront field hmem)

/-- The length is read as it was written. -/
theorem contentLen_fieldLine {fields : List (List Char × List Char)} {length : Nat}
    (hfield : ∀ field ∈ fields, IsField field) (hsized : Sized fields length)
    (h : length < 2 ^ 64) : contentLen (fields.map WrittenRequest.fieldLine) = length := by
  unfold contentLen
  rcases hsized with ⟨front, name, back, rfl, hname, hfront⟩ | ⟨rfl, hnone⟩
  · have hlength := hfield (name, Nat.toDigits 10 length)
      (List.mem_append_right _ List.mem_cons_self)
    rw [List.map_append, List.findSome?_append,
      findSome?_length (fun f hf => hfield f (List.mem_append_left _ hf)) hfront, Option.none_or,
      List.map_cons, List.findSome?_cons, splitOnce_fieldLine hlength]
    have hvalue : (do
        let (name, value) ← some (name, ' ' :: Nat.toDigits 10 length)
        if EqIgnoreAsciiCase name "content-length".toList then Sip.Appx.parseU64 (trim value)
        else none) = some length := by
      show (if EqIgnoreAsciiCase name "content-length".toList then
        Sip.Appx.parseU64 (trim (' ' :: Nat.toDigits 10 length)) else none) = some length
      rw [if_pos (show EqIgnoreAsciiCase name "content-length".toList from hname), trim_space_cons,
        hlength.2.2.1, parseU64_toDigits h]
    rw [hvalue]
    rfl
  · rw [findSome?_length hfield hnone]
    rfl

theorem parsedHeaders_fieldLine {fields : List (List Char × List Char)}
    (h : ∀ field ∈ fields, IsField field) :
    parsedHeaders (fields.map WrittenRequest.fieldLine) = fields := by
  unfold parsedHeaders
  induction fields with
  | nil => rfl
  | cons field fields ih =>
    have hfield := h field List.mem_cons_self
    rw [List.map_cons, List.filterMap_cons, splitOnce_fieldLine hfield, Option.map_some]
    dsimp only
    rw [ih fun f hf => h f (List.mem_cons_of_mem _ hf), trim_space_cons, hfield.2.1, hfield.2.2.1]

/-- The header is read as it was written. -/
theorem parseHead_written (w : WrittenRequest) (h : w.body.length < 2 ^ 64)
    {front : List (List Char)} {last : List Char} (hlines : w.headLines = front ++ [last]) :
    parseHead (utf8Encode ((front.map (· ++ ['\r', '\n'])).flatten ++ last)) =
      .ok ⟨w.method, w.path, w.body.length, w.fields⟩ := by
  have hbounds : ∀ line ∈ front ++ [last], line ≠ [] ∧ '\r' ∉ line ∧ '\n' ∉ line := by
    rw [← hlines]
    intro line hline
    exact of_mem_headLines w hline
  have hread : lines ((front.map (· ++ ['\r', '\n'])).flatten ++ last) = w.headLines := by
    have hlast := hbounds last (List.mem_append_right _ List.mem_cons_self)
    rw [hlines]
    refine lines_crlf ?_ hlast.2.2 hlast.1
    intro line hline
    exact (hbounds line (List.mem_append_left _ hline)).2.2
  have hmethod : nextWord w.requestLine = some (w.method, ' ' :: (w.path ++ ' ' :: w.version)) :=
    w.method_word.nextWord_append (Or.inr rfl)
  have hpath : nextWord (' ' :: (w.path ++ ' ' :: w.version)) = some (w.path, ' ' :: w.version) := by
    rw [nextWord_space_cons]
    exact w.path_word.nextWord_append (Or.inr rfl)
  unfold parseHead
  rw [fromUtf8_utf8Encode, Outcome.ofOption, Outcome.ok_bind, hread]
  unfold WrittenRequest.headLines
  rw [List.head?_cons, List.tail_cons, parsedHeaders_fieldLine w.isField,
    contentLen_fieldLine w.isField w.sized h, Outcome.ofOption, Outcome.ok_bind, hmethod,
    Outcome.ofOption, Outcome.ok_bind]
  dsimp only
  rw [hpath]
  rfl

/-- The octets of lines. -/
theorem utf8Encode_lines (ls : List (List Char)) :
    utf8Encode (ls.map (· ++ ['\r', '\n'])).flatten =
      ((ls.map utf8Encode).map (· ++ [0x0d, 0x0a])).flatten := by
  induction ls with
  | nil => rfl
  | cons line ls ih =>
    simp only [List.map_cons, List.flatten_cons]
    rw [utf8Encode_append, utf8Encode_append, ih]
    rfl

theorem utf8Encode_line_bounds {line : List Char} (hne : line ≠ []) (hcr : '\r' ∉ line) :
    utf8Encode line ≠ [] ∧ (0x0d : UInt8) ∉ utf8Encode line := by
  constructor
  · intro hnil
    have hread := utf8Lossy_utf8Encode line
    rw [hnil] at hread
    exact hne hread.symm
  · intro hmem
    exact hcr (mem_of_asciiByte_mem_utf8Encode (show IsAscii '\r' by decide) hmem)

theorem exists_last_headLine (w : WrittenRequest) :
    ∃ front last, w.headLines = front ++ [last] := by
  rcases List.eq_nil_or_concat' w.headLines with hnil | hlast
  · exact absurd hnil (List.cons_ne_nil _ _)
  · exact hlast

theorem head_eq (w : WrittenRequest) {front : List (List Char)} {last : List Char}
    (hlines : w.headLines = front ++ [last]) :
    w.head = utf8Encode ((front.map (· ++ ['\r', '\n'])).flatten ++ last) ++ blankLine := by
  have htext : (w.headLines.map (· ++ ['\r', '\n'])).flatten ++ ['\r', '\n'] =
      ((front.map (· ++ ['\r', '\n'])).flatten ++ last) ++ ['\r', '\n', '\r', '\n'] := by
    rw [hlines]
    simp
  unfold WrittenRequest.head
  rw [htext, utf8Encode_append]
  rfl

/-- The server finds the end of the header where the client ended it. -/
theorem findHeaderEnd_written (w : WrittenRequest) (rest : List UInt8) {front : List (List Char)}
    {last : List Char} (hlines : w.headLines = front ++ [last]) :
    findHeaderEnd (w.head ++ rest) =
      some (utf8Encode ((front.map (· ++ ['\r', '\n'])).flatten ++ last)).length := by
  have hls : ∀ line ∈ front.map utf8Encode ++ [utf8Encode last],
      line ≠ [] ∧ (0x0d : UInt8) ∉ line := by
    intro line hline
    have hmem : line ∈ w.headLines.map utf8Encode := by
      rw [hlines, List.map_append]
      exact hline
    obtain ⟨text, htext, rfl⟩ := List.mem_map.mp hmem
    have hbounds := of_mem_headLines w htext
    exact utf8Encode_line_bounds hbounds.1 hbounds.2.1
  have hfound := firstAt?_header (show (0x0d : UInt8) ≠ 0x0a by decide) hls rest
  rw [head_eq w hlines, utf8Encode_append, utf8Encode_lines, List.append_assoc]
  exact hfound

/-- The octets that a client writes are its request, whatever comes behind them. -/
theorem requestOf_written (w : WrittenRequest) (failure : Option String) (more : List UInt8)
    (hsize : w.head.length + w.body.length < 2 ^ 64) :
    findHeaderEnd (w.bytes ++ more) = some (w.head.length - 4) ∧
      requestOf failure (w.bytes ++ more) = .ok w.request := by
  obtain ⟨front, last, hlines⟩ := exists_last_headLine w
  have hhead := head_eq w hlines
  have hlength : w.head.length =
      (utf8Encode ((front.map (· ++ ['\r', '\n'])).flatten ++ last)).length + 4 := by
    rw [hhead, List.length_append]
    rfl
  have hend := findHeaderEnd_written w (w.body ++ more) hlines
  have hread : parseHead ((w.head ++ (w.body ++ more)).take (w.head.length - 4)) =
      .ok ⟨w.method, w.path, w.body.length, w.fields⟩ := by
    rw [← parseHead_written w (by omega) hlines, List.take_append_of_le_length (Nat.sub_le ..), hhead,
      List.take_left']
    rw [List.length_append]
    rfl
  rw [show (utf8Encode ((front.map (· ++ ['\r', '\n'])).flatten ++ last)).length =
    w.head.length - 4 by omega] at hend
  unfold WrittenRequest.bytes
  rw [List.append_assoc]
  refine ⟨hend, ?_⟩
  unfold requestOf
  rw [hend]
  dsimp only
  rw [hread, show w.head.length - 4 + 4 = w.head.length by omega]
  show bodyOf failure (w.head ++ (w.body ++ more)) w.head.length
    ⟨w.method, w.path, w.body.length, w.fields⟩ = _
  unfold bodyOf
  rw [if_neg (by dsimp only; omega), if_neg (by
    rw [List.length_append, List.length_append]
    dsimp only
    omega)]
  dsimp only
  rw [List.drop_left, List.take_left]
  rfl

theorem four_le_length_head (w : WrittenRequest) : 4 ≤ w.head.length := by
  obtain ⟨front, last, hlines⟩ := exists_last_headLine w
  rw [head_eq w hlines, List.length_append]
  exact Nat.le_add_left ..

/-- A header that is not too long is read before it is too long. -/
theorem not_overruns_written (w : WrittenRequest) (p : Pieces 4096 UInt8) (more : List UInt8)
    (hstream : p.stream = w.bytes ++ more) (hhead : w.head.length ≤ 64 * 1024 + 1)
    (hsize : w.head.length + w.body.length < 2 ^ 64) :
    ¬ Overruns findHeaderEnd (64 * 1024) [] p.pieces := by
  have hneed := needs_firstAt? (requestOf_written w none more hsize).1
  have hfour := four_le_length_head w
  rw [← hstream] at hneed
  refine not_overruns_of_le p hneed ?_
  show _ + 4 ≤ _
  omega

/-- A request that a client writes is read back from any connection that delivers it, whatever
comes behind it, if its header is not too long. -/
theorem readHttpRequest_written (w : WrittenRequest) (conn : Connection) (more : List UInt8)
    (hstream : conn.stream = w.bytes ++ more) (hhead : w.head.length ≤ 64 * 1024 + 1)
    (hsize : w.head.length + w.body.length < 2 ^ 64) :
    readHttpRequest conn = .ok w.request := by
  rcases readHttpRequest_eq conn with ⟨hover, -⟩ | ⟨-, hread⟩
  · exact absurd hover (not_overruns_written w conn.toPieces more hstream hhead hsize)
  · rw [hread, hstream]
    exact (requestOf_written w conn.failure more hsize).2

theorem isWord_post : IsWord "POST".toList ∧ IsWord "/".toList ∧ IsWord "HTTP/1.1".toList :=
  ⟨⟨by decide, by decide⟩, ⟨by decide, by decide⟩, ⟨by decide, by decide⟩⟩

theorem isField_length_two (field : List Char × List Char)
    (h : field ∈ [("content-length".toList, ['2'])]) : IsField field := by
  obtain rfl := List.mem_singleton.mp h
  exact ⟨by decide, by decide, by decide, by decide⟩

theorem sized_two : Sized [("content-length".toList, ['2'])] 2 :=
  Or.inl ⟨[], "content-length".toList, [], rfl, by decide, by simp⟩

/-- A request with two octets. -/
def twoOctets : WrittenRequest where
  method := "POST".toList
  path := "/".toList
  version := "HTTP/1.1".toList
  fields := [("content-length".toList, ['2'])]
  body := [1, 2]
  method_word := isWord_post.1
  path_word := isWord_post.2.1
  version_word := isWord_post.2.2
  isField := isField_length_two
  sized := sized_two

/-- Two octets are read from a connection that delivers three. -/
theorem readHttpRequest_twoOctets : ∃ conn : Connection,
    conn.stream = twoOctets.bytes ++ [3] ∧ readHttpRequest conn = .ok twoOctets.request := by
  have hstream := Pieces.stream_even (show 0 < 4096 by decide) (twoOctets.bytes ++ [3])
  exact ⟨⟨Pieces.even (by decide) (twoOctets.bytes ++ [3]), none⟩, hstream,
    readHttpRequest_written twoOctets _ [3] hstream (by decide) (by decide)⟩

end written

/-! ## Serving -/

/-- `HttpResponse`, what `write_http_response_with_headers` writes. -/
structure HttpResponse where
  status : Nat
  reason : String
  contentType : String
  headers : List (String × List Char) := []
  body : List UInt8
  deriving DecidableEq, Repr

/-- What one of the servers does with a request: its state, and the response or why there is
none. -/
abbrev Service (σ : Type) := σ → HttpRequest → σ × Outcome HttpResponse

variable {σ : Type}

/-- `handle_client` and its siblings: read the request, and answer it. -/
def handleClient (service : Service σ) (st : σ) (conn : Connection) :
    Run (σ × Outcome HttpResponse) :=
  match readHttpRequest conn with
  | .panicked => .panicked
  | .returned (.error failure) => .ok (st, .error failure)
  | .returned (.ok request) => .ok (service st request)

/-- The loop over the connections in `run_timestamp_server` and its siblings.  An error of one
connection is printed; zero requests stand for no limit. -/
def serve (service : Service σ) (maxRequests : Nat) : Nat → σ → List Connection →
    Run (σ × List (Outcome HttpResponse))
  | _, st, [] => .ok (st, [])
  | served, st, conn :: conns => do
    let (st, answer) ← handleClient service st conn
    if maxRequests ≠ 0 ∧ maxRequests ≤ served + 1 then .ok (st, [answer])
    else do
      let (st, answers) ← serve service maxRequests (served + 1) st conns
      .ok (st, answer :: answers)

/-- The connections that are served behind the first `served`. -/
def servedOf (maxRequests served : Nat) (conns : List Connection) : List Connection :=
  if maxRequests = 0 then conns else conns.take (max 1 (maxRequests - served))

theorem handleClient_eq_panicked {service : Service σ} {st : σ} {conn : Connection} :
    handleClient service st conn = .panicked ↔ readHttpRequest conn = .panicked := by
  unfold handleClient
  split
  · rename_i h
    simp [h]
  · rename_i h
    simp [h, Run.ok]
  · rename_i h
    simp [h, Run.ok]

theorem panicked_or_ok_handleClient (service : Service σ) (st : σ) (conn : Connection) :
    handleClient service st conn = .panicked ∨ ∃ answer, handleClient service st conn = .ok answer := by
  unfold handleClient
  split
  · exact Or.inl rfl
  · exact Or.inr ⟨_, rfl⟩
  · exact Or.inr ⟨_, rfl⟩

theorem servedOf_cons {maxRequests served : Nat} {conn : Connection} {conns : List Connection} :
    servedOf maxRequests served (conn :: conns) =
      conn :: if maxRequests ≠ 0 ∧ maxRequests ≤ served + 1 then []
        else servedOf maxRequests (served + 1) conns := by
  unfold servedOf
  by_cases hzero : maxRequests = 0
  · simp [hzero]
  · rw [if_neg hzero, if_neg hzero]
    by_cases hlast : maxRequests ≤ served + 1
    · rw [if_pos ⟨hzero, hlast⟩, show max 1 (maxRequests - served) = 1 by omega]
      rfl
    · rw [if_neg fun h => hlast h.2, show max 1 (maxRequests - served) =
        max 1 (maxRequests - (served + 1)) + 1 by omega, List.take_succ_cons]

/-- A server goes down exactly for a connection among those it serves whose request is oversized,
whatever it does with requests. -/
theorem serve_panics_iff (service : Service σ) (maxRequests served : Nat) (st : σ)
    (conns : List Connection) :
    serve service maxRequests served st conns = .panicked ↔
      ∃ conn ∈ servedOf maxRequests served conns,
        ¬ Overruns findHeaderEnd (64 * 1024) [] conn.pieces ∧ Oversized conn.stream := by
  induction conns generalizing served st with
  | nil =>
    refine iff_of_false (by simp [serve, Run.ok]) ?_
    rintro ⟨conn, hconn, -⟩
    unfold servedOf at hconn
    split at hconn
    · exact absurd hconn List.not_mem_nil
    · exact absurd hconn (by simp)
  | cons conn conns ih =>
    rw [servedOf_cons, List.exists_mem_cons_iff, ← readHttpRequest_eq_panicked]
    rcases panicked_or_ok_handleClient service st conn with hpanicked | ⟨⟨st', answer⟩, hanswer⟩
    · rw [serve, hpanicked]
      exact iff_of_true rfl (Or.inl (handleClient_eq_panicked.mp hpanicked))
    · have hread : readHttpRequest conn ≠ .panicked := by
        intro h
        rw [handleClient_eq_panicked.mpr h] at hanswer
        cases hanswer
      rw [serve, hanswer, Run.ok_bind, or_iff_right hread]
      dsimp only
      by_cases hlast : maxRequests ≠ 0 ∧ maxRequests ≤ served + 1
      · rw [if_pos hlast, if_pos hlast]
        refine iff_of_false ?_ ?_
        · intro h
          cases h
        · rintro ⟨_, hmem, -⟩
          exact absurd hmem List.not_mem_nil
      · rw [if_neg hlast, if_neg hlast, ← ih (served + 1) st', Run.bind_eq_panicked]
        constructor
        · rintro (h | ⟨_, -, h⟩)
          · exact h
          · cases h
        · exact Or.inl

end Psign.Server
