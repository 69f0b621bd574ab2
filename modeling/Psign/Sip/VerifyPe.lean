import Psign.Sip.PeEmbed
import Psign.Sip.Pkcs7Wire
import Psign.Sip.PsScript

/-!
# The rows of the certificate table, and the check of their digests

`verify_pe.rs`.  The rows are enumerated by the iterator of the `authenticode`
crate, which is assumed to walk through the table by `dwLength` rounded up to a
multiple of eight (`attributeCertificates`).  A table is walked through without
an error when it is a sequence of rows, each with its padding
(`attributeCertificates_eq_map_ok`).

Every PKCS#7 row has to hold the digest of the image
(`verifyPeAuthenticodeDigestConsistency_eq_ok`).
-/

namespace Psign.Sip

open CodeLib CodeLib.Bytes

/-! ## The rows -/

/-- `WIN_CERT_TYPE_PKCS_SIGNED_DATA`. -/
def winCertTypePkcsSignedData : Nat := 0x0002

/-- `AttributeCertificate`. -/
structure AttributeCertificate where
  revision : Nat
  certificateType : Nat
  data : List UInt8
  deriving DecidableEq

/-- `AttributeCertificateError`. -/
inductive AttributeCertificateError where
  | outOfBounds
  | invalidCertificateSize (size : Nat)
  deriving DecidableEq

/-- An item of the iterator. -/
abbrev CertificateEntry := Except AttributeCertificateError AttributeCertificate

/-- `next_multiple_of(8)`. -/
def roundUp8 (n : Nat) : Nat :=
  (n + 7) / 8 * 8

/-- The row at the start of a table. -/
def rowOf (table : List UInt8) : AttributeCertificate :=
  ⟨u16At table 4, u16At table 6, (table.take (u32At table 0)).drop 8⟩

/-- The items of the iterator, with a bound on their number. -/
def attributeCertificatesFrom : Nat → List UInt8 → List CertificateEntry
  | 0, _ => []
  | fuel + 1, table =>
      if table = [] then []
      else if table.length < 8 then [.error (.invalidCertificateSize table.length)]
      else
        let size := u32At table 0
        if size < 8 ∨ table.length < roundUp8 size then [.error (.invalidCertificateSize size)]
        else .ok (rowOf table) :: attributeCertificatesFrom fuel (table.drop (roundUp8 size))

/-- The items of `AttributeCertificateIterator`; each takes a byte at least. -/
def attributeCertificates (table : List UInt8) : List CertificateEntry :=
  attributeCertificatesFrom table.length table

/-- What `verify_pe.rs` uses of the `object` and `authenticode` crates. -/
structure PeCrates where
  parser : PeParser
  /-- `AuthenticodeSignature::from_bytes` and `digest`. -/
  signature : AuthenticodeParser
  /-- The text of an error of the iterator. -/
  display : AttributeCertificateError → String

/-- `AttributeCertificateIterator::new`. -/
def attributeCertificateIterator (image : List UInt8) (pe : ParsedPe) :
    Except AttributeCertificateError (Option (List CertificateEntry)) :=
  match pe.certificateTableRange with
  | none => .error .outOfBounds
  | some none => .ok none
  | some (some r) =>
      match slice image r.1 r.2 with
      | none => .error .outOfBounds
      | some table => .ok (some (attributeCertificates table))

/-! ## The check -/

/-- `PeDigestConsistencyResult`. -/
structure PeDigestConsistencyResult where
  recomputedDigestHex : String
  matchedAttributeCertificateIndex : Nat
  pkcs7AuthenticodeEntries : Nat
  deriving DecidableEq

/-- `PeDigestConsistencyStatus`. -/
inductive PeDigestConsistencyStatus where
  | noCertificateTable
  | noPkcs7Entries
  | signed (result : PeDigestConsistencyResult)
  deriving DecidableEq

/-- `pe_validate_attribute_certificate_table_alignment`. -/
def peValidateAttributeCertificateTableAlignment (image : List UInt8) : Outcome Unit := do
  let (certFilePtr, certSize) ← readSecurityDataDirectory image
  validateAttributeCertificateTableAlignment certFilePtr certSize

variable (crates : PeCrates) (hashes : Hashes)

/-- An item with the text of its error. -/
def PeCrates.entry (entry : CertificateEntry) : Outcome AttributeCertificate :=
  match entry with
  | .ok attr => .ok attr
  | .error e => Outcome.bail ("attribute certificate entry invalid: " ++ crates.display e)

/-- The iterator with the text of its error. -/
def PeCrates.rows (image : List UInt8) (pe : ParsedPe) : Outcome (Option (List CertificateEntry)) :=
  match attributeCertificateIterator image pe with
  | .ok rows => .ok rows
  | .error e => Outcome.bail ("certificate table invalid: " ++ crates.display e)

/-- The loop of `verify_pe_authenticode_digest_consistency_status` over the rows. -/
def checkEntries (image : List UInt8) :
    Nat → List CertificateEntry → PeDigestConsistencyResult → Outcome PeDigestConsistencyResult
  | _, [], last => .ok last
  | idx, entry :: rest, last => do
      let attr ← crates.entry entry
      if attr.certificateType ≠ winCertTypePkcsSignedData then checkEntries image (idx + 1) rest last
      else
        let embedded ← (crates.signature.digest (normalizePkcs7DerForAuthenticode attr.data)).mapErr
          fun e => "PKCS#7 Authenticode parse failed: " ++ e
        let kind ← PeAuthenticodeHashKind.fromDigestByteLen embedded.length
        let computed ← peAuthenticodeDigest crates.parser hashes image kind
        Outcome.guardThat (computed = embedded)
          ("Rust SIP digest mismatch for PKCS#7 entry " ++ toString idx ++ ": recomputed " ++
            hexLower computed ++ " vs embedded " ++ hexLower embedded)
        checkEntries image (idx + 1) rest
          ⟨hexLower computed, idx, last.pkcs7AuthenticodeEntries + 1⟩

/-- `verify_pe_authenticode_digest_consistency_status`. -/
def verifyPeAuthenticodeDigestConsistencyStatus (image : List UInt8) :
    Outcome PeDigestConsistencyStatus := do
  peValidateAttributeCertificateTableAlignment image
  let pe ← crates.parser.parse image
  match ← crates.rows image pe with
  | none => return .noCertificateTable
  | some rows =>
      let result ← checkEntries crates hashes image 0 rows ⟨"", 0, 0⟩
      if result.pkcs7AuthenticodeEntries = 0 then return .noPkcs7Entries
      else return .signed result

/-- `verify_pe_authenticode_digest_consistency`. -/
def verifyPeAuthenticodeDigestConsistency (image : List UInt8) : Outcome PeDigestConsistencyResult := do
  match ← verifyPeAuthenticodeDigestConsistencyStatus crates hashes image with
  | .signed result => return result
  | .noCertificateTable => Outcome.bail "PE has no certificate table"
  | .noPkcs7Entries =>
      Outcome.bail "no PKCS#7 Authenticode entries found in certificate table"

/-! ## Tables that are walked through -/

section rows

variable {table rest chunk : List UInt8}

theorem roundUp8_spec (n : Nat) : n ≤ roundUp8 n ∧ roundUp8 n < n + 8 ∧ roundUp8 n % 8 = 0 := by
  unfold roundUp8
  omega

theorem roundUp8_of_mod {n : Nat} (h : n % 8 = 0) : roundUp8 n = n := by
  unfold roundUp8
  omega

/-- A row with its padding. -/
structure IsRow (chunk : List UInt8) : Prop where
  size_ge : 8 ≤ u32At chunk 0
  length_eq : chunk.length = roundUp8 (u32At chunk 0)

theorem IsRow.length_ge (h : IsRow chunk) : 8 ≤ chunk.length := by
  have hsize := h.size_ge
  have hround := roundUp8_spec (u32At chunk 0)
  rw [h.length_eq]
  omega

theorem IsRow.length_mod (h : IsRow chunk) : chunk.length % 8 = 0 := by
  rw [h.length_eq]
  exact (roundUp8_spec _).2.2

theorem IsRow.size_le (h : IsRow chunk) : u32At chunk 0 ≤ chunk.length := by
  rw [h.length_eq]
  exact (roundUp8_spec _).1

theorem rowOf_append (h : IsRow chunk) (rest : List UInt8) : rowOf (chunk ++ rest) = rowOf chunk := by
  have hlen := h.length_ge
  rw [rowOf, rowOf, u16At_append_left rest (by omega), u16At_append_left rest (by omega),
    u32At_append_left rest (by omega), List.take_append_of_le_length h.size_le]

/-- More fuel than bytes changes nothing. -/
private theorem attributeCertificatesFrom_fuel {fuel fuel' : Nat} {table : List UInt8}
    (hfuel : table.length ≤ fuel) (hfuel' : table.length ≤ fuel') :
    attributeCertificatesFrom fuel table = attributeCertificatesFrom fuel' table := by
  induction fuel generalizing fuel' table with
  | zero =>
    obtain rfl := List.length_eq_zero_iff.mp (Nat.le_zero.mp hfuel)
    cases fuel' with
    | zero => rfl
    | succ fuel' => rfl
  | succ fuel ih =>
    cases fuel' with
    | zero =>
      obtain rfl := List.length_eq_zero_iff.mp (Nat.le_zero.mp hfuel')
      rfl
    | succ fuel' =>
      simp only [attributeCertificatesFrom]
      by_cases hbad : u32At table 0 < 8 ∨ table.length < roundUp8 (u32At table 0)
      · rw [if_pos hbad, if_pos hbad]
      · have hround := roundUp8_spec (u32At table 0)
        have hrest : (table.drop (roundUp8 (u32At table 0))).length ≤ fuel ∧
            (table.drop (roundUp8 (u32At table 0))).length ≤ fuel' := by
          rw [List.length_drop]
          omega
        rw [if_neg hbad, if_neg hbad, ih hrest.1 hrest.2]

@[simp] theorem attributeCertificates_nil : attributeCertificates [] = [] := rfl

/-- A row in front of a table is its first item. -/
theorem attributeCertificates_append (h : IsRow chunk) (rest : List UInt8) :
    attributeCertificates (chunk ++ rest) = .ok (rowOf chunk) :: attributeCertificates rest := by
  have hlen := h.length_ge
  have hsize := h.size_ge
  have hread : u32At (chunk ++ rest) 0 = u32At chunk 0 := u32At_append_left rest (by omega)
  have hne : chunk ++ rest ≠ [] := by
    intro hnil
    have hzero := congrArg List.length hnil
    rw [List.length_append] at hzero
    show False
    simp only [List.length_nil] at hzero
    omega
  have hlong : ¬ (chunk ++ rest).length < 8 := by
    rw [List.length_append]
    omega
  have hgood : ¬ (u32At chunk 0 < 8 ∨ (chunk ++ rest).length < roundUp8 (u32At chunk 0)) := by
    rw [List.length_append, ← h.length_eq]
    omega
  obtain ⟨fuel, hfuel⟩ : ∃ fuel, (chunk ++ rest).length = fuel + 1 := ⟨_, (Nat.succ_pred (by omega)).symm⟩
  rw [attributeCertificates, hfuel]
  simp only [attributeCertificatesFrom, hread]
  rw [if_neg hne, if_neg hlong, if_neg hgood, rowOf_append h, ← h.length_eq, List.drop_left,
    attributeCertificates]
  congr 1
  refine attributeCertificatesFrom_fuel ?_ (Nat.le_refl _)
  rw [List.length_append] at hfuel
  omega

/-- The first row of a table whose first item is no error. -/
theorem exists_row_of_cons {attr : AttributeCertificate} {items : List CertificateEntry}
    (h : attributeCertificates table = .ok attr :: items) :
    ∃ chunk rest, table = chunk ++ rest ∧ IsRow chunk ∧ attr = rowOf chunk ∧
      attributeCertificates rest = items := by
  have hne : table ≠ [] := by
    intro hnil
    rw [hnil] at h
    cases h
  have hpos := List.length_pos_of_ne_nil hne
  obtain ⟨fuel, hfuel⟩ : ∃ fuel, table.length = fuel + 1 := ⟨_, (Nat.succ_pred (by omega)).symm⟩
  have hfirst := h
  rw [attributeCertificates, hfuel] at hfirst
  simp only [attributeCertificatesFrom] at hfirst
  rw [if_neg hne] at hfirst
  by_cases hshort : table.length < 8
  · rw [if_pos hshort] at hfirst
    cases hfirst
  rw [if_neg hshort] at hfirst
  by_cases hbad : u32At table 0 < 8 ∨ table.length < roundUp8 (u32At table 0)
  · rw [if_pos hbad] at hfirst
    cases hfirst
  have hround := roundUp8_spec (u32At table 0)
  have hread : u32At (table.take (roundUp8 (u32At table 0))) 0 = u32At table 0 :=
    u32At_take (by omega)
  have hrow : IsRow (table.take (roundUp8 (u32At table 0))) :=
    ⟨by rw [hread]; omega, by rw [hread, List.length_take_of_le (by omega)]⟩
  have hsplit := (List.take_append_drop (roundUp8 (u32At table 0)) table).symm
  rw [hsplit, attributeCertificates_append hrow] at h
  injection h with hattr hitems
  injection hattr with hattr
  exact ⟨_, _, hsplit, hrow, hattr.symm, hitems⟩

/-- The items of a sequence of rows. -/
theorem attributeCertificates_flatten {chunks : List (List UInt8)} (h : ∀ chunk ∈ chunks, IsRow chunk)
    (rest : List UInt8) :
    attributeCertificates (chunks.flatten ++ rest) =
      chunks.map (fun chunk => .ok (rowOf chunk)) ++ attributeCertificates rest := by
  induction chunks with
  | nil => rfl
  | cons chunk chunks ih =>
    rw [List.flatten_cons, List.append_assoc,
      attributeCertificates_append (h chunk List.mem_cons_self),
      ih fun c hc => h c (List.mem_cons_of_mem _ hc), List.map_cons, List.cons_append]

/-- A table is walked through without an error when it is a sequence of rows. -/
theorem attributeCertificates_eq_map_ok {rows : List AttributeCertificate} :
    attributeCertificates table = rows.map .ok ↔
      ∃ chunks : List (List UInt8), (∀ chunk ∈ chunks, IsRow chunk) ∧ table = chunks.flatten ∧
        rows = chunks.map rowOf := by
  constructor
  · intro h
    induction rows generalizing table with
    | nil =>
      refine ⟨[], by simp, ?_, rfl⟩
      cases table with
      | nil => rfl
      | cons byte table =>
        simp only [attributeCertificates, List.length_cons, attributeCertificatesFrom, List.map_nil,
          reduceCtorEq, if_false] at h
        split_ifs at h
    | cons attr rows ih =>
      obtain ⟨chunk, rest, rfl, hrow, rfl, hrest⟩ := exists_row_of_cons h
      obtain ⟨chunks, hrows, rfl, rfl⟩ := ih hrest
      refine ⟨chunk :: chunks, ?_, rfl, rfl⟩
      intro c hc
      rcases List.mem_cons.mp hc with rfl | hmem
      · exact hrow
      · exact hrows c hmem
  · intro h
    obtain ⟨chunks, hrows, rfl, rfl⟩ := h
    have hitems := attributeCertificates_flatten hrows []
    rw [List.append_nil, attributeCertificates_nil, List.append_nil] at hitems
    rw [hitems, List.map_map]
    rfl

theorem length_mod_of_rows {chunks : List (List UInt8)} (h : ∀ chunk ∈ chunks, IsRow chunk) :
    chunks.flatten.length % 8 = 0 := by
  induction chunks with
  | nil => rfl
  | cons chunk chunks ih =>
    have hfirst := (h chunk List.mem_cons_self).length_mod
    have hrest := ih fun c hc => h c (List.mem_cons_of_mem _ hc)
    rw [List.flatten_cons, List.length_append]
    omega

end rows

/-! ## What the verifier accepts -/

section accepted

variable {crates : PeCrates} {hashes : Hashes} {image : List UInt8}

/-- A row of an image holds its digest. -/
def HoldsDigest (crates : PeCrates) (hashes : Hashes) (image : List UInt8)
    (attr : AttributeCertificate) : Prop :=
  ∃ embedded kind stream,
    crates.signature.digest (normalizePkcs7DerForAuthenticode attr.data) = .ok embedded ∧
      PeAuthenticodeHashKind.fromDigestByteLen embedded.length = .ok kind ∧
      digestStream crates.parser image = .ok stream ∧ hashes.hash kind stream = embedded

/-- The loop ends when there is no error and every PKCS#7 row holds the digest. -/
theorem checkEntries_eq_ok {items : List CertificateEntry} {idx : Nat}
    {last result : PeDigestConsistencyResult}
    (h : checkEntries crates hashes image idx items last = .ok result) :
    ∃ rows : List AttributeCertificate, items = rows.map .ok ∧
      (∀ attr ∈ rows, attr.certificateType = winCertTypePkcsSignedData →
        HoldsDigest crates hashes image attr) ∧
      result.pkcs7AuthenticodeEntries = last.pkcs7AuthenticodeEntries +
        rows.countP (fun attr => attr.certificateType = winCertTypePkcsSignedData) := by
  induction items generalizing idx last with
  | nil =>
    obtain rfl := Except.ok.inj h
    exact ⟨[], rfl, by simp, rfl⟩
  | cons item items ih =>
    simp only [checkEntries, Outcome.bind_eq_ok] at h
    obtain ⟨attr, hattr, h⟩ := h
    obtain rfl : item = .ok attr := by
      cases item with
      | error e => exact absurd hattr Outcome.bail_ne_ok
      | ok attr' => exact congrArg Except.ok (Except.ok.inj hattr)
    by_cases htype : attr.certificateType = winCertTypePkcsSignedData
    · simp only [htype, ne_eq, not_true, if_false, Outcome.bind_eq_ok, Outcome.guardThat_eq_ok,
        exists_const, Outcome.mapErr_eq_ok, peAuthenticodeDigest, Outcome.pure_eq_ok] at h
      obtain ⟨embedded, hembedded, kind, hkind, computed, ⟨stream, hstream, hcomputed⟩, hsame, h⟩ := h
      obtain ⟨rows, rfl, hholds, hcount⟩ := ih h
      refine ⟨attr :: rows, rfl, ?_, ?_⟩
      · intro other hother htypeOther
        rcases List.mem_cons.mp hother with rfl | hmem
        · exact ⟨embedded, kind, stream, hembedded, hkind, hstream,
            (Except.ok.inj hcomputed).trans hsame⟩
        · exact hholds other hmem htypeOther
      · have hnext : result.pkcs7AuthenticodeEntries = last.pkcs7AuthenticodeEntries + 1 + _ := hcount
        rw [hnext, List.countP_cons_of_pos (by simpa using htype)]
        omega
    · rw [if_pos htype] at h
      obtain ⟨rows, rfl, hholds, hcount⟩ := ih h
      refine ⟨attr :: rows, rfl, ?_, ?_⟩
      · intro other hother htypeOther
        rcases List.mem_cons.mp hother with rfl | hmem
        · exact absurd htypeOther htype
        · exact hholds other hmem htypeOther
      · rw [hcount, List.countP_cons_of_neg (by simpa using htype)]

/-- The certificate table of an image: the bytes the security data directory points to. -/
def HasTable (image : List UInt8) (va size : Nat) (table : List UInt8) : Prop :=
  readSecurityDataDirectory image = .ok (va, size) ∧ slice image va (va + size) = some table

/-- What an accepted image looks like. -/
theorem verifyPeAuthenticodeDigestConsistency_eq_ok {result : PeDigestConsistencyResult}
    (h : verifyPeAuthenticodeDigestConsistency crates hashes image = .ok result) :
    ∃ va size table, ∃ rows : List AttributeCertificate, HasTable image va size table ∧ va ≠ 0 ∧
      validateAttributeCertificateTableAlignment va size = .ok () ∧
      attributeCertificates table = rows.map .ok ∧
      (∀ attr ∈ rows, attr.certificateType = winCertTypePkcsSignedData →
        HoldsDigest crates hashes image attr) ∧
      ∃ attr ∈ rows, attr.certificateType = winCertTypePkcsSignedData := by
  simp only [verifyPeAuthenticodeDigestConsistency, Outcome.bind_eq_ok] at h
  obtain ⟨status, hstatus, h⟩ := h
  cases status with
  | noCertificateTable => exact absurd h Outcome.bail_ne_ok
  | noPkcs7Entries => exact absurd h Outcome.bail_ne_ok
  | signed result' =>
    simp only [verifyPeAuthenticodeDigestConsistencyStatus, peValidateAttributeCertificateTableAlignment,
      Outcome.bind_eq_ok] at hstatus
    obtain ⟨⟨⟩, ⟨⟨va, size⟩, hread, halign⟩, pe, hparse, items, hitems, hstatus⟩ := hstatus
    have hrange := crates.parser.table_of_parse hparse hread
    cases items with
    | none => cases hstatus
    | some items =>
      simp only [Outcome.bind_eq_ok] at hstatus
      obtain ⟨counted, hcounted, hstatus⟩ := hstatus
      obtain ⟨rows, rfl, hholds, hcount⟩ := checkEntries_eq_ok hcounted
      have hsome : counted.pkcs7AuthenticodeEntries ≠ 0 := by
        intro hzero
        rw [if_pos hzero] at hstatus
        cases hstatus
      have hva : va ≠ 0 := by
        intro hva
        rw [if_pos hva] at hrange
        simp only [PeCrates.rows, attributeCertificateIterator, hrange] at hitems
        cases hitems
      rw [if_neg hva] at hrange
      simp only [PeCrates.rows, attributeCertificateIterator, hrange] at hitems
      cases htable : slice image va (va + size) with
      | none =>
        rw [htable] at hitems
        exact absurd hitems Outcome.bail_ne_ok
      | some table =>
        rw [htable] at hitems
        have hwalk := Option.some.inj (Except.ok.inj hitems)
        refine ⟨va, size, table, rows, ⟨hread, htable⟩, hva, halign, hwalk, hholds, ?_⟩
        have hpos : 0 < rows.countP fun attr => attr.certificateType = winCertTypePkcsSignedData := by
          have hzero : (0 : Nat) = (⟨"", 0, 0⟩ : PeDigestConsistencyResult).pkcs7AuthenticodeEntries := rfl
          omega
        obtain ⟨attr, hmem, htype⟩ := List.countP_pos_iff.mp hpos
        exact ⟨attr, hmem, of_decide_eq_true htype⟩

end accepted

end Psign.Sip
