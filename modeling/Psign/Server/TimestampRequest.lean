import Psign.Server.Timestamp

/-!
# Requests to the timestamp server

What the client writes as a `TimeStampReq` is read by the server: the algorithm identifier,
the imprint and the number of the nonce (`RequestReads`).  The algorithm identifier of
SHA-1 is the exception.  Its length counts two octets more than it has, so the server takes
the beginning of the imprint with it (`readTlv_sha1`).
-/

namespace Psign.Server

open CodeLib CodeLib.Bytes CodeLib.Der Psign.Sip

/-- The server reads the same request: the algorithm identifier, the imprint and the
number of the nonce. -/
structure RequestReads (plan : Rfc3161TimestampRequestPlan) (imprint : List UInt8)
    (request : TimestampRequest) : Prop where
  algorithm : ∃ spec, digestAlgSpec plan.digestAlgOid = some spec ∧
    request.digestAlgTlv = spec.algorithmIdentifierDer
  imprint_eq : request.hashedMessage = imprint
  nonce_none : plan.nonce = none → request.nonceTlv = none
  nonce_some : ∀ nonce, plan.nonce = some nonce →
    ∃ tlv, request.nonceTlv = some tlv ∧ integerValue tlv = some (nonce.toNat : Int)

/-- What the client knows of SHA-1.  The length of the algorithm identifier counts two octets
more than it has. -/
def sha1Spec : DigestAlgSpec :=
  ⟨[0x30, 0x0b, 0x06, 0x05, 0x2b, 0x0e, 0x03, 0x02, 0x1a, 0x05, 0x00], 20⟩

/-- The algorithm identifier is an element, except for SHA-1. -/
theorem digestAlgSpec_cases {oid : String} {spec : DigestAlgSpec}
    (h : digestAlgSpec oid = some spec) :
    RustStr.trim oid.toList = "1.3.14.3.2.26".toList ∧ spec = sha1Spec ∨
      RustStr.trim oid.toList ≠ "1.3.14.3.2.26".toList ∧
        (∃ content, spec.algorithmIdentifierDer = encodeTlv 0x30 content ∧ content.length = 13) ∧
        spec.digestOctetLen ≤ 64 := by
  simp only [digestAlgSpec] at h
  by_cases hsha1 : RustStr.trim oid.toList = "1.3.14.3.2.26".toList
  · rw [if_pos hsha1] at h
    exact Or.inl ⟨hsha1, (Option.some.inj h).symm⟩
  · rw [if_neg hsha1] at h
    refine Or.inr ⟨hsha1, ?_⟩
    split at h
    · obtain rfl := Option.some.inj h
      exact ⟨⟨[0x06, 0x09, 0x60, 0x86, 0x48, 0x01, 0x65, 0x03, 0x04, 0x02, 0x01, 0x05, 0x00],
        by decide, by decide⟩, by decide⟩
    · split at h
      · obtain rfl := Option.some.inj h
        exact ⟨⟨[0x06, 0x09, 0x60, 0x86, 0x48, 0x01, 0x65, 0x03, 0x04, 0x02, 0x02, 0x05, 0x00],
          by decide, by decide⟩, by decide⟩
      · split at h
        · obtain rfl := Option.some.inj h
          exact ⟨⟨[0x06, 0x09, 0x60, 0x86, 0x48, 0x01, 0x65, 0x03, 0x04, 0x02, 0x03, 0x05, 0x00],
            by decide, by decide⟩, by decide⟩
        · cases h

theorem length_encodeTlv {tag : UInt8} {content : List UInt8} (h : content.length < 128) :
    (encodeTlv tag content).length = 2 + content.length := by
  rw [encodeTlv, encodeLength, if_pos h]
  simp only [List.length_cons, List.length_append, List.length_nil]
  omega

theorem digestAlgSpec_le {oid : String} {spec : DigestAlgSpec} (h : digestAlgSpec oid = some spec) :
    spec.algorithmIdentifierDer.length ≤ 15 ∧ spec.digestOctetLen ≤ 64 := by
  rcases digestAlgSpec_cases h with ⟨-, rfl⟩ | ⟨-, ⟨content, hder, hlen⟩, hdigest⟩
  · exact ⟨by decide, by decide⟩
  · refine ⟨?_, hdigest⟩
    rw [hder, length_encodeTlv (by omega)]
    omega

/-- The optional fields that the client writes. -/
def writtenOptions (plan : Rfc3161TimestampRequestPlan) : List UInt8 :=
  (plan.nonce.map derIntegerU64).getD [] ++ (if plan.certReq then [0x01, 0x01, 0xff] else [])

theorem length_writtenOptions_le (plan : Rfc3161TimestampRequestPlan) :
    (writtenOptions plan).length ≤ 14 := by
  have hnonce : ((plan.nonce.map derIntegerU64).getD []).length ≤ 11 := by
    cases plan.nonce with
    | none => exact Nat.zero_le _
    | some nonce =>
      have hlen := (integerContents_spec nonce.toNat_lt).2.2
      show (derIntegerU64 nonce).length ≤ 11
      rw [derIntegerU64_eq, length_encodeTlv (by omega)]
      omega
  have hcert : (if plan.certReq then [0x01, 0x01, 0xff] else ([] : List UInt8)).length ≤ 3 := by
    cases plan.certReq with
    | false => exact Nat.zero_le _
    | true => exact Nat.le_refl _
  rw [writtenOptions, List.length_append]
  omega

theorem buildTimestampRequestBytes_eq_some {plan : Rfc3161TimestampRequestPlan}
    {imprint req : List UInt8} (h : buildTimestampRequestBytes plan imprint = some req) :
    ∃ spec, digestAlgSpec plan.digestAlgOid = some spec ∧ imprint.length = spec.digestOctetLen ∧
      req = encodeTlv 0x30 (encodeTlv 0x02 [0x01] ++
        encodeTlv 0x30 (spec.algorithmIdentifierDer ++ encodeTlv 0x04 imprint) ++
        writtenOptions plan) ∧
      (spec.algorithmIdentifierDer ++ encodeTlv 0x04 imprint).length < 256 ^ 3 ∧
      (encodeTlv 0x02 [0x01] ++
        encodeTlv 0x30 (spec.algorithmIdentifierDer ++ encodeTlv 0x04 imprint) ++
        writtenOptions plan).length < 256 ^ 3 := by
  simp only [buildTimestampRequestBytes, Option.bind_eq_bind, Option.bind_eq_some_iff,
    Option.pure_def, Option.some.injEq, Option.guard_eq_some', exists_const] at h
  obtain ⟨spec, hspec, hlen, rfl⟩ := h
  obtain ⟨halg, hdigest⟩ := digestAlgSpec_le hspec
  have himprint : (encodeTlv 0x04 imprint).length = 2 + imprint.length :=
    length_encodeTlv (by omega)
  have hvalue : (spec.algorithmIdentifierDer ++ encodeTlv 0x04 imprint).length ≤ 81 := by
    rw [List.length_append, himprint]
    omega
  have hfield : (encodeTlv 0x30 (spec.algorithmIdentifierDer ++ encodeTlv 0x04 imprint)).length ≤
      83 := by
    rw [length_encodeTlv (by omega)]
    omega
  have hoptions := length_writtenOptions_le plan
  have hall : (encodeTlv 0x02 [0x01] ++
      encodeTlv 0x30 (spec.algorithmIdentifierDer ++ encodeTlv 0x04 imprint) ++
      writtenOptions plan).length < 256 ^ 3 := by
    rw [List.length_append, List.length_append, length_encodeTlv (by decide)]
    show 2 + 1 + _ + _ < _
    omega
  refine ⟨spec, hspec, hlen, ?_, by omega, hall⟩
  have hinner : 0x04 :: (pushDerDefiniteLength imprint.length ++ imprint) =
      encodeTlv 0x04 imprint := by
    rw [encodeTlv, pushDerDefiniteLength_eq (by omega)]
  have hmiddle : 0x30 :: (pushDerDefiniteLength
      (spec.algorithmIdentifierDer ++ encodeTlv 0x04 imprint).length ++
      (spec.algorithmIdentifierDer ++ encodeTlv 0x04 imprint)) =
      encodeTlv 0x30 (spec.algorithmIdentifierDer ++ encodeTlv 0x04 imprint) := by
    rw [pushDerDefiniteLength_eq (by omega)]
    rfl
  have hversion : encodeTlv 0x02 [0x01] = [0x02, 0x01, 0x01] := by decide
  rw [hversion] at hall ⊢
  rw [hinner, hmiddle, List.append_assoc _ _ (if plan.certReq then _ else _), ← writtenOptions,
    pushDerDefiniteLength_eq hall]
  rfl

theorem parseOptionalFields_certReq (certReq : Bool) (fuel : Nat) (nonceTlv : Option (List UInt8)) :
    parseOptionalFields (fuel + 1) (if certReq then [0x01, 0x01, 0xff] else []) nonceTlv =
      .ok nonceTlv := by
  cases certReq with
  | false => rfl
  | true =>
    have hread : readTlv [0x01, 0x01, 0xff] = .ok ([0x01, 0x01, 0xff], []) := rfl
    show parseOptionalFields (fuel + 1) [0x01, 0x01, 0xff] nonceTlv = _
    rw [parseOptionalFields, hread]
    cases fuel with
    | zero => rfl
    | succ fuel => rfl

theorem parseOptionalFields_integer {content rest : List UInt8} (h : content.length < 256 ^ 3)
    (fuel : Nat) (nonceTlv : Option (List UInt8)) :
    parseOptionalFields (fuel + 1) (encodeTlv 0x02 content ++ rest) nonceTlv =
      parseOptionalFields fuel rest (some (encodeTlv 0x02 content)) := by
  have hread := @readTlv_encodeTlv 0x02 content rest h
  rw [encodeTlv, List.cons_append] at hread ⊢
  rw [parseOptionalFields, hread]
  rfl

/-- The server takes the nonce from the optional fields that the client writes. -/
theorem parseOptionalFields_written (plan : Rfc3161TimestampRequestPlan) :
    parseOptionalFields (writtenOptions plan).length (writtenOptions plan) none =
      .ok (plan.nonce.map derIntegerU64) := by
  rw [writtenOptions]
  cases plan.nonce with
  | none =>
    show parseOptionalFields (if plan.certReq then [0x01, 0x01, 0xff] else []).length
      (if plan.certReq then [0x01, 0x01, 0xff] else []) none = .ok none
    cases plan.certReq with
    | false => rfl
    | true => exact parseOptionalFields_certReq true 2 none
  | some nonce =>
    have hlen := (integerContents_spec nonce.toNat_lt).2.2
    show parseOptionalFields (derIntegerU64 nonce ++ _).length (derIntegerU64 nonce ++ _) none =
      .ok (some (derIntegerU64 nonce))
    rw [derIntegerU64_eq]
    obtain ⟨fuel, hfuel⟩ : ∃ fuel, (encodeTlv 0x02 (integerContents nonce.toNat) ++
        if plan.certReq then [0x01, 0x01, 0xff] else []).length = fuel + 1 + 1 := by
      refine ⟨(integerContents nonce.toNat).length +
        (if plan.certReq then [0x01, 0x01, 0xff] else ([] : List UInt8)).length, ?_⟩
      rw [List.length_append, length_encodeTlv (by omega)]
      omega
    rw [hfuel, parseOptionalFields_integer (by omega), parseOptionalFields_certReq]

theorem parseTimestampRequestDer_eq_ok {input : List UInt8} {request : TimestampRequest} :
    parseTimestampRequestDer input = .ok request ↔
      ∃ outer fields imprintTlv rest imprint tail hashedTlv,
        expectTlv input 0x30 = .ok outer ∧ readTlv outer = .ok ([0x02, 0x01, 0x01], fields) ∧
        readTlv fields = .ok (imprintTlv, rest) ∧ expectTlv imprintTlv 0x30 = .ok imprint ∧
        readTlv imprint = .ok (request.digestAlgTlv, tail) ∧ readTlv tail = .ok (hashedTlv, []) ∧
        expectTlv hashedTlv 0x04 = .ok request.hashedMessage ∧
        parseOptionalFields rest.length rest none = .ok request.nonceTlv := by
  simp only [parseTimestampRequestDer, Outcome.bind_eq_ok, Outcome.context_eq_ok,
    Outcome.guardThat_eq_ok, Prod.exists, Outcome.pure_eq_ok, Except.ok.injEq]
  constructor
  · intro h
    obtain ⟨outer, houter, version, fields, hversion, _, rfl, imprintTlv, rest, himprint, imprint,
      hcontents, digestAlgTlv, tail, halg, hashedTlv, after, hhashed, _, rfl, hashedMessage, hmessage,
      nonceTlv, hnonce, rfl⟩ := h
    exact ⟨outer, fields, imprintTlv, rest, imprint, tail, hashedTlv, houter, hversion, himprint,
      hcontents, halg, hhashed, hmessage, hnonce⟩
  · intro h
    obtain ⟨outer, fields, imprintTlv, rest, imprint, tail, hashedTlv, houter, hversion, himprint,
      hcontents, halg, hhashed, hmessage, hnonce⟩ := h
    exact ⟨outer, houter, _, fields, hversion, (), rfl, imprintTlv, rest, himprint, imprint, hcontents,
      _, tail, halg, hashedTlv, [], hhashed, (), rfl, _, hmessage, _, hnonce, rfl⟩

/-- The identifier of SHA-1 takes two octets of the imprint with it. -/
theorem readTlv_sha1 (rest tail : List UInt8) :
    readTlv (sha1Spec.algorithmIdentifierDer ++ rest) ≠
      .ok (sha1Spec.algorithmIdentifierDer, tail) := by
  intro h
  simp only [readTlv, Outcome.bind_eq_ok, Outcome.guardThat_eq_ok, Prod.exists,
    Outcome.pure_eq_ok, Except.ok.injEq, Prod.mk.injEq] at h
  obtain ⟨_, -, len, hdr, hlen, _, hfit, htake, -⟩ := h
  obtain ⟨rfl, rfl⟩ : 11 = len ∧ 1 = hdr := by
    have hread := Except.ok.inj hlen
    exact Prod.mk.inj hread
  have hlength := congrArg List.length htake
  rw [List.length_take_of_le hfit] at hlength
  cases hlength

/-- The server reads the request of the client, except one for SHA-1. -/
theorem parse_build_timestamp_request {plan : Rfc3161TimestampRequestPlan}
    {imprint req : List UInt8} (h : buildTimestampRequestBytes plan imprint = some req) :
    (∃ request, parseTimestampRequestDer req = .ok request ∧ RequestReads plan imprint request) ↔
      RustStr.trim plan.digestAlgOid.toList ≠ "1.3.14.3.2.26".toList := by
  obtain ⟨spec, hspec, hlen, rfl, hinner, hall⟩ := buildTimestampRequestBytes_eq_some h
  have hdigest := (digestAlgSpec_le hspec).2
  have hversion : encodeTlv 0x02 [0x01] = [0x02, 0x01, 0x01] := by decide
  have houter := @expectTlv_encodeTlv 0x30 _ hall
  have hfirst := @readTlv_encodeTlv 0x02 [0x01]
    (encodeTlv 0x30 (spec.algorithmIdentifierDer ++ encodeTlv 0x04 imprint) ++ writtenOptions plan)
    (by decide)
  have hsecond := @readTlv_encodeTlv 0x30 _ (writtenOptions plan) hinner
  have hcontents := @expectTlv_encodeTlv 0x30 _ hinner
  rw [hversion] at hfirst
  rw [← List.append_assoc] at hfirst
  rw [hversion] at houter
  constructor
  · intro ⟨request, hparse, hreads⟩ hsha1
    obtain ⟨spec', hspec', halg⟩ := hreads.algorithm
    obtain rfl : spec = spec' := Option.some.inj (hspec.symm.trans hspec')
    rcases digestAlgSpec_cases hspec with ⟨-, rfl⟩ | ⟨hother, -⟩
    · obtain ⟨outer, fields, imprintTlv, rest, contents, tail, hashedTlv, h1, h2, h3, h4, h5, -⟩ :=
        parseTimestampRequestDer_eq_ok.mp hparse
      rw [hversion] at h1
      obtain rfl := Except.ok.inj (houter.symm.trans h1)
      obtain ⟨-, rfl⟩ := Prod.mk.inj (Except.ok.inj (hfirst.symm.trans h2))
      obtain ⟨rfl, rfl⟩ := Prod.mk.inj (Except.ok.inj (hsecond.symm.trans h3))
      obtain rfl := Except.ok.inj (hcontents.symm.trans h4)
      rw [halg] at h5
      exact readTlv_sha1 _ _ h5
    · exact hother hsha1
  · intro hother
    rcases digestAlgSpec_cases hspec with ⟨hsha1, -⟩ | ⟨-, ⟨content, hder, hcontent⟩, -⟩
    · exact absurd hsha1 hother
    · have himprint := @readTlv_encodeTlv 0x04 imprint [] (by omega)
      rw [List.append_nil] at himprint
      have halg := @readTlv_encodeTlv 0x30 content (encodeTlv 0x04 imprint) (by omega)
      rw [← hder] at halg
      refine ⟨⟨spec.algorithmIdentifierDer, imprint, plan.nonce.map derIntegerU64⟩,
        parseTimestampRequestDer_eq_ok.mpr ⟨_, _, _, _, _, _, _, houter, hfirst, hsecond, hcontents,
          halg, himprint, expectTlv_encodeTlv (by omega), parseOptionalFields_written plan⟩, ?_⟩
      exact
        { algorithm := ⟨spec, hspec, rfl⟩
          imprint_eq := rfl
          nonce_none := by
            intro hnone
            rw [hnone]
            rfl
          nonce_some := by
            intro nonce hnonce
            rw [hnonce]
            exact ⟨_, rfl, integerValue_derIntegerU64 nonce⟩ }

end Psign.Server
