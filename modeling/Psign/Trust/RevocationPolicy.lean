import Mathlib.Data.Prod.Lex
import Psign.Trust.ChainWalk
import Psign.Trust.Revocation

/-!
# The revocation policy

What `check_revocation_chain` makes of the statements of OCSP responders and CRLs.
`OcspSays` and `CrlSays` are statements that are correctly signed and fresh;
`checkOneCertOcsp_eq_ok` and `checkOneCertCrl_eq_ok` say that the checks of one
certificate return what is stated.

A statement is fresh by the calendar: its times have hours, but the check compares days,
so a statement is fresh for the whole day of its `nextUpdate`.

In the best-effort mode the loop tells a CRL that lists the certificate from other
errors by the word `revoked` in the text.  The texts of the other errors carry the URL
and what the libraries print, so `revocation_chain_policy` assumes for this mode that
these do not contain the word, where it says that no other chain fails.
-/

namespace Psign.Trust.Online

open CodeLib Psign.Sip

/-! ## Failures -/

section

variable {α β : Type} {e : Failure}

@[simp] theorem withContext_eq_ok {result : Outcome α} {text : String} {a : α} :
    withContext result text = .ok a ↔ result = .ok a :=
  Outcome.mapErr_eq_ok

theorem bind_eq_error {first : Outcome α} {next : α → Outcome β} :
    (first >>= next) = .error e ↔ first = .error e ∨ ∃ a, first = .ok a ∧ next a = .error e := by
  cases first <;> simp

theorem mapErr_eq_error {result : Outcome α} {text : String → String} :
    result.mapErr text = .error e ↔
      (∃ message, result = .error (.error message) ∧ e = .error (text message)) ∨
        (result = .error .outOfFuel ∧ e = .outOfFuel) := by
  rcases result with (message | _) | a <;> simp [Outcome.mapErr, Outcome.bail, eq_comm]

theorem ofOption_eq_error {value : Option α} {message : String} :
    Outcome.ofOption value message = .error e ↔ value = none ∧ e = .error message := by
  cases value <;> simp [Outcome.ofOption, Outcome.bail, eq_comm]

theorem guardThat_eq_error {condition : Prop} [Decidable condition] {message : String} :
    Outcome.guardThat condition message = .error e ↔ ¬ condition ∧ e = .error message := by
  unfold Outcome.guardThat
  split <;> simp_all [Outcome.bail, eq_comm]

end

/-! ## Texts -/

/-- A word does not reach over a character that it does not have. -/
theorem infix_append_cons {p a b : List Char} {c : Char} (hc : c ∉ p) :
    p <:+: a ++ c :: b ↔ p <:+: a ∨ p <:+: b := by
  constructor
  · intro ⟨before, after, h⟩
    rw [List.append_assoc] at h
    rcases List.append_eq_append_iff.mp h with ⟨middle, ha, hrest⟩ | ⟨middle, hbefore, hrest⟩
    · -- the word starts in front of the character
      rcases List.append_eq_append_iff.mp hrest with ⟨tail, hmiddle, -⟩ | ⟨tail, hp, hcons⟩
      · left
        exact ⟨before, tail, by rw [ha, hmiddle, List.append_assoc]⟩
      · cases tail with
        | nil =>
          left
          refine ⟨before, [], ?_⟩
          rw [ha, hp, List.append_nil, List.append_nil]
        | cons first tail =>
          obtain ⟨rfl, -⟩ := List.cons.inj hcons
          exact absurd (hp ▸ List.mem_append_right _ List.mem_cons_self) hc
    · right
      cases middle with
      | nil =>
        cases p with
        | nil => exact List.nil_infix
        | cons first p =>
          obtain ⟨rfl, -⟩ := List.cons.inj hrest
          exact absurd List.mem_cons_self hc
      | cons first middle =>
        obtain ⟨-, hb⟩ := List.cons.inj hrest
        exact ⟨middle, after, by rw [List.append_assoc]; exact hb.symm⟩
  · intro h
    rcases h with ⟨before, after, ha⟩ | ⟨before, after, hb⟩
    · exact ⟨before, after ++ c :: b, by rw [← ha]; simp⟩
    · exact ⟨a ++ c :: before, after, by rw [← hb]; simp⟩

/-- A text behind an announcement that ends with a space. -/
theorem mentionsRevoked_append {announcement : List Char} {text : String}
    (hspace : announcement.getLast? = some ' ')
    (hfront : ¬ ['r', 'e', 'v', 'o', 'k', 'e', 'd'] <:+: announcement.dropLast) :
    mentionsRevoked (String.ofList announcement ++ text) ↔ mentionsRevoked text := by
  obtain ⟨front, rfl⟩ := List.getLast?_eq_some_iff.mp hspace
  rw [List.dropLast_concat] at hfront
  unfold mentionsRevoked
  rw [String.toList_append, String.toList_ofList, String.toList_ofList, List.append_assoc,
    List.singleton_append, infix_append_cons (by decide)]
  exact or_iff_right hfront

/-- A text is searched character by character. -/
theorem mentionsRevoked_ofList {text : List Char} :
    mentionsRevoked (String.ofList text) ↔ ['r', 'e', 'v', 'o', 'k', 'e', 'd'] <:+: text := by
  unfold mentionsRevoked
  rw [String.toList_ofList, String.toList_ofList]

/-! ## Elements -/

section

variable {α : Type} {read : List UInt8 → Outcome α}

theorem length_of_readLen {input rest : List UInt8} {len : Nat}
    (h : readLen input = .ok (len, rest)) : rest.length < input.length := by
  cases input with
  | nil => simp [readLen] at h
  | cons first tail =>
    simp only [readLen] at h
    split at h
    · simp only [Except.ok.injEq, Prod.mk.injEq] at h
      rw [← h.2, List.length_cons]
      omega
    · split at h
      · simp at h
      · split at h
        · simp at h
        · simp only [Except.ok.injEq, Prod.mk.injEq] at h
          rw [← h.2, List.length_drop, List.length_cons]
          omega

/-- Reading an element leaves less. -/
theorem length_of_readTlv {input tlv rest : List UInt8} (h : readTlv input = .ok (tlv, rest)) :
    rest.length < input.length := by
  cases input with
  | nil => simp [readTlv] at h
  | cons tag tail =>
    simp only [readTlv, Outcome.bind_eq_ok, Prod.exists, Outcome.guardThat_eq_ok,
      Outcome.pure_eq_ok, Except.ok.injEq, Prod.mk.injEq] at h
    obtain ⟨len, body, hlen, -, -, -, rfl⟩ := h
    have hbody := length_of_readLen hlen
    rw [List.length_drop, List.length_cons]
    omega

theorem readLen_ne_outOfFuel (input : List UInt8) : readLen input ≠ .error .outOfFuel := by
  cases input with
  | nil => simp [readLen, Outcome.bail]
  | cons first tail =>
    simp only [readLen]
    split
    · simp
    · split
      · simp [Outcome.bail]
      · split <;> simp [Outcome.bail]

theorem readTlv_ne_outOfFuel (input : List UInt8) : readTlv input ≠ .error .outOfFuel := by
  cases input with
  | nil => simp [readTlv, Outcome.bail]
  | cons tag tail =>
    intro h
    simp only [readTlv, bind_eq_error, Prod.exists, guardThat_eq_error, Outcome.pure_eq_ok] at h
    rcases h with h | ⟨len, body, -, h⟩
    · exact readLen_ne_outOfFuel tail h
    · simp at h

/-- The length of the bytes is enough fuel for their elements. -/
theorem forEachTlv_ne_outOfFuel (hread : ∀ tlv, read tlv ≠ .error .outOfFuel) {fuel : Nat}
    {input : List UInt8} (hfuel : input.length ≤ fuel) :
    forEachTlv read fuel input ≠ .error .outOfFuel := by
  induction fuel generalizing input with
  | zero =>
    obtain rfl := List.length_eq_zero_iff.mp (Nat.le_zero.mp hfuel)
    simp [forEachTlv]
  | succ fuel ih =>
    cases input with
    | nil => simp [forEachTlv]
    | cons first tail =>
      intro h
      simp only [forEachTlv, bind_eq_error, Prod.exists, Outcome.pure_eq_ok] at h
      rcases h with h | ⟨tlv, rest, htlv, h | ⟨a, -, h | ⟨as, -, h⟩⟩⟩
      · exact readTlv_ne_outOfFuel _ h
      · exact hread tlv h
      · have hrest := length_of_readTlv htlv
        exact ih (by rw [List.length_cons] at hfuel hrest; omega) h
      · simp at h

/-- What holds of everything that is read holds of the elements. -/
theorem forall_of_forEachTlv {p : α → Prop} (hread : ∀ tlv a, read tlv = .ok a → p a) {fuel : Nat}
    {input : List UInt8} {as : List α} (h : forEachTlv read fuel input = .ok as) :
    ∀ a ∈ as, p a := by
  induction fuel generalizing input as with
  | zero =>
    cases input with
    | nil => simp only [forEachTlv, Except.ok.injEq] at h; simp [← h]
    | cons first tail => simp [forEachTlv] at h
  | succ fuel ih =>
    cases input with
    | nil => simp only [forEachTlv, Except.ok.injEq] at h; simp [← h]
    | cons first tail =>
      simp only [forEachTlv, Outcome.bind_eq_ok, Prod.exists, Outcome.pure_eq_ok,
        Except.ok.injEq] at h
      obtain ⟨tlv, rest, -, a, ha, as, has, rfl⟩ := h
      intro other hother
      rcases List.mem_cons.mp hother with rfl | hother
      · exact hread tlv other ha
      · exact ih has other hother

end

/-! ## Days -/

/-- The day of a time, in the order of the calendar. -/
def calendarDay (time : UtcDate) : Nat ×ₗ Nat ×ₗ Nat :=
  toLex (time.year, toLex (time.month, time.day))

/-- The key of a time orders by the day. -/
theorem keyLt_iff {a b : UtcDate} : keyLt a b ↔ calendarDay a < calendarDay b := by
  unfold keyLt calendarDay
  rw [Prod.Lex.toLex_lt_toLex, Prod.Lex.toLex_lt_toLex]

/-! ## Statements -/

section

variable (env : Environment) (crates : RevocationCrates) (options : RevocationOptions)

/-- A signature of the issuer over an element. -/
def CorrectlySigned (hash : RsaPkcs1v15Hash) (signedTlv signature : List UInt8) (issuer : Cert) :
    Prop :=
  ∃ x509 publicKey sig, env.cms.certificate issuer.der = .ok x509 ∧
    env.cms.rsaPublicKey x509.spkiDer = .ok publicKey ∧
    env.cms.pkcs1v15Signature signature = .ok sig ∧
    env.cms.verifyPrehash hash.kind publicKey (env.cms.hashes.hash hash.kind signedTlv) sig = .ok ()

/-- The day of the check is not before the day of the statement, and not behind the day of the
next one. -/
def Fresh (thisUpdate nextUpdate : UtcDate) : Prop :=
  calendarDay thisUpdate ≤ calendarDay env.now ∧ calendarDay env.now ≤ calendarDay nextUpdate

/-- The answer to the request of a certificate is a correctly signed, fresh OCSP response
with this status. -/
def OcspSays (request : Nat) (cert issuer : Cert) (status : OcspCheckOutcome) : Prop :=
  ∃ url body response parsed certId entry, ocspUrl env options cert = some url ∧
    buildOcspRequestDer env crates cert issuer = .ok body ∧
    crates.httpPostLimited request url body = .ok response ∧
    parseOcspResponseDer env response = .ok parsed ∧
    CorrectlySigned env parsed.signatureHash parsed.tbsResponseDataTlv parsed.signature issuer ∧
    buildOcspCertIdDer env crates cert issuer = .ok certId ∧
    parsed.responses.find? (·.certIdTlv = certId) = some entry ∧
    Fresh env entry.thisUpdate entry.nextUpdate ∧ entry.status = status

/-- The answer to the request of a certificate is a correctly signed, fresh CRL, which lists
the certificate or does not. -/
def CrlSays (request : Nat) (cert issuer : Cert) (revoked : Bool) : Prop :=
  ∃ url bytes crl serial, crlUrl env options cert = some url ∧
    crates.httpGetLimited request url = .ok bytes ∧
    parseCertificateListDer env bytes = .ok crl ∧
    CorrectlySigned env crl.signatureHash crl.tbsTlv crl.signature issuer ∧
    Fresh env crl.thisUpdate crl.nextUpdate ∧ certSerialTlv env crates cert = .ok serial ∧
    decide (serial ∈ crl.revokedSerialTlvs) = revoked

end

section

variable {env : Environment} {crates : RevocationCrates} {options : RevocationOptions}
  {request : Nat} {cert issuer : Cert}

theorem verifyRsaPkcs1v15Signature_eq_ok {hash : RsaPkcs1v15Hash} {signedTlv signature : List UInt8}
    {label : String} {u : Unit} :
    verifyRsaPkcs1v15Signature env hash signedTlv signature issuer label = .ok u ↔
      CorrectlySigned env hash signedTlv signature issuer := by
  simp only [verifyRsaPkcs1v15Signature, certificateOf, Outcome.bind_eq_ok, Outcome.mapErr_eq_ok]
  constructor
  · rintro ⟨x509, hx509, publicKey, hkey, sig, hsig, hverify⟩
    exact ⟨x509, publicKey, sig, hx509, hkey, hsig, hverify⟩
  · rintro ⟨x509, publicKey, sig, hx509, hkey, hsig, hverify⟩
    exact ⟨x509, hx509, publicKey, hkey, sig, hsig, hverify⟩

theorem ensureTimeWindowFresh_eq_ok {label : String} {thisUpdate nextUpdate : UtcDate} {u : Unit} :
    ensureTimeWindowFresh env label thisUpdate nextUpdate = .ok u ↔
      Fresh env thisUpdate nextUpdate := by
  simp only [ensureTimeWindowFresh, Outcome.guardThat_bind_eq_ok, Outcome.guardThat_eq_ok,
    keyLt_iff, not_lt]
  exact Iff.rfl

/-- No response has the status of a check that was not made. -/
theorem status_of_parseOcspResponseDer {response : List UInt8} {parsed : ParsedOcspResponse}
    (h : parseOcspResponseDer env response = .ok parsed) :
    ∀ entry ∈ parsed.responses, entry.status ≠ .notConfigured := by
  simp only [parseOcspResponseDer, parseBasicOcspResponseDer, Outcome.bind_eq_ok, Prod.exists] at h
  obtain ⟨_, -, _, _, -, _, -, _, -, _, _, -, _, -, _, -, _, _, -, _, -, _, _, -, _, -, _, -, _, _, -,
    _, _, -, _, -, _, _, -, _, -, _, -, _, -, _, _, -, _, _, -, _, _, -, _, -, responses,
    hresponses, hparsed⟩ := h
  rw [← Except.ok.inj hparsed]
  refine forall_of_forEachTlv ?_ hresponses
  intro tlv entry hentry hstatus
  simp only [parseSingleResponse, Outcome.bind_eq_ok, Prod.exists, Outcome.pure_eq_ok,
    Except.ok.injEq] at hentry
  obtain ⟨_, -, _, _, -, _, -, certStatus, _, -, status, hread, _, _, -, _, -, _, _, -, _, -, _, -,
    _, _, -, _, -, _, -, rfl⟩ := hentry
  subst hstatus
  cases certStatus with
  | nil => exact Outcome.bail_ne_ok hread
  | cons tag rest =>
    simp only [ocspStatus] at hread
    split at hread
    · simp at hread
    · split at hread
      · simp at hread
      · split at hread
        · simp at hread
        · exact Outcome.bail_ne_ok hread

/-- What the OCSP check returns. -/
theorem checkOneCertOcsp_eq_ok {status : OcspCheckOutcome} :
    checkOneCertOcsp env crates options request cert issuer = .ok status ↔
      (¬ OcspConfigured options ∧ status = .notConfigured) ∨
        (OcspConfigured options ∧ OcspSays env crates options request cert issuer status) := by
  unfold checkOneCertOcsp
  by_cases hconfigured : OcspConfigured options
  · simp only [hconfigured, not_true, if_false, false_and, true_and, false_or, Outcome.bind_eq_ok,
      Outcome.ofOption_eq_ok, withContext_eq_ok, verifyRsaPkcs1v15Signature_eq_ok,
      ensureTimeWindowFresh_eq_ok, Outcome.pure_eq_ok, Except.ok.injEq, exists_const]
    constructor
    · rintro ⟨url, hurl, body, hbody, response, hresponse, parsed, hparsed, hsigned, certId, hcertId,
        entry, hentry, hfresh, hstatus⟩
      exact ⟨url, body, response, parsed, certId, entry, hurl, hbody, hresponse, hparsed, hsigned,
        hcertId, hentry, hfresh, hstatus⟩
    · rintro ⟨url, body, response, parsed, certId, entry, hurl, hbody, hresponse, hparsed, hsigned,
        hcertId, hentry, hfresh, hstatus⟩
      exact ⟨url, hurl, body, hbody, response, hresponse, parsed, hparsed, hsigned, certId, hcertId,
        entry, hentry, hfresh, hstatus⟩
  · simp [hconfigured, eq_comm]

/-- An OCSP response never says that the check is not configured. -/
theorem not_ocspSays_notConfigured :
    ¬ OcspSays env crates options request cert issuer .notConfigured := by
  intro ⟨_, _, _, parsed, _, entry, _, _, _, hparsed, _, _, hentry, _, hstatus⟩
  exact status_of_parseOcspResponseDer hparsed entry (List.mem_of_find?_eq_some hentry) hstatus

/-- The CRL check passes exactly if a CRL does not list the certificate. -/
theorem checkOneCertCrl_eq_ok :
    checkOneCertCrl env crates options request cert issuer = .ok () ↔
      CrlSays env crates options request cert issuer false := by
  simp only [checkOneCertCrl, Outcome.bind_eq_ok, Outcome.ofOption_eq_ok, withContext_eq_ok,
    verifyRsaPkcs1v15Signature_eq_ok, ensureTimeWindowFresh_eq_ok, Outcome.guardThat_eq_ok,
    exists_const]
  constructor
  · rintro ⟨url, hurl, bytes, hbytes, crl, hcrl, hsigned, hfresh, serial, hserial, hmem⟩
    exact ⟨url, bytes, crl, serial, hurl, hbytes, hcrl, hsigned, hfresh, hserial,
      decide_eq_false hmem⟩
  · rintro ⟨url, bytes, crl, serial, hurl, hbytes, hcrl, hsigned, hfresh, hserial, hmem⟩
    exact ⟨url, hurl, bytes, hbytes, crl, hcrl, hsigned, hfresh, serial, hserial,
      of_decide_eq_false hmem⟩

/-- A CRL that lists the certificate gives an error with the word `revoked`. -/
theorem checkOneCertCrl_of_revoked (h : CrlSays env crates options request cert issuer true) :
    ∃ message, checkOneCertCrl env crates options request cert issuer = .error (.error message) ∧
      mentionsRevoked message := by
  obtain ⟨url, bytes, crl, serial, hurl, hbytes, hcrl, hsigned, hfresh, hserial, hmem⟩ := h
  refine ⟨"certificate is revoked by CRL " ++ url, ?_, ?_⟩
  · have hverify : verifyRsaPkcs1v15Signature env crl.signatureHash crl.tbsTlv crl.signature issuer
        "CRL" = .ok () := verifyRsaPkcs1v15Signature_eq_ok.mpr hsigned
    have hwindow : ensureTimeWindowFresh env "CRL" crl.thisUpdate crl.nextUpdate = .ok () :=
      ensureTimeWindowFresh_eq_ok.mpr hfresh
    simp only [checkOneCertCrl, hurl, Outcome.ofOption, hbytes, hcrl, withContext, Outcome.mapErr,
      Outcome.ok_bind, hverify, hwindow, hserial]
    exact Outcome.guardThat_of_not (not_not.mpr (of_decide_eq_true hmem))
  · show "revoked".toList <:+: ("certificate is revoked by CRL " ++ url).toList
    have htext : "certificate is revoked by CRL ".toList =
        "certificate is ".toList ++ "revoked".toList ++ " by CRL ".toList := by
      rw [String.toList_ofList, String.toList_ofList, String.toList_ofList, String.toList_ofList]
      decide
    rw [String.toList_append, htext, List.append_assoc]
    exact List.infix_append _ _ _

/-- What the libraries print does not contain the word `revoked`. -/
structure QuietLibraries (env : Environment) (crates : RevocationCrates) : Prop where
  certificate : ∀ {bytes message},
    env.cms.certificate bytes = .error (.error message) → ¬ mentionsRevoked message
  rsaPublicKey : ∀ {bytes message},
    env.cms.rsaPublicKey bytes = .error (.error message) → ¬ mentionsRevoked message
  pkcs1v15Signature : ∀ {bytes message},
    env.cms.pkcs1v15Signature bytes = .error (.error message) → ¬ mentionsRevoked message
  verifyPrehash : ∀ {kind publicKey prehash sig message},
    env.cms.verifyPrehash kind publicKey prehash sig = .error (.error message) →
      ¬ mentionsRevoked message
  serialToDer : ∀ {x509 message},
    crates.serialToDer x509 = .error (.error message) → ¬ mentionsRevoked message

theorem not_mentionsRevoked_verify (hlibraries : QuietLibraries env crates) {hash : RsaPkcs1v15Hash}
    {signedTlv signature : List UInt8} {message : String}
    (h : verifyRsaPkcs1v15Signature env hash signedTlv signature issuer "CRL" =
      .error (.error message)) : ¬ mentionsRevoked message := by
  simp only [verifyRsaPkcs1v15Signature, certificateOf, bind_eq_error, mapErr_eq_error,
    Failure.error.injEq, reduceCtorEq, and_false, or_false] at h
  rcases h with ⟨text, htext, rfl⟩ | ⟨_, -, ⟨text, htext, rfl⟩ | ⟨_, -, ⟨text, htext, rfl⟩ |
    ⟨_, -, text, htext, rfl⟩⟩⟩
  · rw [← String.ofList_append, mentionsRevoked_append (by decide) (by decide)]
    exact hlibraries.certificate htext
  · rw [← String.ofList_append, mentionsRevoked_append (by decide) (by decide)]
    exact hlibraries.rsaPublicKey htext
  · rw [← String.ofList_append, mentionsRevoked_append (by decide) (by decide)]
    exact hlibraries.pkcs1v15Signature htext
  · rw [← String.ofList_append, mentionsRevoked_append (by decide) (by decide)]
    exact hlibraries.verifyPrehash htext

theorem not_mentionsRevoked_window {thisUpdate nextUpdate : UtcDate} {message : String}
    (h : ensureTimeWindowFresh env "CRL" thisUpdate nextUpdate = .error (.error message)) :
    ¬ mentionsRevoked message := by
  simp only [ensureTimeWindowFresh, bind_eq_error, guardThat_eq_error, Failure.error.injEq] at h
  rcases h with ⟨-, rfl⟩ | ⟨_, -, -, rfl⟩
  · rw [← String.ofList_append, mentionsRevoked_ofList]
    decide
  · rw [← String.ofList_append, mentionsRevoked_ofList]
    decide

theorem not_mentionsRevoked_serial (hlibraries : QuietLibraries env crates) {message : String}
    (h : certSerialTlv env crates cert = .error (.error message)) : ¬ mentionsRevoked message := by
  simp only [certSerialTlv, certificateOf, bind_eq_error, mapErr_eq_error, Failure.error.injEq,
    reduceCtorEq, and_false, or_false] at h
  rcases h with ⟨text, htext, rfl⟩ | ⟨_, -, text, htext, rfl⟩
  · rw [mentionsRevoked_append (by decide) (by decide)]
    exact hlibraries.certificate htext
  · rw [mentionsRevoked_append (by decide) (by decide)]
    exact hlibraries.serialToDer htext

/-- With quiet libraries and a quiet URL, an error with the word `revoked` is the statement of
a CRL. -/
theorem crlSays_of_mentionsRevoked (hlibraries : QuietLibraries env crates)
    (hurl : ∀ url ∈ crlUrl env options cert, ¬ mentionsRevoked url) {message : String}
    (h : checkOneCertCrl env crates options request cert issuer = .error (.error message))
    (hmentions : mentionsRevoked message) : CrlSays env crates options request cert issuer true := by
  simp only [checkOneCertCrl, withContext, bind_eq_error, mapErr_eq_error, ofOption_eq_error,
    guardThat_eq_error, Outcome.ofOption_eq_ok, Outcome.mapErr_eq_ok, Failure.error.injEq,
    reduceCtorEq, and_false, or_false, verifyRsaPkcs1v15Signature_eq_ok,
    ensureTimeWindowFresh_eq_ok] at h
  rcases h with ⟨-, rfl⟩ | ⟨url, hfound, ⟨_, -, rfl⟩ | ⟨bytes, hbytes, ⟨_, -, rfl⟩ |
    ⟨crl, hcrl, hverify | ⟨_, hsigned, hwindow | ⟨_, hfresh, hserial |
      ⟨serial, hserial, hmem, -⟩⟩⟩⟩⟩⟩
  · rw [← String.ofList_append, mentionsRevoked_ofList] at hmentions
    refine absurd hmentions ?_
    set_option maxRecDepth 2000 in decide
  · rw [mentionsRevoked_append (by decide) (by decide)] at hmentions
    exact absurd hmentions (hurl url hfound)
  · rw [mentionsRevoked_append (by decide) (by decide)] at hmentions
    exact absurd hmentions (hurl url hfound)
  · exact absurd hmentions (not_mentionsRevoked_verify hlibraries hverify)
  · exact absurd hmentions (not_mentionsRevoked_window hwindow)
  · exact absurd hmentions (not_mentionsRevoked_serial hlibraries hserial)
  · exact ⟨url, bytes, crl, serial, hfound, hbytes, hcrl, hsigned, hfresh, hserial,
      decide_eq_true (not_not.mp hmem)⟩

/-! ## One certificate of a chain -/

/-- A correctly signed, fresh statement that the certificate is revoked, in the order of the
checks: OCSP first, and a CRL unless OCSP is good. -/
def SaysRevoked (env : Environment) (crates : RevocationCrates) (options : RevocationOptions)
    (request : Nat) (cert issuer : Cert) : Prop :=
  (OcspConfigured options ∧ OcspSays env crates options request cert issuer .revoked) ∨
    (¬ (OcspConfigured options ∧ OcspSays env crates options request cert issuer .good) ∧
      CrlSays env crates options request cert issuer true)

/-- A correctly signed, fresh statement that the certificate is not revoked: of the OCSP
responder if there is one, and otherwise of a CRL. -/
def SaysGood (env : Environment) (crates : RevocationCrates) (options : RevocationOptions)
    (request : Nat) (cert issuer : Cert) : Prop :=
  if OcspConfigured options then OcspSays env crates options request cert issuer .good
  else CrlSays env crates options request cert issuer false

/-- The CRL half of a check. -/
def crlCheck (env : Environment) (crates : RevocationCrates) (options : RevocationOptions)
    (request : Nat) (cert issuer : Cert) : Outcome Unit :=
  match checkOneCertCrl env crates options request cert issuer with
  | .ok () => .ok ()
  | .error failure =>
    if options.revocationMode = .bestEffort ∧ ¬ Failure.mentionsRevoked failure then .ok ()
    else .error failure

/-- The check of one certificate. -/
theorem checkRevocation_eq :
    checkRevocation (atRequest env crates options request) cert issuer
        options.toOnlineTrustOptions =
      match checkOneCertOcsp env crates options request cert issuer with
      | .ok .good => .ok ()
      | .ok .notConfigured => crlCheck env crates options request cert issuer
      | .ok .unknown =>
        if options.revocationMode = .bestEffort then
          crlCheck env crates options request cert issuer
        else Outcome.bail "OCSP status is unknown"
      | .ok .revoked => Outcome.bail "OCSP status is revoked"
      | .error failure =>
        if options.revocationMode = .bestEffort then
          crlCheck env crates options request cert issuer
        else .error failure := by
  have hcrl : (atRequest env crates options request).network.checkOneCertCrl cert issuer
      options.toOnlineTrustOptions =
        match checkOneCertCrl env crates options request cert issuer with
        | .ok () => .ok ()
        | .error failure => .error (failure, Failure.mentionsRevoked failure) := rfl
  have hocsp : (atRequest env crates options request).network.checkOneCertOcsp cert issuer
      options.toOnlineTrustOptions = checkOneCertOcsp env crates options request cert issuer := rfl
  rw [checkRevocation, hcrl, hocsp, crlCheck]
  cases checkOneCertCrl env crates options request cert issuer with
  | ok u => rfl
  | error failure => rfl

/-- A CRL that lists the certificate fails the CRL half, in every mode. -/
theorem crlCheck_of_revoked (h : CrlSays env crates options request cert issuer true) :
    crlCheck env crates options request cert issuer ≠ .ok () := by
  obtain ⟨message, herror, hmentions⟩ := checkOneCertCrl_of_revoked h
  unfold crlCheck
  rw [herror]
  show (if _ then _ else _) ≠ _
  rw [if_neg (fun hquiet => hquiet.2 (decide_eq_true hmentions))]
  simp

theorem crlCheck_bestEffort (hlibraries : QuietLibraries env crates)
    (hurl : ∀ url ∈ crlUrl env options cert, ¬ mentionsRevoked url)
    (hmode : options.revocationMode = .bestEffort) :
    crlCheck env crates options request cert issuer = .ok () ↔
      ¬ CrlSays env crates options request cert issuer true := by
  unfold crlCheck
  have hother : ∀ {result : Outcome Unit},
      checkOneCertCrl env crates options request cert issuer = result →
      (∀ message, result = .error (.error message) → ¬ mentionsRevoked message) →
      ¬ CrlSays env crates options request cert issuer true := by
    intro result hresult hquiet hrevoked
    obtain ⟨message, herror, hmentions⟩ := checkOneCertCrl_of_revoked hrevoked
    exact hquiet message (hresult.symm.trans herror) hmentions
  cases hcrl : checkOneCertCrl env crates options request cert issuer with
  | ok u => exact iff_of_true rfl (hother hcrl (by simp))
  | error failure =>
    cases failure with
    | outOfFuel =>
      exact iff_of_true (by simp [Failure.mentionsRevoked, hmode]) (hother hcrl (by simp))
    | error message =>
      by_cases hmentions : mentionsRevoked message
      · refine iff_of_false (by simp [Failure.mentionsRevoked, hmentions]) ?_
        exact not_not.mpr (crlSays_of_mentionsRevoked hlibraries hurl hcrl hmentions)
      · refine iff_of_true (by simp [Failure.mentionsRevoked, hmentions, hmode]) (hother hcrl ?_)
        intro text htext
        simp only [Except.error.injEq, Failure.error.injEq] at htext
        exact htext ▸ hmentions

theorem crlCheck_require (hmode : options.revocationMode = .require) :
    crlCheck env crates options request cert issuer = .ok () ↔
      CrlSays env crates options request cert issuer false := by
  rw [← checkOneCertCrl_eq_ok]
  unfold crlCheck
  cases checkOneCertCrl env crates options request cert issuer with
  | ok u => exact iff_of_true rfl rfl
  | error failure => simp [hmode]

/-- A statement that the certificate is revoked fails the check, in every mode. -/
theorem checkRevocation_of_saysRevoked (h : SaysRevoked env crates options request cert issuer) :
    checkRevocation (atRequest env crates options request) cert issuer
      options.toOnlineTrustOptions ≠ .ok () := by
  have hocsp : ∀ {status}, checkOneCertOcsp env crates options request cert issuer = .ok status ↔ _ :=
    checkOneCertOcsp_eq_ok
  rw [checkRevocation_eq]
  rcases h with hrevoked | ⟨hnot, hcrl⟩
  · rw [hocsp.mpr (.inr hrevoked)]
    simp
  · have hfails := crlCheck_of_revoked hcrl
    cases hstatus : checkOneCertOcsp env crates options request cert issuer with
    | error failure =>
      show (if _ then _ else _) ≠ _
      split
      · exact hfails
      · simp
    | ok status =>
      cases status with
      | good => exact absurd ((hocsp.mp hstatus).resolve_left (by simp)) hnot
      | revoked => simp
      | unknown =>
        show (if _ then _ else _) ≠ _
        split
        · exact hfails
        · simp
      | notConfigured => exact hfails

theorem checkRevocation_bestEffort (hlibraries : QuietLibraries env crates)
    (hurl : ∀ url ∈ crlUrl env options cert, ¬ mentionsRevoked url)
    (hmode : options.revocationMode = .bestEffort) :
    checkRevocation (atRequest env crates options request) cert issuer
        options.toOnlineTrustOptions = .ok () ↔
      ¬ SaysRevoked env crates options request cert issuer := by
  have hcrl : crlCheck env crates options request cert issuer = .ok () ↔ _ :=
    crlCheck_bestEffort hlibraries hurl hmode
  have hocsp : ∀ {status}, checkOneCertOcsp env crates options request cert issuer = .ok status ↔ _ :=
    checkOneCertOcsp_eq_ok
  rw [checkRevocation_eq]
  unfold SaysRevoked
  -- the OCSP half decides, or leaves the CRL half
  have hrest : (∀ status, checkOneCertOcsp env crates options request cert issuer = .ok status →
      status ≠ .good ∧ status ≠ .revoked) →
      (¬ CrlSays env crates options request cert issuer true ↔
        ¬ ((OcspConfigured options ∧ OcspSays env crates options request cert issuer .revoked) ∨
          ¬ (OcspConfigured options ∧ OcspSays env crates options request cert issuer .good) ∧
            CrlSays env crates options request cert issuer true)) := by
    intro hundecided
    have hrevoked : ¬ (OcspConfigured options ∧
        OcspSays env crates options request cert issuer .revoked) :=
      fun h => (hundecided _ (hocsp.mpr (.inr h))).2 rfl
    have hgood : ¬ (OcspConfigured options ∧
        OcspSays env crates options request cert issuer .good) :=
      fun h => (hundecided _ (hocsp.mpr (.inr h))).1 rfl
    rw [or_iff_right hrevoked, and_iff_right hgood]
  cases hstatus : checkOneCertOcsp env crates options request cert issuer with
  | error failure =>
    simp only [hmode, if_true]
    exact hcrl.trans (hrest (by simp [hstatus]))
  | ok status =>
    cases status with
    | good =>
      have hgood := (hocsp.mp hstatus).resolve_left (by simp)
      refine iff_of_true rfl ?_
      intro h
      rcases h with hrevoked | ⟨hnot, -⟩
      · have := hocsp.mpr (.inr hrevoked)
        rw [hstatus] at this
        simp at this
      · exact hnot hgood
    | revoked =>
      have hrevoked := (hocsp.mp hstatus).resolve_left (by simp)
      exact iff_of_false (by simp) (not_not.mpr (.inl hrevoked))
    | unknown =>
      simp only [hmode, if_true]
      exact hcrl.trans (hrest (by simp [hstatus]))
    | notConfigured => exact hcrl.trans (hrest (by simp [hstatus]))

theorem checkRevocation_require (hmode : options.revocationMode = .require) :
    checkRevocation (atRequest env crates options request) cert issuer
        options.toOnlineTrustOptions = .ok () ↔
      SaysGood env crates options request cert issuer := by
  have hcrl : crlCheck env crates options request cert issuer = .ok () ↔ _ :=
    crlCheck_require hmode
  have hocsp : ∀ {status}, checkOneCertOcsp env crates options request cert issuer = .ok status ↔ _ :=
    checkOneCertOcsp_eq_ok
  rw [checkRevocation_eq]
  unfold SaysGood
  by_cases hconfigured : OcspConfigured options
  · rw [if_pos hconfigured]
    have hgood : OcspSays env crates options request cert issuer .good ↔
        checkOneCertOcsp env crates options request cert issuer = .ok .good := by
      rw [hocsp]
      simp [hconfigured]
    rw [hgood]
    cases hstatus : checkOneCertOcsp env crates options request cert issuer with
    | error failure => simp [hmode]
    | ok status =>
      cases status with
      | good => simp
      | revoked => simp
      | unknown => simp [hmode]
      | notConfigured =>
        rcases hocsp.mp hstatus with ⟨hnot, -⟩ | ⟨-, hsays⟩
        · exact absurd hconfigured hnot
        · exact absurd hsays not_ocspSays_notConfigured
  · rw [if_neg hconfigured, hocsp.mpr (.inl ⟨hconfigured, rfl⟩)]
    exact hcrl

/-! ## A chain -/

/-- A certificate of the chain with its issuer, which is the next one. -/
def IsLink (leaf : Cert) (chain : List Cert) (idx : Nat) (cert issuer : Cert) : Prop :=
  (leaf :: chain)[idx]? = some cert ∧ (leaf :: chain)[idx + 1]? = some issuer

/-- The loop passes exactly if each check passes. -/
theorem checkRevocationFrom_eq_ok {idx : Nat} {leaf : Cert} {chain : List Cert} :
    checkRevocationFrom env crates options idx (leaf :: chain) = .ok () ↔
      ∀ i cert issuer, IsLink leaf chain i cert issuer →
        checkRevocation (atRequest env crates options (idx + i)) cert issuer
          options.toOnlineTrustOptions = .ok () := by
  induction chain generalizing idx leaf with
  | nil =>
    refine iff_of_true rfl ?_
    intro i cert issuer ⟨_, hissuer⟩
    simp at hissuer
  | cons issuer chain ih =>
    rw [checkRevocationFrom, Outcome.bind_eq_ok]
    constructor
    · intro ⟨_, hfirst, hrest⟩ i cert other hlink
      cases i with
      | zero =>
        obtain ⟨hcert, hother⟩ := hlink
        obtain rfl := Option.some.inj hcert
        obtain rfl := Option.some.inj hother
        exact hfirst
      | succ i =>
        have := ih.mp hrest i cert other hlink
        rwa [show idx + 1 + i = idx + (i + 1) by omega] at this
    · intro hall
      refine ⟨(), hall 0 leaf issuer ⟨rfl, rfl⟩, ih.mpr ?_⟩
      intro i cert other hlink
      have := hall (i + 1) cert other hlink
      rwa [show idx + (i + 1) = idx + 1 + i by omega] at this

/-- **The revocation policy.**  Without revocation checks every chain passes.  In the
best-effort mode a chain fails if a certificate is stated to be revoked, and no other chain
fails as long as neither the libraries nor the URLs of the CRLs use the word `revoked`.  In
the strict mode a chain passes exactly if every certificate but the last is stated not to be
revoked. -/
theorem revocation_chain_policy (leaf : Cert) (chain : List Cert) :
    (options.revocationMode = .off →
      checkRevocationChain env crates options leaf chain = .ok ()) ∧
    (options.revocationMode = .bestEffort →
      ((∃ idx cert issuer, IsLink leaf chain idx cert issuer ∧
          SaysRevoked env crates options idx cert issuer) →
        checkRevocationChain env crates options leaf chain ≠ .ok ()) ∧
      (QuietLibraries env crates →
        (∀ idx cert issuer, IsLink leaf chain idx cert issuer →
          ∀ url ∈ crlUrl env options cert, ¬ mentionsRevoked url) →
        checkRevocationChain env crates options leaf chain ≠ .ok () →
        ∃ idx cert issuer, IsLink leaf chain idx cert issuer ∧
          SaysRevoked env crates options idx cert issuer)) ∧
    (options.revocationMode = .require →
      (checkRevocationChain env crates options leaf chain = .ok () ↔
        ∀ idx cert issuer, IsLink leaf chain idx cert issuer →
          SaysGood env crates options idx cert issuer)) := by
  unfold checkRevocationChain
  refine ⟨fun hmode => if_pos hmode, ?_, ?_⟩
  · intro hmode
    rw [if_neg (by simp [hmode]), ne_eq, checkRevocationFrom_eq_ok]
    constructor
    · rintro ⟨idx, cert, issuer, hlink, hsays⟩ hall
      have hpasses := hall idx cert issuer hlink
      rw [Nat.zero_add] at hpasses
      exact checkRevocation_of_saysRevoked hsays hpasses
    · intro hlibraries hurls hfails
      by_contra hnone
      apply hfails
      intro idx cert issuer hlink
      rw [Nat.zero_add, checkRevocation_bestEffort hlibraries (hurls idx cert issuer hlink) hmode]
      intro hsays
      exact hnone ⟨idx, cert, issuer, hlink, hsays⟩
  · intro hmode
    rw [if_neg (by simp [hmode]), checkRevocationFrom_eq_ok]
    refine forall₃_congr fun idx cert issuer => imp_congr_right fun hlink => ?_
    rw [Nat.zero_add]
    exact checkRevocation_require hmode

end

/-! ## Samples -/

namespace Sample

/-- The certificate authority. -/
def authority : CertFields := ⟨1, [0x41], [0x41], [1], [], []⟩

/-- A certificate of the authority. -/
def subject : CertFields := ⟨2, [0x41], [0x42], [2], [], []⟩

/-- The decoders know the two certificates. -/
def tables : Tables :=
  ⟨[], [], [], [authority.certificate, subject.certificate], [], [], [], []⟩

set_option maxRecDepth 2000

theorem tables_valid : tables.Valid := by decide

/-- All times are the first day of 2024, which is today. -/
def env : Environment :=
  { tables.environment tables_valid with
    timeFromDer := fun _ => .ok 1704067200
    fromUnixTimestamp := fun _ => some ⟨2024, 1, 1, 0, 0, 0⟩ }

/-- `sha256WithRSAEncryption`. -/
def signatureAlgorithm : List UInt8 :=
  [0x30, 0x0d, 0x06, 0x09, 0x2a, 0x86, 0x48, 0x86, 0xf7, 0x0d, 0x01, 0x01, 0x0b, 0x05, 0x00]

/-- The signed part of a CRL that lists nothing. -/
def tbsCertList : List UInt8 :=
  sequence [signatureAlgorithm, sequence [], Der.encodeTlv 0x17 [], Der.encodeTlv 0x17 []]

/-- The signed part of a CRL that lists the certificate of the authority. -/
def tbsRevokedList : List UInt8 :=
  sequence [signatureAlgorithm, sequence [], Der.encodeTlv 0x17 [], Der.encodeTlv 0x17 [],
    sequence [sequence [Der.encodeTlv 0x02 [2], Der.encodeTlv 0x17 []]]]

/-- The CRL that the authority signs. -/
def signedCrl (tbs : List UInt8) : List UInt8 :=
  sequence [tbs, signatureAlgorithm,
    Der.encodeTlv 0x03 (0 :: (authority.spkiDer ++ Hashes.mixing.hash .sha256 tbs))]

/-- No server answers. -/
def silent : RevocationCrates where
  subjectToDer x509 := .ok x509.issuer
  serialToDer x509 := .ok (Der.encodeTlv 0x02 x509.serialNumber)
  publicKeyBits x509 := x509.spkiDer
  httpGetLimited _ _ := Outcome.bail "connect"
  httpPostLimited _ _ _ := Outcome.bail "connect"

/-- The CRL is served, and no OCSP responder answers. -/
def serving (tbs : List UInt8) : RevocationCrates :=
  { silent with httpGetLimited := fun _ _ => .ok (signedCrl tbs) }

/-- The options of a mode and a CRL. -/
def optionsOf (mode : RevocationMode) (ocspUrl : Option String) (crlUrl : String) :
    RevocationOptions :=
  ⟨⟨false, none, mode⟩, false, ocspUrl, some crlUrl⟩

theorem quietLibraries (tbs : List UInt8) : QuietLibraries env (serving tbs) where
  certificate h := by
    obtain ⟨-, hmessage⟩ := ofOption_eq_error.mp h
    rw [Failure.error.inj hmessage, mentionsRevoked_ofList]
    decide
  rsaPublicKey h := by simp [env, Tables.environment, Tables.cmsCrates] at h
  pkcs1v15Signature h := by simp [env, Tables.environment, Tables.cmsCrates] at h
  verifyPrehash h := by
    obtain ⟨-, hmessage⟩ := guardThat_eq_error.mp h
    rw [Failure.error.inj hmessage, mentionsRevoked_ofList]
    decide
  serialToDer h := by simp [serving, silent] at h

end Sample

open Sample in
/-- In the best-effort mode the chain fails because of a CRL that lists the certificate.  In the
strict mode it passes with a CRL that lists nothing, also with the word `revoked` in its URL. -/
theorem revocation_chain_policy_strict :
    (∃ idx cert issuer, IsLink subject.cert [authority.cert] idx cert issuer ∧
      SaysRevoked env (serving tbsRevokedList)
        (optionsOf .bestEffort none "http://ca.test/ca.crl") idx cert issuer) ∧
    ∀ idx cert issuer, IsLink subject.cert [authority.cert] idx cert issuer →
      SaysGood env (serving tbsCertList) (optionsOf .require none "http://ca.test/revoked.crl") idx
        cert issuer := by
  constructor
  · refine ((revocation_chain_policy subject.cert [authority.cert]).2.1 rfl).2
      (quietLibraries tbsRevokedList) ?_ (by decide +kernel)
    intro idx cert issuer _ url hurl
    obtain rfl : url = "http://ca.test/ca.crl" := (Option.mem_some.mp hurl).symm
    rw [mentionsRevoked_ofList]
    decide
  · exact ((revocation_chain_policy subject.cert [authority.cert]).2.2 rfl).mp (by decide +kernel)

open Sample in
/-- In the best-effort mode a CRL that cannot be fetched fails the chain because of its URL.
In the strict mode a good CRL does not help where the OCSP responder does not answer. -/
theorem revocation_by_url_and_without_ocsp :
    (checkRevocationChain env silent (optionsOf .bestEffort none "http://ca.test/revoked.crl")
        subject.cert [authority.cert] ≠ .ok () ∧
      ∀ idx cert issuer, ¬ SaysRevoked env silent
        (optionsOf .bestEffort none "http://ca.test/revoked.crl") idx cert issuer) ∧
    (checkRevocationChain env (serving tbsCertList)
        (optionsOf .require (some "http://ca.test/ocsp") "http://ca.test/ca.crl")
        subject.cert [authority.cert] ≠ .ok () ∧
      CrlSays env (serving tbsCertList)
        (optionsOf .require (some "http://ca.test/ocsp") "http://ca.test/ca.crl") 0 subject.cert
        authority.cert false) := by
  refine ⟨⟨by decide +kernel, ?_⟩, by decide +kernel, checkOneCertCrl_eq_ok.mp (by decide +kernel)⟩
  intro idx cert issuer hsays
  rcases hsays with ⟨hconfigured, -⟩ | ⟨-, hcrl⟩
  · exact absurd hconfigured (by decide)
  · obtain ⟨_, _, _, _, _, hbytes, -⟩ := hcrl
    exact Outcome.bail_ne_ok hbytes

end Psign.Trust.Online
