import Psign.CodeLib.RustStr
import Psign.Sip.Timestamp
import Psign.Trust.TrustPkcs7

/-!
# Timestamp tokens

`rfc3161_extract.rs`: the search for an RFC 3161 token in the unsigned attributes
of a signer, and its verification.

A token is decoded loosely.  It may be wrapped in an octet string, its `TSTInfo`
may be wrapped several times, and its certificate bag is rewritten when the `cms`
crate cannot decode it.  What a verified token says is `TimestampEvidence`.  That
the rewriting keeps the signer infos is `decoded_signerInfos`: a blob that this
module decodes has the signer infos that any other decoding of it finds.
-/

namespace Psign.Trust

open CodeLib CodeLib.Der Psign.Sip

variable (env : Environment)

/-! ## Decoding a token -/

/-- `ID_CT_TSTINFO`. -/
def idCtTstinfo : String := "1.2.840.113549.1.9.16.1.4"

/-- `ID_AA_TIME_STAMP_TOKEN`. -/
def idAaTimeStampToken : String := "1.2.840.113549.1.9.16.2.14"

/-- `OID_MS_TIMESTAMP_TOKEN`. -/
def oidMsTimestampToken : String := "1.3.6.1.4.1.311.3.3.1"

/-- `TIME_STAMPING_EKU_OID`. -/
def timeStampingEkuOid : String := "1.3.6.1.5.5.7.3.8"

/-- `encode_der_length`. -/
def encodeDerLength (len : Nat) : List UInt8 :=
  if len < 0x80 then [UInt8.ofNat len]
  else if len ≤ 0xff then [0x81, UInt8.ofNat len]
  else if len ≤ 0xffff then [0x82, UInt8.ofNat (len / 256), UInt8.ofNat (len % 256)]
  else
    [0x83, UInt8.ofNat (len / 65536), UInt8.ofNat (len / 256 % 256), UInt8.ofNat (len % 256)]

/-- `encode_der_sequence`. -/
def encodeDerSequence (body : List UInt8) : List UInt8 :=
  0x30 :: (encodeDerLength body.length ++ body)

/-- `encode_der_context_specific_constructed`. -/
def encodeDerContextSpecificConstructed (number : UInt8) (body : List UInt8) : List UInt8 :=
  (0xa0 ||| number) :: (encodeDerLength body.length ++ body)

/-- `is_context_specific_constructed`. -/
def isContextSpecificConstructed (tlv : List UInt8) (number : UInt8) : Bool :=
  match tlv.head? with
  | none => false
  | some tag => tag = (0xa0 ||| number)

/-- `split_der_tlv`. -/
def splitDerTlv (input : List UInt8) : Option (List UInt8 × List UInt8) := do
  let (_, len, after) ← (env.cms.header input).toOption
  let (_, rest) ← (readSlice len after).toOption
  let tlvLen := input.length - rest.length
  return (input.take tlvLen, input.drop tlvLen)

/-- The loop that splits a byte string into elements, for at most `fuel` of them. -/
def splitDerTlvs : Nat → List UInt8 → Option (List (List UInt8))
  | _, [] => some []
  | 0, _ :: _ => none
  | fuel + 1, byte :: pos => do
    let (tlv, rest) ← splitDerTlv env (byte :: pos)
    let tlvs ← splitDerTlvs fuel rest
    return tlv :: tlvs

/-- `filter_a0_certificate_set_keep_x509_only`. -/
def filterA0CertificateSetKeepX509Only (a0Tlv : List UInt8) : Option (List UInt8) := do
  guard (isContextSpecificConstructed a0Tlv 0 = true)
  let (_, len, after) ← (env.cms.header a0Tlv).toOption
  let (body, _) ← (readSlice len after).toOption
  let tlvs ← splitDerTlvs env body.length body
  let kept := (tlvs.filter fun tlv => tlv.head? = some 0x30).flatten
  return if kept.isEmpty then [] else encodeDerContextSpecificConstructed 0 kept

/-- The certificate field that `rewrite_cms_signed_data_for_timestamp_decode` keeps. -/
def keptCertificates (a0Tlv : List UInt8) : List UInt8 :=
  (filterA0CertificateSetKeepX509Only env a0Tlv).getD []

/-- The fields after the first three: the certificates filtered, CRLs dropped. -/
def rewriteOptionalFields (fields : List (List UInt8)) : List (List UInt8) :=
  let (certificates, fields) :=
    match fields with
    | first :: rest =>
      if isContextSpecificConstructed first 0 then ([keptCertificates env first], rest)
      else ([], fields)
    | [] => ([], [])
  match fields with
  | first :: rest =>
    if isContextSpecificConstructed first 1 then certificates ++ rest else certificates ++ fields
  | [] => certificates

/-- `rewrite_cms_signed_data_for_timestamp_decode`. -/
def rewriteCmsSignedDataForTimestampDecode (sdTlv : List UInt8) : Option (List UInt8) := do
  let (tag, len, after) ← (env.cms.header sdTlv).toOption
  guard (tag = 0x30)
  let (body, _) ← (readSlice len after).toOption
  let fields ← splitDerTlvs env body.length body
  guard (4 ≤ fields.length)
  return encodeDerSequence
    ((fields.take 3).flatten ++ (rewriteOptionalFields env (fields.drop 3)).flatten)

/-- `signed_data_from_content_info`. -/
def signedDataFromContentInfo (ci : ContentInfo) : Option SignedData :=
  if ci.contentType ≠ idSignedDataOid then none
  else
    match env.cms.signedData ci.content.toDer with
    | .ok sd => some sd
    | .error _ => do
      let rewritten ← rewriteCmsSignedDataForTimestampDecode env ci.content.toDer
      (env.cms.signedData rewritten).toOption

/-- `signed_data_from_pkcs7`. -/
def signedDataFromPkcs7 (pkcs7Der : List UInt8) : Option SignedData := do
  (env.cms.sliceReader pkcs7Der).toOption
  let ci ← (env.cms.contentInfo pkcs7Der).toOption
  signedDataFromContentInfo env ci

/-- `peel_octet_string_outer`. -/
def peelOctetStringOuter (bytes : List UInt8) : Option (List UInt8) := do
  (env.cms.sliceReader bytes).toOption
  (env.cms.octetStringRef bytes).toOption

/-- `decode_content_info_loose`. -/
def decodeContentInfoLoose (bytes : List UInt8) : Option ContentInfo := do
  (env.cms.sliceReader bytes).toOption
  match env.cms.contentInfo bytes with
  | .ok ci => some ci
  | .error _ => do
    let inner ← peelOctetStringOuter env bytes
    (env.cms.sliceReader inner).toOption
    (env.cms.contentInfo inner).toOption

/-- `timestamp_content_info_from_attribute_value`. -/
def timestampContentInfoFromAttributeValue (val : DerAny) : Option ContentInfo :=
  decodeContentInfoLoose env val.toDer <|> decodeContentInfoLoose env val.value

/-! ## The TSTInfo and its time -/

/-- The loop of `peel_to_tstinfo_sequence`. -/
def peelToTstinfoFrom : Nat → List UInt8 → Option (List UInt8)
  | 0, _ => none
  | rounds + 1, sl => do
    let tag ← sl.head?
    if tag = 0x30 then some sl
    else if tag = 0x04 then peelToTstinfoFrom rounds (← peelOctetStringOuter env sl)
    else if tag = 0xa0 ∨ tag = 0xa1 then do
      let (hTag, len, after) ← (env.cms.header sl).toOption
      guard (hTag &&& 0x20 ≠ 0)
      let (inner, _) ← (readSlice len after).toOption
      peelToTstinfoFrom rounds inner
    else none

/-- `peel_to_tstinfo_sequence`. -/
def peelToTstinfoSequence (sl : List UInt8) : Option (List UInt8) :=
  peelToTstinfoFrom env 8 sl

/-- `der_skip_tlv`: what follows the first element. -/
def derSkipTlv (bytes : List UInt8) : Option (List UInt8) := do
  let (_, len, after) ← (env.cms.header bytes).toOption
  let (_, rest) ← (readSlice len after).toOption
  return rest

/-- The number that decimal digits spell. -/
def decimal (digits : List Char) : Nat :=
  digits.foldl (fun n c => n * 10 + (c.toNat - '0'.toNat)) 0

/-- `utc_date_from_generalized_time_contents`. -/
def utcDateFromGeneralizedTimeContents (body : List UInt8) : Option UtcDate := do
  let s := RustStr.trim (← Unicode.fromUtf8 body)
  let s ← RustStr.stripSuffix ['Z'] s <|> RustStr.stripSuffix ['z'] s
  let main := s.takeWhile (· ≠ '.')
  let frac := (s.dropWhile (· ≠ '.')).tail
  if '.' ∈ s then guard (frac ≠ [] ∧ frac.all Char.isDigit = true)
  guard (main.all Char.isDigit = true)
  let field := fun start stop => decimal ((main.take stop).drop start)
  guard (main.length = 14 ∨ main.length = 12)
  env.calendar (field 0 4) (field 4 6) (field 6 8) (field 8 10) (field 10 12)
    (if main.length = 14 then field 12 14 else 0)

/-- `tstinfo_gen_time`. -/
def tstinfoGenTime (tstinfoDer : List UInt8) : Option UtcDate := do
  (env.cms.sliceReader tstinfoDer).toOption
  let (tag, len, after) ← (env.cms.header tstinfoDer).toOption
  guard (tag = 0x30)
  let (inner, _) ← (readSlice len after).toOption
  let sr ← derSkipTlv env inner  -- version
  let sr ← derSkipTlv env sr  -- policy
  let sr ← derSkipTlv env sr  -- messageImprint
  let sr ← derSkipTlv env sr  -- serialNumber
  let (gtTag, gtLen, gtAfter) ← (env.cms.header sr).toOption
  guard (gtTag = 0x18)
  let (gtBody, _) ← (readSlice gtLen gtAfter).toOption
  utcDateFromGeneralizedTimeContents env gtBody

/-! ## The search -/

/-- A token with the `TSTInfo` in it and its time. -/
structure FoundToken where
  token : ContentInfo
  tstinfoDer : List UInt8
  genDate : UtcDate
  deriving DecidableEq

/-- The test of one attribute value in `timestamp_token_from_attribute`. -/
def timestampTokenFromValue (val : DerAny) : Option FoundToken := do
  let token ← timestampContentInfoFromAttributeValue env val
  let sd ← signedDataFromContentInfo env token
  guard (sd.econtentType = idCtTstinfo)
  let any ← sd.econtent
  let tstinfoDer ← peelToTstinfoSequence env any.value
  let genDate ← tstinfoGenTime env tstinfoDer
  return ⟨token, tstinfoDer, genDate⟩

/-- `timestamp_token_from_attribute`. -/
def timestampTokenFromAttribute (attr : Attribute) : Option FoundToken :=
  attr.values.findSome? (timestampTokenFromValue env)

/-- `timestamp_attr_priority`. -/
def timestampAttrPriority (attr : Attribute) : Option Nat :=
  if attr.oid = idAaTimeStampToken then some 0
  else if attr.oid = oidMsTimestampToken then some 1
  else none

/-- The first unsigned attribute with a result: known timestamp attributes first,
then any other. -/
def probeUnsignedAttrs {α : Type} (probe : Attribute → Option α) (si : SignerInfo) : Option α := do
  let attrs ← si.unsignedAttrs
  (attrs.filter fun attr => (timestampAttrPriority attr).isSome).findSome? probe <|>
    (attrs.filter fun attr => (timestampAttrPriority attr).isNone).findSome? probe

/-- `timestamp_token_from_signer_unsigned_attrs`. -/
def timestampTokenFromSignerUnsignedAttrs (si : SignerInfo) : Option FoundToken :=
  probeUnsignedAttrs (timestampTokenFromAttribute env) si

/-! ## A date without trust -/

/-- `ID_SIGNING_TIME`. -/
def idSigningTime : String := "1.2.840.113549.1.9.5"

/-- `utc_date_from_unsigned_attr_payload`. -/
def utcDateFromUnsignedAttrPayload (payload : List UInt8) : Option UtcDate := do
  let ci ← decodeContentInfoLoose env payload
  let sd ← signedDataFromContentInfo env ci
  guard (sd.econtentType = idCtTstinfo)
  let any ← sd.econtent
  let tst ← peelToTstinfoSequence env any.value
  tstinfoGenTime env tst

/-- `utc_date_from_timestamp_attribute`. -/
def utcDateFromTimestampAttribute (attr : Attribute) : Option UtcDate :=
  attr.values.findSome? fun val =>
    utcDateFromUnsignedAttrPayload env val.toDer <|> utcDateFromUnsignedAttrPayload env val.value

/-- `utc_date_from_signing_time_attr_any`. -/
def utcDateFromSigningTimeAttrAny (val : DerAny) : Option UtcDate := do
  (env.cms.sliceReader val.toDer).toOption
  let secs ← (env.timeFromDer val.toDer).toOption
  env.fromUnixTimestamp secs

/-- `utc_date_from_signer_signed_attrs`. -/
def utcDateFromSignerSignedAttrs (si : SignerInfo) : Option UtcDate := do
  let attrs ← si.signedAttrs
  (attrs.filter fun attr => attr.oid = idSigningTime).findSome? fun attr =>
    attr.values.findSome? (utcDateFromSigningTimeAttrAny env)

/-- The loop of `utc_date_from_authenticode_timestamp_token`. -/
def utcDateFromSigners (signingTimeFallback : Option UtcDate) : List SignerInfo → Option UtcDate
  | [] => signingTimeFallback
  | si :: rest =>
    match probeUnsignedAttrs (utcDateFromTimestampAttribute env) si with
    | some d => some d
    | none => utcDateFromSigners (signingTimeFallback <|> utcDateFromSignerSignedAttrs env si) rest

/-- `utc_date_from_authenticode_timestamp_token`. -/
def utcDateFromAuthenticodeTimestampToken (pkcs7Der : List UInt8) : Option UtcDate := do
  let sd ← signedDataFromPkcs7 env pkcs7Der
  utcDateFromSigners env none sd.signerInfos

/-! ## The verification -/

/-- `digest_for_oid`. -/
def digestForOid (oid : String) (data : List UInt8) : Outcome (List UInt8) :=
  match digestKind? oid with
  | some kind => .ok (env.cms.hashes.hash kind data)
  | none => Outcome.bail ("unsupported timestamp MessageImprint digest algorithm " ++ oid)

/-- The loop of `x509_cert_has_time_stamping_eku`. -/
def anyTimeStampingEku : List Extension → Outcome Bool
  | [] => .ok false
  | ext :: rest =>
    if ext.extnId = ekuExtensionOid then do
      let eku ← (env.cms.extendedKeyUsage ext.extnValue).mapErr fun e =>
        "timestamp ExtendedKeyUsage extension: " ++ e
      if timeStampingEkuOid ∈ eku then .ok true else anyTimeStampingEku rest
    else anyTimeStampingEku rest

/-- `x509_cert_has_time_stamping_eku`. -/
def x509CertHasTimeStampingEku (cert : Certificate) : Outcome Bool :=
  match cert.extensions with
  | none => .ok false
  | some exts => anyTimeStampingEku env exts

/-- `signed_data_embedded_picky_certs` of this file. -/
def timestampEmbeddedPickyCerts (sd : SignedData) : Outcome (List Cert) :=
  match sd.certificates with
  | none => .ok []
  | some set => pickyCertsOf env "timestamp embedded certificate" set

/-- `verify_timestamp_token`; what it prints is left out. -/
def verifyTimestampToken (fuel : Nat) (found : FoundToken) (primarySignature : List UInt8)
    (anchors : AnchorStore) (anchorCerts : List Cert) (online : OnlineTrustOptions) :
    Outcome UtcDate := do
  let tsSd ← Outcome.ofOption (signedDataFromContentInfo env found.token)
    "timestamp token SignedData decode failed (after stripping unsupported cert choices)"
  let parsed ← Outcome.ofOption (parseTstInfoDer env.cms found.tstinfoDer)
    "timestamp token TSTInfo parse failed"
  let expectedImprint ← digestForOid env parsed.messageImprintDigestAlgOid primarySignature
  Outcome.guardThat (parsed.messageImprintHashedMessage = expectedImprint)
    "timestamp token MessageImprint does not match primary signer signature"
  let tstDigest := env.cms.hashes.hash .sha256 found.tstinfoDer
  (verifySignedDataPkcs9MessageDigestAndRsaSha256Pkcs1v15Signature env.cms tsSd 0
    tstDigest).mapErr fun e => "timestamp token CMS signature: " ++ e
  let si ← Outcome.ofOption tsSd.signerInfos.head? "timestamp token SignedData has no SignerInfo"
  let tsaX509 ← (signedDataCertificateForSignerIdentifier env.cms tsSd si.sid).mapErr fun e =>
    "timestamp token signer certificate: " ++ e
  let timeStamping ← x509CertHasTimeStampingEku env tsaX509
  Outcome.guardThat (timeStamping = true)
    "timestamp token signer certificate lacks timeStamping extended key usage"
  let tsaLeaf ← (env.picky.certFromDer tsaX509.der).mapErr fun e => "timestamp signer Cert: " ++ e
  let embeddedCerts ← timestampEmbeddedPickyCerts env tsSd
  let merged := mergeUniqueCerts env.cms.hashes anchorCerts embeddedCerts
  let chain ← issuerChainExcludingLeafOnline env fuel tsaLeaf merged online (some anchors)
  let rootThumb := certSha1Thumbprint env.cms.hashes (terminalRootCert tsaLeaf chain)
  Outcome.guardThat (anchors.containsThumbprint rootThumb = true)
    "timestamp token TSA chain terminates at an untrusted root"
  checkRevocationChain env tsaLeaf chain online
  (env.picky.verifyChain tsaLeaf chain found.genDate).mapErr fun e =>
    "timestamp token TSA chain verification: " ++ e
  return found.genDate

/-- `trusted_utc_date_from_authenticode_timestamp_token`. -/
def trustedUtcDateFromAuthenticodeTimestampToken (fuel : Nat) (pkcs7Der : List UInt8)
    (anchors : AnchorStore) (anchorCerts : List Cert) (online : OnlineTrustOptions) :
    Outcome (Option UtcDate) :=
  match signedDataFromPkcs7 env pkcs7Der with
  | none => .ok none
  | some outerSd =>
    match outerSd.signerInfos.head? with
    | none => .ok none
    | some primarySi =>
      match timestampTokenFromSignerUnsignedAttrs env primarySi with
      | none => .ok none
      | some found => do
        let date ← verifyTimestampToken env fuel found primarySi.signature anchors anchorCerts online
        return some date

/-! ## Decoding keeps the signer infos -/

variable {env}

theorem encodeDerLength_eq {n : Nat} (h : n < 256 ^ 3) : encodeDerLength n = encodeLength n := by
  rw [encodeLength_of_lt h, encodeDerLength]

/-- A sequence that reads back as one element was short enough for its length. -/
theorem length_lt_of_encodeDerSequence {body : List UInt8} {element : Tlv}
    (h : readTlv 4 (encodeDerSequence body) = some (element, [])) : body.length < 256 ^ 3 := by
  obtain ⟨hraw, hisTlv⟩ := readTlv_eq_some.mp h
  obtain ⟨lengthOctets, hshape, hread⟩ := hisTlv.exists_header
  rw [List.append_nil, hshape, encodeDerSequence, List.cons.injEq] at hraw
  rw [← hraw.2] at hread
  have hlength := congrArg List.length hraw.2
  rw [List.length_append, List.length_append] at hlength
  by_contra hlong
  -- a longer body has its length cut off at three octets
  have hoctets : encodeDerLength body.length = [0x83, UInt8.ofNat (body.length / 65536),
      UInt8.ofNat (body.length / 256 % 256), UInt8.ofNat (body.length % 256)] := by
    unfold encodeDerLength
    rw [if_neg (by omega), if_neg (by omega), if_neg (by omega)]
  rw [hoctets] at hread hlength
  obtain ⟨-, -, -, hlt⟩ := hdr_le_of_readLength hread
  have hfour : lengthOctets.length = 4 := by
    simp only [readLength, List.cons_append, List.nil_append, List.length_cons] at hread
    have hfirst : (0x83 : UInt8).toNat = 131 := rfl
    rw [hfirst, if_neg (by decide), if_neg (by omega), Option.some.injEq, Prod.mk.injEq] at hread
    exact hread.2.symm
  rw [hfour] at hlt hlength
  simp only [List.length_cons, List.length_nil] at hlength
  have := hlt (by omega)
  omega

/-- Elements that are split off one after the other make up the bytes. -/
theorem splitDerTlvs_eq_some {fuel : Nat} {bytes : List UInt8} {pieces : List (List UInt8)}
    (h : splitDerTlvs env fuel bytes = some pieces) :
    ∃ tlvs, readTlvs 4 bytes = some tlvs ∧ tlvs.map Tlv.raw = pieces := by
  induction fuel generalizing bytes pieces with
  | zero =>
    cases bytes with
    | nil => exact ⟨[], rfl, by simpa [splitDerTlvs] using h⟩
    | cons byte bytes => simp [splitDerTlvs] at h
  | succ fuel ih =>
    cases bytes with
    | nil => exact ⟨[], rfl, by simpa [splitDerTlvs] using h⟩
    | cons byte pos =>
      simp only [splitDerTlvs, splitDerTlv, readSlice, Option.bind_eq_bind,
        Option.bind_eq_some_iff, Prod.exists, Option.pure_def, Option.some.injEq,
        Outcome.toOption_eq_some, Prod.mk.injEq] at h
      obtain ⟨_, _, ⟨tag, len, after, hheader, _, rest, hslice, rfl, rfl⟩, others, hothers, rfl⟩ := h
      by_cases hle : len ≤ after.length
      · rw [if_pos hle, Except.ok.injEq, Prod.mk.injEq] at hslice
        obtain ⟨-, rfl⟩ := hslice
        obtain ⟨element, hread, -, -⟩ := env.cms.header_reads hheader hle
        obtain ⟨hbytes, -⟩ := readTlv_eq_some.mp hread
        have hlen : (byte :: pos).length - (after.drop len).length = element.raw.length := by
          rw [hbytes, List.length_append, Nat.add_sub_cancel]
        rw [hlen, hbytes, List.drop_left] at hothers
        obtain ⟨tlvs, htlvs, rfl⟩ := ih hothers
        refine ⟨element :: tlvs, ?_, ?_⟩
        · rw [readTlvs_of_readTlv hread, htlvs]
          rfl
        · rw [List.map_cons, hlen, hbytes, List.take_left]
      · rw [if_neg hle] at hslice
        exact absurd hslice Outcome.bail_ne_ok

/-- The certificate field that is kept is a certificate set or nothing. -/
private theorem keptCertificates_eq (a0Tlv : List UInt8)
    (hlt : (keptCertificates env a0Tlv).length < 256 ^ 3) :
    ∃ extra, keptCertificates env a0Tlv = rawOf extra ∧
      ∀ tlv ∈ extra, IsTlv 4 tlv ∧ tlv.tag = 0xa0 := by
  unfold keptCertificates at hlt ⊢
  cases hfilter : filterA0CertificateSetKeepX509Only env a0Tlv with
  | none => exact ⟨[], rfl, by simp⟩
  | some kept =>
    rw [hfilter, Option.getD_some] at hlt
    rw [Option.getD_some]
    simp only [filterA0CertificateSetKeepX509Only, Option.bind_eq_bind, Option.bind_eq_some_iff,
      Option.pure_def, Option.some.injEq] at hfilter
    obtain ⟨_, -, _, -, _, -, tlvs, -, hkept⟩ := hfilter
    generalize (tlvs.filter fun tlv => tlv.head? = some 0x30).flatten = content at hkept
    by_cases hempty : content.isEmpty = true
    · rw [if_pos hempty] at hkept
      exact ⟨[], hkept.symm, by simp⟩
    · rw [if_neg hempty] at hkept
      subst hkept
      have hcontent : content.length < 256 ^ 3 := by
        simp only [encodeDerContextSpecificConstructed, List.length_cons,
          List.length_append] at hlt
        omega
      refine ⟨[⟨0xa0, encodeTlv 0xa0 content, content⟩], ?_, ?_⟩
      · rw [encodeDerContextSpecificConstructed, encodeDerLength_eq hcontent, rawOf_cons, rawOf_nil,
          List.append_nil]
        rfl
      · intro tlv htlv
        obtain rfl := List.mem_singleton.mp htlv
        exact ⟨isTlv_encodeTlv (by omega) (by decide), rfl⟩

/-- The rewriting of the optional fields changes nothing behind certificates and CRLs. -/
private theorem rewriteOptionalFields_eq (fields : List Tlv)
    (hlt : (rewriteOptionalFields env (fields.map Tlv.raw)).flatten.length < 256 ^ 3) :
    ∃ extra tail, (rewriteOptionalFields env (fields.map Tlv.raw)).flatten =
        rawOf extra ++ rawOf tail ∧
      (∀ tlv ∈ extra, IsTlv 4 tlv ∧ tlv.tag = 0xa0) ∧ tail <:+ fields := by
  -- behind the certificates `extra`, at most one element is dropped
  have hcrls : ∀ (certificates : List (List UInt8)) (rest : List Tlv), rest <:+ fields →
      rewriteOptionalFields env (fields.map Tlv.raw) =
        (match rest.map Tlv.raw with
          | first :: more =>
            if isContextSpecificConstructed first 1 then certificates ++ more
            else certificates ++ rest.map Tlv.raw
          | [] => certificates) →
      (certificates.flatten.length < 256 ^ 3 → ∃ extra, certificates.flatten = rawOf extra ∧
        ∀ tlv ∈ extra, IsTlv 4 tlv ∧ tlv.tag = 0xa0) →
      ∃ extra tail, (rewriteOptionalFields env (fields.map Tlv.raw)).flatten =
          rawOf extra ++ rawOf tail ∧
        (∀ tlv ∈ extra, IsTlv 4 tlv ∧ tlv.tag = 0xa0) ∧ tail <:+ fields := by
    intro certificates rest hsuffix heq hextra
    have htail : ∃ tail, tail <:+ rest ∧ rewriteOptionalFields env (fields.map Tlv.raw) =
        certificates ++ tail.map Tlv.raw := by
      cases rest with
      | nil => exact ⟨[], List.suffix_refl _, by rw [heq]; simp⟩
      | cons first more =>
        by_cases hcrl : isContextSpecificConstructed first.raw 1 = true
        · exact ⟨more, List.suffix_cons _ _, by rw [heq]; simp [hcrl]⟩
        · exact ⟨first :: more, List.suffix_refl _, by rw [heq]; simp [hcrl]⟩
    obtain ⟨tail, hrest, hrewritten⟩ := htail
    rw [hrewritten, List.flatten_append, List.length_append] at hlt
    obtain ⟨extra, hflatten, hall⟩ := hextra (by omega)
    refine ⟨extra, tail, ?_, hall, hrest.trans hsuffix⟩
    rw [hrewritten, List.flatten_append, hflatten]
    rfl
  cases fields with
  | nil => exact hcrls [] [] (List.suffix_refl _) rfl fun _ => ⟨[], rfl, by simp⟩
  | cons first rest =>
    by_cases hcertificates : isContextSpecificConstructed first.raw 0 = true
    · refine hcrls [keptCertificates env first.raw] rest (List.suffix_cons _ _) ?_ ?_
      · simp only [rewriteOptionalFields, List.map_cons, hcertificates, if_true]
      · intro hkept
        rw [List.flatten_singleton] at hkept ⊢
        exact keptCertificates_eq first.raw hkept
    · refine hcrls [] (first :: rest) (List.suffix_refl _) ?_ fun _ => ⟨[], rfl, by simp⟩
      simp only [rewriteOptionalFields, List.map_cons, hcertificates]
      rfl

/-- What is decoded after the rewriting has the signer infos of the element that
was rewritten. -/
private theorem rewritten_signerInfos {element : Tlv} {rewritten : List UInt8} {sd : SignedData}
    (hisTlv : IsTlv 4 element)
    (hrewrite : rewriteCmsSignedDataForTimestampDecode env element.raw = some rewritten)
    (hsd : env.cms.signedData rewritten = .ok sd) :
    ∃ fields last tlvs, element.tag = 0x30 ∧ readTlvs 4 element.value = some fields ∧
      fields.getLast? = some last ∧ last.tag = 0x31 ∧ readTlvs 4 last.value = some tlvs ∧
      DecodedSet tlvs (sd.signerInfos.map SignerInfo.der) := by
  simp only [rewriteCmsSignedDataForTimestampDecode, readSlice, Option.bind_eq_bind,
    Option.bind_eq_some_iff, Prod.exists, Option.pure_def, Option.some.injEq,
    Outcome.toOption_eq_some, Option.guard_eq_some', exists_const] at hrewrite
  obtain ⟨tag, len, after, hheader, htag, body, rest, hslice, pieces, hpieces, hfour, hrewritten⟩ :=
    hrewrite
  have hle : len ≤ after.length := by
    by_contra hnot
    rw [if_neg hnot] at hslice
    exact Outcome.bail_ne_ok hslice
  rw [if_pos hle, Except.ok.injEq, Prod.mk.injEq] at hslice
  obtain ⟨found, hread, hfoundTag, hfoundValue⟩ := env.cms.header_reads hheader hle
  have helement : readTlv 4 element.raw = some (element, []) := hisTlv
  rw [hread, Option.some.injEq, Prod.mk.injEq] at helement
  obtain ⟨rfl, -⟩ := helement
  obtain ⟨fields, hfields, rfl⟩ := splitDerTlvs_eq_some hpieces
  rw [← hslice.1, ← hfoundValue] at hfields
  obtain ⟨element', fields', hread', -, hfields', hreads⟩ := env.cms.signedData_reads hsd
  rw [← hrewritten] at hread'
  have hlt := length_lt_of_encodeDerSequence hread'
  have hall := (readTlvs_eq_some.mp hfields).2
  have hoptional : (rewriteOptionalFields env ((fields.drop 3).map Tlv.raw)).flatten.length <
      256 ^ 3 := by
    rw [← List.map_drop, List.length_append] at hlt
    omega
  obtain ⟨extra, tail, hflatten, hextra, hsuffix⟩ :=
    rewriteOptionalFields_eq (fields.drop 3) hoptional
  -- the rewritten fields: the first three, the certificates that are kept, and the tail
  have hbody : ((fields.map Tlv.raw).take 3).flatten ++
      (rewriteOptionalFields env ((fields.map Tlv.raw).drop 3)).flatten =
        rawOf (fields.take 3 ++ extra ++ tail) := by
    rw [← List.map_drop, hflatten, ← List.map_take, rawOf_append, rawOf_append, List.append_assoc]
    rfl
  rw [hbody] at hlt hread'
  have hvalue : element'.value = rawOf (fields.take 3 ++ extra ++ tail) := by
    have hencoded : IsTlv 4 ⟨0x30, encodeTlv 0x30 (rawOf (fields.take 3 ++ extra ++ tail)),
        rawOf (fields.take 3 ++ extra ++ tail)⟩ := isTlv_encodeTlv (by omega) (by decide)
    rw [encodeDerSequence, encodeDerLength_eq hlt] at hread'
    have hsame := hread'.symm.trans hencoded
    exact congrArg Tlv.value (Prod.mk.inj (Option.some.inj hsame)).1
  have htail : ∀ tlv ∈ tail, IsTlv 4 tlv := fun tlv htlv =>
    hall tlv (List.mem_of_mem_drop (hsuffix.subset htlv))
  have hreadAll : readTlvs 4 element'.value = some (fields.take 3 ++ extra ++ tail) := by
    refine readTlvs_eq_some.mpr ⟨hvalue, ?_⟩
    intro tlv htlv
    rcases List.mem_append.mp htlv with hmem | hmem
    · rcases List.mem_append.mp hmem with hmem | hmem
      · exact hall tlv (List.mem_of_mem_take hmem)
      · exact (hextra tlv hmem).1
    · exact htail tlv hmem
  obtain rfl : fields' = fields.take 3 ++ extra ++ tail :=
    Option.some.inj (hfields'.symm.trans hreadAll)
  obtain ⟨last, hlast, hlastTag⟩ := hreads.signerInfos_tag
  obtain ⟨tlvs, htlvs, hset⟩ := hreads.signerInfos
  simp only [signerInfoTlvs, hlast, Option.bind_eq_bind, Option.bind_some] at htlvs
  refine ⟨fields, last, tlvs, hfoundTag.trans htag, hfields, ?_, hlastTag, htlvs, hset⟩
  · -- the signer infos are behind the certificates, so they are the last field before, too
    cases htailCases : tail with
    | nil =>
      subst htailCases
      rw [List.append_nil] at hlast
      cases hextraCases : extra.getLast? with
      | none =>
        have := hreads.length_fields
        rw [List.getLast?_eq_none_iff.mp hextraCases] at this
        simp only [List.append_nil, List.length_take] at this
        omega
      | some certificates =>
        rw [List.getLast?_append, hextraCases, Option.some_or, Option.some.injEq] at hlast
        subst hlast
        rw [(hextra _ (List.mem_of_getLast? hextraCases)).2] at hlastTag
        exact absurd hlastTag (by decide)
    | cons first more =>
      obtain ⟨front, hfront⟩ := hsuffix
      rw [htailCases] at hlast hfront
      have hsplit : fields = (fields.take 3 ++ front) ++ first :: more := by
        rw [List.append_assoc, hfront, List.take_append_drop]
      rw [hsplit, List.getLast?_append_cons, ← hlast, List.getLast?_append_cons]

/-- The signer infos of a blob that is decoded, whether its certificate bag had
to be rewritten or not. -/
theorem decoded_signerInfos {pkcs7Der : List UInt8} {sd : SignedData}
    (h : signedDataFromPkcs7 env pkcs7Der = some sd) :
    ∃ fields last tlvs, signedDataFields pkcs7Der = some fields ∧ fields.getLast? = some last ∧
      last.tag = 0x31 ∧ readTlvs 4 last.value = some tlvs ∧
      DecodedSet tlvs (sd.signerInfos.map SignerInfo.der) ∧
      ∀ si ∈ sd.signerInfos, env.cms.signerInfo si.der = .ok si := by
  simp only [signedDataFromPkcs7, signedDataFromContentInfo, Option.bind_eq_bind,
    Option.bind_eq_some_iff, Outcome.toOption_eq_some] at h
  obtain ⟨_, -, ci, hci, h⟩ := h
  by_cases htype : ci.contentType = idSignedDataOid
  · rw [if_neg (not_not.mpr htype)] at h
    cases hsd : env.cms.signedData ci.content.toDer with
    | ok decoded =>
      rw [hsd, Option.some.injEq] at h
      subst h
      obtain ⟨fields, hfields, hreads⟩ := signedDataFields_of_decoded hci htype hsd
      obtain ⟨last, hlast, hlastTag⟩ := hreads.signerInfos_tag
      obtain ⟨tlvs, htlvs, hset⟩ := hreads.signerInfos
      simp only [signerInfoTlvs, hlast, Option.bind_eq_bind, Option.bind_some] at htlvs
      exact ⟨fields, last, tlvs, hfields, hlast, hlastTag, htlvs, hset,
        fun si hsi => env.cms.signerInfo_of_signedData hsd hsi⟩
    | error failure =>
      rw [hsd] at h
      simp only [Option.bind_eq_some_iff, Outcome.toOption_eq_some] at h
      obtain ⟨rewritten, hrewrite, hrewrittenSd⟩ := h
      obtain ⟨element, helement, hraw⟩ :=
        Option.map_eq_some_iff.mp (env.cms.contentInfo_reads hci htype)
      rw [← hraw] at hrewrite
      obtain ⟨fields, last, tlvs, htag, hfields, hlast, hlastTag, htlvs, hset⟩ :=
        rewritten_signerInfos (isTlv_of_contentElement helement) hrewrite hrewrittenSd
      exact ⟨fields, last, tlvs, by simp [signedDataFields, helement, htag, hfields], hlast,
        hlastTag, htlvs, hset,
        fun si hsi => env.cms.signerInfo_of_signedData hrewrittenSd hsi⟩
  · rw [if_pos htype] at h
    exact absurd h (by simp)

/-! ## What a verified token says -/

variable (env)

/-- The evidence for a time: a token in the unsigned attributes of a signer. -/
structure TimestampEvidence (signer : SignerInfo) (anchors : AnchorStore) (genTime : UtcDate)
    (found : FoundToken) (tsSd : SignedData) (tsSi : SignerInfo) (tsa : Certificate) : Prop where
  /-- The token is a value of an unsigned attribute of the signer. -/
  inUnsignedAttrs : ∃ attrs attr val, signer.unsignedAttrs = some attrs ∧ attr ∈ attrs ∧
    val ∈ attr.values ∧ timestampContentInfoFromAttributeValue env val = some found.token
  /-- It is a signed `TSTInfo`. -/
  signedData : signedDataFromContentInfo env found.token = some tsSd
  isTstinfo : tsSd.econtentType = idCtTstinfo
  tstinfo : ∃ any, tsSd.econtent = some any ∧
    peelToTstinfoSequence env any.value = some found.tstinfoDer
  /-- The time is read from the bytes of the `TSTInfo`. -/
  genTime_eq : tstinfoGenTime env found.tstinfoDer = some genTime
  /-- Its message imprint is the digest of the signer's signature value. -/
  imprint : ∃ parsed, parseTstInfoDer env.cms found.tstinfoDer = some parsed ∧
    digestForOid env parsed.messageImprintDigestAlgOid signer.signature =
      .ok parsed.messageImprintHashedMessage
  /-- The token's first signer signed the digest of these bytes. -/
  tokenSigner : tsSd.signerInfos.head? = some tsSi
  tokenCertificate : signedDataCertificateForSignerIdentifier env.cms tsSd tsSi.sid = .ok tsa
  messageDigest : signerInfoPkcs9MessageDigestOctets env.cms tsSi =
    .ok (env.cms.hashes.hash .sha256 found.tstinfoDer)
  signature : ∃ attrs, tsSi.signedAttrs = some attrs ∧
    SignatureVerifies env.cms .sha256 tsa.spkiDer attrs tsSi.signature
  /-- Its certificate is for time stamping. -/
  timeStampingEku : ∃ exts ext eku, tsa.extensions = some exts ∧ ext ∈ exts ∧
    ext.extnId = ekuExtensionOid ∧ env.cms.extendedKeyUsage ext.extnValue = .ok eku ∧
    timeStampingEkuOid ∈ eku
  /-- The certificate leads to an anchor, checked at the time itself. -/
  chain : ∃ leaf chain, env.picky.certFromDer tsa.der = .ok leaf ∧
    anchors.containsThumbprint
      (certSha1Thumbprint env.cms.hashes (terminalRootCert leaf chain)) = true ∧
    env.picky.verifyChain leaf chain genTime = .ok ()

variable {env}

theorem anyTimeStampingEku_eq_ok {exts : List Extension}
    (h : anyTimeStampingEku env exts = .ok true) :
    ∃ ext eku, ext ∈ exts ∧ ext.extnId = ekuExtensionOid ∧
      env.cms.extendedKeyUsage ext.extnValue = .ok eku ∧ timeStampingEkuOid ∈ eku := by
  induction exts with
  | nil => simp [anyTimeStampingEku] at h
  | cons ext rest ih =>
    unfold anyTimeStampingEku at h
    have hrest : anyTimeStampingEku env rest = .ok true → ∃ found eku, found ∈ ext :: rest ∧
        found.extnId = ekuExtensionOid ∧ env.cms.extendedKeyUsage found.extnValue = .ok eku ∧
        timeStampingEkuOid ∈ eku := by
      intro hrest
      obtain ⟨found, eku, hmem, hfound⟩ := ih hrest
      exact ⟨found, eku, List.mem_cons_of_mem _ hmem, hfound⟩
    by_cases hoid : ext.extnId = ekuExtensionOid
    · rw [if_pos hoid, Outcome.bind_eq_ok] at h
      obtain ⟨eku, heku, h⟩ := h
      by_cases hmem : timeStampingEkuOid ∈ eku
      · exact ⟨ext, eku, List.mem_cons_self, hoid, Outcome.mapErr_eq_ok.mp heku, hmem⟩
      · rw [if_neg hmem] at h
        exact hrest h
    · rw [if_neg hoid] at h
      exact hrest h

theorem timestampTokenFromSignerUnsignedAttrs_eq_some {si : SignerInfo} {found : FoundToken}
    (h : timestampTokenFromSignerUnsignedAttrs env si = some found) :
    ∃ attrs attr val, si.unsignedAttrs = some attrs ∧ attr ∈ attrs ∧ val ∈ attr.values ∧
      timestampTokenFromValue env val = some found := by
  simp only [timestampTokenFromSignerUnsignedAttrs, probeUnsignedAttrs, Option.bind_eq_bind,
    Option.bind_eq_some_iff] at h
  obtain ⟨attrs, hattrs, h⟩ := h
  have hpass : ∀ p : Attribute → Bool,
      (attrs.filter p).findSome? (timestampTokenFromAttribute env) = some found →
      ∃ attr val, attr ∈ attrs ∧ val ∈ attr.values ∧
        timestampTokenFromValue env val = some found := by
    intro p hp
    obtain ⟨attr, hattr, hfound⟩ := List.exists_of_findSome?_eq_some hp
    obtain ⟨val, hval, hvalue⟩ := List.exists_of_findSome?_eq_some hfound
    exact ⟨attr, val, List.mem_of_mem_filter hattr, hval, hvalue⟩
  have hfound : ∃ attr val, attr ∈ attrs ∧ val ∈ attr.values ∧
      timestampTokenFromValue env val = some found := by
    rcases (Option.orElse_eq_some _ _ _).mp h with hfirst | ⟨-, hsecond⟩
    · exact hpass _ hfirst
    · exact hpass _ hsecond
  obtain ⟨attr, val, hattr, hval, hvalue⟩ := hfound
  exact ⟨attrs, attr, val, hattrs, hattr, hval, hvalue⟩

/-- A time that is returned comes with the evidence for it. -/
theorem evidence_of_trustedDate {fuel : Nat} {pkcs7Der : List UInt8} {anchors : AnchorStore}
    {anchorCerts : List Cert} {online : OnlineTrustOptions} {genTime : UtcDate}
    (h : trustedUtcDateFromAuthenticodeTimestampToken env fuel pkcs7Der anchors anchorCerts online =
      .ok (some genTime)) :
    ∃ outerSd si found tsSd tsSi tsa, signedDataFromPkcs7 env pkcs7Der = some outerSd ∧
      outerSd.signerInfos.head? = some si ∧
      TimestampEvidence env si anchors genTime found tsSd tsSi tsa := by
  unfold trustedUtcDateFromAuthenticodeTimestampToken at h
  split at h
  · simp at h
  rename_i outerSd hsd
  split at h
  · simp at h
  rename_i si hsi
  split at h
  · simp at h
  rename_i found hfound
  obtain ⟨attrs, attr, val, hattrs, hattr, hval, hvalue⟩ :=
    timestampTokenFromSignerUnsignedAttrs_eq_some hfound
  simp only [timestampTokenFromValue, Option.bind_eq_bind, Option.bind_eq_some_iff,
    Option.guard_eq_some', Option.pure_def, Option.some.injEq, exists_const] at hvalue
  obtain ⟨token, htoken, sd, hsdToken, htype, any, hany, tstinfoDer, hpeel, genDate, hgenDate,
    rfl⟩ := hvalue
  simp only [verifyTimestampToken, Outcome.bind_eq_ok, Outcome.mapErr_eq_ok,
    Outcome.ofOption_eq_ok, Outcome.guardThat_eq_ok, Outcome.pure_eq_ok, Except.ok.injEq,
    Option.some.injEq] at h
  obtain ⟨date, ⟨tsSd, htsSd, parsed, hparsed, imprint, himprint, _, hmatches, _, hcms, tsSi, htsSi,
    tsa, htsa, timeStamping, heku, _, hflag, leaf, hleaf, embedded, -, chain, -, _, hanchor, _, -, _,
    hverify, rfl⟩, rfl⟩ := h
  obtain rfl : sd = tsSd := Option.some.inj (hsdToken.symm.trans htsSd)
  subst hflag
  rw [← hmatches] at himprint
  simp only [verifySignedDataPkcs9MessageDigestAndRsaSha256Pkcs1v15Signature, signerInfoAt,
    Outcome.bind_eq_ok, Outcome.ofOption_eq_ok, Outcome.guardThat_eq_ok, exists_const] at hcms
  obtain ⟨tsSi', htsSi', md, hmd, rfl, hrsa⟩ := hcms
  rw [← List.head?_eq_getElem?, htsSi, Option.some.injEq] at htsSi'
  subst htsSi'
  obtain ⟨tsSi', attrs', tsa', htsSi', hattrs', -, htsa', hsignature⟩ :=
    verifySignedDataRsa_eq_ok hrsa
  rw [← List.head?_eq_getElem?, htsSi, Option.some.injEq] at htsSi'
  subst htsSi'
  obtain rfl : tsa = tsa' := Except.ok.inj (htsa.symm.trans htsa')
  have hextensions : ∃ exts ext eku, tsa.extensions = some exts ∧ ext ∈ exts ∧
      ext.extnId = ekuExtensionOid ∧ env.cms.extendedKeyUsage ext.extnValue = .ok eku ∧
      timeStampingEkuOid ∈ eku := by
    unfold x509CertHasTimeStampingEku at heku
    split at heku
    · simp at heku
    · rename_i exts hexts
      obtain ⟨ext, eku, hmem, hfound⟩ := anyTimeStampingEku_eq_ok heku
      exact ⟨exts, ext, eku, hexts, hmem, hfound⟩
  exact ⟨outerSd, si, ⟨token, tstinfoDer, genDate⟩, sd, tsSi, tsa, hsd, hsi,
    { inUnsignedAttrs := ⟨attrs, attr, val, hattrs, hattr, hval, htoken⟩
      signedData := hsdToken
      isTstinfo := htype
      tstinfo := ⟨any, hany, hpeel⟩
      genTime_eq := hgenDate
      imprint := ⟨parsed, hparsed, himprint⟩
      tokenSigner := htsSi
      tokenCertificate := htsa
      messageDigest := hmd
      signature := ⟨attrs', hattrs', hsignature⟩
      timeStampingEku := hextensions
      chain := ⟨leaf, chain, hleaf, hanchor, hverify⟩ }⟩

end Psign.Trust
