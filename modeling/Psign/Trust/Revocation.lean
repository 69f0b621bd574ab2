import Psign.CodeLib.Unicode
import Psign.Trust.Chain

/-!
# Revocation checks

`check_one_cert_ocsp`, `check_one_cert_crl` and `check_revocation_chain` of `online.rs`,
with its DER reader and the parsers of OCSP responses and CRLs.

A position in the bytes is what is left of them.  The transport is a parameter: each
certificate of a chain makes its own requests, numbered by its place, and each request
may be answered differently.  `anyhow` prints the outermost context of an error, so a
context replaces the text below it.
-/

namespace Psign.Trust.Online

open CodeLib CodeLib.Unicode Psign.Sip

/-- `with_context` and `context`. -/
def withContext {α : Type} (result : Outcome α) (text : String) : Outcome α :=
  result.mapErr fun _ => text

/-! ## DER -/

/-- `read_len`, with what is left. -/
def readLen : List UInt8 → Outcome (Nat × List UInt8)
  | [] => Outcome.bail "missing length"
  | first :: rest =>
    if first.toNat < 0x80 then .ok (first.toNat, rest)
    else
      let n := first.toNat % 0x80
      if n = 0 ∨ 3 < n then Outcome.bail "unsupported DER length form"
      else if rest.length < n then Outcome.bail "truncated length"
      else .ok (Der.beNat (rest.take n), rest.drop n)

/-- `expect_tlv`. -/
def expectTlv (input : List UInt8) (tag : UInt8) : Outcome (List UInt8) :=
  match input with
  | [] => Outcome.bail "unexpected tag"
  | first :: rest => do
    Outcome.guardThat (first = tag) "unexpected tag"
    let (len, body) ← readLen rest
    Outcome.guardThat (body.length = len) "TLV trailing bytes"
    return body

/-- `read_tlv`, with what is left. -/
def readTlv (input : List UInt8) : Outcome (List UInt8 × List UInt8) :=
  match input with
  | [] => Outcome.bail "missing TLV tag"
  | _ :: rest => do
    let (len, body) ← readLen rest
    Outcome.guardThat (len ≤ body.length) "TLV length exceeds input"
    return (input.take (input.length - (body.length - len)), body.drop len)

/-- The loops over the elements of a SEQUENCE. -/
def forEachTlv {α : Type} (read : List UInt8 → Outcome α) : Nat → List UInt8 → Outcome (List α)
  | _, [] => .ok []
  | 0, _ :: _ => .error .outOfFuel
  | fuel + 1, input@(_ :: _) => do
    let (tlv, rest) ← readTlv input
    let a ← read tlv
    let as ← forEachTlv read fuel rest
    return a :: as

/-- What is behind an optional first element of this tag. -/
def skipOptional (tag : UInt8) (input : List UInt8) (text : String) : Outcome (List UInt8) :=
  if input.head? = some tag then do
    let (_, rest) ← withContext (readTlv input) text
    return rest
  else .ok input

/-! ## Constants and options -/

/-- `AIA_OID`. -/
def aiaOid : String := "1.3.6.1.5.5.7.1.1"

/-- `CRL_DISTRIBUTION_POINTS_OID`. -/
def crlDistributionPointsOid : String := "2.5.29.31"

/-- `OCSP_OID_DER`. -/
def ocspOidDer : List UInt8 := [0x06, 0x08, 0x2b, 0x06, 0x01, 0x05, 0x05, 0x07, 0x30, 0x01]

/-- `OCSP_BASIC_OID_DER`. -/
def ocspBasicOidDer : List UInt8 :=
  [0x06, 0x09, 0x2b, 0x06, 0x01, 0x05, 0x05, 0x07, 0x30, 0x01, 0x01]

/-- `SHA1_ALGORITHM_IDENTIFIER_DER`. -/
def sha1AlgorithmIdentifierDer : List UInt8 :=
  [0x30, 0x09, 0x06, 0x05, 0x2b, 0x0e, 0x03, 0x02, 0x1a, 0x05, 0x00]

/-- `PKCS1_OID_PREFIX`. -/
def pkcs1OidPrefix : List UInt8 := [0x2a, 0x86, 0x48, 0x86, 0xf7, 0x0d, 0x01, 0x01]

/-- The part of `OnlineTrustOptions` that revocation checks use. -/
structure RevocationOptions extends OnlineTrustOptions where
  enableOcsp : Bool
  ocspUrlOverride : Option String
  crlUrlOverride : Option String
  deriving DecidableEq, Repr

/-- What revocation checks use of the `x509-cert` crate, and the transport. -/
structure RevocationCrates where
  /-- `Name::to_der` of the subject. -/
  subjectToDer : Certificate → Outcome (List UInt8)
  /-- `SerialNumber::to_der`. -/
  serialToDer : Certificate → Outcome (List UInt8)
  /-- `raw_bytes` of the public key. -/
  publicKeyBits : Certificate → List UInt8
  /-- `http_get_limited`, of the certificate at a place of the chain. -/
  httpGetLimited : Nat → String → Outcome (List UInt8)
  /-- `http_post_limited` of an OCSP request. -/
  httpPostLimited : Nat → String → List UInt8 → Outcome (List UInt8)

/-- `RsaPkcs1v15Hash`. -/
inductive RsaPkcs1v15Hash where
  | sha256
  | sha384
  | sha512
  deriving DecidableEq, Repr

/-- The hash of a `VerifyingKey`. -/
def RsaPkcs1v15Hash.kind : RsaPkcs1v15Hash → PeAuthenticodeHashKind
  | sha256 => .sha256
  | sha384 => .sha384
  | sha512 => .sha512

/-- `RsaPkcs1v15Hash::from_algorithm_identifier_tlv`. -/
def RsaPkcs1v15Hash.fromAlgorithmIdentifierTlv (tlv : List UInt8) : Option RsaPkcs1v15Hash := do
  let body ← (expectTlv tlv 0x30).toOption
  let (first, rest) ← (readTlv body).toOption
  let oid ← (expectTlv first 0x06).toOption
  guard (rest = [] ∨ rest = [0x05, 0x00])
  guard (pkcs1OidPrefix.isPrefixOf oid)
  match oid.drop pkcs1OidPrefix.length with
  | [0x0b] => some sha256
  | [0x0c] => some sha384
  | [0x0d] => some sha512
  | _ => none

variable (env : Environment) (crates : RevocationCrates)

/-! ## URLs -/

/-- A URI of an extension; the error of bytes that are not UTF-8 is dropped by all callers. -/
def uriFromUtf8 (bytes : List UInt8) (message : String) : Outcome (List Char) :=
  Outcome.ofOption (fromUtf8 bytes) message

/-- The URIs that the checks can use. -/
def keepHttp (uri : List Char) (urls : List String) : List String :=
  if "http://".toList.isPrefixOf uri then String.ofList uri :: urls else urls

/-- The `AccessDescription` of `parse_aia_ocsp`. -/
def accessDescriptionOcsp (tlv : List UInt8) : Outcome (List String) := do
  let ad ← withContext (expectTlv tlv 0x30) "AccessDescription"
  let (method, rest) ← withContext (readTlv ad) "AccessDescription.accessMethod"
  let (location, _) ← withContext (readTlv rest) "AccessDescription.accessLocation"
  if method = ocspOidDer ∧ location.head? = some 0x86 then do
    let body ← withContext (expectTlv location 0x86) "uniformResourceIdentifier"
    let uri ← uriFromUtf8 body "AIA OCSP URL is not UTF-8"
    return keepHttp uri []
  else .ok []

/-- `parse_aia_ocsp`. -/
def parseAiaOcsp (input : List UInt8) : Outcome (List String) := do
  let outer ← withContext (expectTlv input 0x30) "AuthorityInfoAccessSyntax"
  let urls ← forEachTlv accessDescriptionOcsp outer.length outer
  return urls.flatten

/-- `parse_http_uri_general_names`: every place where a URI may start. -/
def parseHttpUriGeneralNames : Nat → List UInt8 → Outcome (List String)
  | _, [] => .ok []
  | 0, _ :: _ => .error .outOfFuel
  | fuel + 1, tag :: rest =>
    if tag = 0x86 then do
      let (len, body) ← readLen rest
      if len ≤ body.length then do
        let uri ← uriFromUtf8 (body.take len) "URI is not UTF-8"
        let urls ← parseHttpUriGeneralNames fuel (body.drop len)
        return keepHttp uri urls
      else parseHttpUriGeneralNames fuel rest
    else parseHttpUriGeneralNames fuel rest

/-- The loops over the extensions in `ocsp_urls` and `crl_distribution_point_urls`. -/
def urlsOfExtensions (oid : String) (parse : List UInt8 → Outcome (List String)) :
    List Extension → Outcome (List String)
  | [] => .ok []
  | ext :: rest =>
    if ext.extnId = oid then do
      let urls ← parse ext.extnValue
      let more ← urlsOfExtensions oid parse rest
      return urls ++ more
    else urlsOfExtensions oid parse rest

/-- `Certificate::from_der` of a certificate, which can always be encoded. -/
def certificateOf (cert : Cert) (text : String) : Outcome Certificate :=
  (env.cms.certificate cert.der).mapErr fun e => text ++ e

/-- `ocsp_urls`. -/
def ocspUrls (cert : Cert) : Outcome (List String) := do
  let x509 ← certificateOf env cert "certificate DER parse failed: "
  urlsOfExtensions aiaOid parseAiaOcsp (x509.extensions.getD [])

/-- `crl_distribution_point_urls`. -/
def crlDistributionPointUrls (cert : Cert) : Outcome (List String) := do
  let x509 ← certificateOf env cert "certificate DER parse failed: "
  urlsOfExtensions crlDistributionPointsOid
    (fun value => parseHttpUriGeneralNames value.length value) (x509.extensions.getD [])

/-- The URL of a check: the override, or the first of the certificate. -/
def chooseUrl (override : Option String) (urls : Outcome (List String)) : Option String :=
  override <|> urls.toOption.bind List.head?

/-! ## Signatures and times -/

/-- `verify_rsa_pkcs1v15_signature`. -/
def verifyRsaPkcs1v15Signature (hash : RsaPkcs1v15Hash) (signedTlv signature : List UInt8)
    (issuer : Cert) (label : String) : Outcome Unit := do
  let x509 ← certificateOf env issuer (label ++ " issuer certificate DER parse failed: ")
  let publicKey ← (env.cms.rsaPublicKey x509.spkiDer).mapErr fun e =>
    label ++ " issuer RSA public key parse failed: " ++ e
  let sig ← (env.cms.pkcs1v15Signature signature).mapErr fun e =>
    label ++ " RSA signature parse failed: " ++ e
  (env.cms.verifyPrehash hash.kind publicKey (env.cms.hashes.hash hash.kind signedTlv) sig).mapErr
    fun e => label ++ " signature verification failed: " ++ e

/-- `parse_der_time_tlv`. -/
def parseDerTimeTlv (tlv : List UInt8) : Outcome UtcDate := do
  let secs ← (env.timeFromDer tlv).mapErr fun e => "DER time decode failed: " ++ e
  Outcome.ofOption (env.fromUnixTimestamp secs) "DER time unix timestamp failed"

/-- The order of `utc_date_key`: by year, month and day. -/
def keyLt (a b : UtcDate) : Prop :=
  a.year < b.year ∨ a.year = b.year ∧ (a.month < b.month ∨ a.month = b.month ∧ a.day < b.day)

instance (a b : UtcDate) : Decidable (keyLt a b) :=
  inferInstanceAs (Decidable (_ ∨ _))

/-- `ensure_time_window_fresh`; both callers have a `nextUpdate`. -/
def ensureTimeWindowFresh (label : String) (thisUpdate nextUpdate : UtcDate) : Outcome Unit := do
  Outcome.guardThat (¬ keyLt env.now thisUpdate) (label ++ " thisUpdate is in the future")
  Outcome.guardThat (¬ keyLt nextUpdate env.now) (label ++ " nextUpdate is stale")

/-! ## OCSP responses -/

/-- `ParsedOcspSingleResponse`. -/
structure ParsedOcspSingleResponse where
  certIdTlv : List UInt8
  status : OcspCheckOutcome
  thisUpdate : UtcDate
  nextUpdate : UtcDate
  deriving DecidableEq, Repr

/-- `ParsedOcspResponse`. -/
structure ParsedOcspResponse where
  tbsResponseDataTlv : List UInt8
  signatureHash : RsaPkcs1v15Hash
  signature : List UInt8
  responses : List ParsedOcspSingleResponse
  deriving DecidableEq, Repr

/-- A byte as two hexadecimal digits. -/
def hexByte (b : UInt8) : String :=
  String.ofList [Nat.digitChar (b.toNat / 16), Nat.digitChar (b.toNat % 16)]

/-- The status of a `CertStatus`. -/
def ocspStatus (certStatus : List UInt8) : Outcome OcspCheckOutcome :=
  match certStatus with
  | [] => Outcome.bail "missing OCSP CertStatus"
  | tag :: _ =>
    if tag = 0x80 then .ok .good
    else if tag = 0xa1 then .ok .revoked
    else if tag = 0x82 then .ok .unknown
    else Outcome.bail ("unsupported OCSP CertStatus tag 0x" ++ hexByte tag)

/-- One `SingleResponse` of `parse_basic_ocsp_response_der`. -/
def parseSingleResponse (tlv : List UInt8) : Outcome ParsedOcspSingleResponse := do
  let single ← withContext (expectTlv tlv 0x30) "SingleResponse"
  let (certIdTlv, rest) ← withContext (readTlv single) "SingleResponse.certID"
  let _ ← withContext (expectTlv certIdTlv 0x30) "CertID"
  let (certStatus, rest) ← withContext (readTlv rest) "SingleResponse.certStatus"
  let status ← ocspStatus certStatus
  let (thisUpdateTlv, rest) ← withContext (readTlv rest) "SingleResponse.thisUpdate"
  let thisUpdate ← withContext (parseDerTimeTlv env thisUpdateTlv) "SingleResponse.thisUpdate"
  let (nextUpdateTlv, _) ← withContext (readTlv rest)
    "SingleResponse.nextUpdate is required for revocation freshness"
  Outcome.guardThat (nextUpdateTlv.head? = some 0xa0) "SingleResponse.nextUpdate is required"
  let nextUpdateInner ← withContext (expectTlv nextUpdateTlv 0xa0) "SingleResponse.nextUpdate"
  let (time, trailing) ← withContext (readTlv nextUpdateInner) "nextUpdate time"
  let nextUpdate ← withContext (parseDerTimeTlv env time) "SingleResponse.nextUpdate"
  Outcome.guardThat (trailing = []) "SingleResponse.nextUpdate has trailing fields"
  return ⟨certIdTlv, status, thisUpdate, nextUpdate⟩

/-- The octets of a signature BIT STRING. -/
def signatureOctets (tlv : List UInt8) (context unusedBits : String) : Outcome (List UInt8) := do
  let body ← withContext (expectTlv tlv 0x03) context
  Outcome.guardThat (body.head? = some 0) unusedBits
  return body.tail

/-- `parse_basic_ocsp_response_der`. -/
def parseBasicOcspResponseDer (input : List UInt8) : Outcome ParsedOcspResponse := do
  let outer ← withContext (expectTlv input 0x30) "BasicOCSPResponse"
  let (tbsResponseDataTlv, rest) ← withContext (readTlv outer) "BasicOCSPResponse.tbsResponseData"
  let (sigAlg, rest) ← withContext (readTlv rest) "BasicOCSPResponse.signatureAlgorithm"
  let signatureHash ← Outcome.ofOption (RsaPkcs1v15Hash.fromAlgorithmIdentifierTlv sigAlg)
    "unsupported OCSP signature algorithm"
  let (signatureTlv, _) ← withContext (readTlv rest) "BasicOCSPResponse.signature"
  let signature ← signatureOctets signatureTlv "OCSP signature BIT STRING"
    "OCSP signature BIT STRING has unused bits"
  let tbs ← withContext (expectTlv tbsResponseDataTlv 0x30) "ResponseData"
  let rest ← skipOptional 0xa0 tbs "ResponseData.version"
  let (_, rest) ← withContext (readTlv rest) "ResponseData.responderID"
  let (_, rest) ← withContext (readTlv rest) "ResponseData.producedAt"
  let (responsesTlv, _) ← readTlv rest
  let responses ← withContext (expectTlv responsesTlv 0x30) "ResponseData.responses"
  let parsedResponses ← forEachTlv (parseSingleResponse env) responses.length responses
  return ⟨tbsResponseDataTlv, signatureHash, signature, parsedResponses⟩

/-- `parse_ocsp_response_der`. -/
def parseOcspResponseDer (input : List UInt8) : Outcome ParsedOcspResponse := do
  let outer ← withContext (expectTlv input 0x30) "OCSPResponse"
  let (statusTlv, rest) ← readTlv outer
  let status ← withContext (expectTlv statusTlv 0x0a) "OCSPResponseStatus"
  Outcome.guardThat (status = [0]) "OCSP responder returned non-success status"
  let (bytesTlv, _) ← readTlv rest
  let responseBytes ← withContext (expectTlv bytesTlv 0xa0) "responseBytes"
  let rb ← withContext (expectTlv responseBytes 0x30) "ResponseBytes"
  let (responseType, rest) ← withContext (readTlv rb) "ResponseBytes.responseType"
  Outcome.guardThat (responseType = ocspBasicOidDer) "unsupported OCSP response type"
  let (response, _) ← withContext (readTlv rest) "ResponseBytes.response"
  let basicOctets ← withContext (expectTlv response 0x04) "ResponseBytes.response OCTET STRING"
  parseBasicOcspResponseDer env basicOctets

/-! ## Certificate lists -/

/-- `ParsedCrl`. -/
structure ParsedCrl where
  tbsTlv : List UInt8
  signatureHash : RsaPkcs1v15Hash
  signature : List UInt8
  thisUpdate : UtcDate
  nextUpdate : UtcDate
  revokedSerialTlvs : List (List UInt8)
  deriving DecidableEq, Repr

/-- One `RevokedCertificate` of `parse_certificate_list_der`: its serial number. -/
def parseRevokedCertificate (tlv : List UInt8) : Outcome (List UInt8) := do
  let entry ← withContext (expectTlv tlv 0x30) "RevokedCertificate"
  let (serial, _) ← withContext (readTlv entry) "RevokedCertificate.userCertificate"
  return serial

/-- The serial numbers of `revokedCertificates`, if the field is there. -/
def parseRevokedCertificates (rest : List UInt8) : Outcome (List (List UInt8)) :=
  if rest.head? = some 0x30 then do
    let (tlv, _) ← readTlv rest
    let revoked ← withContext (expectTlv tlv 0x30) "TBSCertList.revokedCertificates"
    forEachTlv parseRevokedCertificate revoked.length revoked
  else .ok []

/-- `parse_certificate_list_der`. -/
def parseCertificateListDer (input : List UInt8) : Outcome ParsedCrl := do
  let outer ← withContext (expectTlv input 0x30) "CertificateList"
  let (tbsTlv, rest) ← withContext (readTlv outer) "CertificateList.tbsCertList"
  let (signatureAlgorithmTlv, rest) ← withContext (readTlv rest)
    "CertificateList.signatureAlgorithm"
  let (signatureTlv, rest) ← withContext (readTlv rest) "CertificateList.signatureValue"
  Outcome.guardThat (rest = []) "CertificateList has trailing fields"
  let signatureHash ← Outcome.ofOption
    (RsaPkcs1v15Hash.fromAlgorithmIdentifierTlv signatureAlgorithmTlv)
    "unsupported CRL signature algorithm"
  let signature ← signatureOctets signatureTlv "CRL signature BIT STRING"
    "CRL signature BIT STRING has unused bits"
  let tbs ← withContext (expectTlv tbsTlv 0x30) "TBSCertList"
  let rest ← skipOptional 0x02 tbs "TBSCertList.version"
  let (tbsSignatureAlgorithmTlv, rest) ← withContext (readTlv rest) "TBSCertList.signature"
  Outcome.guardThat (tbsSignatureAlgorithmTlv = signatureAlgorithmTlv)
    "CRL signatureAlgorithm does not match TBSCertList.signature"
  let (_, rest) ← withContext (readTlv rest) "TBSCertList.issuer"
  let (thisUpdateTlv, rest) ← withContext (readTlv rest) "TBSCertList.thisUpdate"
  let thisUpdate ← withContext (parseDerTimeTlv env thisUpdateTlv) "TBSCertList.thisUpdate"
  Outcome.guardThat (rest.head? = some 0x17 ∨ rest.head? = some 0x18)
    "TBSCertList.nextUpdate is required for revocation freshness"
  let (nextUpdateTlv, rest) ← withContext (readTlv rest) "TBSCertList.nextUpdate"
  let nextUpdate ← withContext (parseDerTimeTlv env nextUpdateTlv) "TBSCertList.nextUpdate"
  let revokedSerialTlvs ← parseRevokedCertificates rest
  return ⟨tbsTlv, signatureHash, signature, thisUpdate, nextUpdate, revokedSerialTlvs⟩

/-! ## One certificate -/

/-- `push_der_len`. -/
def derLen (len : Nat) : List UInt8 :=
  if len < 0x80 then [UInt8.ofNat len]
  else if len ≤ 0xff then [0x81, UInt8.ofNat len]
  else [0x82, UInt8.ofNat (len / 256), UInt8.ofNat len]

/-- `push_der_tlv`. -/
def derTlv (tag : UInt8) (body : List UInt8) : List UInt8 :=
  tag :: derLen body.length ++ body

/-- `build_ocsp_cert_id_der`. -/
def buildOcspCertIdDer (cert issuer : Cert) : Outcome (List UInt8) := do
  let cert ← certificateOf env cert "certificate DER parse failed: "
  let issuer ← certificateOf env issuer "issuer certificate DER parse failed: "
  let issuerNameDer ← (crates.subjectToDer issuer).mapErr fun e =>
    "issuer Name DER encode failed: " ++ e
  let serial ← (crates.serialToDer cert).mapErr fun e =>
    "certificate serial DER encode failed: " ++ e
  return derTlv 0x30 (sha1AlgorithmIdentifierDer ++
    (derTlv 0x04 (env.cms.hashes.hash .sha1 issuerNameDer) ++
      (derTlv 0x04 (env.cms.hashes.hash .sha1 (crates.publicKeyBits issuer)) ++ serial)))

/-- `build_ocsp_request_der`. -/
def buildOcspRequestDer (cert issuer : Cert) : Outcome (List UInt8) := do
  let certId ← buildOcspCertIdDer env crates cert issuer
  return derTlv 0x30 (derTlv 0x30 (derTlv 0x30 (derTlv 0x30 certId)))

variable (options : RevocationOptions) (request : Nat)

/-- The URL for OCSP. -/
def ocspUrl (cert : Cert) : Option String :=
  chooseUrl options.ocspUrlOverride (ocspUrls env cert)

/-- The URL for a CRL. -/
def crlUrl (cert : Cert) : Option String :=
  chooseUrl options.crlUrlOverride (crlDistributionPointUrls env cert)

/-- OCSP is enabled or has an override. -/
def OcspConfigured (options : RevocationOptions) : Prop :=
  options.enableOcsp = true ∨ options.ocspUrlOverride.isSome = true

instance : Decidable (OcspConfigured options) :=
  inferInstanceAs (Decidable (_ ∨ _))

/-- `check_one_cert_ocsp`. -/
def checkOneCertOcsp (cert issuer : Cert) : Outcome OcspCheckOutcome :=
  if ¬ OcspConfigured options then .ok .notConfigured
  else do
    let url ← Outcome.ofOption (ocspUrl env options cert)
      "OCSP checking requires --ocsp-url-override or a certificate AIA OCSP HTTP URL"
    let body ← buildOcspRequestDer env crates cert issuer
    let response ← withContext (crates.httpPostLimited request url body)
      ("POST OCSP request to " ++ url)
    let parsed ← withContext (parseOcspResponseDer env response)
      ("parse OCSP response from " ++ url)
    verifyRsaPkcs1v15Signature env parsed.signatureHash parsed.tbsResponseDataTlv parsed.signature
      issuer "OCSP"
    let certId ← buildOcspCertIdDer env crates cert issuer
    let entry ← Outcome.ofOption (parsed.responses.find? (·.certIdTlv = certId))
      "OCSP response does not contain the requested certificate ID"
    ensureTimeWindowFresh env "OCSP SingleResponse" entry.thisUpdate entry.nextUpdate
    return entry.status

/-- `cert_serial_tlv`. -/
def certSerialTlv (cert : Cert) : Outcome (List UInt8) := do
  let x509 ← certificateOf env cert "certificate DER parse failed: "
  (crates.serialToDer x509).mapErr fun e => "certificate serial DER encode failed: " ++ e

/-- `check_one_cert_crl`. -/
def checkOneCertCrl (cert issuer : Cert) : Outcome Unit := do
  let url ← Outcome.ofOption (crlUrl env options cert)
    ("revocation checking requires --crl-url-override or a certificate CRL distribution point " ++
      "HTTP URL")
  let bytes ← withContext (crates.httpGetLimited request url) ("fetch CRL from " ++ url)
  let crl ← withContext (parseCertificateListDer env bytes) ("parse CRL from " ++ url)
  verifyRsaPkcs1v15Signature env crl.signatureHash crl.tbsTlv crl.signature issuer "CRL"
  ensureTimeWindowFresh env "CRL" crl.thisUpdate crl.nextUpdate
  let serial ← certSerialTlv env crates cert
  Outcome.guardThat (serial ∉ crl.revokedSerialTlvs) ("certificate is revoked by CRL " ++ url)

/-! ## A chain -/

/-- `contains("revoked")`. -/
def mentionsRevoked (text : String) : Prop := "revoked".toList <:+: text.toList

instance (text : String) : Decidable (mentionsRevoked text) :=
  inferInstanceAs (Decidable (_ <:+: _))

/-- Whether the text of a failure contains `revoked`. -/
def Failure.mentionsRevoked : Failure → Bool
  | .error message => decide (Online.mentionsRevoked message)
  | .outOfFuel => false

/-- The environment with the answers to the requests of one certificate. -/
def atRequest : Environment :=
  { env with
    network :=
      { env.network with
        checkOneCertOcsp := fun cert issuer _ => checkOneCertOcsp env crates options request cert issuer
        checkOneCertCrl := fun cert issuer _ =>
          match checkOneCertCrl env crates options request cert issuer with
          | .ok () => .ok ()
          | .error failure => .error (failure, Failure.mentionsRevoked failure) } }

/-- The loop of `check_revocation_chain`. -/
def checkRevocationFrom : Nat → List Cert → Outcome Unit
  | idx, cert :: issuer :: rest => do
    checkRevocation (atRequest env crates options idx) cert issuer options.toOnlineTrustOptions
    checkRevocationFrom (idx + 1) (issuer :: rest)
  | _, _ => .ok ()

/-- `check_revocation_chain`. -/
def checkRevocationChain (leaf : Cert) (chain : List Cert) : Outcome Unit :=
  if options.revocationMode = .off then .ok ()
  else checkRevocationFrom env crates options 0 (leaf :: chain)

end Psign.Trust.Online
