import Psign.Trust.Picky

/-!
# Anchors and issuer chains

`anchor.rs`, `chain.rs` and the parts of `policy.rs` and `online.rs` that they
use.  A chain is built by following issuer names through a pool of certificates;
the online variant fetches missing issuers, and ends where a certificate is an
anchor or issued by itself.

The network is a parameter: a request may be answered differently each time it is
made.  The online walk is not bounded by the program while fetched certificates
keep missing the issuer, so it takes fuel here.
-/

namespace Psign.Trust

open CodeLib Psign.Sip

/-! ## Anchors -/

/-- `AnchorStore`: SHA-1 thumbprints. -/
structure AnchorStore where
  sha1Thumbs : List (List UInt8)
  deriving DecidableEq, Repr

/-- `cert_sha1_thumbprint`; writing a parsed certificate does not fail. -/
def certSha1Thumbprint (hashes : Hashes) (cert : Cert) : List UInt8 :=
  hashes.hash .sha1 cert.der

/-- `AnchorStore::contains_thumbprint`. -/
def AnchorStore.containsThumbprint (store : AnchorStore) (thumb : List UInt8) : Bool :=
  decide (thumb ∈ store.sha1Thumbs)

/-- `AnchorStore::merge_cert_thumbprints`. -/
def AnchorStore.mergeCertThumbprints (hashes : Hashes) (store : AnchorStore) (certs : List Cert) :
    AnchorStore :=
  ⟨store.sha1Thumbs ++ certs.map (certSha1Thumbprint hashes)⟩

/-- Whether a certificate is in an optional anchor store. -/
def isTrusted (hashes : Hashes) (anchors : Option AnchorStore) (cert : Cert) : Bool :=
  match anchors with
  | some store => store.containsThumbprint (certSha1Thumbprint hashes cert)
  | none => false

/-- The loop of `merge_unique_certs`. -/
def mergeUniqueFrom (hashes : Hashes) (seen : List (List UInt8)) : List Cert → List Cert
  | [] => []
  | cert :: rest =>
    if certSha1Thumbprint hashes cert ∈ seen then mergeUniqueFrom hashes seen rest
    else cert :: mergeUniqueFrom hashes (certSha1Thumbprint hashes cert :: seen) rest

/-- `merge_unique_certs`. -/
def mergeUniqueCerts (hashes : Hashes) (primary extra : List Cert) : List Cert :=
  mergeUniqueFrom hashes [] (primary ++ extra)

/-! ## Online retrieval and revocation -/

/-- `RevocationMode`. -/
inductive RevocationMode where
  | off
  | bestEffort
  | require
  deriving DecidableEq, Repr

/-- `OnlineTrustOptions`; what only the requests themselves use is left out. -/
structure OnlineTrustOptions where
  enableAia : Bool
  aiaUrlOverride : Option String
  revocationMode : RevocationMode
  deriving DecidableEq, Repr

/-- `OcspCheckOutcome`. -/
inductive OcspCheckOutcome where
  | notConfigured
  | good
  | revoked
  | unknown
  deriving DecidableEq, Repr

/-- Requests for certificates and revocation data.  A download has a number, so
that the same URL may be answered differently. -/
structure Network where
  /-- `aia_ca_issuers_urls`. -/
  aiaCaIssuersUrls : Cert → Outcome (List String)
  /-- `http_get_limited`. -/
  httpGetLimited : Nat → String → OnlineTrustOptions → Outcome (List UInt8)
  /-- `check_one_cert_ocsp`. -/
  checkOneCertOcsp : Cert → Cert → OnlineTrustOptions → Outcome OcspCheckOutcome
  /-- `check_one_cert_crl`; the flag says whether the error text has `revoked` in it. -/
  checkOneCertCrl : Cert → Cert → OnlineTrustOptions → Except (Failure × Bool) Unit

/-- `PinnedRoot`. -/
structure PinnedRoot where
  name : String
  sha1 : List UInt8
  sha256 : List UInt8
  pem : List UInt8
  deriving DecidableEq

/-- Everything outside of the program, and the roots that are compiled into it. -/
structure Environment where
  cms : CmsCrates
  picky : PickyCrate cms
  network : Network
  /-- `UtcDate::now`. -/
  now : UtcDate
  /-- The date and time of the `time` crate: year, month, day, hour, minute, second. -/
  calendar : Nat → Nat → Nat → Nat → Nat → Nat → Option UtcDate
  /-- `OffsetDateTime::from_unix_timestamp`. -/
  fromUnixTimestamp : Nat → Option UtcDate
  /-- `Time::decode` and its seconds since the epoch. -/
  timeFromDer : List UInt8 → Outcome Nat
  /-- `PUBLIC_TRUST_ROOTS`. -/
  publicTrustRoots : List PinnedRoot
  /-- `fs::read`. -/
  readFile : String → Outcome (List UInt8)
  /-- The subject of a certificate as `x509-cert` prints it. -/
  subjectText : Certificate → String
  /-- `{:?}` of a text. -/
  debugText : String → String

variable (env : Environment)

/-- `trim_ascii_start`. -/
def trimAsciiStart (raw : List UInt8) : List UInt8 :=
  raw.dropWhile fun b => b = 0x20 ∨ b = 0x09 ∨ b = 0x0A ∨ b = 0x0C ∨ b = 0x0D

/-- `-----BEGIN `. -/
def pemBegin : List UInt8 :=
  [0x2D, 0x2D, 0x2D, 0x2D, 0x2D, 0x42, 0x45, 0x47, 0x49, 0x4E, 0x20]

/-- `parse_cert_bytes`; text that is not UTF-8 is an error of `certFromPem`. -/
def parseCertBytes (raw : List UInt8) : Outcome Cert :=
  let trimmed := trimAsciiStart raw
  if pemBegin.isPrefixOf trimmed then
    (env.picky.certFromPem trimmed).mapErr fun e => "PEM parse failed: " ++ e
  else (env.picky.certFromDer trimmed).mapErr fun e => "DER parse failed: " ++ e

/-- The downloads of `issuer_candidates_from_aia`. -/
def fetchIssuers (options : OnlineTrustOptions) (request : Nat) :
    List String → Outcome (List Cert)
  | [] => .ok []
  | url :: urls => do
    let bytes ← (env.network.httpGetLimited request url options).mapErr fun _ =>
      "fetch AIA issuer certificate from " ++ url
    let cert ← (parseCertBytes env bytes).mapErr fun _ => "parse AIA issuer " ++ url
    let rest ← fetchIssuers options request urls
    return cert :: rest

/-- `issuer_candidates_from_aia`. -/
def issuerCandidatesFromAia (request : Nat) (cert : Cert) (options : OnlineTrustOptions) :
    Outcome (List Cert) :=
  if ¬ options.enableAia ∧ options.aiaUrlOverride = none then .ok []
  else do
    let urls ← if options.enableAia then env.network.aiaCaIssuersUrls cert else .ok []
    fetchIssuers env options request (options.aiaUrlOverride.toList ++ urls)

/-- The check of one certificate in `check_revocation_chain`. -/
def checkRevocation (cert issuer : Cert) (options : OnlineTrustOptions) : Outcome Unit :=
  let crl : Outcome Unit :=
    match env.network.checkOneCertCrl cert issuer options with
    | .ok () => .ok ()
    | .error (failure, revoked) =>
      if options.revocationMode = .bestEffort ∧ ¬ revoked then .ok () else .error failure
  match env.network.checkOneCertOcsp cert issuer options with
  | .ok .good => .ok ()
  | .ok .notConfigured => crl
  | .ok .unknown =>
    if options.revocationMode = .bestEffort then crl else Outcome.bail "OCSP status is unknown"
  | .ok .revoked => Outcome.bail "OCSP status is revoked"
  | .error failure => if options.revocationMode = .bestEffort then crl else .error failure

/-- The loop of `check_revocation_chain`. -/
def checkRevocationAlong (options : OnlineTrustOptions) : List Cert → Outcome Unit
  | cert :: issuer :: rest => do
    checkRevocation env cert issuer options
    checkRevocationAlong options (issuer :: rest)
  | _ => .ok ()

/-- `check_revocation_chain`. -/
def checkRevocationChain (leaf : Cert) (chain : List Cert) (options : OnlineTrustOptions) :
    Outcome Unit :=
  if options.revocationMode = .off then .ok ()
  else checkRevocationAlong env options (leaf :: chain)

/-! ## Issuer chains -/

/-- The error of a walk that has no issuer to go on with. -/
def unresolvedIssuer (issuerDn : List UInt8) : Outcome (List Cert) :=
  Outcome.bail ("could not resolve issuer certificate for subject " ++ env.picky.debugName issuerDn)

/-- The end of a walk without an issuer: fine only behind an anchor. -/
def endWithoutIssuer (anchors : Option AnchorStore) (out : List Cert) (issuerDn : List UInt8) :
    Outcome (List Cert) :=
  match out.getLast? with
  | some last =>
    if isTrusted env.cms.hashes anchors last then .ok out else unresolvedIssuer env issuerDn
  | none => unresolvedIssuer env issuerDn

/-- The loop of `issuer_chain_excluding_leaf`; `room` is how many certificates
may still be added. -/
def issuerChainFrom (pool : List Cert) (anchors : Option AnchorStore) :
    Nat → List UInt8 → List Cert → Outcome (List Cert)
  | room, issuerDn, out =>
    match pool.find? (·.subjectName = issuerDn) with
    | none => endWithoutIssuer env anchors out issuerDn
    | some parent =>
      match room with
      | 0 => Outcome.bail "certificate chain too long (possible loop)"
      | room + 1 =>
        if parent.subjectName = parent.issuerName then .ok (out ++ [parent])
        else if isTrusted env.cms.hashes anchors parent then .ok (out ++ [parent])
        else issuerChainFrom pool anchors room parent.issuerName (out ++ [parent])

/-- `issuer_chain_excluding_leaf`. -/
def issuerChainExcludingLeaf (leaf : Cert) (pool : List Cert) (anchors : Option AnchorStore) :
    Outcome (List Cert) :=
  if leaf.subjectName = leaf.issuerName then .ok []
  else issuerChainFrom env pool anchors 32 leaf.issuerName []

/-- The loop of `issuer_chain_excluding_leaf_online`. -/
def issuerChainOnlineFrom (online : OnlineTrustOptions) (anchors : Option AnchorStore) :
    Nat → List Cert → Cert → List Cert → Nat → Outcome (List Cert)
  | 0, _, _, _, _ => .error .outOfFuel
  | fuel + 1, pool, current, out, steps =>
    match pool.find? (·.subjectName = current.issuerName) with
    | some parent =>
      if 32 < steps + 1 then Outcome.bail "certificate chain too long (possible loop)"
      else if isTrusted env.cms.hashes anchors parent then .ok (out ++ [parent])
      else if parent.subjectName = parent.issuerName then .ok (out ++ [parent])
      else issuerChainOnlineFrom online anchors fuel pool parent (out ++ [parent]) (steps + 1)
    | none => do
      let fetched ← issuerCandidatesFromAia env fuel current online
      if fetched.isEmpty then endWithoutIssuer env anchors out current.issuerName
      else issuerChainOnlineFrom online anchors fuel (pool ++ fetched) current out steps

/-- `issuer_chain_excluding_leaf_online`. -/
def issuerChainExcludingLeafOnline (fuel : Nat) (leaf : Cert) (pool : List Cert)
    (online : OnlineTrustOptions) (anchors : Option AnchorStore) : Outcome (List Cert) :=
  if leaf.subjectName = leaf.issuerName then .ok []
  else issuerChainOnlineFrom env online anchors fuel pool leaf [] 0

/-- `terminal_root_cert` and `terminal_root_cert_owned`; a chain of a leaf that
another certificate issued is not empty. -/
def terminalRootCert (leaf : Cert) (chain : List Cert) : Cert :=
  if leaf.subjectName = leaf.issuerName then leaf else chain.getLast?.getD leaf

end Psign.Trust
