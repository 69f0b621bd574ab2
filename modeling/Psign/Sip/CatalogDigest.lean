import Psign.CodeLib.RustStr
import Psign.Sip.PeDigest

/-!
# Members of a security catalog

The member entries of `catalog_digest.rs` and the digest that a file is compared
with: the Authenticode digest of a PE image for a member that was made of one,
the hash of the bytes for every other member.
-/

namespace Psign.Sip

open CodeLib

/-! ## Object identifiers -/

/-- `OID_SHA1`. -/
def oidSha1 : String := "1.3.14.3.2.26"

/-- `OID_SHA256`. -/
def oidSha256 : String := "2.16.840.1.101.3.4.2.1"

/-- `OID_SHA384`. -/
def oidSha384 : String := "2.16.840.1.101.3.4.2.2"

/-- `OID_SHA512`. -/
def oidSha512 : String := "2.16.840.1.101.3.4.2.3"

/-- `ID_SPC_PE_IMAGE_DATA`. -/
def idSpcPeImageData : String := "1.3.6.1.4.1.311.2.1.15"

/-- `ID_SPC_CAB_DATA`. -/
def idSpcCabData : String := "1.3.6.1.4.1.311.2.1.25"

/-! ## Hash algorithms -/

/-- `CatalogHashAlgorithm`. -/
inductive CatalogHashAlgorithm where
  | sha1
  | sha256
  | sha384
  | sha512
  deriving DecidableEq, Repr

namespace CatalogHashAlgorithm

/-- `CatalogHashAlgorithm::digest_algorithm_oid`. -/
def digestAlgorithmOid : CatalogHashAlgorithm → String
  | sha1 => oidSha1
  | sha256 => oidSha256
  | sha384 => oidSha384
  | sha512 => oidSha512

/-- `CatalogHashAlgorithm::pe_hash_kind`. -/
def peHashKind : CatalogHashAlgorithm → PeAuthenticodeHashKind
  | sha1 => .sha1
  | sha256 => .sha256
  | sha384 => .sha384
  | sha512 => .sha512

end CatalogHashAlgorithm

/-- `digest_kind_from_digest_alg_oid`. -/
def digestKindFromDigestAlgOid (oid : String) : Outcome PeAuthenticodeHashKind :=
  if oid = oidSha1 then .ok .sha1
  else if oid = oidSha256 then .ok .sha256
  else if oid = oidSha384 then .ok .sha384
  else if oid = oidSha512 then .ok .sha512
  else Outcome.bail ("unsupported digest algorithm OID " ++ oid ++ " in catalog SignedData")

@[simp] theorem digestKindFromDigestAlgOid_digestAlgorithmOid (algorithm : CatalogHashAlgorithm) :
    digestKindFromDigestAlgOid algorithm.digestAlgorithmOid = .ok algorithm.peHashKind := by
  cases algorithm <;> rfl

/-! ## Members -/

/-- `CatalogMember`. -/
structure CatalogMember where
  subjectIdentifier : List UInt8
  subjectName : Option (List Char)
  dataOid : String
  digestAlgorithmOid : String
  digest : List UInt8
  deriving DecidableEq, Repr

variable (parser : PeParser) (hashes : Hashes)

/-- `hash_subject_bytes`. -/
def hashSubjectBytes (algorithm : CatalogHashAlgorithm) (bytes : List UInt8) : List UInt8 :=
  hashes.hash algorithm.peHashKind bytes

/-- `catalog_member_digest_for_subject`. -/
def catalogMemberDigestForSubject (member : CatalogMember) (subject : List UInt8) :
    Outcome (List UInt8) := do
  let kind ← digestKindFromDigestAlgOid member.digestAlgorithmOid
  if member.dataOid = idSpcPeImageData then
    (peAuthenticodeDigest parser hashes subject kind).mapErr fun e =>
      "compute PE Authenticode digest for catalog member: " ++ e
  else
    let algorithm : CatalogHashAlgorithm :=
      if kind = .sha1 then .sha1
      else if kind = .sha256 then .sha256
      else if kind = .sha384 then .sha384
      else .sha512
    .ok (hashSubjectBytes hashes algorithm subject)

end Psign.Sip
