import Psign.CodeLib.Outcome

/-!
# Authenticode digests

The hash kinds of `pe_digest.rs` and `pkcs7.rs` that every subject format
shares, and the `SpcIndirectDataContent` a signature carries.

The hash functions are a parameter: a `Hashes` computes a digest of the length
its kind promises.  Nothing else is assumed of it here; a result that needs two
inputs to have different digests says so of these two inputs.
-/

namespace Psign.Sip

open CodeLib

/-- `PeAuthenticodeHashKind`. -/
inductive PeAuthenticodeHashKind where
  | sha1
  | sha256
  | sha384
  | sha512
  deriving DecidableEq, Repr

namespace PeAuthenticodeHashKind

/-- `PeAuthenticodeHashKind::digest_output_len`. -/
def digestOutputLen : PeAuthenticodeHashKind → Nat
  | sha1 => 20
  | sha256 => 32
  | sha384 => 48
  | sha512 => 64

/-- `PeAuthenticodeHashKind::from_digest_byte_len`. -/
def fromDigestByteLen (len : Nat) : Outcome PeAuthenticodeHashKind :=
  match len with
  | 20 => .ok sha1
  | 32 => .ok sha256
  | 48 => .ok sha384
  | 64 => .ok sha512
  | _ => Outcome.bail
      s!"unsupported Authenticode digest length {len} bytes (expected 20/32/48/64)"

@[simp] theorem fromDigestByteLen_digestOutputLen (kind : PeAuthenticodeHashKind) :
    fromDigestByteLen kind.digestOutputLen = .ok kind := by
  cases kind <;> rfl

end PeAuthenticodeHashKind

/-- The hash functions of the program: `hash_payload` and its siblings. -/
structure Hashes where
  hash : PeAuthenticodeHashKind → List UInt8 → List UInt8
  length_hash : ∀ kind data, (hash kind data).length = kind.digestOutputLen

/-- A stand-in that can be evaluated: the start of the data, filled up with
zeros. -/
def Hashes.truncating : Hashes where
  hash kind data := (data ++ List.replicate kind.digestOutputLen 0).take kind.digestOutputLen
  length_hash kind data := by simp

/-- The last bytes of a number, big-endian. -/
def beBytesOf : Nat → Nat → List UInt8
  | 0, _ => []
  | width + 1, n => beBytesOf width (n / 256) ++ [UInt8.ofNat (n % 256)]

theorem length_beBytesOf (width n : Nat) : (beBytesOf width n).length = width := by
  induction width generalizing n with
  | zero => rfl
  | succ width ih => rw [beBytesOf, List.length_append, ih, List.length_singleton]

/-- A stand-in that depends on all of the data: its bytes as the digits of a
number. -/
def Hashes.mixing : Hashes where
  hash kind data :=
    beBytesOf kind.digestOutputLen (data.foldl (fun n byte => n * 257 + byte.toNat + 1) 0)
  length_hash kind data := length_beBytesOf kind.digestOutputLen _

/-- `AuthenticodeSigningDigest`. -/
inductive AuthenticodeSigningDigest where
  | sha256
  | sha384
  | sha512
  deriving DecidableEq, Repr

namespace AuthenticodeSigningDigest

/-- `AuthenticodeSigningDigest::pe_hash_kind`. -/
def peHashKind : AuthenticodeSigningDigest → PeAuthenticodeHashKind
  | sha256 => .sha256
  | sha384 => .sha384
  | sha512 => .sha512

/-- The object identifier of `AuthenticodeSigningDigest::digest_algorithm`. -/
def digestOid : AuthenticodeSigningDigest → String
  | sha256 => "2.16.840.1.101.3.4.2.1"
  | sha384 => "2.16.840.1.101.3.4.2.2"
  | sha512 => "2.16.840.1.101.3.4.2.3"

/-- The name `{:?}` prints. -/
def debugName : AuthenticodeSigningDigest → String
  | sha256 => "Sha256"
  | sha384 => "Sha384"
  | sha512 => "Sha512"

end AuthenticodeSigningDigest

/-- An algorithm identifier with its DER parameters. -/
structure AlgorithmIdentifier where
  oid : String
  parameters : Option (List UInt8)
  deriving DecidableEq, Repr

/-- `SpcIndirectDataContent`: what is signed, and its digest. -/
structure SpcIndirectDataContent where
  valueType : String
  /-- The DER of `data.value`. -/
  value : List UInt8
  digestAlgorithm : AlgorithmIdentifier
  digest : List UInt8
  deriving DecidableEq, Repr

/-- `AuthenticodeSigningDigest::authenticode_digest_algorithm`: the digest
identifier with NULL parameters. -/
def AuthenticodeSigningDigest.authenticodeDigestAlgorithm (alg : AuthenticodeSigningDigest) :
    AlgorithmIdentifier :=
  ⟨alg.digestOid, some [0x05, 0x00]⟩

/-- `spc_indirect_data`. -/
def spcIndirectData (digestAlgorithm : AuthenticodeSigningDigest) (subjectDigest : List UInt8)
    (valueType : String) (value : List UInt8) (label : String) :
    Outcome SpcIndirectDataContent :=
  let expected := digestAlgorithm.peHashKind.digestOutputLen
  if subjectDigest.length ≠ expected then
    Outcome.bail (label ++ " digest length " ++ toString subjectDigest.length ++
      " does not match " ++ digestAlgorithm.debugName ++ " (" ++ toString expected ++ " octets)")
  else
    .ok ⟨valueType, value, digestAlgorithm.authenticodeDigestAlgorithm, subjectDigest⟩

theorem digest_of_spcIndirectData {alg : AuthenticodeSigningDigest} {subjectDigest value : List UInt8}
    {valueType label : String} {indirect : SpcIndirectDataContent}
    (h : spcIndirectData alg subjectDigest valueType value label = .ok indirect) :
    indirect.digest = subjectDigest := by
  simp only [spcIndirectData] at h
  split at h
  · exact absurd h Outcome.bail_ne_ok
  · exact (Except.ok.inj h) ▸ rfl

end Psign.Sip
