import Psign.Sip.CatalogCtl

/-!
# The crates of a catalog, to be evaluated

`CatalogCrates.der` encodes and decodes what a catalog is made of, for the object
identifiers that the catalog code uses (`oidBodies`).  The encoders write the DER of
the standard; the decoders cut it into elements again.
-/

namespace Psign.Sip.CatalogDer

open CodeLib CodeLib.Der

/-! ## Object identifiers -/

/-- The contents octets of the object identifiers. -/
def oidBodies : List (String × List UInt8) :=
  [(idSpcIndirectData, [0x2b, 0x06, 0x01, 0x04, 0x01, 0x82, 0x37, 0x02, 0x01, 0x04]),
    (idMsCtlUsage, [0x2b, 0x06, 0x01, 0x04, 0x01, 0x82, 0x37, 0x0c, 0x01, 0x01]),
    (idMsCtlSubjectAlg, [0x2b, 0x06, 0x01, 0x04, 0x01, 0x82, 0x37, 0x0c, 0x01, 0x02]),
    (idMsCtl, [0x2b, 0x06, 0x01, 0x04, 0x01, 0x82, 0x37, 0x0a, 0x01]),
    (idSpcPeImageData, [0x2b, 0x06, 0x01, 0x04, 0x01, 0x82, 0x37, 0x02, 0x01, 0x0f]),
    (idSpcCabData, [0x2b, 0x06, 0x01, 0x04, 0x01, 0x82, 0x37, 0x02, 0x01, 0x19]),
    (idSignedDataOid, [0x2a, 0x86, 0x48, 0x86, 0xf7, 0x0d, 0x01, 0x07, 0x02]),
    (oidSha1, [0x2b, 0x0e, 0x03, 0x02, 0x1a]),
    (oidSha256, [0x60, 0x86, 0x48, 0x01, 0x65, 0x03, 0x04, 0x02, 0x01]),
    (oidSha384, [0x60, 0x86, 0x48, 0x01, 0x65, 0x03, 0x04, 0x02, 0x02]),
    (oidSha512, [0x60, 0x86, 0x48, 0x01, 0x65, 0x03, 0x04, 0x02, 0x03])]

/-- The DER of an object identifier. -/
def oidToDer (oid : String) : Outcome (List UInt8) :=
  match oidBodies.find? fun entry => entry.1 = oid with
  | some entry => .ok (encodeTlv 0x06 entry.2)
  | none => Outcome.bail "unknown object identifier"

/-- The object identifier with these contents octets. -/
def oidOfBody (body : List UInt8) : Outcome String :=
  match oidBodies.find? fun entry => entry.2 = body with
  | some entry => .ok entry.1
  | none => Outcome.bail "unknown object identifier"

theorem oidToDer_spec {oid : String} {der : List UInt8} (h : oidToDer oid = .ok der) :
    ∃ body, der = encodeTlv 0x06 body ∧ body.length < 128 ∧ oidOfBody body = .ok oid := by
  have hall : ∀ entry ∈ oidBodies, entry.2.length < 128 ∧ oidOfBody entry.2 = .ok entry.1 := by
    decide
  unfold oidToDer at h
  cases hfind : oidBodies.find? fun entry => entry.1 = oid with
  | none => simp [hfind] at h
  | some entry =>
    simp only [hfind, Except.ok.injEq] at h
    have hsame : entry.1 = oid := by simpa using List.find?_some hfind
    obtain ⟨hlen, hoid⟩ := hall entry (List.mem_of_find?_eq_some hfind)
    exact ⟨entry.2, h.symm, hlen, hsame ▸ hoid⟩

theorem length_oidToDer_le {oid : String} {der : List UInt8} (h : oidToDer oid = .ok der) :
    der.length ≤ 12 := by
  have hall : ∀ entry ∈ oidBodies, (encodeTlv 0x06 entry.2).length ≤ 12 := by
    decide
  unfold oidToDer at h
  cases hfind : oidBodies.find? fun entry => entry.1 = oid with
  | none => simp [hfind] at h
  | some entry =>
    simp only [hfind, Except.ok.injEq] at h
    rw [← h]
    exact hall entry (List.mem_of_find?_eq_some hfind)

/-! ## Elements -/

/-- The longest element of the `der` crate. -/
def limited (der : List UInt8) : Outcome (List UInt8) :=
  if der.length < 2 ^ 28 then .ok der else Outcome.bail "ASN.1 DER message too long"

theorem limited_eq_ok {der der' : List UInt8} :
    limited der = .ok der' ↔ der.length < 2 ^ 28 ∧ der = der' := by
  unfold limited
  split
  · rename_i h
    exact ⟨fun hok => ⟨h, Except.ok.inj hok⟩, fun hok => hok.2 ▸ rfl⟩
  · rename_i h
    exact ⟨fun hok => absurd hok Outcome.bail_ne_ok, fun hok => absurd hok.1 h⟩

/-- The first element, and the bytes behind it. -/
def first (bytes : List UInt8) : Outcome (Tlv × List UInt8) :=
  Outcome.ofOption (readTlv 8 bytes) "ASN.1 DER message is incomplete"

/-- All of the elements. -/
def elements (bytes : List UInt8) : Outcome (List Tlv) :=
  Outcome.ofOption (readTlvs 8 bytes) "ASN.1 DER message is incomplete"

theorem isTlv {tag : UInt8} {value : List UInt8} (h : value.length < 2 ^ 32) :
    IsTlv 8 ⟨tag, encodeTlv tag value, value⟩ := by
  have hpow : 2 ^ 32 < 256 ^ 8 := by decide
  exact isTlv_encodeTlv (by omega) (Nat.le_refl 8)

theorem first_encodeTlv (tag : UInt8) (value : List UInt8) (h : value.length < 2 ^ 32)
    (rest : List UInt8) :
    first (encodeTlv tag value ++ rest) = .ok (⟨tag, encodeTlv tag value, value⟩, rest) := by
  rw [first, Outcome.ofOption_eq_ok]
  exact (isTlv h).readTlv_append rest

theorem elements_rawOf (tlvs : List Tlv) (h : ∀ tlv ∈ tlvs, IsTlv 8 tlv) :
    elements (rawOf tlvs) = .ok tlvs := by
  rw [elements, Outcome.ofOption_eq_ok]
  exact readTlvs_eq_some.mpr ⟨rfl, h⟩

theorem length_lt_of_encodeTlv (tag : UInt8) {value : List UInt8} {n : Nat}
    (h : (encodeTlv tag value).length ≤ n) : value.length < n := by
  rw [encodeTlv, List.length_cons, List.length_append] at h
  omega

/-! ## Indirect data -/

/-- The DER of an `SpcIndirectDataContent`. -/
def spcToDer (indirect : SpcIndirectDataContent) : Outcome (List UInt8) := do
  let valueType ← oidToDer indirect.valueType
  let algorithm ← oidToDer indirect.digestAlgorithm.oid
  return encodeTlv 0x30 (
    encodeTlv 0x30 (valueType ++ indirect.value) ++
    encodeTlv 0x30 (encodeTlv 0x30 (algorithm ++ indirect.digestAlgorithm.parameters.getD []) ++
      encodeTlv 0x04 indirect.digest))

/-- An optional rest. -/
def restOf (bytes : List UInt8) : Option (List UInt8) :=
  if bytes = [] then none else some bytes

/-- Reading an `SpcIndirectDataContent`. -/
def spcFromDer (der : List UInt8) : Outcome SpcIndirectDataContent := do
  let (outer, _) ← first der
  match ← elements outer.value with
  | [data, info] =>
    let (valueType, value) ← first data.value
    let valueType ← oidOfBody valueType.value
    match ← elements info.value with
    | [algorithm, digest] =>
      let (oid, parameters) ← first algorithm.value
      let oid ← oidOfBody oid.value
      return ⟨valueType, value, ⟨oid, restOf parameters⟩, digest.value⟩
    | _ => Outcome.bail "DigestInfo"
  | _ => Outcome.bail "SpcIndirectDataContent"

theorem length_encodeTlv_le (tag : UInt8) (value : List UInt8) :
    (encodeTlv tag value).length ≤ value.length + 10 := by
  have hwidth := length_beBytes_le_width 8 value.length
  rw [encodeTlv, List.length_cons, List.length_append, encodeLength]
  by_cases hshort : value.length < 128
  · rw [if_pos hshort, List.length_singleton]
    omega
  · rw [if_neg hshort, List.length_cons]
    omega

/-- What is written of a short content is read back. -/
theorem spcFromDer_spcToDer {indirect : SpcIndirectDataContent} {der : List UInt8}
    (hparameters : indirect.digestAlgorithm.parameters = none) (hvalue : indirect.value.length < 128)
    (hdigest : indirect.digest.length < 128) (h : spcToDer indirect = .ok der) :
    spcFromDer der = .ok indirect := by
  obtain ⟨valueTypeDer, hvalueType, h⟩ := Outcome.bind_eq_ok.mp h
  obtain ⟨algorithmDer, halgorithm, h⟩ := Outcome.bind_eq_ok.mp h
  cases Except.ok.inj h
  obtain ⟨valueType, rfl, hlen, hname⟩ := oidToDer_spec hvalueType
  obtain ⟨algorithm, rfl, hlen', hname'⟩ := oidToDer_spec halgorithm
  have htype := length_encodeTlv_le 0x06 valueType
  have hoid := length_encodeTlv_le 0x06 algorithm
  have halg := length_encodeTlv_le 0x30 (encodeTlv 0x06 algorithm)
  have hoctets := length_encodeTlv_le 0x04 indirect.digest
  have hdata : (encodeTlv 0x06 valueType ++ indirect.value).length < 300 := by
    rw [List.length_append]
    omega
  have hinfo : (encodeTlv 0x30 (encodeTlv 0x06 algorithm) ++
      encodeTlv 0x04 indirect.digest).length < 300 := by
    rw [List.length_append]
    omega
  have hdata' := length_encodeTlv_le 0x30 (encodeTlv 0x06 valueType ++ indirect.value)
  have hinfo' := length_encodeTlv_le 0x30
    (encodeTlv 0x30 (encodeTlv 0x06 algorithm) ++ encodeTlv 0x04 indirect.digest)
  rw [hparameters, Option.getD_none, List.append_nil]
  have houter := first_encodeTlv 0x30
    (encodeTlv 0x30 (encodeTlv 0x06 valueType ++ indirect.value) ++
      encodeTlv 0x30 (encodeTlv 0x30 (encodeTlv 0x06 algorithm) ++ encodeTlv 0x04 indirect.digest))
    (by rw [List.length_append]; omega) []
  rw [List.append_nil] at houter
  have hfields := elements_rawOf [
    ⟨0x30, encodeTlv 0x30 (encodeTlv 0x06 valueType ++ indirect.value),
      encodeTlv 0x06 valueType ++ indirect.value⟩,
    ⟨0x30, encodeTlv 0x30 (encodeTlv 0x30 (encodeTlv 0x06 algorithm) ++
      encodeTlv 0x04 indirect.digest), encodeTlv 0x30 (encodeTlv 0x06 algorithm) ++
      encodeTlv 0x04 indirect.digest⟩]
    (List.forall_mem_cons.mpr ⟨isTlv (by omega), List.forall_mem_singleton.mpr (isTlv (by omega))⟩)
  have hinfoFields := elements_rawOf [
    ⟨0x30, encodeTlv 0x30 (encodeTlv 0x06 algorithm), encodeTlv 0x06 algorithm⟩,
    ⟨0x04, encodeTlv 0x04 indirect.digest, indirect.digest⟩]
    (List.forall_mem_cons.mpr ⟨isTlv (by omega), List.forall_mem_singleton.mpr (isTlv (by omega))⟩)
  simp only [rawOf_cons, rawOf_nil, List.append_nil] at hfields hinfoFields
  have hfirst := first_encodeTlv 0x06 valueType (by omega) indirect.value
  have hfirst' := first_encodeTlv 0x06 algorithm (by omega) []
  rw [List.append_nil] at hfirst'
  simp only [spcFromDer, houter, hfields, hfirst, hname, hinfoFields, hfirst', hname',
    Outcome.ok_bind]
  obtain ⟨vt, v, ⟨oid, parameters⟩, d⟩ := indirect
  cases hparameters
  rfl

/-! ## Signed data -/

/-- `Any::decode`: an element with the shortest length. -/
def anyDecode (bytes : List UInt8) : Outcome (DerAny × List UInt8) := do
  let bytes ← limited bytes
  let (tlv, rest) ← first bytes
  Outcome.guardThat (encodeTlv tlv.tag tlv.value = tlv.raw) "ASN.1 DER length is not minimal"
  return (⟨tlv.tag, tlv.value⟩, rest)

theorem anyDecode_reads {bytes rest : List UInt8} {any : DerAny}
    (h : anyDecode bytes = .ok (any, rest)) :
    bytes = any.toDer ++ rest ∧ bytes.length < 2 ^ 32 := by
  obtain ⟨_, hlimit, h⟩ := Outcome.bind_eq_ok.mp h
  obtain ⟨hlen, rfl⟩ := limited_eq_ok.mp hlimit
  obtain ⟨⟨tlv, left⟩, hfirst, h⟩ := Outcome.bind_eq_ok.mp h
  obtain ⟨hminimal, h⟩ := Outcome.guardThat_bind_eq_ok.mp h
  cases Except.ok.inj h
  obtain ⟨hbytes, -⟩ := readTlv_eq_some.mp (Outcome.ofOption_eq_ok.mp hfirst)
  refine ⟨?_, by omega⟩
  rw [DerAny.toDer, hminimal]
  exact hbytes

/-- The DER of an algorithm identifier. -/
def algorithmToDer (algorithm : AlgorithmIdentifier) : Outcome (List UInt8) := do
  let oid ← oidToDer algorithm.oid
  return encodeTlv 0x30 (oid ++ algorithm.parameters.getD [])

/-- The DER of a `SignedData` that has neither certificates nor signers. -/
def signedDataToDer (version : Nat) (algorithms : List AlgorithmIdentifier) (sd : SignedData) :
    Outcome (List UInt8) := do
  let econtentType ← oidToDer sd.econtentType
  let algorithms ← algorithms.mapM algorithmToDer
  let econtent := (sd.econtent.map fun any => encodeTlv 0xa0 any.toDer).getD []
  let body := encodeTlv 0x02 [UInt8.ofNat version] ++ (encodeTlv 0x31 algorithms.flatten ++
    (encodeTlv 0x30 (econtentType ++ econtent) ++ encodeTlv 0x31 []))
  limited (encodeTlv 0x30 body)

/-- Reading a content: the type, and the value where there is one. -/
def econtentFromDer (value : List UInt8) : Outcome (String × Option DerAny) := do
  let (oid, econtent) ← first value
  let econtentType ← oidOfBody oid.value
  if econtent = [] then return (econtentType, none)
  else do
    let (explicit, _) ← first econtent
    let (any, _) ← first explicit.value
    return (econtentType, some ⟨any.tag, any.value⟩)

/-- Reading a `SignedData` without certificates and signers. -/
def signedDataFromDer (der : List UInt8) : Outcome SignedData := do
  let (outer, _) ← first der
  match ← elements outer.value with
  | [_, _, encap, _] =>
    let (econtentType, econtent) ← econtentFromDer encap.value
    return ⟨econtentType, econtent, none, []⟩
  | _ => Outcome.bail "SignedData"

theorem econtentFromDer_eq {oid : String} {body : List UInt8} (hlen : body.length < 128)
    (hoid : oidOfBody body = .ok oid) (any : Option DerAny)
    (hlimit : ((any.map fun any => encodeTlv 0xa0 any.toDer).getD []).length < 2 ^ 28) :
    econtentFromDer (encodeTlv 0x06 body ++
      (any.map fun any => encodeTlv 0xa0 any.toDer).getD []) = .ok (oid, any) := by
  rw [econtentFromDer, first_encodeTlv 0x06 body (by omega), Outcome.ok_bind]
  cases any with
  | none =>
    simp only [hoid, Outcome.ok_bind, Option.map_none, Option.getD_none, if_true]
    rfl
  | some any =>
    rw [Option.map_some, Option.getD_some] at hlimit
    have hinner : any.toDer.length < 2 ^ 28 := length_lt_of_encodeTlv _ (Nat.le_of_lt hlimit)
    have hvalue : any.value.length < 2 ^ 28 := length_lt_of_encodeTlv _ (Nat.le_of_lt hinner)
    have hexplicit := first_encodeTlv 0xa0 any.toDer (by omega) []
    have hany := first_encodeTlv any.tag any.value (by omega) []
    rw [List.append_nil] at hexplicit hany
    have hne : encodeTlv 0xa0 any.toDer ≠ [] := List.cons_ne_nil _ _
    simp only [hoid, Outcome.ok_bind, Option.map_some, Option.getD_some, if_neg hne, hexplicit]
    rw [show first any.toDer = _ from hany]
    rfl

theorem signedDataToDer_eq {version : Nat} {algorithms : List AlgorithmIdentifier} {sd : SignedData}
    {der : List UInt8} (h : signedDataToDer version algorithms sd = .ok der) :
    ∃ body, der = encodeTlv 0x30 body := by
  obtain ⟨_, -, h⟩ := Outcome.bind_eq_ok.mp h
  obtain ⟨_, -, h⟩ := Outcome.bind_eq_ok.mp h
  exact ⟨_, (limited_eq_ok.mp h).2.symm⟩

theorem signedDataFromDer_toDer {version : Nat} {algorithms : List AlgorithmIdentifier}
    {sd : SignedData} {der : List UInt8} (hcertificates : sd.certificates = none)
    (hsigners : sd.signerInfos = []) (h : signedDataToDer version algorithms sd = .ok der) :
    signedDataFromDer der = .ok sd := by
  obtain ⟨econtentTypeDer, hoid, h⟩ := Outcome.bind_eq_ok.mp h
  obtain ⟨algorithmsDer, -, h⟩ := Outcome.bind_eq_ok.mp h
  obtain ⟨hlimit, rfl⟩ := limited_eq_ok.mp h
  obtain ⟨body, rfl, hlen, hname⟩ := oidToDer_spec hoid
  have houter := length_lt_of_encodeTlv _ (Nat.le_of_lt hlimit)
  simp only [List.length_append] at houter
  have hencap : (encodeTlv 0x06 body ++
      (sd.econtent.map fun any => encodeTlv 0xa0 any.toDer).getD []).length < 2 ^ 28 :=
    length_lt_of_encodeTlv 0x30 (by omega)
  have halgorithms : algorithmsDer.flatten.length < 2 ^ 28 :=
    length_lt_of_encodeTlv 0x31 (by omega)
  have hfields := elements_rawOf [
    ⟨0x02, encodeTlv 0x02 [UInt8.ofNat version], [UInt8.ofNat version]⟩,
    ⟨0x31, encodeTlv 0x31 algorithmsDer.flatten, algorithmsDer.flatten⟩,
    ⟨0x30, encodeTlv 0x30 (encodeTlv 0x06 body ++
      (sd.econtent.map fun any => encodeTlv 0xa0 any.toDer).getD []), encodeTlv 0x06 body ++
      (sd.econtent.map fun any => encodeTlv 0xa0 any.toDer).getD []⟩,
    ⟨0x31, encodeTlv 0x31 [], []⟩]
    (by
      simp only [List.forall_mem_cons, List.not_mem_nil, false_implies, implies_true, and_true]
      exact ⟨isTlv (by simp), isTlv (by omega), isTlv (by omega), isTlv (by simp)⟩)
  simp only [rawOf_cons, rawOf_nil, List.append_nil] at hfields
  have hfirst := first_encodeTlv 0x30 (encodeTlv 0x02 [UInt8.ofNat version] ++
    (encodeTlv 0x31 algorithmsDer.flatten ++ (encodeTlv 0x30 (encodeTlv 0x06 body ++
      (sd.econtent.map fun any => encodeTlv 0xa0 any.toDer).getD []) ++ encodeTlv 0x31 [])))
    (by simp only [List.length_append] at houter ⊢; omega) []
  rw [List.append_nil] at hfirst
  rw [List.length_append] at hencap
  have hcontent := econtentFromDer_eq hlen hname sd.econtent (by omega)
  rw [signedDataFromDer, hfirst]
  simp only [Outcome.ok_bind, hfields, hcontent]
  obtain ⟨econtentType, econtent, certificates, signerInfos⟩ := sd
  cases hcertificates
  cases hsigners
  rfl

/-! ## Content info -/

/-- The DER of a `ContentInfo`. -/
def contentInfoToDer (ci : ContentInfo) : Outcome (List UInt8) := do
  let contentType ← oidToDer ci.contentType
  limited (encodeTlv 0x30 (contentType ++ encodeTlv 0xa0 ci.content.toDer))

/-- Reading a `ContentInfo`. -/
def contentInfoDecode (der : List UInt8) : Outcome ContentInfo := do
  let (outer, _) ← first der
  match ← econtentFromDer outer.value with
  | (contentType, some content) => return ⟨contentType, content⟩
  | (_, none) => Outcome.bail "ContentInfo"

theorem contentInfoDecode_toDer {ci : ContentInfo} {der : List UInt8}
    (h : contentInfoToDer ci = .ok der) : contentInfoDecode der = .ok ci := by
  obtain ⟨contentTypeDer, hoid, h⟩ := Outcome.bind_eq_ok.mp h
  obtain ⟨hlimit, rfl⟩ := limited_eq_ok.mp h
  obtain ⟨body, rfl, hlen, hname⟩ := oidToDer_spec hoid
  have houter := length_lt_of_encodeTlv _ (Nat.le_of_lt hlimit)
  have hfirst := first_encodeTlv 0x30 (encodeTlv 0x06 body ++ encodeTlv 0xa0 ci.content.toDer)
    (by omega) []
  rw [List.append_nil] at hfirst
  rw [List.length_append] at houter
  have hcontent := econtentFromDer_eq hlen hname (some ci.content)
    (by rw [Option.map_some, Option.getD_some]; omega)
  rw [Option.map_some, Option.getD_some] at hcontent
  rw [contentInfoDecode, hfirst]
  simp only [Outcome.ok_bind, hcontent]
  rfl

theorem spcToDer_eq {indirect : SpcIndirectDataContent} (h : IsCatalogContent indirect) :
    ∃ body, spcToDer indirect = .ok (encodeTlv 0x30 body) := by
  cases h with
  | generic algorithm _ => cases algorithm <;> exact ⟨_, rfl⟩
  | pe algorithm _ => cases algorithm <;> exact ⟨_, rfl⟩

theorem spcFromDer_of_isCatalogContent {indirect : SpcIndirectDataContent} {der : List UInt8}
    (h : IsCatalogContent indirect) (hder : spcToDer indirect = .ok der) :
    spcFromDer der = .ok indirect := by
  have hoctets : ∀ algorithm : CatalogHashAlgorithm, algorithm.peHashKind.digestOutputLen < 128 := by
    intro algorithm
    cases algorithm <;> decide
  cases h with
  | generic algorithm hlength =>
    exact spcFromDer_spcToDer rfl (by exact (by decide : catalogGenericLinkValueDer.length < 128))
      (hlength.symm ▸ hoctets algorithm) hder
  | pe algorithm hlength =>
    exact spcFromDer_spcToDer rfl
      (by exact (by decide : (encodeTlv tagSequence catalogPeImageDataValue).length < 128))
      (hlength.symm ▸ hoctets algorithm) hder

/-! ## The crates -/

/-- Crates that can be evaluated. -/
def crates : CatalogCrates where
  parser := .headers
  hashes := .truncating
  oidToDer := oidToDer
  spcToDer := spcToDer
  spcFromDer := spcFromDer
  sliceReader bytes := do
    let _ ← limited bytes
    return ()
  anyDecode := anyDecode
  finish rest := Outcome.guardThat (rest = []) "trailing data at end of DER message"
  signedDataToDer := signedDataToDer
  signedDataFromDer := signedDataFromDer
  contentInfoToDer := contentInfoToDer
  contentInfoDecode := contentInfoDecode
  oidToDer_eq := by
    intro oid hoid
    simp only [List.mem_cons, List.not_mem_nil, or_false] at hoid
    rcases hoid with rfl | rfl | rfl <;> exact ⟨_, rfl, by decide⟩
  spcToDer_eq := spcToDer_eq
  spcFromDer_spcToDer := spcFromDer_of_isCatalogContent
  anyDecode_reads := anyDecode_reads
  signedDataToDer_eq := signedDataToDer_eq
  signedDataFromDer_toDer := signedDataFromDer_toDer
  contentInfoDecode_toDer := by
    intro ci der h
    obtain ⟨_, -, hlimit⟩ := Outcome.bind_eq_ok.mp h
    obtain ⟨hlen, rfl⟩ := limited_eq_ok.mp hlimit
    refine ⟨?_, contentInfoDecode_toDer h⟩
    rw [limited_eq_ok.mpr ⟨hlen, rfl⟩]
    rfl

end Psign.Sip.CatalogDer
