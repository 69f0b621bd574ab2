import Psign.CodeLib.Base64
import Psign.CodeLib.Subslice
import Psign.Trust.XmlC14n

/-!
# Signatures of ClickOnce manifests

The two implementations of the signature that a manifest envelops: `code.rs`, which
looks for tags by their local names, and `psign-portable-core`, which looks for fixed
text.  Both hash the manifest without its signature as it is written, put the digest
into a `SignedInfo`, have its text signed, and insert the signature at the end of the
document element.

Texts are lists of characters, and positions count characters.  Hash functions and
signers are parameters.  Next to the document the model returns the octets that were
signed.
-/

namespace Psign.Code

open CodeLib CodeLib.Unicode Trust.XmlC14n

/-! ## The signature element -/

/-- `VsixHashAlgorithm`. -/
inductive VsixHashAlgorithm where
  | sha256
  | sha384
  | sha512
  deriving DecidableEq

/-- `signature_uri`, and `clickonce_signature_algorithm_uri`. -/
def VsixHashAlgorithm.signatureUri : VsixHashAlgorithm → List Char
  | sha256 => "http://www.w3.org/2001/04/".toList ++ "xmldsig-more#rsa-sha256".toList
  | sha384 => "http://www.w3.org/2001/04/".toList ++ "xmldsig-more#rsa-sha384".toList
  | sha512 => "http://www.w3.org/2001/04/".toList ++ "xmldsig-more#rsa-sha512".toList

/-- `digest_uri`, and `clickonce_signature_digest_uri`. -/
def VsixHashAlgorithm.digestUri : VsixHashAlgorithm → List Char
  | sha256 => "http://www.w3.org/2001/04/".toList ++ "xmlenc#sha256".toList
  | sha384 => "http://www.w3.org/2001/04/".toList ++ "xmldsig-more#sha384".toList
  | sha512 => "http://www.w3.org/2001/04/".toList ++ "xmlenc#sha512".toList

/-- The hash functions, and what signs the octets of a `SignedInfo`: the signature and
the certificate of the signer. -/
structure XmlSigner where
  hash : VsixHashAlgorithm → List UInt8 → List UInt8
  sign : VsixHashAlgorithm → List UInt8 → Outcome (List UInt8 × List UInt8)

/-- What a sign path has made. -/
structure SignedManifest where
  document : List Char
  /-- The octets that were signed. -/
  octets : List UInt8
  deriving DecidableEq

/-- The namespace of XML signatures. -/
def dsigNs : List Char := "http://www.w3.org/2000/09/".toList ++ "xmldsig#".toList

/-- The start of a `SignedInfo`, up to the host of the first URI. -/
def signedInfoStart : List Char :=
  "<SignedInfo><CanonicalizationMethod ".toList ++ "Algorithm=\"http://".toList

/-- The rest of a `SignedInfo` behind its start. -/
def signedInfoRest (algorithm : VsixHashAlgorithm) (digest : List UInt8) : List Char :=
  "www.w3.org/2001/10/xml-exc-c14n#\"/>".toList ++ "<SignatureMethod Algorithm=\"".toList ++
    algorithm.signatureUri ++ "\"/><Reference URI=\"\"><Transforms>".toList ++
    "<Transform Algorithm=\"".toList ++ dsigNs ++ "enveloped-signature\"/>".toList ++
    "</Transforms><DigestMethod Algorithm=\"".toList ++ algorithm.digestUri ++
    "\"/><DigestValue>".toList ++ Base64Engine.encodeStandard digest ++
    "</DigestValue></Reference></SignedInfo>".toList

/-- `clickonce_manifest_signed_info_xml`, and `clickonce_manifest_signed_info_xml_bytes`:
the text of the element, from the text of the manifest without a signature. -/
def clickonceManifestSignedInfoXml (signer : XmlSigner) (algorithm : VsixHashAlgorithm)
    (unsigned : List Char) : List Char :=
  signedInfoStart ++ signedInfoRest algorithm (signer.hash algorithm (utf8Encode unsigned))

/-- `clickonce_manifest_signature_xml`, and `build_clickonce_signature_xml`. -/
def clickonceManifestSignatureXml (signedInfo : List Char) (signature certDer : List UInt8) :
    List Char :=
  "<Signature xmlns=\"".toList ++ dsigNs ++ "\">".toList ++ signedInfo ++
    "<SignatureValue>".toList ++ Base64Engine.encodeStandard signature ++ "</SignatureValue>".toList ++
    "<KeyInfo><X509Data><X509Certificate>".toList ++ Base64Engine.encodeStandard certDer ++
    "</X509Certificate></X509Data></KeyInfo></Signature>".toList

/-! ## `code.rs` -/

/-- `XmlStartTagSpan`; `stop` is the position of the closing bracket. -/
structure XmlStartTagSpan where
  start : ℕ
  stop : ℕ
  name : List Char
  deriving DecidableEq

/-- The name in a tag. -/
def tagName (rest : List Char) : List Char :=
  rest.takeWhile fun c => ¬ (RustStr.isWhitespace c = true ∨ c = '>' ∨ c = '/')

/-- The local part of the name of a tag. -/
def tagLocalName (name : List Char) : List Char :=
  ((RustStr.rsplitOnce ':' name).map Prod.snd).getD name

/-- The loop of `find_xml_start_tag_by_local_name`; `skip` characters are passed over. -/
def findStartTagFrom (localName : List Char) :
    (skip pos : ℕ) → List Char → Outcome (Option XmlStartTagSpan)
  | _, _, [] => .ok none
  | skip + 1, pos, _ :: rest => findStartTagFrom localName skip (pos + 1) rest
  | 0, pos, c :: rest =>
    if c = '<' then
      match rest.head? with
      | none => .ok none
      | some first =>
        if first = '/' ∨ first = '!' ∨ first = '?' then
          findStartTagFrom localName 0 (pos + 1) rest
        else if '>' ∈ rest then
          let inside := (rest.takeWhile (· ≠ '>')).length
          let name := tagName rest
          if tagLocalName name = localName then .ok (some ⟨pos, pos + 1 + inside, name⟩)
          else findStartTagFrom localName (inside + 1) (pos + 1) rest
        else Outcome.bail "ClickOnce XML tag is not closed"
    else findStartTagFrom localName 0 (pos + 1) rest

/-- `find_xml_start_tag_by_local_name`, from the start of the text. -/
def findXmlStartTagByLocalName (text localName : List Char) : Outcome (Option XmlStartTagSpan) :=
  findStartTagFrom localName 0 0 text

/-- An end tag. -/
def closeTag (name : List Char) : List Char := '<' :: '/' :: (name ++ ['>'])

/-- `find_xml_element_span_by_local_name`, from the start of the text. -/
def findXmlElementSpanByLocalName (text localName : List Char) : Outcome (Option (ℕ × ℕ)) := do
  match ← findXmlStartTagByLocalName text localName with
  | none => return none
  | some tag =>
    let close := closeTag tag.name
    let contentStart := tag.stop + 1
    let offset ← Outcome.ofOption (Subslice.firstAt? close (text.drop contentStart))
      ("ClickOnce XML </" ++ String.ofList tag.name ++ "> tag is not closed")
    return some (tag.start, contentStart + offset + close.length)

/-- `unsigned_clickonce_manifest_text`. -/
def unsignedClickonceManifestText (text : List Char) : Outcome (List Char) := do
  match ← findXmlElementSpanByLocalName text "Signature".toList with
  | none => return text
  | some (start, stop) => return text.take start ++ text.drop stop

/-- The loop of `find_xml_root_start_tag`; `skip` characters are passed over. -/
def findRootFrom : (skip pos : ℕ) → List Char → Outcome XmlStartTagSpan
  | _, _, [] => Outcome.bail "ClickOnce manifest does not contain a root XML element"
  | skip + 1, pos, _ :: rest => findRootFrom skip (pos + 1) rest
  | 0, pos, c :: rest =>
    if c = '<' then
      match rest.head? with
      | none => Outcome.bail "ClickOnce manifest does not contain a root XML element"
      | some first =>
        let inside := (rest.takeWhile (· ≠ '>')).length
        if first = '?' ∨ first = '!' then
          if '>' ∈ rest then findRootFrom (inside + 1) (pos + 1) rest
          else Outcome.bail "ClickOnce XML declaration/comment is not closed"
        else if first = '/' then
          Outcome.bail "ClickOnce XML starts with an unexpected closing tag"
        else if '>' ∈ rest then .ok ⟨pos, pos + 1 + inside, tagName rest⟩
        else Outcome.bail "ClickOnce XML root tag is not closed"
    else findRootFrom 0 (pos + 1) rest

/-- `find_xml_root_start_tag`. -/
def findXmlRootStartTag (text : List Char) : Outcome XmlStartTagSpan :=
  findRootFrom 0 0 text

/-- `insert_clickonce_signature_xml`. -/
def insertClickonceSignatureXml (unsigned signatureXml : List Char) : Outcome (List Char) := do
  let root ← findXmlRootStartTag unsigned
  let closeStart ← Outcome.ofOption (Subslice.lastAt? (closeTag root.name) unsigned)
    ("ClickOnce manifest root </" ++ String.ofList root.name ++ "> tag is not closed")
  return unsigned.take closeStart ++ signatureXml ++ unsigned.drop closeStart

/-- `sign_clickonce_manifest_bytes`. -/
def signClickonceManifestBytes (signer : XmlSigner) (input : List UInt8) (label : List Char)
    (algorithm : VsixHashAlgorithm) (timestamped : Bool) : Outcome SignedManifest := do
  Outcome.guardThat (timestamped = false)
    "ClickOnce manifest XMLDSig timestamping is not implemented in `psign-tool code` yet"
  let text ← Outcome.ofOption (fromUtf8 input)
    ("read ClickOnce manifest " ++ String.ofList label ++ " as UTF-8 XML")
  let unsigned ← unsignedClickonceManifestText text
  let signedInfo := clickonceManifestSignedInfoXml signer algorithm unsigned
  let (signature, certDer) ← signer.sign algorithm (utf8Encode signedInfo)
  let signatureXml := clickonceManifestSignatureXml signedInfo signature certDer
  let document ← insertClickonceSignatureXml unsigned signatureXml
  return ⟨document, utf8Encode signedInfo⟩

/-! ## `psign-portable-core` -/

/-- `remove_clickonce_xml_signature`. -/
def removeClickonceXmlSignature (text : List Char) : List Char :=
  match Subslice.firstAt? "<Signature".toList text with
  | some start =>
    match Subslice.firstAt? "</Signature>".toList (text.drop start) with
    | some stop => text.take start ++ text.drop (start + stop + "</Signature>".toList.length)
    | none => text
  | none => text

/-- `insert_clickonce_signature_in_manifest`. -/
def insertClickonceSignatureInManifest (text signatureXml : List Char) : Outcome (List Char) := do
  let closePos ← Outcome.ofOption (Subslice.lastAt? "</".toList text)
    "ClickOnce manifest does not have a closing root element tag"
  return text.take closePos ++ signatureXml ++ text.drop closePos

/-- `sign_clickonce_manifest`, for the bytes that it reads. -/
def signClickonceManifest (signer : XmlSigner) (data : List UInt8) (path : List Char)
    (algorithm : VsixHashAlgorithm) : Outcome SignedManifest := do
  let text ← Outcome.ofOption (fromUtf8 data)
    ("read ClickOnce manifest " ++ String.ofList path ++ " as UTF-8")
  let unsigned := removeClickonceXmlSignature text
  let signedInfo := clickonceManifestSignedInfoXml signer algorithm unsigned
  let (signature, certDer) ← signer.sign algorithm (utf8Encode signedInfo)
  let signatureXml := clickonceManifestSignatureXml signedInfo signature certDer
  let document ← insertClickonceSignatureInManifest unsigned signatureXml
  return ⟨document, utf8Encode signedInfo⟩

/-! ## What is signed is not canonical -/

/-- A document is valid under its own `SignedInfo`, which declares exclusive canonical
XML: the digest is that of the document without the signature, and the octets that were
signed are those of the `SignedInfo` in the document. -/
def ValidUnderSignedInfo (reader : Xml.Reader) (signer : XmlSigner) (algorithm : VsixHashAlgorithm)
    (signed : SignedManifest) : Prop :=
  ∃ (root signature signedInfo reference digestValue : Element) (before after : List Node),
    parseDocument reader (utf8Encode signed.document) = .ok root ∧
    root.children = before ++ signature.node :: after ∧
    signature.Is dsigNs "Signature".toList ∧
    signature.child dsigNs "SignedInfo".toList = some signedInfo ∧
    signedInfo.child dsigNs "Reference".toList = some reference ∧
    reference.child dsigNs "DigestValue".toList = some digestValue ∧
    Base64Engine.decodeStandard? digestValue.text =
      some (signer.hash algorithm (canonicalize { root with children := before ++ after }
        .exclusive)) ∧
    signed.octets = canonicalize signedInfo .exclusive

theorem utf8Encode_injective {s t : List Char} (h : utf8Encode s = utf8Encode t) : s = t := by
  have hdecode := congrArg fromUtf8 h
  rw [fromUtf8_utf8Encode, fromUtf8_utf8Encode] at hdecode
  exact Option.some.inj hdecode

theorem signClickonceManifestBytes_octets {signer : XmlSigner} {input : List UInt8}
    {label : List Char} {algorithm : VsixHashAlgorithm} {timestamped : Bool}
    {signed : SignedManifest}
    (h : signClickonceManifestBytes signer input label algorithm timestamped = .ok signed) :
    ∃ unsigned, signed.octets =
      utf8Encode (clickonceManifestSignedInfoXml signer algorithm unsigned) := by
  obtain ⟨-, h⟩ := Outcome.guardThat_bind_eq_ok.mp h
  obtain ⟨text, -, h⟩ := Outcome.bind_eq_ok.mp h
  obtain ⟨unsigned, -, h⟩ := Outcome.bind_eq_ok.mp h
  obtain ⟨⟨signature, certDer⟩, -, h⟩ := Outcome.bind_eq_ok.mp h
  obtain ⟨document, -, h⟩ := Outcome.bind_eq_ok.mp h
  exact ⟨unsigned, by rw [← Except.ok.inj h]⟩

theorem signClickonceManifest_octets {signer : XmlSigner} {data : List UInt8} {path : List Char}
    {algorithm : VsixHashAlgorithm} {signed : SignedManifest}
    (h : signClickonceManifest signer data path algorithm = .ok signed) :
    ∃ unsigned, signed.octets =
      utf8Encode (clickonceManifestSignedInfoXml signer algorithm unsigned) := by
  obtain ⟨text, -, h⟩ := Outcome.bind_eq_ok.mp h
  obtain ⟨⟨signature, certDer⟩, -, h⟩ := Outcome.bind_eq_ok.mp h
  obtain ⟨document, -, h⟩ := Outcome.bind_eq_ok.mp h
  exact ⟨_, by rw [← Except.ok.inj h]⟩

/-- The text that is signed has no declaration in its first tag, and the canonical form
of a `SignedInfo` has one. -/
theorem signedInfoXml_ne_canonicalize {signer : XmlSigner} {algorithm : VsixHashAlgorithm}
    {unsigned : List Char} {signedInfo : Element}
    (h : signedInfo.Is dsigNs "SignedInfo".toList) :
    utf8Encode (clickonceManifestSignedInfoXml signer algorithm unsigned) ≠
      canonicalize signedInfo .exclusive := by
  intro heq
  obtain ⟨hlocal, hns⟩ := h
  have htext := utf8Encode_injective heq
  rw [clickonceManifestSignedInfoXml, Element.node, writeNode, writeStart] at htext
  cases hsplit : RustStr.splitOnce ':' signedInfo.qname with
  | none =>
    -- without a prefix the namespace is the default one, which is declared
    have hpre : splitQname signedInfo.qname = ([], signedInfo.qname) := by
      rw [splitQname, hsplit]
      rfl
    have hqname : signedInfo.qname = "SignedInfo".toList := by
      rw [Element.localName, hpre] at hlocal
      exact hlocal
    have hdeclared :
        emitted .exclusive [] signedInfo.qname signedInfo.attrs signedInfo.scope ≠ [] := by
      apply emitted_ne_nil
      · rw [hpre]
        exact List.ne_nil_of_length_pos (by decide) |>.symm
      · intro hempty
        rw [Element.ns, hempty] at hns
        exact absurd hns (by decide)
    have hstart : signedInfoStart = '<' :: ("SignedInfo".toList ++
        '>' :: ("<CanonicalizationMethod ".toList ++ "Algorithm=\"http://".toList)) := by
      decide
    rw [hstart, hqname, List.cons_append, List.cons_append, List.cons.injEq, List.append_assoc,
      List.append_assoc, List.append_cancel_left_eq] at htext
    have hhead := congrArg List.head? htext.2
    rw [hqname] at hdeclared
    rw [List.append_assoc, head_writeDeclaration hdeclared, List.cons_append, List.head?_cons,
      Option.some.injEq] at hhead
    exact absurd hhead (by decide)
  | some parts =>
    -- with a prefix, the first colon is behind it, and in the text behind the scheme
    obtain ⟨pre, localName⟩ := parts
    have hpre : splitQname signedInfo.qname = (pre, localName) := by
      rw [splitQname, hsplit]
      rfl
    rw [Element.localName, hpre] at hlocal
    obtain ⟨hqname, hcolon⟩ := RustStr.splitOnce_eq_some.mp hsplit
    obtain ⟨scheme, hstart, hscheme⟩ : ∃ scheme,
        signedInfoStart = '<' :: (scheme ++ ':' :: ['/', '/']) ∧ ':' ∉ scheme :=
      ⟨"SignedInfo><CanonicalizationMethod ".toList ++ "Algorithm=\"http".toList,
        by decide, by decide⟩
    rw [hstart, hqname] at htext
    simp only [List.cons_append, List.append_assoc, List.cons.injEq, true_and] at htext
    have hsame := (RustStr.splitOnce_eq_some.mpr ⟨htext, hcolon⟩).symm.trans
      (RustStr.splitOnce_eq_some.mpr ⟨rfl, hscheme⟩)
    have hbehind := (Prod.mk.inj (Option.some.inj hsame)).2
    rw [show localName = "SignedInfo".toList from hlocal] at hbehind
    have hhead := congrArg List.head? hbehind
    rw [List.head?_cons] at hhead
    exact absurd (Option.some.inj hhead) (by decide)

/-- No document of either sign path is valid under its `SignedInfo`: the octets that
were signed are not canonical. -/
theorem not_validUnderSignedInfo {reader : Xml.Reader} {signer : XmlSigner} {input : List UInt8}
    {label : List Char} {algorithm : VsixHashAlgorithm} {timestamped : Bool}
    {signed : SignedManifest}
    (h : signClickonceManifestBytes signer input label algorithm timestamped = .ok signed ∨
      signClickonceManifest signer input label algorithm = .ok signed) :
    ¬ ValidUnderSignedInfo reader signer algorithm signed := by
  intro hvalid
  obtain ⟨_, signature, signedInfo, _, _, _, _, -, -, -, hsigned, -, -, -, hoctets⟩ := hvalid
  have hxml : ∃ unsigned, signed.octets =
      utf8Encode (clickonceManifestSignedInfoXml signer algorithm unsigned) := by
    rcases h with h | h
    · exact signClickonceManifestBytes_octets h
    · exact signClickonceManifest_octets h
  obtain ⟨unsigned, hxml⟩ := hxml
  rw [hxml] at hoctets
  exact signedInfoXml_ne_canonicalize (Element.is_of_child hsigned) hoctets

/-! ### A manifest with an empty element -/

/-- A hash, a signature and a certificate of one octet. -/
def fixedSigner : XmlSigner where
  hash _ _ := [1]
  sign _ _ := .ok ([2], [3])

/-- The octets of a manifest. -/
def plainManifest : List UInt8 := utf8Encode "<a><b/></a>".toList

/-- What is read of a document: the `SignedInfo` in its signature. -/
def signedInfoOf (signed : SignedManifest) : Option Element := do
  let root ← (parseDocument Xml.Reader.simple (utf8Encode signed.document)).toOption
  let signature ← root.child dsigNs "Signature".toList
  signature.child dsigNs "SignedInfo".toList

theorem not_validUnderSignedInfo_plain :
    ∃ signed,
      signClickonceManifestBytes fixedSigner plainManifest "a.manifest".toList .sha256 false =
          .ok signed ∧
        ¬ ValidUnderSignedInfo Xml.Reader.simple fixedSigner .sha256 signed := by
  have hsome : (signClickonceManifestBytes fixedSigner plainManifest "a.manifest".toList .sha256
      false).toOption.isSome = true := by
    decide
  obtain ⟨signed, hsigned⟩ := Option.isSome_iff_exists.mp hsome
  have hok := Outcome.toOption_eq_some.mp hsigned
  exact ⟨signed, hok, not_validUnderSignedInfo (.inl hok)⟩

set_option maxRecDepth 6000

/-- Both paths make the same document of a manifest.  Its signature has a `SignedInfo`
with a canonical form, and other octets were signed. -/
theorem signed_octets_not_canonical :
    ∃ signed signedInfo,
      signClickonceManifestBytes fixedSigner plainManifest "a.manifest".toList .sha256 false =
          .ok signed ∧
        signClickonceManifest fixedSigner plainManifest "a.manifest".toList .sha256 = .ok signed ∧
        signedInfoOf signed = some signedInfo ∧
        signed.octets ≠ canonicalize signedInfo .exclusive ∧
        ¬ ValidUnderSignedInfo Xml.Reader.simple fixedSigner .sha256 signed := by
  have hsome : ((signClickonceManifestBytes fixedSigner plainManifest "a.manifest".toList .sha256
      false).toOption.bind signedInfoOf).isSome = true := by
    decide
  obtain ⟨signedInfo, hinfo⟩ := Option.isSome_iff_exists.mp hsome
  obtain ⟨signed, hsigned, hinfo⟩ := Option.bind_eq_some_iff.mp hinfo
  have hok := Outcome.toOption_eq_some.mp hsigned
  have hsame : signClickonceManifest fixedSigner plainManifest "a.manifest".toList .sha256 =
      signClickonceManifestBytes fixedSigner plainManifest "a.manifest".toList .sha256 false := by
    decide
  obtain ⟨unsigned, hxml⟩ := signClickonceManifestBytes_octets hok
  have hne : ∀ {info : Element}, info.Is dsigNs "SignedInfo".toList →
      signed.octets ≠ canonicalize info .exclusive := by
    intro info his
    rw [hxml]
    exact signedInfoXml_ne_canonicalize his
  have his : signedInfo.Is dsigNs "SignedInfo".toList := by
    obtain ⟨root, -, hroot⟩ := Option.bind_eq_some_iff.mp hinfo
    obtain ⟨signature, -, hsignature⟩ := Option.bind_eq_some_iff.mp hroot
    exact Element.is_of_child hsignature
  refine ⟨signed, signedInfo, hok, hsame.trans hok, hinfo, hne his, ?_⟩
  intro hvalid
  obtain ⟨_, _, info, _, _, _, _, -, -, -, hchild, -, -, -, hoctets⟩ := hvalid
  exact hne (Element.is_of_child hchild) hoctets

end Psign.Code
