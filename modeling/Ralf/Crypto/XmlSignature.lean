import Ralf.Core.Json
import Ralf.Crypto.CertificateChain

/-!
# The XML signature

`XmlDigitalSignature` keeps the nodes of a document that it found when it was made. `verify` checks
the signature over the `SignedInfo` node, and `references` reads the references of that same node.

The document is what libxml2 gives: its nodes have identities and are read by functions. Of the
certificates only what sorts them is looked at.
-/

/-- The value of a function that reports a failure through its `error` argument, or leaves that as
it is. -/
abbrev Reported (α : Type) := Except (Option Error) α

/-- The error, or another one if none was reported. -/
def Reported.orAssign {α : Type} (x : Reported α) (error : Error) : Reported α :=
  match x with
  | .error reported => .error (some (reported.getD error))
  | .ok a => .ok a

/-- A function that may fault before it reports. -/
abbrev Reporting (α : Type) := Except Fault (Reported α)

namespace Reporting

variable {α β : Type}

/-- One function after another. -/
def andThen (x : Reporting α) (f : α → Reporting β) : Reporting β :=
  match x with
  | .error fault => .error fault
  | .ok (.error error) => .ok (.error error)
  | .ok (.ok a) => f a

theorem andThen_eq_ok {x : Reporting α} {f : α → Reporting β} {b : β}
    (h : x.andThen f = .ok (.ok b)) : ∃ a, x = .ok (.ok a) ∧ f a = .ok (.ok b) := by
  rcases x with fault | reported | a
  · cases h
  · cases h
  · exact ⟨a, rfl, h⟩

end Reporting

/-- The reported value is that of the function with another default for the error. -/
theorem Reported.orAssign_eq_ok {α : Type} {x : Reported α} {error : Error} {a : α}
    (h : x.orAssign error = .ok a) : x = .ok a := by
  cases x with
  | error reported => cases h
  | ok b => exact h

namespace Crypto

/-! ## What is used of other libraries -/

/-- The documents of libxml2 and their nodes. -/
structure Libxml (Document Node : Type) where
  /-- `xmlReadMemory`. -/
  readMemory : Bytes → Option Document
  root : Document → Option Node
  isElement : Node → Bool
  isComment : Node → Bool
  name : Node → String
  children : Node → List Node
  getProp : Node → String → Option Bytes
  getContent : Node → Option Bytes
  /-- `xmlC14NExecute`, given which nodes are visible. A node comes with its parents, the nearest
  one first. -/
  c14n : Document → (Option Node → List Node → Bool) → Option Bytes
  /-- `xmlURIUnescapeString`. -/
  unescapeUri : Bytes → Bytes
  /-- `XmlSchemaValidator` with the schema for signatures. -/
  validate : Document → Reported Unit

/-- What signatures and certificates are checked with. -/
structure SignatureLibraries (Impl Bundle : Type) where
  decodeBase64 : Bytes → Result Bytes
  loadFromVector : Bytes → Result Impl
  subject : Impl → String
  issuer : Impl → String
  /-- `verifyCertificate` of a bundle, with the certificate, its chain and whether expiry counts. -/
  verifyCertificate : Bundle → Certificate Impl → List (Certificate Impl) → Bool → Result Unit
  /-- Verifies a signature of data. -/
  verifySignature : Certificate Impl → Bytes → Bytes → Result Unit

/-! ## The document -/

/-- `PATH_MAX`. -/
def pathMax : Nat := 4096

def sha256Algorithm : Bytes := Bytes.ofString "http://www.w3.org/2001/04/xmlenc#sha256"

inductive DigestAlgorithm
  | null
  | sha256
  deriving DecidableEq, Repr

/-- A file that a signature refers to. -/
structure Reference where
  uri : Bytes
  digestAlgorithm : DigestAlgorithm
  digestValue : Bytes
  deriving DecidableEq, Repr

/-- A document and the nodes of it that are used. -/
structure XmlDigitalSignature (Document Node : Type) where
  document : Document
  signedInfoNode : Node
  signedValueNode : Node
  keyInfoNode : Node

/-- The key sections that were found so far. -/
structure KeySections (Node : Type) where
  signedInfoNode : Option Node := none
  signedValueNode : Option Node := none
  keyInfoNode : Option Node := none

section
variable {Document Node Impl Bundle : Type} (xml : Libxml Document Node)
  (libraries : SignatureLibraries Impl Bundle)

/-- The node is an element with a name. -/
def Libxml.isNamed (name : String) (node : Node) : Bool := xml.isElement node && xml.name node = name

/-- The loop of `createImpl` over the children of the root. -/
def keySections : List Node → KeySections Node → KeySections Node
  | [], sections => sections
  | node :: rest, sections =>
    if ¬xml.isElement node then keySections rest sections
    else if sections.signedInfoNode.isNone ∧ xml.name node = "SignedInfo" then
      keySections rest { sections with signedInfoNode := some node }
    else if sections.signedValueNode.isNone ∧ xml.name node = "SignatureValue" then
      keySections rest { sections with signedValueNode := some node }
    else if sections.keyInfoNode.isNone ∧ xml.name node = "KeyInfo" then
      keySections rest { sections with keyInfoNode := some node }
    else keySections rest sections

/-- Decodes base64. Where it is used, no bytes are a failure without an error. -/
def base64Decode (base64 : Bytes) : Reported Bytes :=
  match libraries.decodeBase64 base64 with
  | .error _ => .error (some (.ralf .genericCryptoError "Failed to decode base64 data"))
  | .ok [] => .error none
  | .ok (first :: rest) => .ok (first :: rest)

namespace XmlDigitalSignature

/-- The document is checked before it is used. What is wrong with the root or its children is only
logged. -/
def createImpl (document : Document) : Reported (XmlDigitalSignature Document Node) :=
  match xml.validate document with
  | .error error => .error error
  | .ok _ =>
    match xml.root document with
    | none => .error none
    | some root =>
      if xml.name root ≠ "Signature" then .error none
      else
        match keySections xml (xml.children root) {} with
        | ⟨some signedInfoNode, some signedValueNode, some keyInfoNode⟩ =>
          .ok ⟨document, signedInfoNode, signedValueNode, keyInfoNode⟩
        | _ => .error none

/-- Parses a document. -/
def parse (signatureXml : Bytes) : Reported (XmlDigitalSignature Document Node) :=
  match xml.readMemory signatureXml with
  | none => .error (some (.ralf .xmlParseError "Failed to parse the signature XML"))
  | some document => createImpl xml document

variable (signature : XmlDigitalSignature Document Node)

/-! ## What is signed -/

/-- The node is `SignedInfo` or inside it, and no comment. -/
def isSignedInfoNode [DecidableEq Node] (node : Option Node) (parents : List Node) : Bool :=
  match node with
  | none => false
  | some node =>
    if xml.isComment node then false
    else if node = signature.signedInfoNode then true
    else parents.contains signature.signedInfoNode

/-- The text that is signed. An empty one comes without an error. -/
def canonicalizedSignedInfo [DecidableEq Node] : Reported Bytes :=
  match xml.c14n signature.document (isSignedInfoNode xml signature) with
  | none => .error (some (.ralf .genericXmlError "Failed to canonicalize the SignedInfo node"))
  | some [] => .error none
  | some (first :: rest) => .ok (first :: rest)

def signatureValue : Reported Bytes :=
  match xml.getContent signature.signedValueNode with
  | none => .error (some (.ralf .genericXmlError "Failed to get the signature value"))
  | some value => base64Decode libraries value

/-! ## The certificates -/

/-- The nodes with a certificate. -/
def certificateNodes : List Node :=
  ((xml.children signature.keyInfoNode).filter (xml.isNamed "X509Data")).flatMap fun data =>
    (xml.children data).filter (xml.isNamed "X509Certificate")

/-- The loop of `signingCertificates` over the nodes with a certificate. -/
def loadCertificates : List Node → List (Certificate Impl) → Reported (List (Certificate Impl))
  | [], certs => .ok certs
  | node :: rest, certs =>
    match xml.getContent node with
    | none => loadCertificates rest certs
    | some value =>
      match base64Decode libraries value with
      | .error error => .error error
      | .ok data =>
        match libraries.loadFromVector data with
        | .error error => .error (some error)
        | .ok cert => loadCertificates rest (certs ++ [some cert])

/-- The certificates in the order of their chain. An empty list counts as a failure. -/
def signingCertificates : Reporting (List (Certificate Impl)) :=
  match loadCertificates xml libraries (signature.certificateNodes xml) [] with
  | .error error => .ok (.error error)
  | .ok [] =>
    .ok (.error (some (.ralf .genericXmlError "No certificates found in the KeyInfo section")))
  | .ok unsortedCerts =>
    match sortCertificates libraries.subject libraries.issuer unsortedCerts with
    | .error fault => .error fault
    | .ok ⟨[], error⟩ => .ok (.error error)
    | .ok ⟨cert :: certs, _⟩ => .ok (.ok (cert :: certs))

/-! ## The verification -/

/-- Verifies a signature with the certificates of the document. -/
def verifyWith (bundle : Bundle) (checkExpiry : Bool) (signedInfo sigValue : Bytes) :
    List (Certificate Impl) → Reported Unit
  | [] => .error none
  | signingCert :: signingCerts =>
    match libraries.verifyCertificate bundle signingCert signingCerts checkExpiry with
    | .error error => .error (some error)
    | .ok _ =>
      match libraries.verifySignature signingCert signedInfo sigValue with
      | .error error => .error (some error)
      | .ok _ => .ok ()

def verify [DecidableEq Node] (bundle : Bundle) (checkExpiry : Bool) : Reporting Unit :=
  let signedInfo : Reporting Bytes := .ok <| (signature.canonicalizedSignedInfo xml).orAssign
    (.ralf .xmlParseError "Empty canonicalized <SignedInfo> element")
  signedInfo.andThen fun signedInfo =>
    let sigValue : Reporting Bytes := .ok <| (signature.signatureValue xml libraries).orAssign
      (.ralf .xmlParseError "Empty <SignatureValue> element")
    sigValue.andThen fun sigValue =>
      match signature.signingCertificates xml libraries with
      | .error fault => .error fault
      | .ok certs =>
        match certs.orAssign (.ralf .xmlParseError "Missing <X509Certificate> element(s)") with
        | .error error => .ok (.error error)
        | .ok certs => .ok (verifyWith libraries bundle checkExpiry signedInfo sigValue certs)

/-! ## The references -/

/-- The loop over the children of a reference. -/
def referenceChild (reference : Reference) (child : Node) : Reported Reference :=
  if ¬xml.isElement child then .ok reference
  else if xml.name child = "DigestMethod" then
    match xml.getProp child "Algorithm" with
    | none =>
      .error (some (.ralf .xmlParseError "Failed to get the 'Algorithm' for a reference node"))
    | some algorithm =>
      if algorithm = sha256Algorithm then .ok { reference with digestAlgorithm := .sha256 }
      else .error (some (.ralf .xmlParseError "Invalid digest algorithm for a reference node"))
  else if xml.name child = "DigestValue" then
    match xml.getContent child with
    | none =>
      .error (some (.ralf .xmlParseError "Failed to get the 'DigestValue' for a reference node"))
    | some digest =>
      match base64Decode libraries digest with
      | .error error => .error error
      | .ok digestValue => .ok { reference with digestValue := digestValue }
  else .ok reference

/-- A `Reference` node. The URI ends at the first NUL that it has when it is decoded. -/
def readReference (node : Node) : Reported Reference :=
  match xml.getProp node "URI" with
  | none => .error (some (.ralf .xmlParseError "Failed to get the 'URI' for a reference node"))
  | some uri =>
    if uri.length = 0 ∨ uri.length ≥ pathMax - 1 then
      .error (some (.ralf .xmlParseError
        "Empty or invalid 'URI' for a reference node in the xml signature"))
    else
      let uriDecoded := (xml.unescapeUri uri).takeWhile (· ≠ 0)
      match (xml.children node).foldlM (referenceChild xml libraries) ⟨uriDecoded, .null, []⟩ with
      | .error error => .error error
      | .ok reference =>
        if reference.uri = [] ∨ reference.digestAlgorithm = .null ∨ reference.digestValue = [] then
          .error (some (.ralf .xmlParseError
            "Failed to get all the required fields for a reference node"))
        else .ok reference

/-- The references of the `SignedInfo` node. -/
def references : Reported (List Reference) :=
  ((xml.children signature.signedInfoNode).filter (xml.isNamed "Reference")).mapM
    (readReference xml libraries)

/-! ## What a verified signature says -/

/-- The signature over what is visible of the `SignedInfo` node is valid for the first certificate,
and the bundle has verified that one with the others. -/
structure VerifiedBy [DecidableEq Node] (bundle : Bundle) (checkExpiry : Bool)
    (certs : List (Certificate Impl)) : Prop where
  signed : ∃ signedInfo sigValue, signature.canonicalizedSignedInfo xml = .ok signedInfo ∧
    signature.signatureValue xml libraries = .ok sigValue ∧
    ∃ signingCert chain, certs = signingCert :: chain ∧
      libraries.verifyCertificate bundle signingCert chain checkExpiry = .ok () ∧
      libraries.verifySignature signingCert signedInfo sigValue = .ok ()

/-- The `SignedInfo` node that is used is an element of that name below the root. -/
structure SignedInfoOf (root : Node) : Prop where
  child : signature.signedInfoNode ∈ xml.children root
  named : xml.isNamed "SignedInfo" signature.signedInfoNode = true

variable {xml libraries signature}

theorem keySections_signedInfo {nodes : List Node} {sections : KeySections Node} {node : Node}
    (h : (keySections xml nodes sections).signedInfoNode = some node) :
    sections.signedInfoNode = some node ∨
      node ∈ nodes ∧ xml.isNamed "SignedInfo" node = true := by
  induction nodes generalizing sections with
  | nil => exact .inl h
  | cons first rest ih =>
    -- only the second branch changes what was found
    have hrest : ∀ sections' : KeySections Node,
        sections'.signedInfoNode = sections.signedInfoNode →
        (keySections xml rest sections').signedInfoNode = some node →
        sections.signedInfoNode = some node ∨
          node ∈ first :: rest ∧ xml.isNamed "SignedInfo" node = true := by
      intro sections' hsame h'
      rcases ih h' with hfound | ⟨hmem, hnamed⟩
      · exact .inl (hsame ▸ hfound)
      · exact .inr ⟨List.mem_cons_of_mem _ hmem, hnamed⟩
    rw [keySections] at h
    split at h
    · exact hrest _ rfl h
    next helement =>
    split at h
    · next hname =>
      rcases ih h with hfound | ⟨hmem, hnamed⟩
      · cases hfound
        refine .inr ⟨List.mem_cons_self, ?_⟩
        simpa [Libxml.isNamed, hname.2] using helement
      · exact .inr ⟨List.mem_cons_of_mem _ hmem, hnamed⟩
    split at h
    · refine hrest _ ?_ h
      rfl
    split at h
    · refine hrest _ ?_ h
      rfl
    · exact hrest _ rfl h

theorem parse_ok {signatureXml : Bytes} (h : parse xml signatureXml = .ok signature) :
    xml.readMemory signatureXml = some signature.document ∧
      ∃ root, xml.root signature.document = some root ∧ signature.SignedInfoOf xml root := by
  unfold parse at h
  split at h
  · cases h
  next document hread =>
  unfold createImpl at h
  split at h
  · cases h
  split at h
  · cases h
  next root hroot =>
  split at h
  · cases h
  split at h
  · next signedInfoNode _ _ hsections =>
    cases h
    have hfound : (keySections xml (xml.children root) {}).signedInfoNode = some signedInfoNode := by
      rw [hsections]
    rcases keySections_signedInfo hfound with hnone | ⟨hmem, hnamed⟩
    · cases hnone
    · exact ⟨hread, root, hroot, hmem, hnamed⟩
  · cases h

variable [DecidableEq Node] {bundle : Bundle} {checkExpiry : Bool}

theorem verifyWith_ok {signedInfo sigValue : Bytes} {certs : List (Certificate Impl)}
    (h : verifyWith libraries bundle checkExpiry signedInfo sigValue certs = .ok ()) :
    ∃ signingCert chain, certs = signingCert :: chain ∧
      libraries.verifyCertificate bundle signingCert chain checkExpiry = .ok () ∧
      libraries.verifySignature signingCert signedInfo sigValue = .ok () := by
  cases certs with
  | nil => cases h
  | cons signingCert chain =>
    refine ⟨signingCert, chain, rfl, ?_⟩
    dsimp only [verifyWith] at h
    split at h
    · cases h
    next hcertificate =>
    split at h
    · cases h
    · next hsignature => exact ⟨hcertificate, hsignature⟩

theorem verify_ok (h : signature.verify xml libraries bundle checkExpiry = .ok (.ok ())) :
    ∃ certs, signature.signingCertificates xml libraries = .ok (.ok certs) ∧
      signature.VerifiedBy xml libraries bundle checkExpiry certs := by
  unfold verify at h
  obtain ⟨signedInfo, hsignedInfo, h⟩ := Reporting.andThen_eq_ok h
  obtain ⟨sigValue, hsigValue, h⟩ := Reporting.andThen_eq_ok h
  split at h
  · cases h
  next certs hcerts =>
  split at h
  · cases h
  next hcertsOk =>
  rw [Reported.orAssign_eq_ok hcertsOk] at hcerts
  exact ⟨_, hcerts, ⟨_, _, Reported.orAssign_eq_ok (Except.ok.inj hsignedInfo),
    Reported.orAssign_eq_ok (Except.ok.inj hsigValue), verifyWith_ok (Except.ok.inj h)⟩⟩

end XmlDigitalSignature

end

end Crypto
