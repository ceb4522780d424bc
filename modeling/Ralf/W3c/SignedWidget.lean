import Ralf.Crypto.XmlSignature
import Ralf.Package.EntryContents
import Ralf.W3c.Completeness

/-!
# A widget package over its life

`W3CPackage::open` verifies the signature file and keeps the digests of its references. The archive
is opened anew for everything that is read from the package later, and it may have changed by then:
each operation comes with what opening the archive gives.
-/

/-- The path of a reference in normal form. -/
def Crypto.Reference.path (reference : Reference) : FilePath :=
  (FilePath.parse reference.uri).lexicallyNormal

namespace W3c

open Archive Crypto

/-! ## Names and limits -/

/-- `SIGNATURE_FILE_NAME`. -/
def signatureFileName : Bytes := Bytes.ofString "signature1.xml"

/-- `MAX_SIGNATURE_SIZE`. -/
def maxSignatureSize : Nat := 8 * 1024 * 1024

/-- `MAX_METADATA_FILE_SIZE`. -/
def maxMetaDataFileSize : Nat := 4 * 1024 * 1024

/-- `kConfigXmlPath`. -/
def configXmlPath : FilePath := FilePath.ofNames [Bytes.ofString "config.xml"]

/-- `kAppSecretsPath`. -/
def appSecretsPath : FilePath := FilePath.ofNames [Bytes.ofString "appsecrets.json"]

/-- `ENTOS_APPSECRETS_MEDIATYPE`. -/
def appSecretsMediaType : String :=
  "application/vnd.entos.package.content.layer.appsecrets.v1+json"

/-- What is known of a package from its `config.xml`, and the files beside it. -/
structure W3CPackageMetaDataImpl (Settings : Type) where
  settings : Settings
  auxMetaDataFiles : List (String × Bytes) := []

/-- An auxiliary file that is handed out. -/
structure PackageAuxMetaDataImpl where
  mediaType : String
  index : Nat
  contents : Bytes

/-- What a package is read with: the results of the calls of `readData` for a member, and the parser
of `config.xml`, which may report an error in any case. -/
structure WidgetLibraries (Document Node Impl Bundle Settings : Type)
    extends Libxml Document Node, SignatureLibraries Impl Bundle where
  sha256 : Bytes → Bytes
  readData : Member → Nat → ReadData
  fromConfigXml : Bytes → Option Settings × Option Error

/-- The package object, with what it caches. -/
structure WidgetPackage (Impl Settings : Type) extends W3CPackage where
  signingCerts : List (Certificate Impl) := []
  metaData : Option (W3CPackageMetaDataImpl Settings) := none

/-- What opening the archive gives. -/
abbrev Opening := Result (List Header)

section
variable {Document Node Impl Bundle Settings : Type}
  (libraries : WidgetLibraries Document Node Impl Bundle Settings)

/-! ## The signature file -/

theorem readEntryCalls_isSome (member : Member) (size : Nat) :
    (readEntryCalls (libraries.readData member) size).isSome = true := by
  have hcopied := copyLoop_start (libraries.readData member) size
  unfold readEntryCalls
  generalize copyLoop (libraries.readData member) size (size + 1) 0 [] = outcome at hcopied
  cases hcopied with
  | ended _ _ => rfl
  | tooLarge _ _ => rfl

def readArchiveFileEntry (member : Member) (size : Nat) : Result Bytes :=
  ((readEntryCalls (libraries.readData member) size).get
    (readEntryCalls_isSome libraries member size)).1

/-- The loop for the signature file: the first one with its name. Nothing is found in an archive
without one, or behind a header that fails. -/
def findSignature : List Header → Result Bytes
  | [] => .ok []
  | .failure :: _ => .ok []
  | .entry member :: rest =>
    if member.type = .regular ∧ member.pathname = some signatureFileName then
      if member.size < 0 ∨ member.size > maxSignatureSize then
        .error (.ralf .packageSignatureInvalid "signature1.xml file is too large")
      else readArchiveFileEntry libraries member member.size.toNat
    else findSignature rest

/-- The loop over the references. A path keeps the digest of its first reference. -/
def addReference (digests : FileDigestMap) (reference : Reference) : Result FileDigestMap :=
  let path := reference.path
  if path.isAbsolute ∨ path.isEmpty ∨ path.components.head? = some FilePath.dotdot then
    .error (.ralf .packageSignatureInvalid
      s!"Invalid path '{reference.uri.cString}' in signature1.xml")
  else if reference.digestAlgorithm ≠ .sha256 ∨ reference.digestValue.length ≠ 32 then
    .error (.ralf .packageSignatureInvalid
      s!"Invalid digest algorithm or size for '{reference.uri.cString}' in signature1.xml")
  else .ok (digests.emplace path reference.digestValue)

/-- The digests of a verified signature, with that of the signature file. -/
def signedDigests (references : List Reference) (signature1Xml : Bytes) : Result FileDigestMap :=
  match references.foldlM addReference FileDigestMap.empty with
  | .error error => .error error
  | .ok digests =>
    .ok (digests.emplace (FilePath.parse signatureFileName) (libraries.sha256 signature1Xml))

/-- The signed digests and the certificates, from a document. -/
def verifySignature [DecidableEq Node] (bundle : Bundle) (checkExpiry : Bool)
    (signature : XmlDigitalSignature Document Node) (signature1Xml : Bytes) :
    Reporting (FileDigestMap × List (Certificate Impl)) :=
  (signature.verify libraries.toLibxml libraries.toSignatureLibraries bundle checkExpiry).andThen
    fun _ =>
      match signature.references libraries.toLibxml libraries.toSignatureLibraries with
      | .error error => .ok (.error error)
      | .ok [] => .ok (.error none)
      | .ok references =>
        match signedDigests libraries references signature1Xml with
        | .error error => .ok (.error (some error))
        | .ok digests =>
          match signature.signingCertificates libraries.toLibxml libraries.toSignatureLibraries with
          | .error fault => .error fault
          | .ok (.error _) => .ok (.ok ⟨digests, []⟩)
          | .ok (.ok certs) => .ok (.ok ⟨digests, certs⟩)

def readAndVerifySignature [DecidableEq Node] (bundle : Bundle) (checkExpiry : Bool)
    (opening : Opening) : Reporting (FileDigestMap × List (Certificate Impl)) :=
  match opening with
  | .error error => .ok (.error (some error))
  | .ok headers =>
    match findSignature libraries headers with
    | .error error => .ok (.error (some error))
    | .ok [] =>
      .ok (.error (some (.ralf .packageSignatureMissing
        "Failed to find signature1.xml file in package")))
    | .ok (first :: rest) =>
      match XmlDigitalSignature.parse libraries.toLibxml (first :: rest) with
      | .error error => .ok (.error error)
      | .ok signature =>
        verifySignature libraries bundle checkExpiry signature (first :: rest)

/-- Opens a package, with a bundle or without one. -/
def WidgetPackage.open [DecidableEq Node] (bundle : Option Bundle) (checkExpiry : Bool)
    (opening : Opening) : Reporting (WidgetPackage Impl Settings) :=
  match bundle with
  | none => .ok (.ok { digests := none })
  | some bundle =>
    (readAndVerifySignature libraries bundle checkExpiry opening).andThen fun signed =>
      .ok (.ok { digests := some signed.1, signingCerts := signed.2 })

/-! ## The metadata -/

/-- Compares the contents of a file with its digest. -/
def verifyFileContents (digests : Option FileDigestMap) (filePath : FilePath)
    (fileContents : Bytes) : Result Unit :=
  match digests with
  | none => .ok ()
  | some digests =>
    match digests.find filePath with
    | none =>
      .error (.ralf .packageContentsInvalid
        s!"No signed digest found for file '{filePath.cStr}'")
    | some expectedDigest =>
      if libraries.sha256 fileContents ≠ expectedDigest then
        .error (.ralf .packageContentsInvalid
          s!"Digest of '{filePath.cStr}' does not match signed digest")
      else .ok ()

/-- The files that the metadata is built from. -/
structure W3CPackageMetaDataBuilder where
  configXmlContents : Bytes := []
  appSecretsContents : Bytes := []

namespace W3CPackageMetaDataBuilder

def isMetaDataFile (path : FilePath) : Bool := path = configXmlPath || path = appSecretsPath

/-- Adds a file by the path that it has in the archive, which may not be in normal form. -/
def addMetaDataFile (builder : W3CPackageMetaDataBuilder) (path : FilePath) (contents : Bytes) :
    W3CPackageMetaDataBuilder :=
  if path = configXmlPath then { builder with configXmlContents := contents }
  else if path = appSecretsPath then { builder with appSecretsContents := contents }
  else builder

/-- The metadata, or none, and the error that was reported. -/
def generate (builder : W3CPackageMetaDataBuilder) :
    Except Fault (Option (W3CPackageMetaDataImpl Settings) × Option Error) :=
  match builder.configXmlContents with
  | [] => .ok (none, some (.ralf .invalidPackage "Package is missing a config.xml file"))
  | first :: rest =>
    match libraries.fromConfigXml (first :: rest), builder.appSecretsContents with
    | (none, error), [] => .ok (none, error)
    -- the file is added to metadata that there is none of
    | (none, _), _ :: _ => .error .nullPointer
    | (some settings, error), [] => .ok (some { settings := settings }, error)
    | (some settings, error), secret :: secrets =>
      .ok (some ⟨settings, [(appSecretsMediaType, secret :: secrets)]⟩, error)

end W3CPackageMetaDataBuilder

/-- The loop of `readMetaData`. -/
def metaDataLoop (digests : Option FileDigestMap) :
    List Header → W3CPackageMetaDataBuilder → Result W3CPackageMetaDataBuilder
  | [], builder => .ok builder
  | .failure :: _, builder => .ok builder
  | .entry member :: rest, builder =>
    match member.pathname with
    | none => metaDataLoop digests rest builder
    | some entryPath =>
      let filePath := (FilePath.parse entryPath).lexicallyNormal
      if member.type ≠ .regular then metaDataLoop digests rest builder
      else if ¬W3CPackageMetaDataBuilder.isMetaDataFile filePath then
        metaDataLoop digests rest builder
      else if member.size < 0 ∨ member.size > maxMetaDataFileSize then
        .error (.ralf .packageContentsInvalid s!"'{entryPath.cString}' file is too large")
      else
        match readArchiveFileEntry libraries member member.size.toNat with
        | .error error => .error error
        | .ok contents =>
          match verifyFileContents libraries digests filePath contents with
          | .error error => .error error
          | .ok _ =>
            metaDataLoop digests rest (builder.addMetaDataFile (FilePath.parse entryPath) contents)

/-- Reads the metadata, with the error that is reported. -/
def readMetaData (digests : Option FileDigestMap) (opening : Opening) :
    Except Fault (Option (W3CPackageMetaDataImpl Settings) × Option Error) :=
  match opening with
  | .error error => .ok (none, some error)
  | .ok headers =>
    match metaDataLoop libraries digests headers {} with
    | .error error => .ok (none, some error)
    | .ok builder => builder.generate libraries

/-! ## The operations -/

/-- What is asked of a package. A reader needs a duplicate of the file descriptor, and that may
fail. -/
inductive Operation
  | metaData
  | signingCertificates
  | auxMetaDataFile (mediaType : String) (index : Nat)
  | auxMetaDataFileCount (mediaType : String)
  | auxMetaDataKeys
  | createReader (dupErrno : Option Nat)
  | verify
  | setMaxExtractionBytes (maxTotalSize : Nat)
  | setMaxExtractionEntries (maxFileCount : Nat)

inductive Answer (Impl Settings : Type)
  | metaData (metaData : Option (W3CPackageMetaDataImpl Settings)) (error : Option Error)
  | signingCertificates (certs : List (Certificate Impl))
  | auxMetaDataFile (file : Reported PackageAuxMetaDataImpl)
  | auxMetaDataFileCount (count : Reported Nat)
  | auxMetaDataKeys (keys : Reported (List String))
  | reader (reader : Result ArchiveReader)
  | verified (result : Result Unit)
  | done

namespace W3CPackageMetaDataImpl

variable (metaData : W3CPackageMetaDataImpl Settings)

def hasAuxMetaDataFile (mediaType : String) : Bool :=
  (metaData.auxMetaDataFiles.lookup mediaType).isSome

def getAuxMetaDataFile (mediaType : String) : Result PackageAuxMetaDataImpl :=
  match metaData.auxMetaDataFiles.lookup mediaType with
  | none =>
    .error (.ralf .fileNotFound
      s!"Auxiliary meta-data file for media type '{mediaType}' not found")
  | some contents => .ok ⟨mediaType, 0, contents⟩

def availAuxMetaData : List String := metaData.auxMetaDataFiles.map Prod.fst

end W3CPackageMetaDataImpl

namespace WidgetPackage

variable (package : WidgetPackage Impl Settings) (opening : Opening)

/-- Reads the metadata if there is none yet. -/
def cacheMetaData : Except Fault (Option Error × WidgetPackage Impl Settings) :=
  match package.metaData with
  | some _ => .ok (none, package)
  | none =>
    match readMetaData libraries package.digests opening with
    | .error fault => .error fault
    | .ok (metaData, error) => .ok (error, { package with metaData := metaData })

def auxMetaDataFile (mediaType : String) (index : Nat) :
    Except Fault (Reported PackageAuxMetaDataImpl × WidgetPackage Impl Settings) :=
  if index ≠ 0 then
    .ok (.error (some (.ralf .invalidArgument
      s!"No auxiliary meta-data file with index {index}")), package)
  else
    match package.cacheMetaData libraries opening with
    | .error fault => .error fault
    | .ok (error, package) =>
      match package.metaData with
      | none => .ok (.error error, package)
      | some metaData => .ok ((metaData.getAuxMetaDataFile mediaType).mapError some, package)

/-- What is asked of the metadata. An error that was reported when it was read is returned even if
there is metadata. -/
def ofMetaData {α : Type} (f : W3CPackageMetaDataImpl Settings → α) :
    Except Fault (Reported α × WidgetPackage Impl Settings) :=
  match package.cacheMetaData libraries opening with
  | .error fault => .error fault
  | .ok (error, package) =>
    match package.metaData, error with
    | some metaData, none => .ok (.ok (f metaData), package)
    | _, error => .ok (.error error, package)

def auxMetaDataFileCount (mediaType : String) :
    Except Fault (Reported Nat × WidgetPackage Impl Settings) :=
  package.ofMetaData libraries opening fun metaData =>
    if metaData.hasAuxMetaDataFile mediaType then 1 else 0

def auxMetaDataKeys : Except Fault (Reported (List String) × WidgetPackage Impl Settings) :=
  package.ofMetaData libraries opening fun metaData => metaData.availAuxMetaData

def createReader (dupErrno : Option Nat) : Result ArchiveReader :=
  match dupErrno with
  | some errno => .error (.system errno "Failed to dup package fd")
  | none =>
    match opening with
    | .error error => .error error
    | .ok headers => .ok (.new headers package.digests)

/-- One operation. -/
def step : Operation → Except Fault (Answer Impl Settings × WidgetPackage Impl Settings)
  | .metaData =>
    (package.cacheMetaData libraries opening).map fun out =>
      (.metaData out.2.metaData out.1, out.2)
  | .signingCertificates => .ok (.signingCertificates package.signingCerts, package)
  | .auxMetaDataFile mediaType index =>
    (package.auxMetaDataFile libraries opening mediaType index).map fun out =>
      (.auxMetaDataFile out.1, out.2)
  | .auxMetaDataFileCount mediaType =>
    (package.auxMetaDataFileCount libraries opening mediaType).map fun out =>
      (.auxMetaDataFileCount out.1, out.2)
  | .auxMetaDataKeys =>
    (package.auxMetaDataKeys libraries opening).map fun out =>
      (.auxMetaDataKeys out.1, out.2)
  | .createReader dupErrno => .ok (.reader (package.createReader opening dupErrno), package)
  | .verify => .ok (.verified (package.toW3CPackage.verify libraries.sha256 opening), package)
  | .setMaxExtractionBytes maxTotalSize =>
    .ok (.done, { package with maxExtractionBytes := maxTotalSize })
  | .setMaxExtractionEntries maxFileCount =>
    .ok (.done, { package with maxExtractionEntries := maxFileCount })

end WidgetPackage

/-- An operation that was carried out, with what opening the archive gave and the answer. -/
structure Event (Impl Settings : Type) where
  operation : Operation
  opening : Opening
  answer : Answer Impl Settings

/-- Operations one after another. -/
def WidgetPackage.run : List (Operation × Opening) → WidgetPackage Impl Settings →
    Except Fault (List (Event Impl Settings) × WidgetPackage Impl Settings)
  | [], package => .ok ([], package)
  | (operation, opening) :: rest, package =>
    match package.step libraries opening operation with
    | .error fault => .error fault
    | .ok (answer, package) =>
      (WidgetPackage.run rest package).map fun out =>
        (⟨operation, opening, answer⟩ :: out.1, out.2)

end

end W3c
