import Ralf.Lib.Numeral
import Ralf.Lib.Path
import Ralf.Oci.Descriptor

/-!
# OCI packages

Opening an `OCIPackage` reads the index and goes through the manifests that it lists. A manifest of
package data gives the descriptors of the config, of the image layer and of other layers, a
signature manifest the descriptor of the signature. With a verification bundle the signature is then
checked, and that what is signed is the digest of the manifest of package data.

What a descriptor is kept with, the manifest blob that it was parsed from, is a history for
statements, and so is the blob whose signature was verified. Nothing reads them.
-/

namespace Oci

/-! ## What a package is made from -/

/-- A file that can be mapped. -/
structure IOCIMappableFile where
  contents : Bytes

/-- The files of a package, over the states `σ`. -/
structure IOCIBackingStore (σ : Type) where
  readFile : FilePath → Nat → σ → Result Bytes × σ
  getFile : FilePath → σ → Result IOCIFileReader × σ
  getMappableFile : FilePath → σ → Result IOCIMappableFile × σ

/-- What is used of other libraries. JSON is parsed with comments or without. -/
structure Libraries (Certificate MetaData : Type) where
  sha256 : Bytes → Bytes
  parseJson : Bool → Bytes → Option Json
  decodeBase64 : String → Option Bytes
  loadCertificate : String → Option Certificate
  loadCertificates : String → Option (List Certificate)
  /-- Verifies a signature of data. -/
  verifySignature : Certificate → Bytes → Bytes → Bool
  fromConfigJson : Bytes → Result MetaData

/-- `verifyCertificate` of a bundle, with the certificate, its chain and whether expiry counts. -/
abbrev VerificationBundle (Certificate : Type) := Certificate → List Certificate → Bool → Bool

/-- A descriptor that a package keeps, with the manifest blob that it was parsed from. -/
structure Retained where
  descriptor : AnnotatedDescriptor
  manifest : Bytes
  deriving DecidableEq, Repr

/-- A manifest that was read and checked. -/
structure Manifest where
  digest : Bytes
  blob : Bytes
  config : AnnotatedDescriptor
  layers : List AnnotatedDescriptor
  deriving DecidableEq, Repr

structure OCIPackage (Certificate MetaData : Type) where
  hasBackingStore : Bool := true
  packageDataManifestDigest : Bytes := []
  packageImageDescriptor : Option Retained := none
  packageConfigDescriptor : Option Retained := none
  signatureDescriptor : Option AnnotatedDescriptor := none
  verifiedManifest : Bool := false
  otherImageLayerDescriptors : List Retained := []
  cachedMetaData : Option MetaData := none
  signingCerts : List Certificate := []
  signedBlob : Option Bytes := none

/-! ## Media types and limits -/

def ociLayoutFileMaxSize : Nat := 64 * 1024
def ociIndexFileMaxSize : Nat := 1 * 1024 * 1024
def ociManifestFileMaxSize : Nat := 4 * 1024 * 1024
def packageConfigFileMaxSize : Nat := 4 * 1024 * 1024
def signedPayloadMaxSize : Nat := 1 * 1024 * 1024
def minErofsImageSize : Nat := 4 * 1024
def maxErofsImageSize : Nat := 2 * 1024 * 1024 * 1024
def minDmVerityImageSize : Nat := 4 * 1024
def maxAuxMetaDataSize : Nat := 4 * 1024 * 1024

def ociManifestMediaType : String := "application/vnd.oci.image.manifest.v1+json"
def packageConfigMediaType : String := "application/vnd.rdk.package.config.v1+json"
def packageImageMediaTypePrefix : String := "application/vnd.rdk.package.content.layer.v1."
def packageImageMediaTypeErofs : String :=
  "application/vnd.rdk.package.content.layer.v1.erofs+dmverity"
def packageSignatureMediaType : String := "application/vnd.dev.cosign.simplesigning.v1+json"

/-- The layer is a package image. -/
def isImageLayer (layer : AnnotatedDescriptor) : Bool :=
  packageImageMediaTypePrefix.toList.isPrefixOf layer.mediaType.toList

namespace Manifest

def isPackageDataManifest (manifest : Manifest) : Bool :=
  manifest.config.mediaType = packageConfigMediaType && manifest.layers.any isImageLayer

def isSignatureManifest (manifest : Manifest) : Bool :=
  manifest.layers.any fun layer => layer.mediaType = packageSignatureMediaType

end Manifest

section
variable {σ Certificate MetaData : Type} (libraries : Libraries Certificate MetaData)
  (store : IOCIBackingStore σ)

/-! ## Blobs -/

/-- Where the blob with a digest is. -/
def blobPath (sha256 : Bytes) : FilePath :=
  FilePath.ofNames [Bytes.ofString "blobs", Bytes.ofString "sha256", sha256]

/-- Reads a blob, and checks its size and digest. -/
def readBlob (sha256 : Bytes) (size : Nat) (s : σ) : Result Bytes × σ :=
  if ¬validateSha256Digest sha256 then
    (.error (.ralf .packageContentsInvalid "Invalid sha256 hash"), s)
  else
    match store.readFile (blobPath sha256) size s with
    | (.error error, s) => (.error error, s)
    | (.ok content, s) =>
      if content.length ≠ size then (.error (.ralf .packageFileTooLarge "Invalid blob size"), s)
      else if libraries.sha256 content ≠ hexStringToBytes sha256 then
        let digest := Bytes.cString sha256
        (.error (.ralf .packageContentsInvalid
          s!"Blob digest does not match signed digest for '{digest}'"), s)
      else (.ok content, s)

/-! ## Manifests -/

/-- The fields of a manifest that are parsed so far. -/
structure ManifestFields where
  schemaVersion : Int
  mediaType : String
  config : Option AnnotatedDescriptor
  layers : List AnnotatedDescriptor

/-- An error of `processManifest`. -/
def invalidManifest (what : String) : Error :=
  .ralf .packageContentsInvalid s!"Invalid OCI manifest - {what}"

/-- The loop of `processManifest` over the members. -/
def manifestMember (fields : ManifestFields) : String × Json → Result ManifestFields
  | (key, value) =>
    if key = "schemaVersion" then
      match value with
      | .integer n => .ok { fields with schemaVersion := n.bmod (2 ^ 32) }
      | _ => .error (invalidManifest "'schemaVersion' is not an integer")
    else if key = "mediaType" then do
      let mediaType ← stringOf (invalidManifest "'mediaType' is not a string") value
      return { fields with mediaType := mediaType }
    else if key = "config" then do
      let config ← AnnotatedDescriptor.parse libraries.decodeBase64 value
      return { fields with config := some config }
    else if key = "layers" then
      match value with
      | .array elements => do
        let layers ← elements.mapM (AnnotatedDescriptor.parse libraries.decodeBase64)
        return { fields with layers := fields.layers ++ layers }
      | _ => .error (invalidManifest "'layers' is not an array")
    else .ok fields

/-- The config and the layers in a manifest blob. -/
def parseManifest (blob : Bytes) : Result (AnnotatedDescriptor × List AnnotatedDescriptor) :=
  match libraries.parseJson true blob with
  | some (.object members) => do
    let fields ← members.foldlM (manifestMember libraries) ⟨-1, "", none, []⟩
    if fields.schemaVersion ≠ 2 then
      .error (invalidManifest "'schemaVersion' is missing or not 2")
    else if fields.mediaType ≠ "" ∧ fields.mediaType ≠ ociManifestMediaType then
      .error (invalidManifest "'mediaType' is not a valid manifest media type")
    else
      match fields.config with
      | none => .error (invalidManifest "'config' is missing or not a valid OCI descriptor")
      | some config => .ok (config, fields.layers)
  | _ => .error (.ralf .packageContentsInvalid "Invalid manifest blob - not a JSON object")

/-- The part of `processManifest` that reads and checks a manifest. -/
def readManifest (manifest : AnnotatedDescriptor) (s : σ) : Result Manifest × σ :=
  if manifest.mediaType ≠ ociManifestMediaType then
    (.error (.ralf .packageContentsInvalid
      "Invalid index.json file - invalid mediaType for manifest entry in index.json"), s)
  else if manifest.size > ociManifestFileMaxSize then
    (.error (.ralf .packageContentsInvalid
      s!"Manifest blob size is too large - {manifest.size} bytes"), s)
  else
    match readBlob libraries store manifest.digest manifest.size s with
    | (.error error, s) => (.error error, s)
    | (.ok blob, s) =>
      match parseManifest libraries blob with
      | .error error => (.error error, s)
      | .ok (config, layers) => (.ok ⟨manifest.digest, blob, config, layers⟩, s)

namespace OCIPackage

/-- Keeps a layer of a manifest of package data. -/
def addLayer (blob : Bytes) (package : OCIPackage Certificate MetaData)
    (layer : AnnotatedDescriptor) :
    OCIPackage Certificate MetaData :=
  if isImageLayer layer then { package with packageImageDescriptor := some ⟨layer, blob⟩ }
  else
    { package with
      otherImageLayerDescriptors := package.otherImageLayerDescriptors ++ [⟨layer, blob⟩] }

/-- Keeps a layer of a signature manifest, if it is the signature. -/
def addSignature (package : OCIPackage Certificate MetaData) (layer : AnnotatedDescriptor) :
    OCIPackage Certificate MetaData :=
  if layer.mediaType =
    packageSignatureMediaType then { package with signatureDescriptor := some layer }
  else package

/-- The part of `processManifest` that keeps the descriptors of a manifest. -/
def addManifest (package : OCIPackage Certificate MetaData) (manifest : Manifest) :
    OCIPackage Certificate MetaData :=
  if manifest.isPackageDataManifest then
    manifest.layers.foldl (addLayer manifest.blob)
      { package with
        packageDataManifestDigest := manifest.digest
        packageConfigDescriptor := some ⟨manifest.config, manifest.blob⟩ }
  else if manifest.isSignatureManifest then manifest.layers.foldl addSignature package
  else package

def processManifest (package : OCIPackage Certificate MetaData)
    (manifest : AnnotatedDescriptor) (s : σ) :
    Result Unit × OCIPackage Certificate MetaData × σ :=
  match readManifest libraries store manifest s with
  | (.error error, s) => (.error error, package, s)
  | (.ok manifest, s) => (.ok (), package.addManifest manifest, s)

/-- The loop over the manifests. -/
def processManifests :
    List AnnotatedDescriptor → OCIPackage Certificate MetaData → σ →
      Result Unit × OCIPackage Certificate MetaData × σ
  | [], package, s => (.ok (), package, s)
  | manifest :: rest, package, s =>
    match package.processManifest libraries store manifest s with
    | (.error error, package, s) => (.error error, package, s)
    | (.ok _, package, s) => processManifests rest package s

end OCIPackage

/-! ## The contents -/

def checkOciLayoutFile (data : Bytes) : Result Unit :=
  match libraries.parseJson false data with
  | some (.object [(key, .string version)]) =>
    if key = "imageLayoutVersion" ∧ version = "1.0.0" then .ok ()
    else .error (.ralf .packageContentsInvalid
      "Invalid oci-layout file - invalid structure or version")
  | some (.object _) => .error (.ralf .packageContentsInvalid
      "Invalid oci-layout file - invalid structure or version")
  | _ => .error (.ralf .packageContentsInvalid "Invalid oci-layout file - not a JSON object")

/-- An error of `processIndexFile`. -/
def invalidIndex (what : String) : Error :=
  .ralf .packageContentsInvalid s!"Invalid index.json file - {what}"

def processIndexFile (data : Bytes) : Result (List AnnotatedDescriptor) :=
  match libraries.parseJson false data with
  | some (.object members) =>
    match members.lookup "schemaVersion" with
    | some (.integer 2) =>
      match members.lookup "manifests" with
      | some (.array manifests) => manifests.mapM (AnnotatedDescriptor.parse libraries.decodeBase64)
      | _ => .error (invalidIndex "invalid or missing manifests array")
    | _ => .error (invalidIndex "invalid schema version")
  | _ => .error (invalidIndex "not a JSON object")

/-- The part of `buildContentsTree` up to the index. -/
def readIndex (s : σ) : Result (List AnnotatedDescriptor) × σ :=
  match store.readFile (FilePath.ofNames [Bytes.ofString "oci-layout"]) ociLayoutFileMaxSize s with
  | (.error error, s) => (.error error, s)
  | (.ok ociLayout, s) =>
    match checkOciLayoutFile libraries ociLayout with
    | .error error => (.error error, s)
    | .ok _ =>
      match store.readFile (FilePath.ofNames [Bytes.ofString "index.json"])
        ociIndexFileMaxSize s with
      | (.error error, s) => (.error error, s)
      | (.ok indexJson, s) => (processIndexFile libraries indexJson, s)

namespace OCIPackage

def isValid (package : OCIPackage Certificate MetaData) : Bool :=
  package.packageDataManifestDigest ≠ [] && package.packageConfigDescriptor.isSome &&
    package.packageImageDescriptor.isSome

def buildContentsTree (s : σ) : Result Unit × OCIPackage Certificate MetaData × σ :=
  match readIndex libraries store s with
  | (.error error, s) => (.error error, {}, s)
  | (.ok manifests, s) =>
    match processManifests libraries store manifests {} s with
    | (.error error, package, s) => (.error error, package, s)
    | (.ok _, package, s) =>
      match package.packageConfigDescriptor with
      | none => (.error
          (.ralf .packageContentsInvalid "Missing required blob(s) in package"), package, s)
      | some config =>
        if ¬package.isValid then
          (.error (.ralf .packageContentsInvalid "Missing required blob(s) in package"), package, s)
        else if config.descriptor.size > packageConfigFileMaxSize then
          (.error (.ralf .packageContentsInvalid
            s!"Package config file is too large - {config.descriptor.size} bytes"), package, s)
        else (.ok (), package, s)

/-- The constructor. When the contents are not valid it only drops the backing store. -/
def new (s : σ) : Option Error × OCIPackage Certificate MetaData × σ :=
  match buildContentsTree libraries store s with
  | (.error error, package, s) => (some error, { package with hasBackingStore := false }, s)
  | (.ok _, package, s) => (none, package, s)

/-- Reads a blob of a package. -/
def readBlob (package : OCIPackage Certificate MetaData) (sha256 : Bytes) (size : Nat) (s : σ) :
    Except Fault (Result Bytes × σ) :=
  if ¬validateSha256Digest sha256 ∨ package.hasBackingStore then
    .ok (Oci.readBlob libraries store sha256 size s)
  else .error .nullPointer

/-! ## The signature -/

/-- An error of `readAndVerifySignature`. -/
def invalidSignature (what : String) : Error := .ralf .packageSignatureInvalid what

/-- An error of `verifySignaturePayload`. -/
def invalidPayload (what : String) : Error :=
  .ralf .packageSignatureInvalid s!"Invalid signature payload - {what}"

/-- What is verified of a payload so far. -/
structure VerifiedFlags where
  type : Bool := false
  identity : Bool := false
  manifestDigest : Bool := false
  deriving DecidableEq, Repr

/-- The loop of `verifySignaturePayload` over the flattened members. -/
def verifyMember (package : OCIPackage Certificate MetaData) (flags : VerifiedFlags) :
    String × Json → Result VerifiedFlags
  | (key, value) =>
    if key = "/type" then
      match value with
      | .string type =>
        if type = "cosign container image signature" then .ok { flags with type := true }
        else .error (invalidPayload "invalid type")
      | _ => .error (invalidPayload "invalid type")
    else if key = "/identity/docker-reference" then
      match value with
      | .string _ => .ok { flags with identity := true }
      | _ => .error (invalidPayload "invalid critical.identity.docker-reference value")
    else if key = "/image/docker-manifest-digest" then
      match value with
      | .string digest =>
        match validateDigest digest with
        | none => .error (invalidPayload "critical.image.docker-manifest-digest is malformed")
        | some manifestDigest =>
          if manifestDigest ≠ package.packageDataManifestDigest then
            .error (invalidPayload
              "critical.image.docker-manifest-digest doesn't match package data manifest")
          else .ok { flags with manifestDigest := true }
      | _ => .error (invalidPayload "invalid critical.image.docker-manifest-digest value")
    else .error (invalidPayload "unknown key in critical section")

def verifySignaturePayload (package : OCIPackage Certificate MetaData) (signedBlob : Bytes) :
    Result Unit :=
  match libraries.parseJson false signedBlob with
  | some (.object members) =>
    match members.lookup "critical" with
    | some (.object critical) => do
      let flags ← (Json.flatten (.object critical)).foldlM (verifyMember package) {}
      if flags ≠ ⟨true, true, true⟩ then .error (invalidPayload "missing required field(s)")
      else .ok ()
    | _ => .error (invalidPayload "missing critical section")
  | _ => .error (invalidPayload "not a JSON object")

/-- The annotations of a signature that are processed so far. -/
structure SignatureFields (Certificate : Type) where
  signature : Bytes := []
  certificate : Option Certificate := none
  certificateChain : List Certificate := []

/-- The loop of `readAndVerifySignature` over the annotations. The newlines of a certificate are
replaced by newlines. -/
def signatureField (fields : SignatureFields Certificate) :
    String × String → Result (SignatureFields Certificate)
  | (key, value) =>
    if key = "dev.cosignproject.cosign/signature" then
      match libraries.decodeBase64 value with
      | none => .error (invalidSignature "Invalid signature blob - not base64 encoded")
      | some signature => .ok { fields with signature := signature }
    else if key = "dev.sigstore.cosign/certificate" then
      match libraries.loadCertificate value with
      | none => .error (invalidSignature "Invalid signing certificate - not a valid PEM")
      | some certificate => .ok { fields with certificate := some certificate }
    else if key = "dev.sigstore.cosign/chain" then
      match libraries.loadCertificates value with
      | none | some [] => .error (invalidSignature "Invalid certificate chain")
      | some certificates => .ok { fields with certificateChain := certificates }
    else .ok fields

/-- `readAndVerifySignature`, with whether the flags ask for a check of expiry. -/
def readAndVerifySignature (package : OCIPackage Certificate MetaData)
    (bundle : VerificationBundle Certificate) (checkExpiry : Bool) (s : σ) :
    Except Fault (Result (OCIPackage Certificate MetaData) × σ) :=
  match package.signatureDescriptor with
  | none =>
    .ok (.error (.ralf .packageSignatureMissing "Package doesn't have a signature descriptor"), s)
  | some descriptor =>
    match descriptor.annotations.foldlM (signatureField libraries) {} with
    | .error error => .ok (.error error, s)
    | .ok fields =>
      if fields.signature = [] then .ok (.error (invalidSignature "Missing signature blob"), s)
      else
        match fields.certificate with
        | none => .ok (.error (invalidSignature "Missing signing certificate"), s)
        | some certificate =>
          let package := { package with signingCerts := certificate :: fields.certificateChain }
          if ¬bundle certificate fields.certificateChain checkExpiry then
            .ok (.error (invalidSignature "Invalid signing certificate chain"), s)
          else if descriptor.size > signedPayloadMaxSize then
            .ok (.error (invalidSignature "Signature payload too large"), s)
          else
            match package.readBlob libraries store descriptor.digest descriptor.size s with
            | .error fault => .error fault
            | .ok (.error _, s) =>
              .ok (.error (invalidSignature "Missing or invalid signature blob"), s)
            | .ok (.ok signedBlob, s) =>
              if ¬libraries.verifySignature certificate fields.signature signedBlob then
                .ok (.error (invalidSignature "Invalid signature"), s)
              else
                match package.verifySignaturePayload libraries signedBlob with
                | .error error => .ok (.error error, s)
                | .ok _ =>
                  .ok (.ok { package with
                    verifiedManifest := true
                    signedBlob := some signedBlob }, s)

/-- `OCIPackage::open` of a backing store. Without a bundle a package whose contents are not valid
may be returned with its error. -/
def openPackage (bundle : Option (VerificationBundle Certificate)) (checkExpiry : Bool) (s : σ) :
    Except Fault (Result (OCIPackage Certificate MetaData) × σ) :=
  match new libraries store s with
  | (error, package, s) =>
    if ¬package.isValid then .ok (.error (error.getD (.ralf .noError "")), s)
    else
      match bundle with
      | none => .ok (.ok package, s)
      | some bundle => package.readAndVerifySignature libraries store bundle checkExpiry s

/-! ## What a package serves -/

def metaData (package : OCIPackage Certificate MetaData) (s : σ) :
    Except Fault (Result MetaData × OCIPackage Certificate MetaData × σ) :=
  match package.cachedMetaData, package.packageConfigDescriptor with
  | some metaData, _ => .ok (.ok metaData, package, s)
  | none, none =>
    .ok (.error (.ralf .packageContentsInvalid "Package does not contain a package config"),
      package, s)
  | none, some config =>
    match package.readBlob libraries store config.descriptor.digest config.descriptor.size s with
    | .error fault => .error fault
    | .ok (.error error, s) =>
      let what := error.what
      .ok (.error (.ralf .packageContentsInvalid s!"Failed to read package config - {what}"),
        package, s)
    | .ok (.ok contents, s) =>
      match libraries.fromConfigJson contents with
      | .error error => .ok (.error error, package, s)
      | .ok metaData => .ok (.ok metaData, { package with cachedMetaData := some metaData }, s)

/-- What a reader is made from: an EROFS image with the parameters of its hash tree, or the layer
that an archive is read from. -/
inductive ImageLayer
  | erofs (file : IOCIMappableFile) (hashesOffset : Nat) (rootHash : Bytes)
  | archive (descriptor : OCIDescriptor) (reader : IOCIFileReader)

/-- The dm-verity parameters of an image layer. -/
structure DmVerityAnnotations where
  rootHash : Bytes := []
  salt : Bytes := []
  hashesOffset : Nat
  deriving DecidableEq, Repr

/-- The loop of `getDmVerityAnnotations`. -/
def dmVerityField (details : DmVerityAnnotations) : String × String → DmVerityAnnotations
  | (key, value) =>
    if key = "org.rdk.package.content.dmverity.roothash" then
      { details with rootHash := hexStringToBytes (Bytes.ofString value) }
    else if key = "org.rdk.package.content.dmverity.salt" then
      { details with salt := hexStringToBytes (Bytes.ofString value) }
    else if key = "org.rdk.package.content.dmverity.offset" then
      { details with hashesOffset := (Numeral.strtoul 10 (Bytes.ofString value)).toNat }
    else details

def getDmVerityAnnotations (descriptor : AnnotatedDescriptor) : Result DmVerityAnnotations :=
  if descriptor.mediaType ≠ packageImageMediaTypeErofs then
    .error (.ralf .packageMountInvalid
      "Package image layer is doesn't have erfos+dmverity media type")
  else
    let details := descriptor.annotations.foldl dmVerityField { hashesOffset := 2 ^ 64 - 1 }
    if details.rootHash.length ≠ 32 then
      .error (.ralf .packageMountInvalid
        "Package image layer is missing dm-verity root hash or it's invalid")
    else if details.hashesOffset < minErofsImageSize ∨ details.hashesOffset > maxErofsImageSize then
      .error (.ralf .packageMountInvalid
        "Package image layer dm-verity offset is missing or invalid")
    -- the difference wraps for a layer of less than 4096 bytes
    else if details.hashesOffset > wrapSub64 descriptor.size minDmVerityImageSize then
      .error (.ralf .packageMountInvalid "Package image layer dm-verity offset has invalid value")
    else if details.salt.length > 255 then
      .error (.ralf .packageMountInvalid "Package image layer dm-verity salt is too large")
    else .ok details

def createReader (package : OCIPackage Certificate MetaData) (s : σ) :
    Except Fault (Result ImageLayer × σ) :=
  match package.packageImageDescriptor with
  | none =>
    .ok (.error (.ralf .packageContentsInvalid "Package does not contain a package image"), s)
  | some image =>
    let descriptor := image.descriptor
    if descriptor.mediaType = packageImageMediaTypeErofs then
      match getDmVerityAnnotations descriptor with
      | .error error => .ok (.error error, s)
      | .ok annotations =>
        if ¬package.hasBackingStore then .error .nullPointer
        else
          match store.getMappableFile (blobPath descriptor.digest) s with
          | (.error error, s) =>
            let what := error.what
            .ok (.error (.ralf .packageMountInvalid
              s!"Package EROFS image layer cannot be read due to {what}"), s)
          | (.ok file, s) =>
              .ok (.ok (.erofs file annotations.hashesOffset annotations.rootHash), s)
    else if isImageLayer descriptor then
      if ¬validateSha256Digest descriptor.digest then
        .ok (.error (.ralf .packageContentsInvalid "Invalid sha256 hash"), s)
      else if ¬package.hasBackingStore then .error .nullPointer
      else
        match store.getFile (blobPath descriptor.digest) s with
        | (.error error, s) => .ok (.error error, s)
        | (.ok reader, s) =>
          if reader.contents.length ≠ descriptor.size then
            .ok (.error (.ralf .packageContentsInvalid "Package image layer size mismatch"), s)
          else .ok (.ok (.archive descriptor.toOCIDescriptor reader), s)
    else
      .ok (.error (.ralf .packageContentsInvalid "Package image descriptor has invalid media type"),
        s)

/-- An auxiliary file that is served. -/
structure AuxMetaData where
  mediaType : String
  index : Nat
  contents : Bytes
  annotations : List (String × String)
  deriving DecidableEq, Repr

/-- The descriptor that is asked for with a media type and an index. -/
def auxDescriptor (package : OCIPackage Certificate MetaData) (mediaType : String) (index : Nat) :
    Option Retained :=
  if mediaType = packageConfigMediaType then package.packageConfigDescriptor
  else (package.otherImageLayerDescriptors.filter fun layer =>
    layer.descriptor.mediaType = mediaType)[index]?

def auxMetaDataFile (package : OCIPackage Certificate MetaData) (mediaType : String)
    (index : Nat) (s : σ) :
    Except Fault (Result AuxMetaData × σ) :=
  if mediaType = packageConfigMediaType ∧ index ≠ 0 then
    .ok (.error (.ralf .packageContentsInvalid "Invalid index for package config file"), s)
  else
    match package.auxDescriptor mediaType index with
    | none =>
      .ok (.error (.ralf .packageContentsInvalid
        s!"No aux meta data file found for '{mediaType}' with index {index}'"), s)
    | some layer =>
      let descriptor := layer.descriptor
      if descriptor.size > maxAuxMetaDataSize then
        .ok (.error (.ralf .packageContentsInvalid "Aux meta data size is too large"), s)
      else
        match package.readBlob libraries store descriptor.digest descriptor.size s with
        | .error fault => .error fault
        | .ok (.error error, s) => .ok (.error error, s)
        | .ok (.ok contents, s) => .ok (.ok ⟨mediaType, index, contents, descriptor.annotations⟩, s)

end OCIPackage

end

end Oci
