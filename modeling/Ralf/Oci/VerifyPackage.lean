import Ralf.Oci.SignedManifest

/-!
# Verifying a package and reading it

`OCIPackage.verify` streams the blobs of the descriptors that a package keeps through a digest.
`calcAndCheckBlobDigest` compares the number of bytes with the size that the reader of the blob
reports, and not with the size in the descriptor. `metaData`, `auxMetaDataFile` and `createReader`
compare with the descriptor. `verify_agrees_iff` says when a package that was verified can be
read: the sizes in its descriptors have to be those of the files.
-/

namespace Oci

section
variable {σ Certificate MetaData : Type} (libraries : Libraries Certificate MetaData)
  (store : IOCIBackingStore σ)

namespace OCIPackage

/-! ## Checking blobs -/

/-- Creates a reader for a blob. -/
def getBlobReader (package : OCIPackage Certificate MetaData) (sha256 : Bytes) (s : σ) :
    Except Fault (Result IOCIFileReader × σ) :=
  if ¬validateSha256Digest sha256 then
    .ok (.error (.ralf .packageContentsInvalid "Invalid sha256 hash"), s)
  else if ¬package.hasBackingStore then .error .nullPointer
  else .ok (store.getFile (blobPath sha256) s)

/-- The loop of `calcAndCheckBlobDigest`, with the number of reads and the bytes so far. Every turn
reads at least one byte. -/
def digestLoop (reader : IOCIFileReader) (expectedBlobSize : Nat) :
    Nat → Nat → Bytes → Result Bytes
  | 0, _, digested => .ok digested
  | fuel + 1, reads, digested =>
    match reader.outcome reads 4096 with
    | .failure _ => .error (.ralf .packageContentsInvalid "Failed to read blob data")
    | .amount n =>
      let data := (reader.contents.drop digested.length).take (min n 4096)
      if data = [] then .ok digested
      else if digested.length + data.length > expectedBlobSize then
        .error (.ralf .packageContentsInvalid "Blob size exceeds expected size")
      else digestLoop reader expectedBlobSize fuel (reads + 1) (digested ++ data)

/-- The part of `calcAndCheckBlobDigest` after the reader was created. The size of a reader is that
of its contents. -/
def checkReader (descriptor : AnnotatedDescriptor) (reader : IOCIFileReader) : Result Unit :=
  let expectedBlobSize := reader.contents.length
  match digestLoop reader expectedBlobSize (expectedBlobSize + 1) 0 [] with
  | .error error => .error error
  | .ok digested =>
    if digested.length ≠ expectedBlobSize then
      .error (.ralf .packageContentsInvalid "Blob size mismatch")
    else if libraries.sha256 digested ≠ hexStringToBytes descriptor.digest then
      .error (.ralf .packageContentsInvalid "Blob digest mismatch")
    else .ok ()

def calcAndCheckBlobDigest (package : OCIPackage Certificate MetaData)
    (descriptor : AnnotatedDescriptor) (s : σ) : Except Fault (Result Unit × σ) :=
  match package.getBlobReader store descriptor.digest s with
  | .error fault => .error fault
  | .ok (.error error, s) => .ok (.error error, s)
  | .ok (.ok reader, s) => .ok (checkReader libraries descriptor reader, s)

/-! ## The whole package -/

/-- An error of `verify`. -/
def verifyError (what : String) : Error := .ralf .packageSignatureInvalid what

/-- The loop of `verify` over the layers. -/
def verifyLayers (package : OCIPackage Certificate MetaData) :
    List Retained → σ → Except Fault (Result Unit × σ)
  | [], s => .ok (.ok (), s)
  | layer :: rest, s =>
    match package.calcAndCheckBlobDigest libraries store layer.descriptor s with
    | .error fault => .error fault
    | .ok (.error _, s) =>
      .ok (.error (verifyError "Package aux metadata file digest mismatch"), s)
    | .ok (.ok _, s) => verifyLayers package rest s

/-- Full verification of a package: an error stands for `false`. -/
def verify (package : OCIPackage Certificate MetaData) (s : σ) :
    Except Fault (Result Unit × σ) :=
  if ¬package.verifiedManifest then
    .ok (.error (.ralf .notSupported "Package wasn't opened with a verification bundle"), s)
  else
    match package.signatureDescriptor, package.packageConfigDescriptor,
      package.packageImageDescriptor with
    | none, _, _ => .ok (.error (verifyError "Package does not contain a signature"), s)
    | some _, some config, some image =>
      match package.calcAndCheckBlobDigest libraries store config.descriptor s with
      | .error fault => .error fault
      | .ok (.error _, s) => .ok (.error (verifyError "Package config digest mismatch"), s)
      | .ok (.ok _, s) =>
        match package.calcAndCheckBlobDigest libraries store image.descriptor s with
        | .error fault => .error fault
        | .ok (.error _, s) => .ok (.error (verifyError "Package image digest mismatch"), s)
        | .ok (.ok _, s) =>
          package.verifyLayers libraries store package.otherImageLayerDescriptors s
    | some _, _, _ =>
      .ok (.error (verifyError "Package signature does not match package data"), s)

/-! ## Agreement -/

/-- The files of a store do not change, and a file is only refused as too large when it is larger
than what was asked for. -/
structure Unchanging (files : FilePath → Option Bytes) : Prop where
  readFile : ∀ path maxSize s s' contents,
    store.readFile path maxSize s = (.ok contents, s') → files path = some contents
  tooLarge : ∀ path maxSize s s' error, store.readFile path maxSize s = (.error error, s') →
    error.code = .ralf .packageFileTooLarge →
      ∃ contents, files path = some contents ∧ maxSize < contents.length
  getFile : ∀ path s s' reader,
    store.getFile path s = (.ok reader, s') → files path = some reader.contents

/-- The store gives a blob that is not what the descriptor says, or has one that is larger. -/
def BlobMismatch (descriptor : AnnotatedDescriptor) (s : σ) : Prop :=
  match store.readFile (blobPath descriptor.digest) descriptor.size s with
  | (.ok contents, _) => ¬ IsBlob libraries descriptor contents
  | (.error error, _) => error.code = .ralf .packageFileTooLarge

/-- `metaData` fails on the blob of the config. -/
def MetaDataMismatch (package : OCIPackage Certificate MetaData) (s : σ) : Prop :=
  (∃ error package' s', package.metaData libraries store s = .ok (.error error, package', s')) ∧
    ∃ r, package.packageConfigDescriptor = some r ∧ BlobMismatch libraries store r.descriptor s

/-- `auxMetaDataFile` fails on the blob of a layer that is not too large for it. -/
def AuxMismatch (package : OCIPackage Certificate MetaData) (mediaType : String) (index : Nat)
    (s : σ) : Prop :=
  (∃ error s', package.auxMetaDataFile libraries store mediaType index s =
      .ok (.error error, s')) ∧
    ∃ r, package.auxDescriptor mediaType index = some r ∧
      r.descriptor.size ≤ maxAuxMetaDataSize ∧ BlobMismatch libraries store r.descriptor s

/-- `createReader` fails on the size of the image layer. -/
def ReaderMismatch (package : OCIPackage Certificate MetaData) (s : σ) : Prop :=
  (∃ error s', package.createReader store s = .ok (.error error, s')) ∧
    ∃ r, package.packageImageDescriptor = some r ∧ ∃ reader s',
      store.getFile (blobPath r.descriptor.digest) s = (.ok reader, s') ∧
        reader.contents.length ≠ r.descriptor.size

/-- Every descriptor that is kept is for its blob, and no blob makes reading fail. -/
structure Agrees (files : FilePath → Option Bytes) (package : OCIPackage Certificate MetaData) :
    Prop where
  blobs : ∀ r ∈ package.retained, ∃ contents,
    files (blobPath r.descriptor.digest) = some contents ∧ IsBlob libraries r.descriptor contents
  metaData : ∀ p s, Used libraries store package p → ¬ MetaDataMismatch libraries store p s
  auxMetaDataFile : ∀ p mediaType index s, Used libraries store package p →
    ¬ AuxMismatch libraries store p mediaType index s
  createReader : ∀ p s, Used libraries store package p → ¬ ReaderMismatch store p s

/-- The sizes in the descriptors are those of the files. -/
def SizesAgree (files : FilePath → Option Bytes) (package : OCIPackage Certificate MetaData) :
    Prop :=
  ∀ r ∈ package.retained, ∀ contents, files (blobPath r.descriptor.digest) = some contents →
    contents.length = r.descriptor.size

end OCIPackage

end

namespace OCIPackage

section
variable {σ Certificate MetaData : Type} {libraries : Libraries Certificate MetaData}
  {store : IOCIBackingStore σ} {package : OCIPackage Certificate MetaData} {s s' : σ}
  {files : FilePath → Option Bytes} {descriptor : AnnotatedDescriptor} {reader : IOCIFileReader}

/-- What was read is the beginning of the contents. -/
theorem digestLoop_prefix {fuel reads expectedBlobSize : Nat} {digested result : Bytes}
    (hdigested : digested <+: reader.contents)
    (h : digestLoop reader expectedBlobSize fuel reads digested = .ok result) :
    result <+: reader.contents := by
  induction fuel generalizing reads digested with
  | zero =>
    cases h
    exact hdigested
  | succ fuel ih =>
    unfold digestLoop at h
    split at h
    · cases h
    dsimp only at h
    split at h
    · cases h
      exact hdigested
    split at h
    · cases h
    · refine ih ?_ h
      obtain ⟨rest, hrest⟩ := hdigested
      rw [← hrest, List.drop_left, List.prefix_append_right_inj]
      exact List.take_prefix _ _

/-- A blob that passes has the digest of the descriptor. -/
theorem checkReader_ok (h : checkReader libraries descriptor reader = .ok ()) :
    libraries.sha256 reader.contents = hexStringToBytes descriptor.digest := by
  unfold checkReader at h
  dsimp only at h
  split at h
  · cases h
  next digested hloop =>
  split at h
  · cases h
  next hsize =>
  split at h
  · cases h
  next hdigest =>
  have hbegins := digestLoop_prefix List.nil_prefix hloop
  rw [← hbegins.eq_of_length (not_not.mp hsize)]
  exact not_not.mp hdigest

theorem calcAndCheckBlobDigest_ok (hstore : Unchanging store files)
    (h : package.calcAndCheckBlobDigest libraries store descriptor s = .ok (.ok (), s')) :
    ∃ contents, files (blobPath descriptor.digest) = some contents ∧
      libraries.sha256 contents = hexStringToBytes descriptor.digest := by
  unfold calcAndCheckBlobDigest at h
  split at h
  · cases h
  · cases h
  next reader s₁ hreader =>
  obtain ⟨hcheck, -⟩ := Prod.mk.inj (Except.ok.inj h)
  unfold getBlobReader at hreader
  split at hreader
  · cases hreader
  split at hreader
  · cases hreader
  · exact ⟨_, hstore.getFile _ _ _ _ (Except.ok.inj hreader), checkReader_ok hcheck⟩

theorem verifyLayers_ok {layers : List Retained} (hstore : Unchanging store files)
    (h : package.verifyLayers libraries store layers s = .ok (.ok (), s')) :
    ∀ r ∈ layers, ∃ contents, files (blobPath r.descriptor.digest) = some contents ∧
      libraries.sha256 contents = hexStringToBytes r.descriptor.digest := by
  induction layers generalizing s with
  | nil => exact fun r hr => absurd hr List.not_mem_nil
  | cons layer rest ih =>
    unfold verifyLayers at h
    split at h
    · cases h
    · cases h
    next hcheck => exact List.forall_mem_cons.mpr ⟨calcAndCheckBlobDigest_ok hstore hcheck, ih h⟩

/-- A package that was verified has the digests of its descriptors. -/
theorem verify_ok (hstore : Unchanging store files)
    (h : package.verify libraries store s = .ok (.ok (), s')) :
    ∀ r ∈ package.retained, ∃ contents, files (blobPath r.descriptor.digest) = some contents ∧
      libraries.sha256 contents = hexStringToBytes r.descriptor.digest := by
  unfold verify at h
  split at h
  · cases h
  split at h
  · cases h
  next config image _ hconfig himage =>
    split at h
    · cases h
    · cases h
    next hcheckConfig =>
    split at h
    · cases h
    · cases h
    next hcheckImage =>
    intro r hr
    unfold OCIPackage.retained at hr
    rw [hconfig, himage] at hr
    rcases List.mem_append.mp hr with hr | hr
    · rcases List.mem_pair.mp hr with rfl | rfl
      · exact calcAndCheckBlobDigest_ok hstore hcheckConfig
      · exact calcAndCheckBlobDigest_ok hstore hcheckImage
    · exact verifyLayers_ok hstore h r hr
  · cases h

/-- A descriptor that is right about its blob is not failed on. -/
theorem not_blobMismatch {contents : Bytes} (hstore : Unchanging store files)
    (hfile : files (blobPath descriptor.digest) = some contents)
    (hblob : IsBlob libraries descriptor contents) (s : σ) :
    ¬ BlobMismatch libraries store descriptor s := by
  unfold BlobMismatch
  split
  · next contents' s' hread =>
    cases hfile.symm.trans (hstore.readFile _ _ _ _ _ hread)
    exact not_not.mpr hblob
  · next error s' hread =>
    intro hcode
    obtain ⟨contents', hfile', hlarge⟩ := hstore.tooLarge _ _ _ _ _ hread hcode
    cases hfile.symm.trans hfile'
    exact absurd hblob.2 hlarge.ne'

/-- When the descriptors are right about the blobs, reading does not fail on them. -/
theorem agrees_of_blobs (hstore : Unchanging store files)
    (hcache : package.cachedMetaData = none)
    (hblobs : ∀ r ∈ package.retained, ∃ contents,
      files (blobPath r.descriptor.digest) = some contents ∧
        IsBlob libraries r.descriptor contents) :
    Agrees libraries store files package where
  blobs := hblobs
  metaData p s hused := by
    obtain ⟨⟨cached, rfl⟩, -⟩ := used_cases hcache hused
    rintro ⟨-, r, hr, hmismatch⟩
    have hmem : r ∈ package.retained :=
      List.mem_append_left _ (List.mem_append_left _ (Option.mem_toList.mpr hr))
    obtain ⟨contents, hfile, hblob⟩ := hblobs r hmem
    exact not_blobMismatch hstore hfile hblob s hmismatch
  auxMetaDataFile p mediaType index s hused := by
    obtain ⟨⟨cached, rfl⟩, -⟩ := used_cases hcache hused
    rintro ⟨-, r, hr, -, hmismatch⟩
    obtain ⟨contents, hfile, hblob⟩ := hblobs r (auxDescriptor_retained hr)
    exact not_blobMismatch hstore hfile hblob s hmismatch
  createReader p s hused := by
    obtain ⟨⟨cached, rfl⟩, -⟩ := used_cases hcache hused
    rintro ⟨-, r, hr, reader, s', hreader, hlength⟩
    have hmem : r ∈ package.retained :=
      List.mem_append_left _ (List.mem_append_right _ (Option.mem_toList.mpr hr))
    obtain ⟨contents, hfile, hblob⟩ := hblobs r hmem
    cases hfile.symm.trans (hstore.getFile _ _ _ _ hreader)
    exact hlength hblob.2

/-- A package that was just opened has no metadata yet. -/
theorem openPackage_uncached {bundle : VerificationBundle Certificate} {checkExpiry : Bool}
    (hopen : openPackage libraries store (some bundle) checkExpiry s = .ok (.ok package, s')) :
    package.cachedMetaData = none := by
  unfold openPackage at hopen
  rcases hnew : OCIPackage.new libraries store s with ⟨error, made, s₁⟩
  rw [hnew] at hopen
  dsimp only at hopen
  split at hopen
  · cases hopen
  obtain ⟨hhasStore, payload, certs, rfl, -, -⟩ := readAndVerifySignature_ok hopen
  cases error with
  | some error =>
    rw [new_error hnew] at hhasStore
    cases hhasStore
  | none => exact (new_ok hnew).uncached

/-- A package that was opened with a bundle and verified agrees with what is read of it exactly if
the sizes in its descriptors are those of the files. -/
theorem verify_agrees_iff {bundle : VerificationBundle Certificate} {checkExpiry : Bool}
    {s₀ s₁ : σ}
    (hopen : openPackage libraries store (some bundle) checkExpiry s₀ = .ok (.ok package, s₁))
    (hstore : Unchanging store files)
    (hverify : package.verify libraries store s = .ok (.ok (), s')) :
    Agrees libraries store files package ↔ SizesAgree files package := by
  constructor
  · intro hagrees r hr contents hfile
    obtain ⟨contents', hfile', hblob⟩ := hagrees.blobs r hr
    cases hfile.symm.trans hfile'
    exact hblob.2
  · intro hsizes
    refine agrees_of_blobs hstore (openPackage_uncached hopen) fun r hr => ?_
    obtain ⟨contents, hfile, hdigest⟩ := verify_ok hstore hverify r hr
    exact ⟨contents, hfile, hdigest, hsizes r hr contents hfile⟩

end

/-! ### A package with one size -/

def objectHex : String := "44136fa355b3678a1146ad16f7e8649e94fb4fc21fe77e8310c060f61caaff8a"

def emptyHex : String := "e3b0c44298fc1c149afbf4c8996fb92427ae41e4649b934ca495991b7852b855"

/-- A package whose manifest says that the config, an empty object, has some size, with the digests
of the manifest, of the payload and of the signature manifest. -/
structure SizedPackage where
  size : Nat
  manifestHex : String
  payloadHex : String
  signatureHex : String

namespace SizedPackage

def manifest (sized : SizedPackage) : Json :=
  .object
    [("config", descriptorJson packageConfigMediaType objectHex sized.size),
     ("layers", .array [imageJson]), ("schemaVersion", .integer 2)]

def payload (sized : SizedPackage) : Json :=
  .object
    [("critical", .object
      [("identity", .object [("docker-reference", .string "app")]),
       ("image",
         .object [("docker-manifest-digest", .string ("sha256:" ++ sized.manifestHex))]),
       ("type", .string "cosign container image signature")]),
     ("optional", .null)]

def signature (sized : SizedPackage) : Json :=
  manifestJson [.object
    [("annotations", .object [("dev.cosignproject.cosign/signature", .string "c2ln"),
      ("dev.sigstore.cosign/certificate", .string "PEM")]),
     ("digest", .string ("sha256:" ++ sized.payloadHex)),
     ("mediaType", .string packageSignatureMediaType), ("size", .integer 219)]]

def index (sized : SizedPackage) : Json :=
  indexJson [(sized.manifestHex, sized.manifest), (sized.signatureHex, sized.signature)]

/-- The blobs with their digests. -/
def blobs (sized : SizedPackage) : List (String × Bytes) :=
  [(objectHex, fileOf (.object [])), (emptyHex, []), (sized.manifestHex, fileOf sized.manifest),
   (sized.payloadHex, fileOf sized.payload), (sized.signatureHex, fileOf sized.signature)]

def files (sized : SizedPackage) : List (FilePath × Bytes) :=
  (FilePath.ofNames [Bytes.ofString "oci-layout"], fileOf layoutJson) ::
    (FilePath.ofNames [Bytes.ofString "index.json"], fileOf sized.index) ::
    sized.blobs.map fun blob => (blobPath (Bytes.ofString blob.1), blob.2)

/-- Libraries that know the files. -/
def libraries (sized : SizedPackage) : Libraries Unit Unit :=
  { someLibraries sized.index with
    sha256 := fun data =>
      match sized.blobs.find? fun blob => blob.2 = data with
      | some (hex, _) => hexStringToBytes (Bytes.ofString hex)
      | none => []
    parseJson := fun _ data =>
      [layoutJson, sized.index, sized.manifest, sized.payload, sized.signature].find?
        fun value => fileOf value = data }

end SizedPackage

/-- A store with some files. -/
def fileStore (files : List (FilePath × Bytes)) : IOCIBackingStore Unit where
  readFile path maxSize s :=
    match files.lookup path with
    | none => (.error (.ralf .packageInvalidEntry "File not found"), s)
    | some contents =>
      if contents.length > maxSize then
        (.error (.ralf .packageFileTooLarge "File is too large"), s)
      else (.ok contents, s)
  getFile path s :=
    match files.lookup path with
    | none => (.error (.ralf .packageInvalidEntry "File not found"), s)
    | some contents => (.ok ⟨contents, fun _ size => .amount size⟩, s)
  getMappableFile path s :=
    match files.lookup path with
    | none => (.error (.ralf .packageInvalidEntry "File not found"), s)
    | some contents => (.ok ⟨contents⟩, s)

theorem fileStore_unchanging (files : List (FilePath × Bytes)) :
    Unchanging (fileStore files) (fun path => files.lookup path) where
  readFile path maxSize s s' contents h := by
    unfold fileStore at h
    dsimp only at h
    split at h
    · cases h
    next hfile =>
    split at h
    · cases h
    · cases h
      exact hfile
  tooLarge path maxSize s s' error h hcode := by
    unfold fileStore at h
    dsimp only at h
    split at h
    · cases h
      cases hcode
    next contents hfile =>
    split at h
    · next hlarge => exact ⟨contents, hfile, hlarge⟩
    · cases h
  getFile path s s' reader h := by
    unfold fileStore at h
    dsimp only at h
    split at h
    · cases h
    · next hfile =>
      cases h
      exact hfile

/-- The package, opened with a bundle. -/
def openSized (sized : SizedPackage) : Option (OCIPackage Unit Unit) :=
  match openPackage sized.libraries (fileStore sized.files) (some fun _ _ _ => true) false () with
  | .ok (.ok package, _) => some package
  | _ => none

theorem openSized_ok {sized : SizedPackage} {package : OCIPackage Unit Unit}
    (h : openSized sized = some package) :
    openPackage sized.libraries (fileStore sized.files) (some fun _ _ _ => true) false () =
      .ok (.ok package, ()) := by
  unfold openSized at h
  split at h
  · next hopen =>
    cases h
    exact hopen
  · cases h

/-- Whether the package is verified. -/
def verifies (sized : SizedPackage) (package : OCIPackage Unit Unit) : Bool :=
  match package.verify sized.libraries (fileStore sized.files) () with
  | .ok (.ok _, _) => true
  | _ => false

theorem verifies_ok {sized : SizedPackage} {package : OCIPackage Unit Unit}
    (h : verifies sized package = true) :
    package.verify sized.libraries (fileStore sized.files) () = .ok (.ok (), ()) := by
  unfold verifies at h
  split at h
  · next hverify => exact hverify
  · cases h

/-- The config has two bytes. -/
def twoBytes : SizedPackage where
  size := 2
  manifestHex := signedHex
  payloadHex := Oci.payloadHex
  signatureHex := Oci.signatureHex

/-- The descriptor has the right digest, and a size of three bytes. -/
def threeBytes : SizedPackage where
  size := 3
  manifestHex := "9e262ebafb2301fffba58c98f7b35066e16721b5d653611e8dfcc6dbf96c5724"
  payloadHex := "525b4ce48f02ce8823c13df279342e378ac349e9c99bcd30e258ac36d4d163d7"
  signatureHex := "5b641cba8b335716492a75c652711b41d0c8206894546216891a4d4b083c3cdc"

/-- Whether the sizes of the retained descriptors are those of the files. -/
def sizesAgree (sized : SizedPackage) (package : OCIPackage Unit Unit) : Bool :=
  package.retained.all fun r =>
    (sized.files.lookup (blobPath r.descriptor.digest)).all fun contents =>
      contents.length = r.descriptor.size

theorem verify_agrees_iff_twoBytes : ∃ package, openSized twoBytes = some package ∧
    verifies twoBytes package = true ∧
      Agrees twoBytes.libraries (fileStore twoBytes.files)
        (fun path => twoBytes.files.lookup path) package := by
  have hresult : (openSized twoBytes).map
      (fun package => (verifies twoBytes package, sizesAgree twoBytes package)) =
        some (true, true) := by decide +kernel
  obtain ⟨package, hopen, hboth⟩ := Option.map_eq_some_iff.mp hresult
  obtain ⟨hverifies, hsizes⟩ := Prod.mk.inj hboth
  refine ⟨package, hopen, hverifies, (verify_agrees_iff (openSized_ok hopen)
    (fileStore_unchanging twoBytes.files) (verifies_ok hverifies)).mpr ?_⟩
  intro r hr contents hfile
  have hsize := List.all_eq_true.mp hsizes r hr
  rw [show List.lookup _ twoBytes.files = some contents from hfile] at hsize
  exact of_decide_eq_true hsize

/-- The text of the error of `metaData`. -/
def metaDataError (sized : SizedPackage) (package : OCIPackage Unit Unit) : Option String :=
  match package.metaData sized.libraries (fileStore sized.files) () with
  | .ok (.error error, _, _) => some error.what
  | _ => none

/-- The package is verified, and then its config cannot be read. -/
theorem not_verify_agrees : ∃ package, openSized threeBytes = some package ∧
    verifies threeBytes package = true ∧
      metaDataError threeBytes package =
        some "Failed to read package config - Invalid blob size" ∧
      ¬ Agrees threeBytes.libraries (fileStore threeBytes.files)
        (fun path => threeBytes.files.lookup path) package := by
  have hresult : (openSized threeBytes).map (fun package => ((verifies threeBytes package,
      metaDataError threeBytes package), package.packageConfigDescriptor.map fun r =>
        (r.descriptor.size, threeBytes.files.lookup (blobPath r.descriptor.digest)))) =
      some ((true, some "Failed to read package config - Invalid blob size"),
        some (3, some (fileOf (.object [])))) := by
    decide +kernel
  obtain ⟨package, hopen, hall⟩ := Option.map_eq_some_iff.mp hresult
  obtain ⟨hfirst, hconfig⟩ := Prod.mk.inj hall
  obtain ⟨hverifies, herror⟩ := Prod.mk.inj hfirst
  obtain ⟨r, hr, hboth⟩ := Option.map_eq_some_iff.mp hconfig
  obtain ⟨hsize, hlookup⟩ := Prod.mk.inj hboth
  refine ⟨package, hopen, hverifies, herror, fun hagrees => ?_⟩
  have hmem : r ∈ package.retained :=
    List.mem_append_left _ (List.mem_append_left _ (Option.mem_toList.mpr hr))
  obtain ⟨contents, hfile, hblob⟩ := hagrees.blobs r hmem
  cases hfile.symm.trans hlookup
  have hlength := hblob.2
  rw [hsize] at hlength
  exact absurd hlength (by decide +kernel)

end OCIPackage

end Oci
