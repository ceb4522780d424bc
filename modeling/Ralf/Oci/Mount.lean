import Ralf.DmVerity.MountLifetime
import Ralf.DmVerity.VerifiedMount
import Ralf.Oci.VerifyPackage

/-!
# Mounting a package

`OCIPackage::mount` goes through its checks and hands the image to the mounter. A package that was
opened with a bundle is mounted with the root hash of an image layer of the signed manifest, and
with no other: `mount_signed` says so for all answers of the kernel.
-/

namespace Oci

open DmVerity DmVerity.Mounter

/-! ## The checks -/

/-- Where a mappable file is in the file that it is a part of. -/
structure MappedRange where
  fd : Nat
  offset : Nat
  size : Nat
  offset_lt : offset < 2 ^ 64
  size_lt : size < 2 ^ 64

namespace MappedRange

variable (range : MappedRange)

def isAligned : Bool := range.offset % 4096 = 0 && range.size % 4096 = 0

/-- The data of an image. -/
def dataRange (hashesOffset : Nat) : FileRange :=
  ⟨range.offset, wrap64 hashesOffset, range.offset_lt, wrap64_lt _⟩

/-- What is behind the data of an image. -/
def hashesRange (hashesOffset : Nat) : FileRange :=
  ⟨wrap64 (range.offset + hashesOffset), wrapSub64 range.size hashesOffset, wrap64_lt _, wrap64_lt _⟩

end MappedRange

/-- What a mount depends on beside the package: the backing store, which knows where the file at a
path is, the platform, the metadata and the file system. -/
structure MountEnvironment (MetaData : Type) where
  supportsMountableFiles : Bool
  hasMounter : Bool
  place : FilePath → IOCIMappableFile → MappedRange
  id : MetaData → Bytes
  isDirectory : String → Bool

/-- What the mounter is called with. The salt is handed over, but the mounter does not use it. -/
structure MountParameters where
  id : Bytes
  imageFd : Nat
  request : MountRequest
  salt : Bytes

/-- The call of the mounter. -/
def MountParameters.mount (parameters : MountParameters) (flags : Nat) :
    MountScript (Result MountObject) :=
  Mounter.mount parameters.id .erofs parameters.request.mountPoint parameters.request.dataRange
    parameters.request.hashesRange parameters.request.rootHash (.descriptor parameters.imageFd)
    flags

section
variable {σ Certificate MetaData : Type} (environment : MountEnvironment MetaData)
  (libraries : Libraries Certificate MetaData) (store : IOCIBackingStore σ)

namespace OCIPackage

/-- An error of `mount`. -/
def notMountable (what : String) : Error := .ralf .packageMountInvalid what

def isMountable (package : OCIPackage Certificate MetaData) (s : σ) : Except Fault (Bool × σ) :=
  match package.packageImageDescriptor with
  | none => .ok (false, s)
  | some image =>
    if ¬package.hasBackingStore then .error .nullPointer
    else if ¬environment.supportsMountableFiles then .ok (false, s)
    else if image.descriptor.mediaType ≠ packageImageMediaTypeErofs then .ok (false, s)
    else
      match store.getMappableFile (blobPath image.descriptor.digest) s with
      | (.error _, s) => .ok (false, s)
      | (.ok file, s) =>
        .ok ((environment.place (blobPath image.descriptor.digest) file).isAligned, s)

/-- The part of `mount` that looks for the image. -/
def findImage (id : Bytes) (mountPoint : String) (descriptor : AnnotatedDescriptor) (s : σ) :
    Result MountParameters × σ :=
  match getDmVerityAnnotations descriptor with
  | .error error => (.error error, s)
  | .ok annotations =>
    match store.getMappableFile (blobPath descriptor.digest) s with
    | (.error error, s) =>
      let what := error.what
      (.error (notMountable s!"Package image layer is not mountable due to {what}"), s)
    | (.ok file, s) =>
      let range := environment.place (blobPath descriptor.digest) file
      if ¬range.isAligned then
        (.error (.ralf .packageContentsInvalid
          "Package image layer entry is not aligned, cannot mount"), s)
      else if range.size ≠ descriptor.size then
        (.error (notMountable ("Package image layer is not mountable - size of the blob does not " ++
          "match descriptor")), s)
      else if range.size < minErofsImageSize + minDmVerityImageSize ∨
          annotations.hashesOffset > range.size - minDmVerityImageSize then
        (.error (notMountable
          "Package image layer is not mountable - size of offset is invalid"), s)
      else
        (.ok ⟨id, range.fd, ⟨mountPoint, range.dataRange annotations.hashesOffset,
          range.hashesRange annotations.hashesOffset, annotations.rootHash⟩, annotations.salt⟩, s)

/-- What the mounter is called with, if all checks are passed. -/
def mountParameters (package : OCIPackage Certificate MetaData) (mountPoint : String) (s : σ) :
    Except Fault (Result MountParameters × OCIPackage Certificate MetaData × σ) :=
  match package.isMountable environment store s with
  | .error fault => .error fault
  | .ok (false, s) => .ok (.error (notMountable "Package is not mountable"), package, s)
  | .ok (true, s) =>
    if ¬environment.hasMounter then
      .ok (.error (.ralf .notSupported
        ("Library doesn't support mounting packages on this platform, " ++
          "or library built without mount support enabled")), package, s)
    else
      match package.metaData libraries store s with
      | .error fault => .error fault
      | .ok (.error _, package, s) =>
        .ok (.error (notMountable "Package metadata is not available"), package, s)
      | .ok (.ok metaData, package, s) =>
        if ¬environment.isDirectory mountPoint then
          .ok (.error (notMountable "Mount point is not an existing directory"), package, s)
        else
          match package.packageImageDescriptor with
          | none => .error .nullPointer
          | some image =>
            let found := findImage environment store (environment.id metaData) mountPoint
              image.descriptor s
            .ok (found.1, package, found.2)

/-- The program that mounts a package. -/
def mount (package : OCIPackage Certificate MetaData) (mountPoint : String) (flags : Nat) (s : σ) :
    Except Fault (MountScript (Result MountObject) × OCIPackage Certificate MetaData × σ) :=
  match package.mountParameters environment libraries store mountPoint s with
  | .error fault => .error fault
  | .ok (.error error, package, s) => .ok (pure (.error error), package, s)
  | .ok (.ok parameters, package, s) => .ok (parameters.mount flags, package, s)

end OCIPackage

end

/-! ## Where the image is from -/

section
variable {σ Certificate MetaData : Type} {environment : MountEnvironment MetaData}
  {libraries : Libraries Certificate MetaData} {store : IOCIBackingStore σ}
  {package package' : OCIPackage Certificate MetaData} {s s' : σ}

open OCIPackage

/-- The image layer of a package that was opened with a bundle is one of the manifest that the
signature is for. -/
theorem signed_image {bundle : VerificationBundle Certificate} {checkExpiry : Bool}
    (hopen : openPackage libraries store (some bundle) checkExpiry s = .ok (.ok package, s')) :
    ∃ payload digest, package.signedBlob = some payload ∧
      Signed libraries bundle checkExpiry payload ∧ signedDigest libraries payload = some digest ∧
      ∀ r ∈ package.packageImageDescriptor, ∃ manifest ∈ indexedManifests libraries store s,
        libraries.sha256 manifest.blob = hexStringToBytes digest ∧
        r.descriptor ∈ manifest.layers := by
  obtain ⟨payload, digest, last, hpayload, hsigned, hdigest, hholds, hlast, hblob⟩ :=
    openPackage_ok hopen
  refine ⟨payload, digest, hpayload, hsigned, hdigest, fun r hr => ?_⟩
  obtain ⟨other, hother, layer, hlayer, rfl⟩ := hholds.image r hr
  cases hlast.symm.trans hother
  exact ⟨last, (List.mem_filter.mp (List.mem_of_getLast? hlast)).1, hblob, hlayer⟩

/-- Calls of `metaData` leave the image layer. -/
theorem used_image {used : OCIPackage Certificate MetaData}
    (h : Used libraries store package used) :
    used.packageImageDescriptor = package.packageImageDescriptor := by
  induction h with
  | refl => rfl
  | metaData _ hcall ih =>
    obtain ⟨⟨cached, rfl⟩, -⟩ := metaData_ok hcall
    exact ih

/-! ## What the mounter is called with -/

/-- The range is that of the blob of an image layer, and the root hash is that of the layer. -/
structure MountsLayer (environment : MountEnvironment MetaData) (store : IOCIBackingStore σ)
    (mountPoint : String) (descriptor : AnnotatedDescriptor) (annotations : DmVerityAnnotations)
    (range : MappedRange) (parameters : MountParameters) : Prop where
  blob : ∃ file s s', store.getMappableFile (blobPath descriptor.digest) s = (.ok file, s') ∧
    range = environment.place (blobPath descriptor.digest) file
  read : getDmVerityAnnotations descriptor = .ok annotations
  size : range.size = descriptor.size
  inside : annotations.hashesOffset + minDmVerityImageSize ≤ range.size
  imageFd : parameters.imageFd = range.fd
  request : parameters.request = ⟨mountPoint, range.dataRange annotations.hashesOffset,
    range.hashesRange annotations.hashesOffset, annotations.rootHash⟩

theorem findImage_ok {id : Bytes} {mountPoint : String} {descriptor : AnnotatedDescriptor}
    {parameters : MountParameters}
    (h : (findImage environment store id mountPoint descriptor s).1 = .ok parameters) :
    ∃ annotations range, MountsLayer environment store mountPoint descriptor annotations range
      parameters := by
  unfold findImage at h
  split at h
  · cases h
  next annotations hannotations =>
  split at h
  · cases h
  next file s₁ hfile =>
  dsimp only at h
  split at h
  · cases h
  split at h
  · cases h
  next hsize =>
  split at h
  · cases h
  next hbounds =>
  cases h
  rw [not_or, Nat.not_lt, gt_iff_lt, Nat.not_lt] at hbounds
  set range := environment.place (blobPath descriptor.digest) file with hrange
  refine ⟨annotations, range, ⟨file, s, s₁, hfile, hrange⟩, hannotations, not_not.mp hsize, ?_, rfl,
    rfl⟩
  have hmin : minDmVerityImageSize ≤ range.size := (Nat.le_add_left _ _).trans hbounds.1
  calc annotations.hashesOffset + minDmVerityImageSize
      ≤ range.size - minDmVerityImageSize + minDmVerityImageSize :=
        Nat.add_le_add_right hbounds.2 _
    _ = range.size := Nat.sub_add_cancel hmin

theorem mountParameters_ok {mountPoint : String} {parameters : MountParameters}
    (h : package.mountParameters environment libraries store mountPoint s =
      .ok (.ok parameters, package', s')) :
    ∃ r ∈ package.packageImageDescriptor, ∃ annotations range,
      MountsLayer environment store mountPoint r.descriptor annotations range parameters := by
  unfold mountParameters at h
  split at h
  · cases h
  · cases h
  split at h
  · cases h
  split at h
  · cases h
  · cases h
  next hmetaData =>
  obtain ⟨⟨cached, hcached⟩, -⟩ := metaData_ok hmetaData
  split at h
  · cases h
  split at h
  · cases h
  next image himage =>
  rw [hcached] at himage
  exact ⟨image, himage, findImage_ok (Prod.mk.inj (Except.ok.inj h)).1⟩

/-- The loop device gets the whole image, and the hashes are where the annotations say. -/
theorem MountsLayer.ranges {mountPoint : String} {descriptor : AnnotatedDescriptor}
    {annotations : DmVerityAnnotations} {range : MappedRange} {parameters : MountParameters}
    (h : MountsLayer environment store mountPoint descriptor annotations range parameters) :
    parameters.request.overallRange.offset = range.offset ∧
      parameters.request.overallRange.size = range.size ∧
      parameters.request.hashOffset = annotations.hashesOffset ∧
      parameters.request.dataRange.size = annotations.hashesOffset := by
  have hsize := range.size_lt
  have hoffset := range.offset_lt
  have hinside : annotations.hashesOffset ≤ range.size :=
    (Nat.le_add_right _ _).trans h.inside
  rw [h.request]
  refine ⟨rfl, ?_, ?_, wrap64_of_lt (hinside.trans_lt hsize)⟩
  · show wrapSub64 (wrap64 (wrap64 (range.offset + annotations.hashesOffset) +
      wrapSub64 range.size annotations.hashesOffset)) range.offset = range.size
    rw [wrapSub64_of_le hinside hsize]
    unfold wrapSub64 wrap64
    omega
  · show wrapSub64 (wrap64 (range.offset + annotations.hashesOffset)) range.offset =
      annotations.hashesOffset
    unfold wrapSub64 wrap64
    omega

end

/-! ## What is mounted -/

section
variable {σ Certificate MetaData : Type} (environment : MountEnvironment MetaData)
  (libraries : Libraries Certificate MetaData) (store : IOCIBackingStore σ)

open Calls System

/-- A mount of an image layer of a signed manifest. Whatever the kernel answers, the mounter only
makes calls that are allowed for the image, and every file system that it mounts is on a device with
a table for the root hash, over a loop device with a descriptor of the image and its range. -/
def MountsSigned (bundle : VerificationBundle Certificate) (checkExpiry : Bool) (opened : σ)
    (package : OCIPackage Certificate MetaData) (mountPoint : String)
    (parameters : MountParameters) : Prop :=
  ∃ payload digest manifest descriptor annotations range,
    package.signedBlob = some payload ∧ Signed libraries bundle checkExpiry payload ∧
    signedDigest libraries payload = some digest ∧
    manifest ∈ indexedManifests libraries store opened ∧
    libraries.sha256 manifest.blob = hexStringToBytes digest ∧
    descriptor ∈ manifest.layers ∧
    MountsLayer environment store mountPoint descriptor annotations range parameters ∧
    parameters.request.overallRange.offset = range.offset ∧
    parameters.request.overallRange.size = range.size ∧
    parameters.request.hashOffset = annotations.hashesOffset ∧
    ∀ flags config,
      (transcript MountCall MountCall.Answer).Reaches (parameters.mount flags, []) config →
      Lawful (parameters.request.AllowedMount (.descriptor parameters.imageFd)) config.2 ∧
        ∀ source target fsType mountFlags mounted,
          ⟨.mount source target fsType mountFlags, mounted⟩ ∈ exchanged config.2 →
          target = mountPoint ∧ mountFlags % 2 = 1 ∧
            parameters.request.Shows ((ImageSource.descriptor parameters.imageFd).Has config.2)
              (exchanged config.2) source

/-- A package that was opened with a bundle is mounted with a signed root hash, whatever was asked of
it before. -/
theorem mount_signed {bundle : VerificationBundle Certificate} {checkExpiry : Bool}
    {opened opened' s s' : σ} {package used used' : OCIPackage Certificate MetaData}
    {mountPoint : String} {parameters : MountParameters}
    (hopen : OCIPackage.openPackage libraries store (some bundle) checkExpiry opened =
      .ok (.ok package, opened'))
    (hused : Used libraries store package used)
    (hmount : used.mountParameters environment libraries store mountPoint s =
      .ok (.ok parameters, used', s')) :
    MountsSigned environment libraries store bundle checkExpiry opened package mountPoint
      parameters := by
  obtain ⟨payload, digest, hpayload, hsigned, hdigest, himage⟩ := signed_image hopen
  obtain ⟨r, hr, annotations, range, hlayer⟩ := mountParameters_ok hmount
  have hsame : used.packageImageDescriptor = package.packageImageDescriptor :=
    used_image hused
  rw [hsame] at hr
  obtain ⟨manifest, hmanifest, hblob, hmem⟩ := himage r hr
  obtain ⟨hoffset, hsize, hhashes, -⟩ := hlayer.ranges
  refine ⟨payload, digest, manifest, r.descriptor, annotations, range, hpayload, hsigned, hdigest,
    hmanifest, hblob, hmem, hlayer, hoffset, hsize, hhashes, fun flags config hrun => ?_⟩
  have horderly : OrderlyMount parameters.request (.descriptor parameters.imageFd)
      (fun _ => True) (parameters.mount flags) := mount_orderly parameters.id .erofs flags
  have hlawful := horderly.lawful trivial .nil hrun
  refine ⟨hlawful, fun source target fsType mountFlags mounted hmem => ?_⟩
  obtain ⟨htarget, hflags, hshows⟩ := shows_of_lawful (exchanged_lawful hlawful) hmem
  rw [hlayer.request] at htarget
  exact ⟨htarget, hflags, hshows⟩

end

/-! ### A package with an EROFS image -/

open OCIPackage

/-- An image of 8192 zeros, with its hashes in the second half. -/
def erofsLayerJson : Json :=
  .object
    [("annotations", .object
      [("org.rdk.package.content.dmverity.offset", .string "4096"),
       ("org.rdk.package.content.dmverity.roothash",
         .string "0000000000000000000000000000000000000000000000000000000000000000")]),
     ("digest", .string
       "sha256:9f1dcbc35c350d6027f98be0f5c8b43b42ca52b7604459c0c42be3aa88913d47"),
     ("mediaType", .string packageImageMediaTypeErofs), ("size", .integer 8192)]

def erofsManifest : Json := manifestJson [erofsLayerJson]

/-- The digests of the manifest and of what signs it. -/
def erofsSized : SizedPackage where
  size := 2
  manifestHex := "1ff2bbd6f95d6ca5da224e2cc68870069f82ba600e515df15f66f4d1599e012e"
  payloadHex := "a4c8768e9b676198c215356469d16262e196b7ef41183aaf4e6aba2a8aed5b34"
  signatureHex := "7c76ff6db4826bdb4929d7bffb068703577f69785ff49f723301628ad32ecc18"

def erofsIndex : Json :=
  indexJson [(erofsSized.manifestHex, erofsManifest),
    (erofsSized.signatureHex, erofsSized.signature)]

/-- The blobs that are read whole, with their digests. -/
def erofsBlobs : List (String × Bytes) :=
  [(objectHex, fileOf (.object [])), (erofsSized.manifestHex, fileOf erofsManifest),
   (erofsSized.payloadHex, fileOf erofsSized.payload),
   (erofsSized.signatureHex, fileOf erofsSized.signature)]

def erofsLibraries : Libraries Unit Unit :=
  { someLibraries erofsIndex with
    sha256 := fun data =>
      match erofsBlobs.find? fun blob => blob.2 = data with
      | some (hex, _) => hexStringToBytes (Bytes.ofString hex)
      | none => []
    parseJson := fun _ data =>
      [layoutJson, erofsIndex, erofsManifest, erofsSized.payload, erofsSized.signature].find?
        fun value => fileOf value = data
    fromConfigJson := fun _ => .ok () }

def erofsStore : IOCIBackingStore Unit :=
  fileStore <|
    (FilePath.ofNames [Bytes.ofString "oci-layout"], fileOf layoutJson) ::
    (FilePath.ofNames [Bytes.ofString "index.json"], fileOf erofsIndex) ::
    (blobPath (Bytes.ofString "9f1dcbc35c350d6027f98be0f5c8b43b42ca52b7604459c0c42be3aa88913d47"),
      List.replicate 8192 0) ::
    erofsBlobs.map fun blob => (blobPath (Bytes.ofString blob.1), blob.2)

theorem one_block_lt : 4096 < 2 ^ 64 := by decide

theorem two_blocks_lt : 8192 < 2 ^ 64 := by decide

/-- The image is at an offset of 4096 of a file. -/
def erofsEnvironment : MountEnvironment Unit where
  supportsMountableFiles := true
  hasMounter := true
  place := fun _ _ => ⟨5, 4096, 8192, one_block_lt, two_blocks_lt⟩
  id := fun _ => ascii "app".toList
  isDirectory := fun _ => true

/-- The package, opened with a bundle, and what it is mounted with. -/
def openErofs : Option (OCIPackage Unit Unit × OCIPackage Unit Unit × MountParameters) :=
  match OCIPackage.openPackage erofsLibraries erofsStore (some fun _ _ _ => true) false () with
  | .ok (.ok package, _) =>
    match package.mountParameters erofsEnvironment erofsLibraries erofsStore "/mnt" () with
    | .ok (.ok parameters, used, _) => some (package, used, parameters)
    | _ => none
  | _ => none

/-- The answers when nothing fails. -/
def smoothTranscript (call : MountCall) (_ : Calls.Transcript MountCall MountCall.Answer) :
    call.Answer :=
  smoothMountAnswer (.formatted (List.replicate 16 1) 1 []) call ⟨⟨[], [], [], [(7, 0)]⟩, []⟩

/-- The package can be mounted. -/
theorem mount_signed_zeros :
    ∃ package parameters,
      MountsSigned erofsEnvironment erofsLibraries erofsStore (fun _ _ _ => true) false () package
        "/mnt" parameters ∧
      ∃ mount said, (Calls.System.transcript MountCall MountCall.Answer).Reaches
        (parameters.mount 0, []) (.ret (.ok mount), said) := by
  have hrun : openErofs.any (fun opened =>
      (((Calls.System.transcript MountCall MountCall.Answer).run smoothTranscript 60
        (opened.2.2.mount 0) []).any fun out => out.1.toOption.isSome)) = true := by
    decide +kernel
  obtain ⟨⟨package, used, parameters⟩, hopened, hmounts⟩ := (Option.any_eq_true _ _).mp hrun
  unfold openErofs at hopened
  split at hopened
  · next hopen =>
    split at hopened
    · next hparameters =>
      cases hopened
      refine ⟨package, parameters, mount_signed erofsEnvironment erofsLibraries erofsStore hopen
        .refl hparameters, ?_⟩
      obtain ⟨⟨result, said⟩, hresult, hok⟩ := (Option.any_eq_true _ _).mp hmounts
      cases result with
      | error error => exact absurd hok Bool.false_ne_true
      | ok mount => exact ⟨mount, said, Calls.System.run_reaches hresult⟩
    · cases hopened
  · cases hopened

end Oci
