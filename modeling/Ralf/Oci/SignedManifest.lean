import Mathlib.Data.List.Basic
import Ralf.Oci.Package

/-!
# What the signature of a package covers

The signature covers the digest of one manifest, the last manifest of package data that the index
lists. The descriptors of the config and of the image layer are those of that manifest. The other
layers of every manifest of package data are kept, and they are served like those that are signed.

`onlySigned_iff` says when a package that was opened with a bundle serves only what is referenced
from the signed manifest.
-/

namespace Oci

open OCIPackage

/-! ## The manifests of the index -/

namespace Manifest

/-- The layers that are no package image. -/
def auxLayers (manifest : Manifest) : List AnnotatedDescriptor :=
  manifest.layers.filter fun layer => ¬isImageLayer layer

end Manifest

/-- The last manifest of package data. -/
def lastPackageData (manifests : List Manifest) : Option Manifest :=
  (manifests.filter Manifest.isPackageDataManifest).getLast?

section
variable {σ Certificate MetaData : Type} (libraries : Libraries Certificate MetaData)
  (store : IOCIBackingStore σ)

/-- The manifests as they are read, up to one that is not valid. -/
def readManifests : List AnnotatedDescriptor → σ → List Manifest
  | [], _ => []
  | manifest :: rest, s =>
    match readManifest libraries store manifest s with
    | (.error _, _) => []
    | (.ok manifest, s) => manifest :: readManifests rest s

/-- The manifests that the index lists. -/
def indexedManifests (s : σ) : List Manifest :=
  match readIndex libraries store s with
  | (.error _, _) => []
  | (.ok manifests, s) => readManifests libraries store manifests s

/-- Every manifest of package data with other layers than images is the last one, up to its
digest. -/
def AuxFromLast (manifests : List Manifest) : Prop :=
  ∀ manifest ∈ manifests, manifest.isPackageDataManifest = true → manifest.auxLayers ≠ [] →
    ∀ last ∈ lastPackageData manifests, libraries.sha256 manifest.blob = libraries.sha256 last.blob

/-- The key of the digest in a flattened payload. -/
def digestKey : String := "/image/docker-manifest-digest"

/-- The digest of the manifest that a payload is for. -/
def signedDigest (payload : Bytes) : Option Bytes := do
  let root ← libraries.parseJson false payload
  let critical ← root.find "critical"
  match critical.flatten.lookup digestKey with
  | some (.string digest) => validateDigest digest
  | _ => none

/-! ## What is served -/

/-- The descriptors that a package keeps. -/
def OCIPackage.retained (package : OCIPackage Certificate MetaData) : List Retained :=
  package.packageConfigDescriptor.toList ++ package.packageImageDescriptor.toList ++
    package.otherImageLayerDescriptors

/-- The contents have the digest and size of a descriptor. -/
def IsBlob (descriptor : AnnotatedDescriptor) (contents : Bytes) : Prop :=
  libraries.sha256 contents = hexStringToBytes descriptor.digest ∧ contents.length = descriptor.size

/-- A reader for the blob of a descriptor, with what the descriptor says of it. -/
def IsLayer (descriptor : AnnotatedDescriptor) (layer : ImageLayer) : Prop :=
  ∃ s s', match layer with
    | .erofs file hashesOffset rootHash =>
      store.getMappableFile (blobPath descriptor.digest) s = (.ok file, s') ∧
        ∃ annotations, getDmVerityAnnotations descriptor = .ok annotations ∧
          annotations.hashesOffset = hashesOffset ∧ annotations.rootHash = rootHash
    | .archive layer reader => layer = descriptor.toOCIDescriptor ∧
      store.getFile (blobPath descriptor.digest) s = (.ok reader, s')

/-- A package after calls of `metaData`. -/
inductive Used (package : OCIPackage Certificate MetaData) : OCIPackage Certificate MetaData → Prop
  | refl : Used package package
  | metaData {p p' : OCIPackage Certificate MetaData} {s s' : σ} {result : Result MetaData} :
    Used package p → p.metaData libraries store s = .ok (result, p', s') → Used package p'

/-- The blob of the manifest has the digest, and the descriptor is the one of the config or of a layer
in it. -/
def FromManifest (digest : Bytes) (r : Retained) : Prop :=
  libraries.sha256 r.manifest = digest ∧
    ∃ config layers, parseManifest libraries r.manifest = .ok (config, layers) ∧
      (r.descriptor = config ∨ r.descriptor ∈ layers)

/-- The package keeps a descriptor from a manifest with a digest that meets a condition. -/
def KeepsSigned (digest : Bytes) (package : OCIPackage Certificate MetaData)
    (P : AnnotatedDescriptor → Prop) : Prop :=
  ∃ r ∈ package.retained, FromManifest libraries digest r ∧ P r.descriptor

/-- Every descriptor that a package keeps is from a manifest with the digest, and only the blobs of
these are served. -/
structure OnlySigned (digest : Bytes) (package : OCIPackage Certificate MetaData) : Prop where
  retained : ∀ r ∈ package.retained, FromManifest libraries digest r
  metaData : ∀ p p' s s' metaData, Used libraries store package p →
    p.metaData libraries store s = .ok (.ok metaData, p', s') →
      KeepsSigned libraries digest package fun descriptor =>
        ∃ contents, IsBlob libraries descriptor contents ∧
          libraries.fromConfigJson contents = .ok metaData
  createReader : ∀ p s s' layer, Used libraries store package p →
    p.createReader store s = .ok (.ok layer, s') →
      KeepsSigned libraries digest package fun descriptor => IsLayer store descriptor layer
  auxMetaDataFile : ∀ p s s' mediaType index aux, Used libraries store package p →
    p.auxMetaDataFile libraries store mediaType index s = .ok (.ok aux, s') →
      KeepsSigned libraries digest package fun descriptor =>
        IsBlob libraries descriptor aux.contents ∧ descriptor.annotations = aux.annotations

end

/-! ## Reading blobs -/

section
variable {σ Certificate MetaData : Type} {libraries : Libraries Certificate MetaData}
  {store : IOCIBackingStore σ} {package package' p : OCIPackage Certificate MetaData} {s s' : σ}

theorem readBlob_ok {sha256 contents : Bytes} {size : Nat}
    (h : Oci.readBlob libraries store sha256 size s = (.ok contents, s')) :
    libraries.sha256 contents = hexStringToBytes sha256 ∧ contents.length = size := by
  unfold Oci.readBlob at h
  split at h
  · cases h
  split at h
  · cases h
  split at h
  · cases h
  next hsize =>
  split at h
  · cases h
  next hdigest =>
  cases h
  exact ⟨not_not.mp hdigest, not_not.mp hsize⟩

/-- Without a backing store no blob is read. -/
theorem package_readBlob_ok {sha256 contents : Bytes} {size : Nat}
    (h : package.readBlob libraries store sha256 size s = .ok (.ok contents, s')) :
    package.hasBackingStore = true ∧
      Oci.readBlob libraries store sha256 size s = (.ok contents, s') := by
  unfold OCIPackage.readBlob at h
  split at h
  · next hstore =>
    have hread := Except.ok.inj h
    refine ⟨hstore.resolve_left fun hinvalid => ?_, hread⟩
    unfold Oci.readBlob at hread
    rw [if_pos hinvalid] at hread
    cases hread
  · cases h

variable (libraries) in
/-- The blob of a manifest has its digest, and the config and the layers are those in it. -/
def Manifest.IsParsed (manifest : Manifest) : Prop :=
  libraries.sha256 manifest.blob = hexStringToBytes manifest.digest ∧
    parseManifest libraries manifest.blob = .ok (manifest.config, manifest.layers)

theorem readManifest_ok {descriptor : AnnotatedDescriptor} {manifest : Manifest}
    (h : readManifest libraries store descriptor s = (.ok manifest, s')) :
    manifest.IsParsed libraries := by
  unfold readManifest at h
  split at h
  · cases h
  split at h
  · cases h
  split at h
  · cases h
  next hread =>
  split at h
  · cases h
  next hparse =>
  cases h
  exact ⟨(readBlob_ok hread).1, hparse⟩

theorem readManifests_parsed {descriptors : List AnnotatedDescriptor} :
    ∀ manifest ∈ readManifests libraries store descriptors s, manifest.IsParsed libraries := by
  induction descriptors generalizing s with
  | nil => exact fun _ hmem => nomatch hmem
  | cons descriptor rest ih =>
    unfold readManifests
    split
    · exact fun _ hmem => nomatch hmem
    · next hread =>
      intro manifest hmem
      rcases List.mem_cons.mp hmem with rfl | hmem
      · exact readManifest_ok hread
      · exact ih manifest hmem

theorem indexedManifests_parsed :
    ∀ manifest ∈ indexedManifests libraries store s, manifest.IsParsed libraries := by
  unfold indexedManifests
  split
  · exact fun _ hmem => nomatch hmem
  · exact readManifests_parsed

/-! ## What the manifests leave -/

theorem foldl_addLayer (blob : Bytes) (layers : List AnnotatedDescriptor) :
    (layers.foldl (addLayer blob) package).packageConfigDescriptor =
      package.packageConfigDescriptor ∧
    (layers.foldl (addLayer blob) package).packageDataManifestDigest =
      package.packageDataManifestDigest ∧
    (layers.foldl (addLayer blob) package).otherImageLayerDescriptors =
      package.otherImageLayerDescriptors ++
        (layers.filter fun layer => ¬isImageLayer layer).map (⟨·, blob⟩) ∧
    (layers.any isImageLayer = true →
      ∃ layer ∈ layers,
        (layers.foldl (addLayer blob) package).packageImageDescriptor = some ⟨layer, blob⟩) ∧
    (layers.any isImageLayer = false →
      (layers.foldl (addLayer blob) package).packageImageDescriptor =
        package.packageImageDescriptor) ∧
    (layers.foldl (addLayer blob) package).cachedMetaData = package.cachedMetaData := by
  induction layers generalizing package with
  | nil => exact ⟨rfl, rfl, (List.append_nil _).symm, fun h => (nomatch h), fun _ => rfl, rfl⟩
  | cons layer rest ih =>
    obtain ⟨hconfig, hdigest, hothers, himage, hnone, hcache⟩ := @ih (addLayer blob package layer)
    rw [List.foldl_cons, hconfig, hdigest, hothers, hcache]
    cases hlayer : isImageLayer layer with
    | true =>
      have hadd : addLayer blob package layer =
          { package with packageImageDescriptor := some ⟨layer, blob⟩ } := if_pos hlayer
      rw [List.any_cons, hlayer, Bool.true_or]
      rw [List.filter_cons_of_neg (by simpa using hlayer), hadd]
      rw [hadd] at himage hnone
      refine ⟨rfl, rfl, rfl, fun _ => ?_, fun h => (nomatch h), rfl⟩
      cases hrest : rest.any isImageLayer with
      | true =>
        obtain ⟨image, hmem, himage⟩ := himage hrest
        exact ⟨image, List.mem_cons_of_mem layer hmem, himage⟩
      | false => exact ⟨layer, List.mem_cons_self, hnone hrest⟩
    | false =>
      have hadd : addLayer blob package layer =
          { package with
            otherImageLayerDescriptors := package.otherImageLayerDescriptors ++ [⟨layer, blob⟩] } :=
        if_neg (by rw [hlayer]; exact Bool.false_ne_true)
      rw [List.any_cons, hlayer, Bool.false_or]
      rw [List.filter_cons_of_pos (by simpa using hlayer), hadd]
      rw [hadd] at himage hnone
      refine ⟨rfl, rfl, by rw [List.append_assoc]; rfl, fun hrest => ?_, hnone, rfl⟩
      obtain ⟨image, hmem, himage⟩ := himage hrest
      exact ⟨image, List.mem_cons_of_mem layer hmem, himage⟩

theorem foldl_addSignature (layers : List AnnotatedDescriptor) :
    ∃ descriptor, layers.foldl addSignature package =
      { package with signatureDescriptor := descriptor } := by
  induction layers generalizing package with
  | nil => exact ⟨_, rfl⟩
  | cons layer rest ih =>
    obtain ⟨descriptor, hrest⟩ := @ih (addSignature package layer)
    rw [List.foldl_cons, hrest]
    unfold addSignature
    split
    · exact ⟨_, rfl⟩
    · exact ⟨_, rfl⟩

/-- What a package keeps after manifests. -/
structure Holds (manifests : List Manifest) (package : OCIPackage Certificate MetaData) : Prop where
  config : ∀ r ∈ package.packageConfigDescriptor, ∃ last ∈ lastPackageData manifests,
    r = ⟨last.config, last.blob⟩
  image : ∀ r ∈ package.packageImageDescriptor, ∃ last ∈ lastPackageData manifests,
    ∃ layer ∈ last.layers, r = ⟨layer, last.blob⟩
  digest : ∀ last ∈ lastPackageData manifests, package.packageDataManifestDigest = last.digest
  others : package.otherImageLayerDescriptors =
    (manifests.filter Manifest.isPackageDataManifest).flatMap fun manifest =>
      manifest.auxLayers.map (⟨·, manifest.blob⟩)
  uncached : package.cachedMetaData = none

theorem lastPackageData_concat (manifests : List Manifest) (manifest : Manifest) :
    lastPackageData (manifests ++ [manifest]) =
      if manifest.isPackageDataManifest then some manifest else lastPackageData manifests := by
  unfold lastPackageData
  rw [List.filter_append]
  split
  · next hdata => rw [List.filter_cons_of_pos hdata, List.filter_nil, List.getLast?_concat]
  · next hdata => rw [List.filter_cons_of_neg hdata, List.filter_nil, List.append_nil]

theorem holds_addManifest {manifests : List Manifest} (h : Holds manifests package)
    (manifest : Manifest) :
    Holds (manifests ++ [manifest]) (package.addManifest manifest) := by
  unfold addManifest
  split
  · next hdata =>
    have hlast : lastPackageData (manifests ++ [manifest]) = some manifest := by
      rw [lastPackageData_concat, if_pos hdata]
    obtain ⟨hconfig, hdigest, hothers, himage, -, hcache⟩ := @foldl_addLayer Certificate MetaData
      { package with
        packageDataManifestDigest := manifest.digest
        packageConfigDescriptor := some ⟨manifest.config, manifest.blob⟩ }
          manifest.blob manifest.layers
    refine ⟨fun r hr => ⟨manifest, hlast, ?_⟩, fun r hr => ⟨manifest, hlast, ?_⟩, ?_, ?_, ?_⟩
    · rw [hconfig] at hr
      cases hr
      rfl
    · obtain ⟨layer, hlayer, himage⟩ := himage (Bool.and_eq_true_iff.mp hdata).2
      rw [himage] at hr
      cases hr
      exact ⟨layer, hlayer, rfl⟩
    · intro last hmem
      rw [hlast] at hmem
      cases hmem
      exact hdigest
    · rw [hothers, h.others, List.filter_append, List.filter_cons_of_pos hdata, List.filter_nil,
        List.flatMap_append, List.flatMap_singleton]
      rfl
    · rw [hcache]
      exact h.uncached
  · next hdata =>
    have hlast : lastPackageData (manifests ++ [manifest]) = lastPackageData manifests := by
      rw [lastPackageData_concat, if_neg hdata]
    have hfilter : (manifests ++ [manifest]).filter Manifest.isPackageDataManifest =
        manifests.filter Manifest.isPackageDataManifest := by
      rw [List.filter_append, List.filter_cons_of_neg hdata, List.filter_nil, List.append_nil]
    have hsame : Holds (manifests ++ [manifest]) package := by
      refine ⟨?_, ?_, ?_, ?_, h.uncached⟩
      · rw [hlast]
        exact h.config
      · rw [hlast]
        exact h.image
      · rw [hlast]
        exact h.digest
      · rw [hfilter]
        exact h.others
    split
    · obtain ⟨descriptor, hfold⟩ := @foldl_addSignature Certificate MetaData package manifest.layers
      rw [hfold]
      exact ⟨hsame.config, hsame.image, hsame.digest, hsame.others, hsame.uncached⟩
    · exact hsame

theorem holds_foldl {manifests done : List Manifest} (h : Holds done package) :
    Holds (done ++ manifests) (manifests.foldl addManifest package) := by
  induction manifests generalizing done package with
  | nil => rwa [List.append_nil]
  | cons manifest rest ih =>
    have hrest := ih (holds_addManifest h manifest)
    rwa [List.append_assoc] at hrest

theorem processManifests_ok {descriptors : List AnnotatedDescriptor}
    (h : processManifests libraries store descriptors package s = (.ok (), package', s')) :
    package' = (readManifests libraries store descriptors s).foldl addManifest package := by
  induction descriptors generalizing package s with
  | nil =>
    cases h
    rfl
  | cons descriptor rest ih =>
    unfold processManifests processManifest at h
    unfold readManifests
    rcases hread : readManifest libraries store descriptor s with ⟨error | manifest, s₁⟩
    · rw [hread] at h
      cases h
    · rw [hread] at h
      exact ih h

/-- The contents of a package that could be read are what its manifests leave. -/
theorem new_ok (h : OCIPackage.new libraries store s = (none, package, s')) :
    Holds (indexedManifests libraries store s) package := by
  unfold OCIPackage.new at h
  split at h
  · cases h
  next hbuild =>
  cases h
  unfold buildContentsTree at hbuild
  unfold indexedManifests
  rcases hindex : readIndex libraries store s with ⟨error | manifests, s₁⟩
  · rw [hindex] at hbuild
    cases hbuild
  rw [hindex] at hbuild
  dsimp only at hbuild ⊢
  split at hbuild
  · cases hbuild
  next hprocess =>
  split at hbuild
  · cases hbuild
  split at hbuild
  · cases hbuild
  split at hbuild
  · cases hbuild
  cases hbuild
  rw [processManifests_ok hprocess]
  have hempty : Holds [] ({} : OCIPackage Certificate MetaData) :=
    ⟨fun _ hr => (nomatch hr), fun _ hr => (nomatch hr), fun _ hlast => (nomatch hlast), rfl, rfl⟩
  exact holds_foldl hempty

theorem new_error {error : Error}
    (h : OCIPackage.new libraries store s = (some error, package, s')) :
    package.hasBackingStore = false := by
  unfold OCIPackage.new at h
  split at h
  · cases h
    rfl
  · cases h

/-! ## The signature -/

/-- The digest that is accepted is the one of the manifest of package data. -/
theorem verifyMember_ok {key : String} {value : Json} {flags flags' : VerifiedFlags}
    (h : package.verifyMember flags (key, value) = .ok flags') :
    (key = digestKey → ∃ digest, value = .string digest ∧
      validateDigest digest = some package.packageDataManifestDigest) ∧
    (flags'.manifestDigest = true → flags.manifestDigest = true ∨ key = digestKey) := by
  unfold verifyMember at h
  dsimp only at h
  split at h
  · next hkey =>
    subst hkey
    refine ⟨fun hkey => absurd hkey (by decide), fun hset => .inl ?_⟩
    split at h
    · split at h
      · cases h
        exact hset
      · cases h
    · cases h
  split at h
  · next hkey =>
    subst hkey
    refine ⟨fun hkey => absurd hkey (by decide), fun hset => .inl ?_⟩
    split at h
    · cases h
      exact hset
    · cases h
  split at h
  · next hkey =>
    refine ⟨fun _ => ?_, fun _ => .inr hkey⟩
    split at h
    · next digest =>
      refine ⟨digest, rfl, ?_⟩
      split at h
      · cases h
      next manifestDigest hvalid =>
      split at h
      · cases h
      next hequal => rw [hvalid, not_not.mp hequal]
    · cases h
  · cases h

/-- What the loop over a payload finds out about the digest. -/
theorem foldlM_verifyMember {members : List (String × Json)} {flags flags' : VerifiedFlags}
    (h : members.foldlM package.verifyMember flags = .ok flags') :
    (∀ value, (digestKey, value) ∈ members → ∃ digest, value = .string digest ∧
      validateDigest digest = some package.packageDataManifestDigest) ∧
    (flags'.manifestDigest = true → flags.manifestDigest = true ∨
      ∃ value, (digestKey, value) ∈ members) := by
  induction members generalizing flags with
  | nil =>
    cases h
    exact ⟨fun _ hmem => (nomatch hmem), .inl⟩
  | cons member rest ih =>
    obtain ⟨key, value⟩ := member
    rw [List.foldlM_cons] at h
    rcases hmember : package.verifyMember flags (key, value) with error | next
    · rw [hmember] at h
      cases h
    rw [hmember] at h
    obtain ⟨hvalues, hset⟩ := ih h
    obtain ⟨hvalue, hnext⟩ := verifyMember_ok hmember
    refine ⟨fun other hmem => ?_, fun hend => ?_⟩
    · rcases List.mem_cons.mp hmem with heq | hmem
      · cases heq
        exact hvalue rfl
      · exact hvalues other hmem
    · rcases hset hend with hbefore | ⟨other, hmem⟩
      · refine (hnext hbefore).imp_right fun hkey => ?_
        subst hkey
        exact ⟨value, List.mem_cons_self⟩
      · exact .inr ⟨other, List.mem_cons_of_mem _ hmem⟩

theorem signedDigest_of_verified {signedBlob : Bytes}
    (h : package.verifySignaturePayload libraries signedBlob = .ok ()) :
    signedDigest libraries signedBlob = some package.packageDataManifestDigest := by
  unfold verifySignaturePayload at h
  split at h
  · next members hparse =>
    split at h
    · next critical hcritical =>
      rcases hfold : (Json.flatten (.object critical)).foldlM package.verifyMember
        {} with error | flags
      · rw [hfold] at h
        cases h
      rw [hfold] at h
      have hflags : flags = ⟨true, true, true⟩ := by
        by_contra hne
        rw [show (Except.ok flags >>= fun flags =>
          if flags ≠ ⟨true, true, true⟩ then
            (Except.error (invalidPayload "missing required field(s)") : Result Unit)
          else Except.ok ()) = _ from if_pos hne] at h
        cases h
      obtain ⟨hvalues, hset⟩ := foldlM_verifyMember hfold
      rw [hflags] at hset
      obtain ⟨value, hmem⟩ := (hset rfl).resolve_left Bool.false_ne_true
      have hsome : ((Json.flatten (.object critical)).lookup digestKey).isSome := by
        rw [List.lookup_isSome_iff]
        exact ⟨_, hmem, beq_self_eq_true _⟩
      obtain ⟨found, hfound⟩ := Option.isSome_iff_exists.mp hsome
      obtain ⟨before, after, heq, -⟩ := List.lookup_eq_some_iff.mp hfound
      obtain ⟨digest, rfl, hvalid⟩ := hvalues found (by rw [heq]; simp)
      unfold signedDigest
      rw [hparse, Option.bind_eq_bind, Option.bind_some, Json.find, hcritical,
        Option.bind_some, hfound]
      exact hvalid
    · cases h
  · cases h

/-- The payload has a signature that a certificate of the bundle verifies. -/
def Signed (libraries : Libraries Certificate MetaData) (bundle : VerificationBundle Certificate)
    (checkExpiry : Bool) (payload : Bytes) : Prop :=
  ∃ certificate chain signature, bundle certificate chain checkExpiry = true ∧
    libraries.verifySignature certificate signature payload = true

theorem readAndVerifySignature_ok {bundle : VerificationBundle Certificate} {checkExpiry : Bool}
    (h : package.readAndVerifySignature libraries store bundle checkExpiry s = .ok
    (.ok package', s')) :
    package.hasBackingStore = true ∧ ∃ signedBlob certs,
      package' = { package with
        signingCerts := certs, verifiedManifest := true, signedBlob := some signedBlob } ∧
      Signed libraries bundle checkExpiry signedBlob ∧
      signedDigest libraries signedBlob = some package.packageDataManifestDigest := by
  unfold readAndVerifySignature at h
  split at h
  · cases h
  split at h
  · cases h
  next fields _ =>
  split at h
  · cases h
  split at h
  · cases h
  next certificate _ =>
  dsimp only at h
  split at h
  · cases h
  next hbundle =>
  split at h
  · cases h
  split at h
  · cases h
  · cases h
  next signedBlob _ hread =>
  split at h
  · cases h
  next hsignature =>
  split at h
  · cases h
  next hpayload =>
  cases h
  refine ⟨(package_readBlob_ok hread).1, signedBlob, _, rfl, ⟨certificate, fields.certificateChain,
    fields.signature, not_not.mp hbundle, not_not.mp hsignature⟩, ?_⟩
  exact signedDigest_of_verified hpayload

/-! ## Serving blobs -/

/-- The metadata is that of the blob of the config. -/
def FromConfig (libraries : Libraries Certificate MetaData)
    (package : OCIPackage Certificate MetaData)
    (metaData : MetaData) : Prop :=
  ∃ r ∈ package.packageConfigDescriptor, ∃ contents, IsBlob libraries r.descriptor contents ∧
    libraries.fromConfigJson contents = .ok metaData

theorem metaData_ok {result : Result MetaData}
    (h : package.metaData libraries store s = .ok (result, package', s')) :
    (∃ cached, package' = { package with cachedMetaData := cached }) ∧
      ∀ metaData, metaData ∈ package'.cachedMetaData ∨ result = .ok metaData →
        metaData ∈ package.cachedMetaData ∨ FromConfig libraries package metaData := by
  unfold OCIPackage.metaData at h
  split at h
  · next hcached =>
    cases h
    refine ⟨⟨_, rfl⟩, fun metaData hmetaData => .inl (hmetaData.elim id fun heq => ?_)⟩
    cases heq
    exact hcached
  · cases h
    exact ⟨⟨_, rfl⟩, fun _ hmetaData => .inl (hmetaData.resolve_right fun h => nomatch h)⟩
  next config hcached hconfig =>
  split at h
  · cases h
  · cases h
    exact ⟨⟨_, rfl⟩, fun _ hmetaData => .inl (hmetaData.resolve_right fun h => nomatch h)⟩
  next hread =>
  split at h
  · cases h
    exact ⟨⟨_, rfl⟩, fun _ hmetaData => .inl (hmetaData.resolve_right fun h => nomatch h)⟩
  · next contents _ _ parsed hparse =>
    cases h
    refine ⟨⟨_, rfl⟩, fun metaData hmetaData => .inr ⟨config, hconfig, contents, ?_, ?_⟩⟩
    · exact readBlob_ok (package_readBlob_ok hread).2
    · rcases hmetaData with heq | heq
      · cases heq
        exact hparse
      · cases heq
        exact hparse

/-- Calls of `metaData` change only what is cached. -/
theorem used_cases (hcache : package.cachedMetaData = none) (h : Used libraries store package p) :
    (∃ cached, p = { package with cachedMetaData := cached }) ∧
      ∀ metaData ∈ p.cachedMetaData, FromConfig libraries package metaData := by
  induction h with
  | refl =>
    refine ⟨⟨_, rfl⟩, fun metaData hmetaData => ?_⟩
    rw [hcache] at hmetaData
    cases hmetaData
  | metaData _ hcall ih =>
    obtain ⟨⟨cached, rfl⟩, hcached⟩ := ih
    obtain ⟨⟨cached', rfl⟩, hall⟩ := metaData_ok hcall
    exact ⟨⟨cached', rfl⟩, fun metaData hmetaData => (hall metaData (.inl hmetaData)).elim
      (hcached metaData) id⟩

theorem createReader_ok {layer : ImageLayer}
    (h : package.createReader store s = .ok (.ok layer, s')) :
    ∃ r ∈ package.packageImageDescriptor, IsLayer store r.descriptor layer := by
  unfold createReader at h
  split at h
  · cases h
  next image himage =>
  refine ⟨image, himage, ?_⟩
  dsimp only at h
  split at h
  · split at h
    · cases h
    next annotations hannotations =>
    split at h
    · cases h
    split at h
    · cases h
    next hfile =>
    cases h
    exact ⟨_, _, hfile, annotations, hannotations, rfl, rfl⟩
  split at h
  · split at h
    · cases h
    split at h
    · cases h
    split at h
    · cases h
    next hreader =>
    split at h
    · cases h
    · cases h
      exact ⟨_, _, rfl, hreader⟩
  · cases h

theorem auxDescriptor_retained {mediaType : String} {index : Nat} {r : Retained}
    (h : package.auxDescriptor mediaType index = some r) : r ∈ package.retained := by
  unfold auxDescriptor at h
  unfold OCIPackage.retained
  split at h
  · exact List.mem_append_left _ (List.mem_append_left _ (Option.mem_toList.mpr h))
  · exact List.mem_append_right _ (List.mem_filter.mp (List.mem_of_getElem? h)).1

theorem auxMetaDataFile_ok {mediaType : String} {index : Nat} {aux : AuxMetaData}
    (h : package.auxMetaDataFile libraries store mediaType index s = .ok (.ok aux, s')) :
    ∃ r ∈ package.retained, IsBlob libraries r.descriptor aux.contents ∧
      r.descriptor.annotations = aux.annotations := by
  unfold auxMetaDataFile at h
  split at h
  · cases h
  split at h
  · cases h
  next layer hlayer =>
  dsimp only at h
  split at h
  · cases h
  split at h
  · cases h
  · cases h
  next hread =>
  cases h
  exact ⟨layer, auxDescriptor_retained hlayer, readBlob_ok (package_readBlob_ok hread).2, rfl⟩

/-- What is served is what the descriptors name, so that only these matter. -/
theorem onlySigned_of_retained {digest : Bytes} (hcache : package.cachedMetaData = none)
    (h : ∀ r ∈ package.retained, FromManifest libraries digest r) :
    OnlySigned libraries store digest package where
  retained := h
  metaData p p' s s' metaData hused hcall := by
    obtain ⟨⟨cached, rfl⟩, hcached⟩ := used_cases hcache hused
    have hconfig : FromConfig libraries package metaData :=
      ((metaData_ok hcall).2 metaData (.inr rfl)).elim (hcached metaData) id
    obtain ⟨r, hr, hblob⟩ := hconfig
    have hmem : r ∈ package.retained :=
      List.mem_append_left _ (List.mem_append_left _ (Option.mem_toList.mpr hr))
    exact ⟨r, hmem, h r hmem, hblob⟩
  createReader p s s' layer hused hcall := by
    obtain ⟨⟨cached, rfl⟩, -⟩ := used_cases hcache hused
    obtain ⟨r, hr, hlayer⟩ := createReader_ok hcall
    have hmem : r ∈ package.retained :=
      List.mem_append_left _ (List.mem_append_right _ (Option.mem_toList.mpr hr))
    exact ⟨r, hmem, h r hmem, hlayer⟩
  auxMetaDataFile p s s' mediaType index aux hused hcall := by
    obtain ⟨⟨cached, rfl⟩, -⟩ := used_cases hcache hused
    obtain ⟨r, hr, hblob⟩ := auxMetaDataFile_ok hcall
    exact ⟨r, hr, h r hr, hblob⟩

/-! ## Packages that were opened with a bundle -/

/-- A descriptor of the config or of a layer of the last manifest. -/
theorem fromLast {manifests : List Manifest} {last : Manifest} {r : Retained}
    (hlast : lastPackageData manifests = some last) (hparsed : last.IsParsed libraries)
    (hr : ∃ other ∈ lastPackageData manifests, r.manifest = other.blob ∧
      (r.descriptor = other.config ∨ r.descriptor ∈ other.layers)) :
    FromManifest libraries (libraries.sha256 last.blob) r := by
  obtain ⟨other, hother, hblob, hdescriptor⟩ := hr
  cases hlast.symm.trans hother
  exact ⟨congrArg libraries.sha256 hblob, last.config, last.layers, hblob ▸ hparsed.2, hdescriptor⟩

/-- The descriptors are from manifests with the digest of the last one exactly if the other layers
are. -/
theorem retained_iff {manifests : List Manifest} {last : Manifest} (h : Holds manifests package)
    (hparsed : ∀ manifest ∈ manifests, manifest.IsParsed libraries)
    (hlast : lastPackageData manifests = some last) :
    (∀ r ∈ package.retained, FromManifest libraries (libraries.sha256 last.blob) r) ↔
      AuxFromLast libraries manifests := by
  unfold OCIPackage.retained
  constructor
  · intro hall manifest hmanifest hdata haux other hother
    rw [hlast] at hother
    cases hother
    obtain ⟨layer, rest, hlayers⟩ := List.exists_cons_of_ne_nil haux
    refine (hall ⟨layer, manifest.blob⟩ (List.mem_append_right _ ?_)).1
    rw [h.others]
    refine List.mem_flatMap.mpr ⟨manifest, List.mem_filter.mpr ⟨hmanifest, hdata⟩, ?_⟩
    rw [hlayers]
    exact List.mem_cons_self
  · intro hsame r hr
    have hmem : last ∈ manifests := (List.mem_filter.mp (List.mem_of_getLast? hlast)).1
    rcases List.mem_append.mp hr with hr | hr
    · refine fromLast hlast (hparsed last hmem) ?_
      rcases List.mem_append.mp hr with hr | hr
      · obtain ⟨other, hother, rfl⟩ := h.config r (Option.mem_toList.mp hr)
        exact ⟨other, hother, rfl, .inl rfl⟩
      · obtain ⟨other, hother, layer, hlayer, rfl⟩ := h.image r (Option.mem_toList.mp hr)
        exact ⟨other, hother, rfl, .inr hlayer⟩
    · rw [h.others] at hr
      obtain ⟨manifest, hmanifest, hr⟩ := List.mem_flatMap.mp hr
      obtain ⟨layer, hlayer, rfl⟩ := List.mem_map.mp hr
      obtain ⟨hmem, hdata⟩ := List.mem_filter.mp hmanifest
      exact ⟨hsame manifest hmem hdata (List.ne_nil_of_mem hlayer) last hlast, manifest.config,
        manifest.layers, (hparsed manifest hmem).2, .inr (List.mem_filter.mp hlayer).1⟩

/-- A package that was opened with a bundle holds what it keeps after its manifests, and a signed
payload for the last of them. -/
theorem openPackage_ok {bundle : VerificationBundle Certificate} {checkExpiry : Bool}
    (hopen : openPackage libraries store (some bundle) checkExpiry s = .ok (.ok package, s')) :
    ∃ payload digest last, package.signedBlob = some payload ∧
      Signed libraries bundle checkExpiry payload ∧ signedDigest libraries payload = some digest ∧
      Holds (indexedManifests libraries store s) package ∧
      lastPackageData (indexedManifests libraries store s) = some last ∧
      libraries.sha256 last.blob = hexStringToBytes digest := by
  unfold openPackage at hopen
  rcases hnew : OCIPackage.new libraries store s with ⟨error, made, s₁⟩
  rw [hnew] at hopen
  dsimp only at hopen
  split at hopen
  · cases hopen
  next hvalid =>
  obtain ⟨hstore, payload, certs, rfl, hsigned, hdigest⟩ := readAndVerifySignature_ok hopen
  cases error with
  | some error =>
    rw [new_error hnew] at hstore
    cases hstore
  | none =>
    have hholds := new_ok hnew
    have hconfig : made.packageConfigDescriptor.isSome = true := by
      have hboth := not_not.mp hvalid
      unfold isValid at hboth
      exact (Bool.and_eq_true_iff.mp (Bool.and_eq_true_iff.mp hboth).1).2
    obtain ⟨r, hr⟩ := Option.isSome_iff_exists.mp hconfig
    obtain ⟨last, hlast, -⟩ := hholds.config r hr
    have hblob : libraries.sha256 last.blob = hexStringToBytes made.packageDataManifestDigest := by
      rw [hholds.digest last hlast]
      have hmem := (List.mem_filter.mp (List.mem_of_getLast? hlast)).1
      exact (indexedManifests_parsed last hmem).1
    exact ⟨payload, _, last, rfl, hsigned, hdigest, { hholds with }, hlast, hblob⟩

/-- A package that was opened with a bundle has a payload that is signed. It serves only what is from
the manifest that the payload is for exactly if no other manifest of package data has layers that are
no image. -/
theorem onlySigned_iff {bundle : VerificationBundle Certificate} {checkExpiry : Bool}
    (hopen : openPackage libraries store (some bundle) checkExpiry s = .ok (.ok package, s')) :
    ∃ payload digest, package.signedBlob = some payload ∧
      Signed libraries bundle checkExpiry payload ∧ signedDigest libraries payload = some digest ∧
      (OnlySigned libraries store (hexStringToBytes digest) package ↔
        AuxFromLast libraries (indexedManifests libraries store s)) := by
  obtain ⟨payload, digest, last, hpayload, hsigned, hdigest, hholds, hlast, hblob⟩ :=
    openPackage_ok hopen
  refine ⟨payload, digest, hpayload, hsigned, hdigest, ?_⟩
  rw [← retained_iff hholds indexedManifests_parsed hlast, hblob]
  exact ⟨fun h => h.retained, fun h => onlySigned_of_retained hholds.uncached h⟩

end

/-! ### A package with two manifests -/

mutual

/-- The text of a value, without blanks. Its strings have no characters that are escaped. -/
def dump : Json → String
  | .null => "null"
  | .bool b => if b then "true" else "false"
  | .integer n => toString n
  | .real => "0.0"
  | .string s => "\"" ++ s ++ "\""
  | .array elements => "[" ++ ",".intercalate (dumpElements elements) ++ "]"
  | .object members => "\x7b" ++ ",".intercalate (dumpMembers members) ++ "\x7d"

def dumpElements : List Json → List String
  | [] => []
  | element :: rest => dump element :: dumpElements rest

def dumpMembers : List (String × Json) → List String
  | [] => []
  | (key, value) :: rest => ("\"" ++ key ++ "\":" ++ dump value) :: dumpMembers rest

end

/-- The bytes of a JSON file. -/
def fileOf (value : Json) : Bytes := Bytes.ofString (dump value)

/-- A descriptor without annotations. -/
def descriptorJson (mediaType hex : String) (size : Nat) : Json :=
  .object [("digest", .string ("sha256:" ++ hex)), ("mediaType", .string mediaType),
    ("size", .integer size)]

/-- A manifest with a config that is an empty object. -/
def manifestJson (layers : List Json) : Json :=
  .object
    [("config", descriptorJson packageConfigMediaType
      "44136fa355b3678a1146ad16f7e8649e94fb4fc21fe77e8310c060f61caaff8a" 2),
     ("layers", .array layers), ("schemaVersion", .integer 2)]

/-- An image layer without data. -/
def imageJson : Json :=
  descriptorJson "application/vnd.rdk.package.content.layer.v1.tar"
    "e3b0c44298fc1c149afbf4c8996fb92427ae41e4649b934ca495991b7852b855" 0

/-- The manifest of package data that is signed. -/
def signedManifest : Json := manifestJson [imageJson]

def signedHex : String := "71607019fafb7d11d4edaf67c2dbd7a0d1e6c6cbc6ce3ee5ef252ff0526134f9"

/-- A manifest of package data with another layer, an empty object. -/
def otherManifest : Json :=
  manifestJson [imageJson, descriptorJson "application/vnd.rdk.package.secrets.v1"
    "44136fa355b3678a1146ad16f7e8649e94fb4fc21fe77e8310c060f61caaff8a" 2]

def otherHex : String := "622568ac806eea9dbca9116a9aef26113d9be77579b906937aa031cb4ce0dc20"

/-- The payload, for the signed manifest. -/
def payloadJson : Json :=
  .object
    [("critical", .object
      [("identity", .object [("docker-reference", .string "app")]),
       ("image", .object [("docker-manifest-digest", .string ("sha256:" ++ signedHex))]),
       ("type", .string "cosign container image signature")]),
     ("optional", .null)]

def payloadHex : String := "976f4b9d4db29fdde614fbac205dd9c79d5a578324fd5f031b6919de60dc1c81"

def signatureManifest : Json :=
  manifestJson [.object
    [("annotations", .object [("dev.cosignproject.cosign/signature", .string "c2ln"),
      ("dev.sigstore.cosign/certificate", .string "PEM")]),
     ("digest", .string ("sha256:" ++ payloadHex)),
       ("mediaType", .string packageSignatureMediaType),
     ("size", .integer 219)]]

def signatureHex : String := "fa533239f9134b3d0b06061a60bc5a1908a2fcd3425c944e1eb58a32859fd79e"

/-- The files that are in both packages, with their digests. -/
def blobs : List (String × Json) :=
  [(signedHex, signedManifest), (otherHex, otherManifest), (payloadHex, payloadJson),
   (signatureHex, signatureManifest)]

def layoutJson : Json := .object [("imageLayoutVersion", .string "1.0.0")]

/-- An index of manifests. -/
def indexJson (manifests : List (String × Json)) : Json :=
  .object
    [("manifests", .array <| manifests.map fun manifest =>
      descriptorJson ociManifestMediaType manifest.1 (fileOf manifest.2).length),
     ("schemaVersion", .integer 2)]

/-- Libraries that know the files. Every certificate is trusted, and every signature is valid. -/
def someLibraries (index : Json) : Libraries Unit Unit where
  sha256 data :=
    match blobs.find? fun blob => fileOf blob.2 = data with
    | some (hex, _) => hexStringToBytes (Bytes.ofString hex)
    | none => []
  parseJson _ data := (layoutJson :: index :: blobs.map Prod.snd).find? fun value =>
    fileOf value = data
  decodeBase64 s := if s = "c2ln" then some [0x73, 0x69, 0x67] else none
  loadCertificate s := if s = "PEM" then some () else none
  loadCertificates _ := none
  verifySignature _ _ _ := true
  fromConfigJson _ := .error (.ralf .invalidMetaData "Missing id")

/-- A store with the files. -/
def someStore (index : Json) : IOCIBackingStore Unit where
  readFile path maxSize s :=
    let files := (FilePath.ofNames [Bytes.ofString "oci-layout"], layoutJson) ::
      (FilePath.ofNames [Bytes.ofString "index.json"], index) ::
      blobs.map fun blob => (blobPath (Bytes.ofString blob.1), blob.2)
    match files.lookup path with
    | none => (.error (.ralf .fileNotFound "File not found in package"), s)
    | some value =>
      if (fileOf value).length > maxSize then
        (.error (.ralf .packageFileTooLarge "File is too large"), s)
      else (.ok (fileOf value), s)
  getFile _ s := (.error (.ralf .fileNotFound "File not found in package"), s)
  getMappableFile _ s := (.error (.ralf .fileNotFound "File not found in package"), s)

/-- The package with an index, opened with a bundle. -/
def openIndex (index : Json) : Option (OCIPackage Unit Unit) :=
  match openPackage (someLibraries index) (someStore index) (some fun _ _ _ => true) false () with
  | .ok (.ok package, _) => some package
  | _ => none

theorem openIndex_ok {index : Json} {package : OCIPackage Unit Unit}
    (h : openIndex index = some package) :
    openPackage (someLibraries index) (someStore index) (some fun _ _ _ => true) false () =
      .ok (.ok package, ()) := by
  unfold openIndex at h
  split at h
  · next hopen =>
    cases h
    exact hopen
  · cases h

/-- The index of the signed manifest and its signature. -/
def signedIndex : Json := indexJson [(signedHex, signedManifest), (signatureHex, signatureManifest)]

theorem onlySigned_iff_one : ∃ package payload digest, openIndex signedIndex = some package ∧
    package.signedBlob = some payload ∧
      signedDigest (someLibraries signedIndex) payload = some digest ∧
    OnlySigned (someLibraries signedIndex) (someStore signedIndex)
      (hexStringToBytes digest) package := by
  have hopens : (openIndex signedIndex).isSome = true := by decide +kernel
  obtain ⟨package, hopen⟩ := Option.isSome_iff_exists.mp hopens
  obtain ⟨payload, digest, hpayload, -, hdigest, hiff⟩ := onlySigned_iff (openIndex_ok hopen)
  refine ⟨package, payload, digest, hopen, hpayload, hdigest,
    hiff.mpr fun manifest hmem hdata haux => ?_⟩
  have hnone : (indexedManifests (someLibraries signedIndex) (someStore signedIndex) ()).all
      (fun manifest => !manifest.isPackageDataManifest || manifest.auxLayers = []) = true := by
    decide +kernel
  have hmanifest := List.all_eq_true.mp hnone manifest hmem
  rw [hdata] at hmanifest
  exact absurd (of_decide_eq_true hmanifest) haux

/-- The index with another manifest of package data in front. -/
def mixedIndex : Json :=
  indexJson [(otherHex, otherManifest), (signedHex, signedManifest),
    (signatureHex, signatureManifest)]

/-- The other manifest is not signed, and its layer is kept and served. -/
theorem not_onlySigned : ∃ package payload digest, openIndex mixedIndex = some package ∧
    package.signedBlob = some payload ∧
      signedDigest (someLibraries mixedIndex) payload = some digest ∧
    ¬ OnlySigned (someLibraries mixedIndex) (someStore mixedIndex)
      (hexStringToBytes digest) package := by
  have hresult : (openIndex mixedIndex).map (fun package =>
      (package.signedBlob, package.otherImageLayerDescriptors.map fun r =>
        (someLibraries mixedIndex).sha256 r.manifest)) =
      some (some (fileOf payloadJson), [hexStringToBytes (Bytes.ofString otherHex)]) := by
    decide +kernel
  obtain ⟨package, hopen, hboth⟩ := Option.map_eq_some_iff.mp hresult
  obtain ⟨hpayload, hothers⟩ := Prod.mk.inj hboth
  have hdigest : signedDigest (someLibraries mixedIndex) (fileOf payloadJson) =
      some (Bytes.ofString signedHex) := by decide +kernel
  refine ⟨package, _, _, hopen, hpayload, hdigest, fun hsigned => ?_⟩
  obtain ⟨r, hr, hmanifest⟩ := List.map_eq_singleton_iff.mp hothers
  have hsame :=
    (hsigned.retained r (List.mem_append_right _ (by rw [hr]; exact List.mem_cons_self))).1
  rw [hmanifest] at hsame
  revert hsame
  decide +kernel

end Oci
