import Ralf.Oci.Stores

/-!
# One package in several forms

Packages are opened and read alike from all stores that serve the same files. `same_package`: an
archive, with a cache or without, and a directory with the same files give the same package, and
then the same answers to all sequences of calls. Errors can be different ones.
-/

namespace Oci

section
variable {σ τ Certificate MetaData : Type} {libraries : Libraries Certificate MetaData}
  {store : IOCIBackingStore σ} {store' : IOCIBackingStore τ} {files : FilePath → Option Bytes}

/-! ## Two stores with the same files -/

/-- The values of two results are the same. Errors can be different ones. -/
def Alike {α : Type} (x y : Result α) : Prop := x.toOption = y.toOption

theorem Alike.cases {α : Type} {x y : Result α} (h : Alike x y) :
    (∃ error error', x = .error error ∧ y = .error error') ∨ ∃ a, x = .ok a ∧ y = .ok a := by
  unfold Alike at h
  cases x with
  | error error =>
    cases y with
    | error error' => exact .inl ⟨error, error', rfl, rfl⟩
    | ok b => cases h
  | ok a =>
    cases y with
    | error error => cases h
    | ok b =>
      cases h
      exact .inr ⟨a, rfl, rfl⟩

theorem Alike.refl {α : Type} (x : Result α) : Alike x x := rfl

/-- Reading a file from both stores. -/
theorem readFile_alike (h : Serves store files) (h' : Serves store' files) {path : FilePath}
    (hpath : PackagePath path) {maxSize : Nat} (hmax : maxSize < 2 ^ 63) (s : σ) (t : τ) :
    Alike (store.readFile path maxSize s).1 (store'.readFile path maxSize t).1 :=
  (h.readFile path maxSize s hpath hmax).trans (h'.readFile path maxSize t hpath hmax).symm

theorem readBlob_alike (h : Serves store files) (h' : Serves store' files) (sha256 : Bytes)
    {size : Nat} (hsize : size < 2 ^ 63) (s : σ) (t : τ) :
    Alike (readBlob libraries store sha256 size s).1
      (readBlob libraries store' sha256 size t).1 := by
  unfold readBlob
  by_cases hvalid : validateSha256Digest sha256 = true
  · have hread := readFile_alike h h' (.blob hvalid) hsize s t
    rw [if_neg (not_not.mpr hvalid), if_neg (not_not.mpr hvalid)]
    rcases hs : store.readFile (blobPath sha256) size s with ⟨result, s₁⟩
    rcases ht : store'.readFile (blobPath sha256) size t with ⟨result', t₁⟩
    rw [hs, ht] at hread
    rcases hread.cases with ⟨error, error', rfl, rfl⟩ | ⟨content, rfl, rfl⟩
    · exact Alike.refl (.error error)
    · dsimp only
      split
      · exact Alike.refl (.error _)
      · split
        · exact Alike.refl (.error _)
        · exact Alike.refl (.ok content)
  · rw [if_pos hvalid, if_pos hvalid]
    exact Alike.refl (.error _)

/-! ## Opening -/

theorem readManifest_alike (h : Serves store files) (h' : Serves store' files)
    (manifest : AnnotatedDescriptor) (s : σ) (t : τ) :
    Alike (readManifest libraries store manifest s).1
      (readManifest libraries store' manifest t).1 := by
  unfold readManifest
  by_cases htype : manifest.mediaType ≠ ociManifestMediaType
  · rw [if_pos htype, if_pos htype]
    exact Alike.refl (.error _)
  rw [if_neg htype, if_neg htype]
  by_cases hlarge : manifest.size > ociManifestFileMaxSize
  · rw [if_pos hlarge, if_pos hlarge]
    exact Alike.refl (.error _)
  rw [if_neg hlarge, if_neg hlarge]
  have hsize : manifest.size < 2 ^ 63 := (Nat.not_lt.mp hlarge).trans_lt (by decide)
  have hread := @readBlob_alike σ τ Certificate MetaData libraries store store' files h h'
    manifest.digest _ hsize s t
  rcases hs : readBlob libraries store manifest.digest manifest.size s with ⟨result, s₁⟩
  rcases ht : readBlob libraries store' manifest.digest manifest.size t with ⟨result', t₁⟩
  rw [hs, ht] at hread
  rcases hread.cases with ⟨error, error', rfl, rfl⟩ | ⟨blob, rfl, rfl⟩
  · exact Alike.refl (.error error)
  · dsimp only
    cases parseManifest libraries blob with
    | error error => exact Alike.refl (.error error)
    | ok parsed => exact Alike.refl (.ok _)

theorem readIndex_alike (h : Serves store files) (h' : Serves store' files) (s : σ) (t : τ) :
    Alike (readIndex libraries store s).1 (readIndex libraries store' t).1 := by
  unfold readIndex
  have hlayout := readFile_alike h h' .layout
    (by decide : ociLayoutFileMaxSize < 2 ^ 63) s t
  rcases hs : store.readFile (FilePath.ofNames [Bytes.ofString "oci-layout"])
    ociLayoutFileMaxSize s with ⟨result, s₁⟩
  rcases ht : store'.readFile (FilePath.ofNames [Bytes.ofString "oci-layout"])
    ociLayoutFileMaxSize t with ⟨result', t₁⟩
  rw [hs, ht] at hlayout
  rcases hlayout.cases with ⟨error, error', rfl, rfl⟩ | ⟨layout, rfl, rfl⟩
  · exact Alike.refl (.error error)
  dsimp only
  cases checkOciLayoutFile libraries layout with
  | error error => exact Alike.refl (.error error)
  | ok checked =>
    dsimp only
    have hindex := readFile_alike h h' .index
      (by decide : ociIndexFileMaxSize < 2 ^ 63) s₁ t₁
    rcases hs₁ : store.readFile (FilePath.ofNames [Bytes.ofString "index.json"])
      ociIndexFileMaxSize s₁ with ⟨result, s₂⟩
    rcases ht₁ : store'.readFile (FilePath.ofNames [Bytes.ofString "index.json"])
      ociIndexFileMaxSize t₁ with ⟨result', t₂⟩
    rw [hs₁, ht₁] at hindex
    rcases hindex.cases with ⟨error, error', rfl, rfl⟩ | ⟨index, rfl, rfl⟩
    · exact Alike.refl (.error error)
    · exact Alike.refl (processIndexFile libraries index)

namespace OCIPackage

variable {package : OCIPackage Certificate MetaData}

/-- Both loops over the manifests end the same way and keep the same descriptors, also when a
manifest is invalid. -/
theorem processManifests_alike (h : Serves store files) (h' : Serves store' files)
    (manifests : List AnnotatedDescriptor) (package : OCIPackage Certificate MetaData) (s : σ)
    (t : τ) :
    Alike (processManifests libraries store manifests package s).1
        (processManifests libraries store' manifests package t).1 ∧
      (processManifests libraries store manifests package s).2.1 =
        (processManifests libraries store' manifests package t).2.1 := by
  induction manifests generalizing package s t with
  | nil => exact ⟨Alike.refl (.ok ()), rfl⟩
  | cons manifest rest ih =>
    unfold processManifests processManifest
    have hread := @readManifest_alike σ τ Certificate MetaData libraries store store' files h h'
      manifest s t
    rcases hs : readManifest libraries store manifest s with ⟨result, s₁⟩
    rcases ht : readManifest libraries store' manifest t with ⟨result', t₁⟩
    rw [hs, ht] at hread
    rcases hread.cases with ⟨error, error', rfl, rfl⟩ | ⟨read, rfl, rfl⟩
    · exact ⟨Alike.refl (.error error), rfl⟩
    · exact ih (package.addManifest read) s₁ t₁

theorem buildContentsTree_alike (h : Serves store files) (h' : Serves store' files) (s : σ)
    (t : τ) :
    Alike (buildContentsTree libraries store s).1 (buildContentsTree libraries store' t).1 ∧
      (buildContentsTree libraries store s).2.1 = (buildContentsTree libraries store' t).2.1 := by
  unfold buildContentsTree
  have hindex := @readIndex_alike σ τ Certificate MetaData libraries store store' files h h' s t
  rcases hs : readIndex libraries store s with ⟨result, s₁⟩
  rcases ht : readIndex libraries store' t with ⟨result', t₁⟩
  rw [hs, ht] at hindex
  rcases hindex.cases with ⟨error, error', rfl, rfl⟩ | ⟨manifests, rfl, rfl⟩
  · exact ⟨Alike.refl (.error error), rfl⟩
  dsimp only
  obtain ⟨hresult, hpackage⟩ := @processManifests_alike σ τ Certificate MetaData libraries store
    store' files h h' manifests {} s₁ t₁
  rcases hs₁ : processManifests libraries store manifests {} s₁ with ⟨result, package, s₂⟩
  rcases ht₁ : processManifests libraries store' manifests {} t₁ with ⟨result', package', t₂⟩
  rw [hs₁, ht₁] at hresult hpackage
  obtain rfl : package = package' := hpackage
  rcases hresult.cases with ⟨error, error', rfl, rfl⟩ | ⟨processed, rfl, rfl⟩
  · exact ⟨Alike.refl (.error error), rfl⟩
  dsimp only
  cases package.packageConfigDescriptor with
  | none => exact ⟨Alike.refl (.error _), rfl⟩
  | some config =>
    dsimp only
    split
    · exact ⟨Alike.refl (.error _), rfl⟩
    · split
      · exact ⟨Alike.refl (.error _), rfl⟩
      · exact ⟨Alike.refl (.ok ()), rfl⟩

theorem new_alike (h : Serves store files) (h' : Serves store' files) (s : σ) (t : τ) :
    (OCIPackage.new libraries store s).1.isSome = (OCIPackage.new libraries store' t).1.isSome ∧
      (OCIPackage.new libraries store s).2.1 = (OCIPackage.new libraries store' t).2.1 := by
  unfold OCIPackage.new
  obtain ⟨hresult, hpackage⟩ := @buildContentsTree_alike σ τ Certificate MetaData libraries store
    store' files h h' s t
  rcases hs : buildContentsTree libraries store s with ⟨result, package, s₁⟩
  rcases ht : buildContentsTree libraries store' t with ⟨result', package', t₁⟩
  rw [hs, ht] at hresult hpackage
  obtain rfl : package = package' := hpackage
  rcases hresult.cases with ⟨error, error', rfl, rfl⟩ | ⟨built, rfl, rfl⟩
  · exact ⟨rfl, rfl⟩
  · exact ⟨rfl, rfl⟩

/-- Two calls: both have the same fault, or results with the same values. -/
def AlikeCalls {α : Type} (x : Except Fault (Result α × σ)) (y : Except Fault (Result α × τ)) :
    Prop :=
  (x.map fun out => out.1.toOption) = y.map fun out => out.1.toOption

theorem AlikeCalls.cases {α : Type} {x : Except Fault (Result α × σ)}
    {y : Except Fault (Result α × τ)} (h : AlikeCalls x y) :
    (∃ fault, x = .error fault ∧ y = .error fault) ∨
    (∃ error error' s t, x = .ok (.error error, s) ∧ y = .ok (.error error', t)) ∨
    ∃ a s t, x = .ok (.ok a, s) ∧ y = .ok (.ok a, t) := by
  unfold AlikeCalls at h
  rcases x with fault | ⟨result, s⟩
  · rcases y with fault' | ⟨result', t⟩
    · cases h
      exact .inl ⟨fault, rfl, rfl⟩
    · cases h
  · rcases y with fault' | ⟨result', t⟩
    · cases h
    · have halike : Alike result result' := Except.ok.inj h
      rcases halike.cases with ⟨error, error', rfl, rfl⟩ | ⟨a, rfl, rfl⟩
      · exact .inr (.inl ⟨error, error', s, t, rfl, rfl⟩)
      · exact .inr (.inr ⟨a, s, t, rfl, rfl⟩)

theorem package_readBlob_alike (h : Serves store files) (h' : Serves store' files)
    (sha256 : Bytes) {size : Nat} (hsize : size < 2 ^ 63) (s : σ) (t : τ) :
    AlikeCalls (package.readBlob libraries store sha256 size s)
      (package.readBlob libraries store' sha256 size t) := by
  unfold OCIPackage.readBlob
  split
  · exact congrArg Except.ok (readBlob_alike h h' sha256 hsize s t)
  · rfl

theorem readAndVerifySignature_alike (h : Serves store files) (h' : Serves store' files)
    (bundle : VerificationBundle Certificate) (checkExpiry : Bool) (s : σ) (t : τ) :
    AlikeCalls (package.readAndVerifySignature libraries store bundle checkExpiry s)
      (package.readAndVerifySignature libraries store' bundle checkExpiry t) := by
  unfold readAndVerifySignature
  rcases hdescriptor : package.signatureDescriptor with _ | descriptor
  · rfl
  dsimp only
  cases descriptor.annotations.foldlM (signatureField libraries) {} with
  | error error => rfl
  | ok fields =>
    dsimp only
    split
    · rfl
    cases fields.certificate with
    | none => rfl
    | some certificate =>
      dsimp only
      split
      · rfl
      split
      · rfl
      next hlarge =>
      have hsize : descriptor.size < 2 ^ 63 := (Nat.not_lt.mp hlarge).trans_lt (by decide)
      rcases (@package_readBlob_alike σ τ Certificate MetaData libraries store store' files
        { package with
          signatureDescriptor := some descriptor
          signingCerts := certificate :: fields.certificateChain } h h'
        descriptor.digest _ hsize s t).cases with
        ⟨fault, hs, ht⟩ | ⟨error, error', s₁, t₁, hs, ht⟩ | ⟨blob, s₁, t₁, hs, ht⟩
      · rw [hs, ht]
        rfl
      · rw [hs, ht]
        rfl
      · rw [hs, ht]
        dsimp only
        split
        · rfl
        · split
          · rfl
          · rfl

/-- A package is opened from both stores or from none, and then it is the same one. -/
theorem openPackage_alike (h : Serves store files) (h' : Serves store' files)
    (bundle : Option (VerificationBundle Certificate)) (checkExpiry : Bool) (s : σ) (t : τ) :
    AlikeCalls (openPackage libraries store bundle checkExpiry s)
      (openPackage libraries store' bundle checkExpiry t) := by
  unfold openPackage
  obtain ⟨-, hpackage⟩ := @new_alike σ τ Certificate MetaData libraries store store' files h h' s t
  rcases hs : OCIPackage.new libraries store s with ⟨error, package, s₁⟩
  rcases ht : OCIPackage.new libraries store' t with ⟨error', package', t₁⟩
  rw [hs, ht] at hpackage
  obtain rfl : package = package' := hpackage
  dsimp only
  split
  · rfl
  · cases bundle with
    | none => rfl
    | some bundle => exact readAndVerifySignature_alike h h' bundle checkExpiry s₁ t₁

/-! ## Reading -/

/-- With a backing store the config is not too large. -/
def Bounded (package : OCIPackage Certificate MetaData) : Prop :=
  package.hasBackingStore = true →
    ∀ r ∈ package.packageConfigDescriptor, r.descriptor.size ≤ packageConfigFileMaxSize

theorem new_bounded {error : Option Error} {s s' : σ}
    (h : OCIPackage.new libraries store s = (error, package, s')) : package.Bounded := by
  intro hstore
  cases error with
  | some error =>
    rw [new_error h] at hstore
    cases hstore
  | none =>
    unfold OCIPackage.new at h
    split at h
    · cases h
    next hbuild =>
    cases h
    unfold buildContentsTree at hbuild
    split at hbuild
    · cases hbuild
    split at hbuild
    · cases hbuild
    split at hbuild
    · cases hbuild
    next config hconfig =>
    split at hbuild
    · cases hbuild
    split at hbuild
    · cases hbuild
    next hsize =>
    cases hbuild
    intro r hr
    rw [hconfig] at hr
    cases hr
    exact Nat.not_lt.mp hsize

theorem openPackage_bounded {bundle : Option (VerificationBundle Certificate)} {checkExpiry : Bool}
    {s s' : σ} (h : openPackage libraries store bundle checkExpiry s = .ok (.ok package, s')) :
    package.Bounded := by
  unfold openPackage at h
  rcases hnew : OCIPackage.new libraries store s with ⟨error, made, s₁⟩
  rw [hnew] at h
  dsimp only at h
  have hbounded := new_bounded hnew
  split at h
  · cases h
  cases bundle with
  | none =>
    cases h
    exact hbounded
  | some bundle =>
    obtain ⟨-, payload, certs, rfl, -, -⟩ := readAndVerifySignature_ok h
    exact hbounded

/-- What a caller asks a package for. -/
inductive PackageCall
  | metaData
  | auxMetaDataFile (mediaType : String) (index : Nat)
  | verify
  | createReader
  deriving DecidableEq

/-- What a package gives. Of an image there are its descriptor and what is read of it. -/
inductive Served (MetaData : Type)
  | metaData (metaData : MetaData)
  | auxMetaData (aux : AuxMetaData)
  | verified
  | erofs (contents : Bytes) (hashesOffset : Nat) (rootHash : Bytes)
  | archive (descriptor : OCIDescriptor) (contents : Bytes)
  deriving DecidableEq

/-- What a reader serves. -/
def ImageLayer.served : ImageLayer → Served MetaData
  | .erofs file hashesOffset rootHash => .erofs file.contents hashesOffset rootHash
  | .archive descriptor reader => .archive descriptor reader.contents

section
variable (libraries) (store)

/-- One call, with the package after it. -/
def call (package : OCIPackage Certificate MetaData) :
    PackageCall → σ → Except Fault (Result (Served MetaData) × OCIPackage Certificate MetaData × σ)
  | .metaData, s =>
    (package.metaData libraries store s).map fun out => (out.1.map .metaData, out.2)
  | .auxMetaDataFile mediaType index, s =>
    (package.auxMetaDataFile libraries store mediaType index s).map fun out =>
      (out.1.map .auxMetaData, package, out.2)
  | .verify, s =>
    (package.verify libraries store s).map fun out =>
      (out.1.map fun _ => .verified, package, out.2)
  | .createReader, s =>
    (package.createReader store s).map fun out => (out.1.map ImageLayer.served, package, out.2)

/-- What calls give, one after the other, nothing for an error. -/
def run (package : OCIPackage Certificate MetaData) :
    List PackageCall → σ → Except Fault (List (Option (Served MetaData)))
  | [], _ => .ok []
  | made :: rest, s =>
    match package.call libraries store made s with
    | .error fault => .error fault
    | .ok (result, package, s) => (package.run rest s).map (result.toOption :: ·)

end

/-- Calls that leave the same package and give the same, whatever the states are. -/
def AlikeSteps {α : Type} (x : Except Fault (Result α × OCIPackage Certificate MetaData × σ))
    (y : Except Fault (Result α × OCIPackage Certificate MetaData × τ)) : Prop :=
  (x.map fun out => (out.1.toOption, out.2.1)) = y.map fun out => (out.1.toOption, out.2.1)

/-- A call that leaves the package as it is. -/
theorem AlikeCalls.steps {α β : Type} {x : Except Fault (Result α × σ)}
    {y : Except Fault (Result α × τ)} (h : AlikeCalls x y) (f : α → β)
    (package : OCIPackage Certificate MetaData) :
    AlikeSteps (x.map fun out => (out.1.map f, package, out.2))
      (y.map fun out => (out.1.map f, package, out.2)) := by
  rcases h.cases with ⟨fault, rfl, rfl⟩ | ⟨error, error', s, t, rfl, rfl⟩ | ⟨a, s, t, rfl, rfl⟩
  · rfl
  · rfl
  · rfl

theorem metaData_alike (h : Serves store files) (h' : Serves store' files)
    (hbounded : package.Bounded) (s : σ) (t : τ) :
    AlikeSteps (package.metaData libraries store s) (package.metaData libraries store' t) := by
  unfold OCIPackage.metaData
  cases hcached : package.cachedMetaData with
  | some metaData => rfl
  | none =>
    cases hconfig : package.packageConfigDescriptor with
    | none => rfl
    | some config =>
      dsimp only
      cases hstore : package.hasBackingStore with
      | false =>
        unfold OCIPackage.readBlob
        rw [hstore]
        by_cases hvalid : validateSha256Digest config.descriptor.digest = true
        · simp [hvalid, AlikeSteps]
          rfl
        · simp [hvalid, AlikeSteps, Oci.readBlob]
          rfl
      | true =>
        have hsize : config.descriptor.size < 2 ^ 63 :=
          (hbounded hstore config hconfig).trans_lt (by decide)
        rcases (@package_readBlob_alike σ τ Certificate MetaData libraries store store' files
          package h h' config.descriptor.digest _ hsize s t).cases with
          ⟨fault, hs, ht⟩ | ⟨error, error', s₁, t₁, hs, ht⟩ | ⟨blob, s₁, t₁, hs, ht⟩
        · rw [hs, ht]
          rfl
        · rw [hs, ht]
          rfl
        · rw [hs, ht]
          dsimp only
          cases libraries.fromConfigJson blob with
          | error error => rfl
          | ok metaData => rfl

theorem auxMetaDataFile_alike (h : Serves store files) (h' : Serves store' files)
    (mediaType : String) (index : Nat) (s : σ) (t : τ) :
    AlikeCalls (package.auxMetaDataFile libraries store mediaType index s)
      (package.auxMetaDataFile libraries store' mediaType index t) := by
  unfold OCIPackage.auxMetaDataFile
  split
  · rfl
  cases package.auxDescriptor mediaType index with
  | none => rfl
  | some layer =>
    dsimp only
    split
    · rfl
    next hlarge =>
    have hsize : layer.descriptor.size < 2 ^ 63 := (Nat.not_lt.mp hlarge).trans_lt (by decide)
    rcases (@package_readBlob_alike σ τ Certificate MetaData libraries store store' files package
      h h' layer.descriptor.digest _ hsize s t).cases with
      ⟨fault, hs, ht⟩ | ⟨error, error', s₁, t₁, hs, ht⟩ | ⟨blob, s₁, t₁, hs, ht⟩
    · rw [hs, ht]
      rfl
    · rw [hs, ht]
      rfl
    · rw [hs, ht]
      rfl

/-! ## Digests -/

/-- A reader that delivers is read to its end. -/
theorem digestLoop_delivers {reader : IOCIFileReader} (hdelivers : reader.Delivers) (fuel : Nat)
    {reads : Nat} {digested : Bytes} (hstart : digested <+: reader.contents)
    (hfuel : reader.contents.length < digested.length + fuel) :
    digestLoop reader reader.contents.length fuel reads digested = .ok reader.contents := by
  induction fuel generalizing reads digested with
  | zero => exact absurd hfuel (Nat.not_lt.mpr hstart.length_le)
  | succ fuel ih =>
    obtain ⟨n, hpos, houtcome⟩ := hdelivers reads 4096 (by decide)
    obtain ⟨rest, hrest⟩ := hstart
    have hlength : (rest.take (min n 4096)).length = min (min n 4096) rest.length :=
      List.length_take
    rw [digestLoop, houtcome]
    dsimp only
    rw [← hrest, List.drop_left, hrest]
    split
    · next hend =>
      have hnil : rest = [] := by
        rw [hend, List.length_nil] at hlength
        exact List.eq_nil_of_length_eq_zero (by omega)
      rw [← hrest, hnil, List.append_nil]
    next hmore =>
    have hnext : digested ++ rest.take (min n 4096) <+: reader.contents := by
      rw [← hrest, List.prefix_append_right_inj]
      exact List.take_prefix _ _
    have hle := hnext.length_le
    rw [List.length_append] at hle
    rw [if_neg (Nat.not_lt.mpr hle)]
    refine ih hnext ?_
    have hpositive := List.length_pos_iff.mpr hmore
    rw [List.length_append]
    omega

theorem checkReader_delivers {descriptor : AnnotatedDescriptor} {reader : IOCIFileReader}
    (hdelivers : reader.Delivers) :
    checkReader libraries descriptor reader =
      if libraries.sha256 reader.contents ≠ hexStringToBytes descriptor.digest then
        .error (.ralf .packageContentsInvalid "Blob digest mismatch")
      else .ok () := by
  unfold checkReader
  dsimp only
  rw [digestLoop_delivers hdelivers _ List.nil_prefix (by simp)]
  dsimp only
  rw [if_neg (not_not.mpr rfl)]

theorem getFile_alike (h : Serves store files) (h' : Serves store' files) {path : FilePath}
    (hpath : PackagePath path) (s : σ) (t : τ) :
    (∃ error error' s₁ t₁, store.getFile path s = (.error error, s₁) ∧
      store'.getFile path t = (.error error', t₁)) ∨
    ∃ reader reader' s₁ t₁, store.getFile path s = (.ok reader, s₁) ∧
      store'.getFile path t = (.ok reader', t₁) ∧ reader'.contents = reader.contents ∧
        reader.Delivers ∧ reader'.Delivers := by
  have hcontents := (h'.getFile path t hpath).trans (h.getFile path s hpath).symm
  have hdelivers := fun reader => h.delivers path s reader hpath
  have hdelivers' := fun reader => h'.delivers path t reader hpath
  rcases hs : store.getFile path s with ⟨error | reader, s₁⟩
  · rcases ht : store'.getFile path t with ⟨error' | reader', t₁⟩
    · exact .inl ⟨error, error', s₁, t₁, rfl, rfl⟩
    · rw [hs, ht] at hcontents
      cases hcontents
  · rcases ht : store'.getFile path t with ⟨error' | reader', t₁⟩
    · rw [hs, ht] at hcontents
      cases hcontents
    · rw [hs, ht] at hcontents
      exact .inr ⟨reader, reader', s₁, t₁, rfl, rfl, Option.some.inj hcontents,
        hdelivers reader (by rw [hs]), hdelivers' reader' (by rw [ht])⟩

theorem calcAndCheckBlobDigest_alike (h : Serves store files) (h' : Serves store' files)
    (descriptor : AnnotatedDescriptor) (s : σ) (t : τ) :
    AlikeCalls (package.calcAndCheckBlobDigest libraries store descriptor s)
      (package.calcAndCheckBlobDigest libraries store' descriptor t) := by
  unfold calcAndCheckBlobDigest getBlobReader
  by_cases hvalid : validateSha256Digest descriptor.digest = true
  · rw [if_neg (not_not.mpr hvalid), if_neg (not_not.mpr hvalid)]
    by_cases hstore : package.hasBackingStore = true
    · rw [if_neg (not_not.mpr hstore), if_neg (not_not.mpr hstore)]
      rcases getFile_alike h h' (.blob hvalid) s t with
        ⟨error, error', s₁, t₁, hs, ht⟩ |
        ⟨reader, reader', s₁, t₁, hs, ht, hcontents, hdelivers, hdelivers'⟩
      · rw [hs, ht]
        rfl
      · rw [hs, ht]
        dsimp only
        rw [checkReader_delivers hdelivers, checkReader_delivers hdelivers', hcontents]
        rfl
    · rw [if_pos hstore, if_pos hstore]
      rfl
  · rw [if_pos hvalid, if_pos hvalid]
    rfl

theorem verifyLayers_alike (h : Serves store files) (h' : Serves store' files)
    (layers : List Retained) (s : σ) (t : τ) :
    AlikeCalls (package.verifyLayers libraries store layers s)
      (package.verifyLayers libraries store' layers t) := by
  induction layers generalizing s t with
  | nil => rfl
  | cons layer rest ih =>
    unfold verifyLayers
    rcases (@calcAndCheckBlobDigest_alike σ τ Certificate MetaData libraries store store' files
      package h h' layer.descriptor s t).cases with
      ⟨fault, hs, ht⟩ | ⟨error, error', s₁, t₁, hs, ht⟩ | ⟨checked, s₁, t₁, hs, ht⟩
    · rw [hs, ht]
      rfl
    · rw [hs, ht]
      rfl
    · rw [hs, ht]
      exact ih s₁ t₁

theorem verify_alike (h : Serves store files) (h' : Serves store' files) (s : σ) (t : τ) :
    AlikeCalls (package.verify libraries store s) (package.verify libraries store' t) := by
  unfold OCIPackage.verify
  split
  · rfl
  cases package.signatureDescriptor with
  | none => rfl
  | some signature =>
    cases package.packageConfigDescriptor with
    | none => rfl
    | some config =>
      cases package.packageImageDescriptor with
      | none => rfl
      | some image =>
        dsimp only
        rcases (@calcAndCheckBlobDigest_alike σ τ Certificate MetaData libraries store store' files
          package h h' config.descriptor s t).cases with
          ⟨fault, hs, ht⟩ | ⟨error, error', s₁, t₁, hs, ht⟩ | ⟨checked, s₁, t₁, hs, ht⟩
        · rw [hs, ht]
          rfl
        · rw [hs, ht]
          rfl
        · rw [hs, ht]
          dsimp only
          rcases (@calcAndCheckBlobDigest_alike σ τ Certificate MetaData libraries store store'
            files package h h' image.descriptor s₁ t₁).cases with
            ⟨fault, hs₁, ht₁⟩ | ⟨error, error', s₂, t₂, hs₁, ht₁⟩ | ⟨checked, s₂, t₂, hs₁, ht₁⟩
          · rw [hs₁, ht₁]
            rfl
          · rw [hs₁, ht₁]
            rfl
          · rw [hs₁, ht₁]
            exact verifyLayers_alike h h' _ s₂ t₂

/-! ## Readers -/

/-- The store gives the file of the image as a file that can be mapped. -/
def Maps (package : OCIPackage Certificate MetaData) (store : IOCIBackingStore σ)
    (files : FilePath → Option Bytes) : Prop :=
  ∀ image ∈ package.packageImageDescriptor, ∀ s,
    (store.getMappableFile (blobPath image.descriptor.digest) s).1.toOption.map
      IOCIMappableFile.contents = files (blobPath image.descriptor.digest)

/-- Whether the image of a package has to be mapped. -/
def isErofs (package : OCIPackage Certificate MetaData) : Bool :=
  package.packageImageDescriptor.any fun image =>
    image.descriptor.mediaType = packageImageMediaTypeErofs

theorem createReader_alike (h : Serves store files) (h' : Serves store' files)
    (hmaps : package.isErofs = true → package.Maps store files ∧ package.Maps store' files)
    (s : σ) (t : τ) :
    AlikeSteps
      ((package.createReader store s).map fun out =>
        ((out.1.map ImageLayer.served : Result (Served MetaData)), package, out.2))
      ((package.createReader store' t).map fun out =>
        ((out.1.map ImageLayer.served : Result (Served MetaData)), package, out.2)) := by
  unfold OCIPackage.createReader
  cases himage : package.packageImageDescriptor with
  | none => rfl
  | some image =>
    dsimp only
    by_cases herofs : image.descriptor.mediaType = packageImageMediaTypeErofs
    · rw [if_pos herofs, if_pos herofs]
      cases getDmVerityAnnotations image.descriptor with
      | error error => rfl
      | ok annotations =>
        dsimp only
        by_cases hstore : package.hasBackingStore = true
        · rw [if_neg (not_not.mpr hstore), if_neg (not_not.mpr hstore)]
          have hmapped : package.isErofs = true := by
            unfold isErofs
            rw [himage]
            exact decide_eq_true herofs
          obtain ⟨hs, ht⟩ := hmaps hmapped
          have hcontents := (ht image himage t).trans (hs image himage s).symm
          rcases hs₁ : store.getMappableFile (blobPath image.descriptor.digest) s with
            ⟨error | file, s₁⟩
          · rcases ht₁ : store'.getMappableFile (blobPath image.descriptor.digest) t with
              ⟨error' | file', t₁⟩
            · rfl
            · rw [hs₁, ht₁] at hcontents
              cases hcontents
          · rcases ht₁ : store'.getMappableFile (blobPath image.descriptor.digest) t with
              ⟨error' | file', t₁⟩
            · rw [hs₁, ht₁] at hcontents
              cases hcontents
            · rw [hs₁, ht₁] at hcontents
              have heq : file'.contents = file.contents := Option.some.inj hcontents
              show Except.ok (some (Served.erofs file.contents _ _), package) =
                Except.ok (some (Served.erofs file'.contents _ _), package)
              rw [heq]
        · rw [if_pos hstore, if_pos hstore]
          rfl
    rw [if_neg herofs, if_neg herofs]
    by_cases hlayer : isImageLayer image.descriptor = true
    · rw [if_pos hlayer, if_pos hlayer]
      by_cases hvalid : validateSha256Digest image.descriptor.digest = true
      · rw [if_neg (not_not.mpr hvalid), if_neg (not_not.mpr hvalid)]
        by_cases hstore : package.hasBackingStore = true
        · rw [if_neg (not_not.mpr hstore), if_neg (not_not.mpr hstore)]
          rcases getFile_alike h h' (.blob hvalid) s t with
            ⟨error, error', s₁, t₁, hs, ht⟩ | ⟨reader, reader', s₁, t₁, hs, ht, hcontents, -, -⟩
          · rw [hs, ht]
            rfl
          · rw [hs, ht]
            dsimp only
            rw [hcontents]
            split
            · rfl
            · show Except.ok (some (Served.archive _ reader.contents), package) =
                Except.ok (some (Served.archive _ reader'.contents), package)
              rw [hcontents]
        · rw [if_pos hstore, if_pos hstore]
          rfl
      · rw [if_pos hvalid, if_pos hvalid]
        rfl
    · rw [if_neg hlayer, if_neg hlayer]
      rfl

/-! ## Runs -/

theorem AlikeSteps.cases {α : Type}
    {x : Except Fault (Result α × OCIPackage Certificate MetaData × σ)}
    {y : Except Fault (Result α × OCIPackage Certificate MetaData × τ)} (h : AlikeSteps x y) :
    (∃ fault, x = .error fault ∧ y = .error fault) ∨
    ∃ result result' package s t, x = .ok (result, package, s) ∧ y = .ok (result', package, t) ∧
      result.toOption = result'.toOption := by
  unfold AlikeSteps at h
  rcases x with fault | ⟨result, package, s⟩
  · rcases y with fault' | ⟨result', package', t⟩
    · cases h
      exact .inl ⟨fault, rfl, rfl⟩
    · cases h
  · rcases y with fault' | ⟨result', package', t⟩
    · cases h
    · obtain ⟨hresult, hpackage⟩ := Prod.mk.inj (Except.ok.inj h)
      obtain rfl : package = package' := hpackage
      exact .inr ⟨result, result', package, s, t, rfl, rfl, hresult⟩

theorem call_alike (h : Serves store files) (h' : Serves store' files)
    (hbounded : package.Bounded) (made : PackageCall)
    (hmaps : package.isErofs = true → made = .createReader →
      package.Maps store files ∧ package.Maps store' files)
    (s : σ) (t : τ) :
    AlikeSteps (package.call libraries store made s) (package.call libraries store' made t) := by
  cases made with
  | metaData =>
    rw [OCIPackage.call, OCIPackage.call]
    rcases (@metaData_alike σ τ Certificate MetaData libraries store store' files package h h'
      hbounded s t).cases with
      ⟨fault, hs, ht⟩ | ⟨result, result', package', s₁, t₁, hs, ht, hresult⟩
    · rw [hs, ht]
      rfl
    · rw [hs, ht]
      cases result with
      | error error =>
        cases result' with
        | error error' => rfl
        | ok metaData => cases hresult
      | ok metaData =>
        cases result' with
        | error error => cases hresult
        | ok metaData' =>
          cases hresult
          rfl
  | auxMetaDataFile mediaType index =>
    exact (auxMetaDataFile_alike h h' mediaType index s t).steps _ package
  | verify => exact (verify_alike h h' s t).steps _ package
  | createReader => exact createReader_alike h h' (fun herofs => hmaps herofs rfl) s t

/-- A call that gives the package back leaves it. -/
theorem map_package {α : Type} {x : Except Fault (Result α × σ)} {f : α → Served MetaData}
    {result : Result (Served MetaData)} {package' : OCIPackage Certificate MetaData} {s' : σ}
    (h : (x.map fun out => (out.1.map f, package, out.2)) = .ok (result, package', s')) :
    package' = package := by
  cases x with
  | error fault => cases h
  | ok out =>
    cases h
    rfl

/-- A call changes only what is cached. -/
theorem call_package {made : PackageCall} {result : Result (Served MetaData)}
    {package' : OCIPackage Certificate MetaData} {s s' : σ}
    (h : package.call libraries store made s = .ok (result, package', s')) :
    ∃ cached, package' = { package with cachedMetaData := cached } := by
  cases made with
  | metaData =>
    rw [OCIPackage.call] at h
    rcases hcall : package.metaData libraries store s with fault | ⟨result₁, package₁, s₁⟩
    · rw [hcall] at h
      cases h
    · rw [hcall] at h
      cases h
      exact (metaData_ok hcall).1
  | auxMetaDataFile mediaType index => exact ⟨_, map_package h⟩
  | verify => exact ⟨_, map_package h⟩
  | createReader => exact ⟨_, map_package h⟩

/-- All sequences of calls give the same from both stores. -/
theorem run_alike (h : Serves store files) (h' : Serves store' files) (calls : List PackageCall)
    (package : OCIPackage Certificate MetaData) (hbounded : package.Bounded)
    (hmaps : package.isErofs = true → .createReader ∈ calls →
      package.Maps store files ∧ package.Maps store' files)
    (s : σ) (t : τ) :
    package.run libraries store calls s = package.run libraries store' calls t := by
  induction calls generalizing package s t with
  | nil => rfl
  | cons made rest ih =>
    unfold OCIPackage.run
    have hstep := @call_alike σ τ Certificate MetaData libraries store store' files package h h'
      hbounded made (fun herofs hmade => hmaps herofs (hmade ▸ List.mem_cons_self)) s t
    rcases hstep.cases with
      ⟨fault, hs, ht⟩ | ⟨result, result', package', s₁, t₁, hs, ht, hresult⟩
    · rw [hs, ht]
    · rw [hs, ht]
      obtain ⟨cached, rfl⟩ := call_package hs
      dsimp only
      rw [hresult, ih { package with cachedMetaData := cached } hbounded
        (fun herofs hmem => hmaps herofs (List.mem_cons_of_mem _ hmem)) s₁ t₁]

/-- A package is opened from both stores or from none. It is the same one, and then all sequences of
calls give the same, whatever states the stores are in. An image that has to be mapped is only read
if both stores map its file. -/
def SamePackage (libraries : Libraries Certificate MetaData) (store : IOCIBackingStore σ)
    (store' : IOCIBackingStore τ) (files : FilePath → Option Bytes)
    (bundle : Option (VerificationBundle Certificate)) (checkExpiry : Bool) : Prop :=
  ∀ s t, AlikeCalls (openPackage libraries store bundle checkExpiry s)
      (openPackage libraries store' bundle checkExpiry t) ∧
    ∀ package s', openPackage libraries store bundle checkExpiry s = .ok (.ok package, s') →
      ∀ calls, (package.isErofs = true → .createReader ∈ calls →
          package.Maps store files ∧ package.Maps store' files) →
        ∀ s t, package.run libraries store calls s = package.run libraries store' calls t

theorem samePackage (h : Serves store files) (h' : Serves store' files)
    (bundle : Option (VerificationBundle Certificate)) (checkExpiry : Bool) :
    SamePackage libraries store store' files bundle checkExpiry :=
  fun s t => ⟨openPackage_alike h h' bundle checkExpiry s t,
    fun package _ hopen calls hmaps =>
      run_alike h h' calls package (openPackage_bounded hopen) hmaps⟩

/-- The same files in an archive, with the cache or without, and in a directory are the same
package. -/
theorem same_package {archive : LibarchiveFileReader} {directory : OCIDirBackingStore}
    (harchive : Archives files archive) (hdirectory : directory.Holds files)
    (mappable : FilePath → Result IOCIMappableFile)
    (bundle : Option (VerificationBundle Certificate)) (checkExpiry enableCache : Bool) :
    SamePackage libraries ((OCIArchiveBackingStore.new archive enableCache).toStore mappable)
        directory.toStore files bundle checkExpiry ∧
      SamePackage libraries ((OCIArchiveBackingStore.new archive true).toStore mappable)
        ((OCIArchiveBackingStore.new archive false).toStore mappable) files bundle checkExpiry :=
  ⟨samePackage (archive_serves harchive mappable) (OCIDirBackingStore.dir_serves hdirectory) bundle
      checkExpiry,
    samePackage (archive_serves harchive mappable) (archive_serves harchive mappable) bundle
      checkExpiry⟩

end OCIPackage

end

/-! ### A package in an archive and in a directory -/

open OCIPackage

/-- An archive with some files. -/
def archiveHolding (files : List (FilePath × Bytes)) : LibarchiveFileReader where
  entries := files.map fun file =>
    { pathname := some file.1.toBytes
      type := .regular
      size := file.2.length
      chunks := [file.2].filter (· ≠ [])
      dataEnd := .eof
      chunks_ne_nil := fun _ hmem => of_decide_eq_true (List.mem_filter.mp hmem).2 }
  cloneable := true

/-- A directory `pkg` with some files. The reads give 64, 128 or 192 bytes. The other ways to write a
path lead to the same file. -/
def directoryOf (files : List (FilePath × Bytes)) : OCIDirBackingStore where
  baseDir := FilePath.ofNames [Bytes.ofString "pkg"]
  node path :=
    (files.find? fun file => path.lexicallyNormal =
      ⟨false, Bytes.ofString "pkg" :: file.1.names, file.1.trailing⟩).map fun file =>
        ⟨true, file.2, none, none⟩
  amounts n := .ok (64 * (n % 3 + 1))

/-- Every file has a path of its own, which an archive and a directory can have. -/
def ProperPaths (files : List (FilePath × Bytes)) : Prop :=
  ∀ file ∈ files, files.lookup file.1 = some file.2 ∧ FilePath.parse file.1.toBytes = file.1 ∧
    file.1.rooted = false ∧ file.1.names ≠ []

instance (files : List (FilePath × Bytes)) : Decidable (ProperPaths files) :=
  inferInstanceAs (Decidable (∀ file ∈ files, _))

theorem mem_of_lookup {files : List (FilePath × Bytes)} {path : FilePath} {contents : Bytes}
    (h : files.lookup path = some contents) : (path, contents) ∈ files := by
  obtain ⟨before, after, rfl, -⟩ := List.lookup_eq_some_iff.mp h
  exact List.mem_append_right _ List.mem_cons_self

theorem archiveHolding_archives {files : List (FilePath × Bytes)} (h : ProperPaths files) :
    Archives (fun path => files.lookup path) (archiveHolding files) where
  cloneable := rfl
  whole entry hmem path _ hfile := by
    obtain ⟨file, hfile', rfl⟩ := List.mem_map.mp hmem
    obtain ⟨hlookup, hparse, -⟩ := h file hfile'
    have hdata : ([file.2].filter (· ≠ [])).flatten = file.2 := by
      by_cases hnil : file.2 = []
      · simp [hnil]
      · simp [hnil]
    have hpath : path = FilePath.parse file.1.toBytes := of_decide_eq_true hfile
    rw [hparse] at hpath
    subst hpath
    refine ⟨hlookup.trans (congrArg some hdata.symm), ?_, rfl⟩
    show (file.2.length : Int) = (([file.2].filter (· ≠ [])).flatten.length : Int)
    rw [hdata]
  complete path contents _ hlookup := by
    have hmem := mem_of_lookup hlookup
    exact ⟨_, List.mem_map.mpr ⟨_, hmem, rfl⟩, decide_eq_true (h _ hmem).2.1.symm⟩

/-- The path of a file in the directory tells the file. -/
theorem fullPath_eq_iff {files : List (FilePath × Bytes)} {file : FilePath × Bytes}
    (hrooted : file.1.rooted = false) (hnames : file.1.names ≠ []) (path : FilePath) :
    (directoryOf files).fullPath path =
        ⟨false, Bytes.ofString "pkg" :: file.1.names, file.1.trailing⟩ ↔ path = file.1 := by
  obtain ⟨rooted, names, trailing⟩ := path
  obtain ⟨⟨rooted', names', trailing'⟩, contents⟩ := file
  obtain rfl : rooted' = false := hrooted
  cases rooted with
  | true => simp [OCIDirBackingStore.fullPath]
  | false =>
    by_cases hnil : names = []
    · subst hnil
      have hne : [] ≠ names' := fun heq => hnames heq.symm
      simp [OCIDirBackingStore.fullPath, directoryOf, FilePath.ofNames, hne]
    · simp [OCIDirBackingStore.fullPath, directoryOf, FilePath.ofNames, hnil]

/-- The full path of a file of a package is in normal form. -/
theorem fullPath_normal {files : List (FilePath × Bytes)} {path : FilePath}
    (hpath : PackagePath path) :
    ((directoryOf files).fullPath path).lexicallyNormal = (directoryOf files).fullPath path := by
  obtain ⟨names, rfl, hne, hnames⟩ := hpath.names
  have hfull : (directoryOf files).fullPath (FilePath.ofNames names) =
      FilePath.ofNames (Bytes.ofString "pkg" :: names) := by
    simp [OCIDirBackingStore.fullPath, directoryOf, FilePath.ofNames, hne]
  rw [hfull]
  exact FilePath.lexicallyNormal_ofNames (List.forall_mem_cons.mpr ⟨by decide, hnames⟩)

theorem directoryOf_holds {files : List (FilePath × Bytes)} (h : ProperPaths files) :
    (directoryOf files).Holds fun path => files.lookup path where
  files path hpath := by
    have hfind : (files.find? fun file => (directoryOf files).fullPath path =
        ⟨false, Bytes.ofString "pkg" :: file.1.names, file.1.trailing⟩).map Prod.snd =
        files.lookup path := by
      cases hlookup : files.lookup path with
      | none =>
        rw [Option.map_eq_none_iff, List.find?_eq_none]
        intro file hmem heq
        obtain ⟨hfound, -, hrooted, hnames⟩ := h file hmem
        rw [(fullPath_eq_iff hrooted hnames path).mp (of_decide_eq_true heq), hfound] at hlookup
        cases hlookup
      | some contents =>
        have hmem := mem_of_lookup hlookup
        obtain ⟨-, -, hrooted, hnames⟩ := h _ hmem
        have hsome : (files.find? fun file => (directoryOf files).fullPath path =
            ⟨false, Bytes.ofString "pkg" :: file.1.names, file.1.trailing⟩).isSome = true :=
          List.find?_isSome.mpr ⟨_, hmem,
            decide_eq_true ((fullPath_eq_iff hrooted hnames path).mpr rfl)⟩
        obtain ⟨found, hfound⟩ := Option.isSome_iff_exists.mp hsome
        obtain ⟨hlookup', -, hrooted', hnames'⟩ := h found (List.mem_of_find?_eq_some hfound)
        have hmatch := List.find?_some hfound
        have hpath := (fullPath_eq_iff hrooted' hnames' path).mp (of_decide_eq_true hmatch)
        rw [hfound, Option.map_some, ← hlookup', ← hpath, hlookup]
    refine (OCIDirBackingStore.openFile_contents fun node hnode => ?_).trans ?_
    · obtain ⟨file, -, rfl⟩ := Option.map_eq_some_iff.mp hnode
      exact ⟨rfl, rfl, rfl⟩
    · show (Option.map _ (files.find? fun file =>
        ((directoryOf files).fullPath path).lexicallyNormal = _)).map DirNode.contents = _
      rw [fullPath_normal hpath, ← hfind, Option.map_map]
      rfl
  reads n := ⟨64 * (n % 3 + 1), Nat.mul_pos (by decide) (Nat.succ_pos _), rfl⟩

/-- What calls on a package give that is opened with a bundle. -/
def openAndRun {σ Certificate MetaData : Type} (libraries : Libraries Certificate MetaData)
    (store : IOCIBackingStore σ) (calls : List PackageCall) (s : σ) :
    Option (List (Option (Served MetaData))) :=
  match openPackage libraries store (some fun _ _ _ => true) false s with
  | .ok (.ok package, s) => (package.run libraries store calls s).toOption
  | _ => none

/-- Libraries that know the files of a package and take every config. -/
def twoBytesLibraries : Libraries Unit Unit :=
  { twoBytes.libraries with fromConfigJson := fun _ => .ok () }

/-- The package with the right size in an archive and in a directory. It is opened, verified and
read. -/
theorem same_package_twoBytes :
    let mappable := fun _ => .error (.ralf .packageContentsInvalid "File in archive is not mappable")
    (SamePackage twoBytesLibraries
        ((OCIArchiveBackingStore.new (archiveHolding twoBytes.files) true).toStore mappable)
        (directoryOf twoBytes.files).toStore (fun path => twoBytes.files.lookup path)
        (some fun _ _ _ => true) false ∧
      SamePackage twoBytesLibraries
        ((OCIArchiveBackingStore.new (archiveHolding twoBytes.files) true).toStore mappable)
        ((OCIArchiveBackingStore.new (archiveHolding twoBytes.files) false).toStore mappable)
        (fun path => twoBytes.files.lookup path) (some fun _ _ _ => true) false) ∧
      (openAndRun twoBytesLibraries (directoryOf twoBytes.files).toStore
        [.metaData, .verify, .createReader, .auxMetaDataFile "text/plain" 0] 0).map
          (List.map Option.isSome) = some [true, true, true, false] := by
  intro mappable
  have hproper : ProperPaths twoBytes.files := by decide +kernel
  exact ⟨same_package (archiveHolding_archives hproper) (directoryOf_holds hproper) mappable
    (some fun _ _ _ => true) false true, by decide +kernel⟩

end Oci
