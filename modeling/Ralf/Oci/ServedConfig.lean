import Ralf.Oci.ConfigRead
import Ralf.Oci.Packaging

/-!
# The meta-data that a package serves

The meta-data of a package is read once and cached. `run_caches` takes what one call does to the
cache to a whole run, and `run_serves` says what every call gives when the store serves files.
`served_config` puts both together for a package that was opened with a bundle: its calls for the
meta-data agree, and give what a config under a signed manifest says.
-/

namespace Oci

namespace OCIPackage

section
variable {σ Certificate MetaData : Type} {libraries : Libraries Certificate MetaData}
  {store : IOCIBackingStore σ} {package package' : OCIPackage Certificate MetaData}

/-- A call that gives the package back serves what is made of its result. -/
theorem map_served {α : Type} {x : Except Fault (Result α × σ)} {f : α → Served MetaData}
    {served : Served MetaData} {s' : σ}
    (h : (x.map fun out => (out.1.map f, package, out.2)) = .ok (.ok served, package', s')) :
    ∃ a, f a = served := by
  rcases x with fault | ⟨error | a, s⟩
  · cases h
  · cases h
  · cases h
    exact ⟨a, rfl⟩

/-- What a call does to the cache: what is in it stays, what is served is in it, and what is new is
read from the config. -/
structure Caches (libraries : Libraries Certificate MetaData)
    (package : OCIPackage Certificate MetaData) (served : List (Option (Served MetaData)))
    (cached : Option MetaData) : Prop where
  stays : ∀ metaData ∈ package.cachedMetaData, metaData ∈ cached
  served : ∀ metaData, some (.metaData metaData) ∈ served → metaData ∈ cached
  config : ∀ metaData ∈ cached,
    metaData ∈ package.cachedMetaData ∨ FromConfig libraries package metaData

/-- Meta-data that is served is the cached one. -/
theorem metaData_served {metaData : MetaData} {s s' : σ}
    (h : package.metaData libraries store s = .ok (.ok metaData, package', s')) :
    metaData ∈ package'.cachedMetaData := by
  unfold OCIPackage.metaData at h
  split at h
  · next hcached =>
    cases h
    exact hcached
  · cases h
  split at h
  · cases h
  · cases h
  split at h
  · cases h
  · cases h
    rfl

/-- Meta-data that is cached stays so. -/
theorem metaData_stays {result : Result MetaData} {metaData : MetaData} {s s' : σ}
    (h : package.metaData libraries store s = .ok (result, package', s'))
    (hcached : metaData ∈ package.cachedMetaData) : metaData ∈ package'.cachedMetaData := by
  unfold OCIPackage.metaData at h
  rw [hcached] at h
  cases h
  exact hcached

theorem call_caches {made : PackageCall} {result : Result (Served MetaData)} {s s' : σ}
    (h : package.call libraries store made s = .ok (result, package', s')) :
    Caches libraries package [result.toOption] package'.cachedMetaData := by
  have hother : (∀ metaData, result ≠ .ok (.metaData metaData)) → package' = package →
      Caches libraries package [result.toOption] package'.cachedMetaData := by
    rintro hnone rfl
    refine ⟨fun _ hcached => hcached, fun metaData hmem => ?_, fun _ hcached => .inl hcached⟩
    cases result with
    | error error => cases List.mem_singleton.mp hmem
    | ok served =>
      cases List.mem_singleton.mp hmem
      exact absurd rfl (hnone metaData)
  cases made with
  | metaData =>
    rw [OCIPackage.call] at h
    rcases hcall : package.metaData libraries store s with fault | ⟨result₁, package₁, s₁⟩
    · rw [hcall] at h
      cases h
    · rw [hcall] at h
      cases h
      refine ⟨fun _ => metaData_stays hcall, fun metaData hmem => ?_, fun metaData hcached =>
        (metaData_ok hcall).2 metaData (.inl hcached)⟩
      cases result₁ with
      | error error => cases List.mem_singleton.mp hmem
      | ok served =>
        cases List.mem_singleton.mp hmem
        exact metaData_served hcall
  | auxMetaDataFile mediaType index =>
    refine hother (fun metaData heq => ?_) (map_package h)
    rw [heq] at h
    obtain ⟨aux, haux⟩ := map_served h
    cases haux
  | verify =>
    refine hother (fun metaData heq => ?_) (map_package h)
    rw [heq] at h
    obtain ⟨done, hdone⟩ := map_served h
    cases hdone
  | createReader =>
    refine hother (fun metaData heq => ?_) (map_package h)
    rw [heq] at h
    obtain ⟨layer, hlayer⟩ := map_served h
    cases layer with
    | erofs file hashesOffset rootHash => cases hlayer
    | archive descriptor reader => cases hlayer

/-- After a run the cache has all meta-data that was served. -/
theorem run_caches {calls : List PackageCall} {results : List (Option (Served MetaData))} {s : σ}
    (h : package.run libraries store calls s = .ok results) :
    ∃ cached, Caches libraries package results cached := by
  induction calls generalizing package s results with
  | nil =>
    cases h
    exact ⟨package.cachedMetaData, fun _ hcached => hcached, fun _ hmem => absurd hmem
      List.not_mem_nil, fun _ hcached => .inl hcached⟩
  | cons made rest ih =>
    unfold OCIPackage.run at h
    rcases hcall : package.call libraries store made s with fault | ⟨result, package₁, s₁⟩
    · rw [hcall] at h
      cases h
    · rw [hcall] at h
      dsimp only at h
      rcases hrest : package₁.run libraries store rest s₁ with fault | results₁
      · rw [hrest] at h
        cases h
      · rw [hrest] at h
        cases h
        have hfirst := call_caches hcall
        obtain ⟨cached, hcached⟩ := ih hrest
        -- a call leaves the descriptor of the config
        obtain ⟨cached₁, rfl⟩ := call_package hcall
        refine ⟨cached, fun metaData hmem => hcached.stays _ (hfirst.stays _ hmem),
          fun metaData hmem => ?_, fun metaData hmem => ?_⟩
        · rcases List.mem_cons.mp hmem with heq | hmem
          · exact hcached.stays _ (hfirst.served _ (List.mem_singleton.mpr heq))
          · exact hcached.served _ hmem
        · exact (hcached.config _ hmem).elim (hfirst.config _) .inr

/-- The blob of a descriptor in the files, if it is as the descriptor says. -/
def blobIn (libraries : Libraries Certificate MetaData) (files : FilePath → Option Bytes)
    (descriptor : AnnotatedDescriptor) : Option Bytes :=
  if ¬validateSha256Digest descriptor.digest then none
  else (files (blobPath descriptor.digest)).filter fun contents =>
    contents.length = descriptor.size ∧
      libraries.sha256 contents = hexStringToBytes descriptor.digest

/-- The meta-data that the config in the files gives. -/
def configIn (libraries : Libraries Certificate MetaData) (files : FilePath → Option Bytes)
    (package : OCIPackage Certificate MetaData) : Option MetaData :=
  package.packageConfigDescriptor.bind fun config =>
    (blobIn libraries files config.descriptor).bind fun contents =>
      (libraries.fromConfigJson contents).toOption

variable {files : FilePath → Option Bytes}

/-- From a store that serves the files a blob is read exactly if it is there as it should be. -/
theorem readBlob_serves (h : Serves store files) {descriptor : AnnotatedDescriptor}
    (hsize : descriptor.size < 2 ^ 63) (s : σ) :
    (Oci.readBlob libraries store descriptor.digest descriptor.size s).1.toOption =
      blobIn libraries files descriptor := by
  unfold Oci.readBlob blobIn
  split
  · rfl
  next hvalid =>
  have hread := h.readFile (blobPath descriptor.digest) descriptor.size s (.blob (not_not.mp hvalid))
    hsize
  rcases hresult : store.readFile (blobPath descriptor.digest) descriptor.size s with
    ⟨error | contents, s₁⟩
  · rw [hresult] at hread
    rcases hfile : files (blobPath descriptor.digest) with _ | stored
    · rfl
    · rw [hfile, Option.filter_some] at hread
      split at hread
      · cases hread
      · next hlarge =>
        rw [Option.filter_some, if_neg]
        · rfl
        · rintro hblob
          exact hlarge (decide_eq_true (of_decide_eq_true hblob).1.le)
  · rw [hresult] at hread
    obtain ⟨hfile, -⟩ := Option.filter_eq_some_iff.mp hread.symm
    rw [hfile, Option.filter_some]
    dsimp only
    split
    · next hlength =>
      rw [if_neg fun hblob => hlength (of_decide_eq_true hblob).1]
      rfl
    · next hlength =>
      split
      · next hdigest =>
        rw [if_neg fun hblob => hdigest (of_decide_eq_true hblob).2]
        rfl
      · next hdigest =>
        rw [if_pos (decide_eq_true ⟨not_not.mp hlength, not_not.mp hdigest⟩)]
        rfl

/-- What is cached, if anything, is what the config in the files gives. -/
def CachedIn (libraries : Libraries Certificate MetaData) (files : FilePath → Option Bytes)
    (package : OCIPackage Certificate MetaData) : Prop :=
  package.cachedMetaData = none ∨ package.cachedMetaData = configIn libraries files package

/-- Meta-data is served exactly if the config in the files gives it. -/
theorem metaData_serves (h : Serves store files) (hbounded : package.Bounded)
    (hcached : CachedIn libraries files package) {result : Result MetaData} {s s' : σ}
    (hcall : package.metaData libraries store s = .ok (result, package', s')) :
    result.toOption = configIn libraries files package ∧ CachedIn libraries files package' := by
  unfold OCIPackage.metaData at hcall
  split at hcall
  · next metaData _ hsome =>
    cases hcall
    exact ⟨(hcached.resolve_left fun hnone => by rw [hsome] at hnone; cases hnone) ▸ hsome.symm,
      hcached⟩
  · next hnone hconfig =>
    cases hcall
    exact ⟨by rw [configIn, hconfig]; rfl, hcached⟩
  next config hnone hconfig =>
  have hblob : ∀ out, package.readBlob libraries store config.descriptor.digest
      config.descriptor.size s = .ok out →
      out.1.toOption = blobIn libraries files config.descriptor := by
    intro out hout
    unfold OCIPackage.readBlob at hout
    split at hout
    · next hor =>
      cases hout
      by_cases hvalid : validateSha256Digest config.descriptor.digest = true
      · have hstore := hor.resolve_left (not_not.mpr hvalid)
        exact readBlob_serves h ((hbounded hstore config hconfig).trans_lt (by decide)) s
      · unfold Oci.readBlob blobIn
        rw [if_pos hvalid, if_pos hvalid]
        rfl
    · cases hout
  have hgives : configIn libraries files package =
      (blobIn libraries files config.descriptor).bind fun contents =>
        (libraries.fromConfigJson contents).toOption := by
    rw [configIn, hconfig]
    rfl
  split at hcall
  · cases hcall
  · next hout =>
    cases hcall
    exact ⟨by rw [hgives, ← hblob _ hout]; rfl, hcached⟩
  next contents s₁ hout =>
  rw [← hblob _ hout] at hgives
  split at hcall
  · next herror =>
    cases hcall
    refine ⟨?_, hcached⟩
    rw [hgives, Except.toOption, Option.bind_some, herror]
  · next metaData hmetaData =>
    cases hcall
    have heq : configIn libraries files package = some metaData := by
      rw [hgives, Except.toOption, Option.bind_some, hmetaData]
      rfl
    exact ⟨heq.symm, .inr heq.symm⟩

theorem call_serves (h : Serves store files) (hbounded : package.Bounded)
    (hcached : CachedIn libraries files package) {made : PackageCall}
    {result : Result (Served MetaData)} {s s' : σ}
    (hcall : package.call libraries store made s = .ok (result, package', s')) :
    (made = .metaData →
        result.toOption = (configIn libraries files package).map .metaData) ∧
      CachedIn libraries files package' := by
  cases made with
  | metaData =>
    rw [OCIPackage.call] at hcall
    rcases hmetaData : package.metaData libraries store s with fault | ⟨result₁, package₁, s₁⟩
    · rw [hmetaData] at hcall
      cases hcall
    · rw [hmetaData] at hcall
      cases hcall
      obtain ⟨hresult, hafter⟩ := metaData_serves h hbounded hcached hmetaData
      refine ⟨fun _ => ?_, hafter⟩
      rw [← hresult]
      cases result₁ with
      | error error => rfl
      | ok metaData => rfl
  | auxMetaDataFile mediaType index =>
    refine ⟨fun heq => ?_, map_package hcall ▸ hcached⟩
    cases heq
  | verify =>
    refine ⟨fun heq => ?_, map_package hcall ▸ hcached⟩
    cases heq
  | createReader =>
    refine ⟨fun heq => ?_, map_package hcall ▸ hcached⟩
    cases heq

/-- Every call for the meta-data gives what the config in the files gives. -/
theorem run_serves (h : Serves store files) (hbounded : package.Bounded)
    (hcached : CachedIn libraries files package) {calls : List PackageCall}
    {results : List (Option (Served MetaData))} {s : σ}
    (hrun : package.run libraries store calls s = .ok results)
    {served : Option (Served MetaData)} (hmem : (.metaData, served) ∈ calls.zip results) :
    served = (configIn libraries files package).map .metaData := by
  induction calls generalizing package s results with
  | nil => cases hmem
  | cons made rest ih =>
    unfold OCIPackage.run at hrun
    rcases hcall : package.call libraries store made s with fault | ⟨result, package₁, s₁⟩
    · rw [hcall] at hrun
      cases hrun
    · rw [hcall] at hrun
      dsimp only at hrun
      rcases hrest : package₁.run libraries store rest s₁ with fault | results₁
      · rw [hrest] at hrun
        cases hrun
      · rw [hrest] at hrun
        cases hrun
        obtain ⟨hresult, hafter⟩ := call_serves h hbounded hcached hcall
        have hbounded₁ : package₁.Bounded := by
          obtain ⟨cached, rfl⟩ := call_package hcall
          exact hbounded
        have hconfig : configIn libraries files package₁ = configIn libraries files package := by
          obtain ⟨cached, rfl⟩ := call_package hcall
          rfl
        rw [List.zip_cons_cons] at hmem
        rcases List.mem_cons.mp hmem with heq | hmem
        · cases heq
          exact hresult rfl
        · rw [← hconfig]
          exact ih hbounded₁ hafter hrest hmem

end

end OCIPackage

open OCIPackage

section
variable {σ Certificate Double Single : Type}
  {libraries : Libraries Certificate (OCIPackageMetaDataImpl Double)}
  {library : JsonLibrary Double Single} {store : IOCIBackingStore σ}
  {package : OCIPackage Certificate (OCIPackageMetaDataImpl Double)} {s s' : σ}

/-- The meta-data is what the config says whose descriptor is in the manifest with a digest. -/
def SignedConfig (libraries : Libraries Certificate (OCIPackageMetaDataImpl Double))
    (library : JsonLibrary Double Single)
    (package : OCIPackage Certificate (OCIPackageMetaDataImpl Double)) (digest : Bytes)
    (metaData : OCIPackageMetaDataImpl Double) : Prop :=
  ∃ r ∈ package.packageConfigDescriptor, libraries.sha256 r.manifest = digest ∧
    (∃ layers, parseManifest libraries r.manifest = .ok (r.descriptor, layers)) ∧
    ∃ contents, IsBlob libraries r.descriptor contents ∧
      OCIPackageMetaDataImpl.ReadFrom library (library.parse contents) metaData

/-- The meta-data is what the config in the files says, if that is as its descriptor says. -/
def ConfigSays (libraries : Libraries Certificate (OCIPackageMetaDataImpl Double))
    (library : JsonLibrary Double Single) (files : FilePath → Option Bytes)
    (package : OCIPackage Certificate (OCIPackageMetaDataImpl Double))
    (metaData : OCIPackageMetaDataImpl Double) : Prop :=
  ∃ r ∈ package.packageConfigDescriptor, ∃ contents,
    blobIn libraries files r.descriptor = some contents ∧
      OCIPackageMetaDataImpl.ReadFrom library (library.parse contents) metaData

theorem configIn_iff {files : FilePath → Option Bytes} {metaData : OCIPackageMetaDataImpl Double}
    (hlibraries : libraries.fromConfigJson = OCIPackageMetaDataImpl.fromConfigJson library) :
    configIn libraries files package = some metaData ↔
      ConfigSays libraries library files package metaData := by
  unfold configIn ConfigSays
  rw [Option.bind_eq_some_iff]
  refine exists_congr fun r => and_congr_right fun _ => ?_
  rw [Option.bind_eq_some_iff]
  refine exists_congr fun contents => and_congr_right fun _ => ?_
  rw [hlibraries, ← OCIPackageMetaDataImpl.fromConfigJson_iff]
  cases OCIPackageMetaDataImpl.fromConfigJson library contents with
  | error error =>
    constructor
    · intro h
      cases h
    · intro h
      cases h
  | ok metaData' =>
    constructor
    · intro h
      cases h
      rfl
    · intro h
      cases h
      rfl

/-- A package that was opened with a bundle serves the same meta-data to all calls, whatever the
store gives at each of them. It is well formed, and what the signed config says. From a store that
serves files it is served to every call exactly if the config in the files says it. -/
theorem served_config {bundle : VerificationBundle Certificate} {checkExpiry : Bool}
    (hlibraries : libraries.fromConfigJson = OCIPackageMetaDataImpl.fromConfigJson library)
    (hopen : openPackage libraries store (some bundle) checkExpiry s = .ok (.ok package, s')) :
    ∃ payload digest, package.signedBlob = some payload ∧
      Signed libraries bundle checkExpiry payload ∧ signedDigest libraries payload = some digest ∧
      ∀ calls t results, package.run libraries store calls t = .ok results →
        (∃ served : Option (OCIPackageMetaDataImpl Double),
          (∀ metaData, some (.metaData metaData) ∈ results → metaData ∈ served) ∧
            ∀ metaData ∈ served, metaData.WellFormed ∧
              SignedConfig libraries library package (hexStringToBytes digest) metaData) ∧
        ∀ files, Serves store files →
          ∀ made ∈ calls.zip results, made.1 = .metaData → ∀ metaData,
            made.2 = some (.metaData metaData) ↔
              ConfigSays libraries library files package metaData := by
  obtain ⟨payload, digest, last, hpayload, hsigned, hdigest, hholds, hlast, hblob⟩ :=
    openPackage_ok hopen
  refine ⟨payload, digest, hpayload, hsigned, hdigest, fun calls t results hrun => ⟨?_, ?_⟩⟩
  · obtain ⟨served, hserved⟩ := run_caches hrun
    refine ⟨served, hserved.served, fun metaData hmem => ?_⟩
    rcases hserved.config metaData hmem with hcached | ⟨r, hr, contents, hcontents, hread⟩
    · rw [hholds.uncached] at hcached
      cases hcached
    · rw [hlibraries] at hread
      have hreadFrom := OCIPackageMetaDataImpl.fromConfigJson_iff.mp hread
      obtain ⟨last', hlast', rfl⟩ := hholds.config r hr
      cases hlast.symm.trans hlast'
      have hmem := (List.mem_filter.mp (List.mem_of_getLast? hlast)).1
      exact ⟨hreadFrom.wellFormed, _, hr, hblob, ⟨last.layers, (indexedManifests_parsed last hmem).2⟩,
        contents, hcontents, hreadFrom⟩
  · rintro files hserves ⟨made, served⟩ hmem hmade metaData
    obtain rfl : made = .metaData := hmade
    have hserved := run_serves hserves (openPackage_bounded hopen) (.inl hholds.uncached) hrun hmem
    rw [← configIn_iff hlibraries, hserved, Option.map_eq_some_iff]
    constructor
    · rintro ⟨metaData', hconfig, heq⟩
      cases heq
      exact hconfig
    · intro hconfig
      exact ⟨metaData, hconfig, rfl⟩

end

/-! ### A package with a config -/

def configJson : Json :=
  .object [("entryPoint", .string "main"), ("id", .string "app"),
    ("packageType", .string "application"), ("version", .string "1.2.3")]

def configHex : String := "e40164c8e42e9686c2627bfef950d1980801c4291e5982ec68d764e7c2de8c56"

/-- The digests of the manifest, of the payload for it and of the signature manifest. -/
def configSized : SizedPackage where
  size := 78
  manifestHex := "9285532c4afe3f9d23100c6108aa614a0aaba0018a0ff39f5d6a748de44c8fda"
  payloadHex := "7c1dd5cfc5b14a716691b5ec8ed96b206d87e5b7fcb4e17c257978ef5a1796c0"
  signatureHex := "50c1f02f20abc82abe16ca1c4d07bfbb3f99dde8ec2532956054d4f14d7fd3b0"

def configManifest : Json :=
  .object
    [("config", descriptorJson packageConfigMediaType configHex configSized.size),
     ("layers", .array [imageJson]), ("schemaVersion", .integer 2)]

def configIndex : Json :=
  indexJson [(configSized.manifestHex, configManifest),
    (configSized.signatureHex, configSized.signature)]

def configBlobs : List (String × Bytes) :=
  [(configHex, fileOf configJson), (emptyHex, []),
   (configSized.manifestHex, fileOf configManifest),
   (configSized.payloadHex, fileOf configSized.payload),
   (configSized.signatureHex, fileOf configSized.signature)]

def configFiles : List (FilePath × Bytes) :=
  (FilePath.ofNames [Bytes.ofString "oci-layout"], fileOf layoutJson) ::
    (FilePath.ofNames [Bytes.ofString "index.json"], fileOf configIndex) ::
    configBlobs.map fun blob => (blobPath (Bytes.ofString blob.1), blob.2)

/-- A JSON library that knows the config. There are no numbers in it. -/
def configLibrary : JsonLibrary Unit Unit where
  parse data :=
    if data = fileOf configJson then
      .object [("entryPoint", .string "main"), ("id", .string "app"),
        ("packageType", .string "application"), ("version", .string "1.2.3")]
    else .discarded
  intOfDouble _ := 0
  singleOfDouble := id
  singleOfInt _ := ()
  isNegative _ := false
  milliseconds _ := 0

def configLibraries : Libraries Unit (OCIPackageMetaDataImpl Unit) where
  sha256 data :=
    match configBlobs.find? fun blob => blob.2 = data with
    | some (hex, _) => hexStringToBytes (Bytes.ofString hex)
    | none => []
  parseJson _ data :=
    [layoutJson, configIndex, configManifest, configSized.payload, configSized.signature].find?
      fun value => fileOf value = data
  decodeBase64 := (someLibraries configIndex).decodeBase64
  loadCertificate := (someLibraries configIndex).loadCertificate
  loadCertificates := (someLibraries configIndex).loadCertificates
  verifySignature := (someLibraries configIndex).verifySignature
  fromConfigJson := OCIPackageMetaDataImpl.fromConfigJson configLibrary

def openConfig : Option (OCIPackage Unit (OCIPackageMetaDataImpl Unit)) :=
  match openPackage configLibraries (fileStore configFiles) (some fun _ _ _ => true) false
    () with
  | .ok (.ok package, _) => some package
  | _ => none

theorem openConfig_ok {package : OCIPackage Unit (OCIPackageMetaDataImpl Unit)}
    (h : openConfig = some package) :
    openPackage configLibraries (fileStore configFiles) (some fun _ _ _ => true) false
      () = .ok (.ok package, ()) := by
  unfold openConfig at h
  split at h
  · next hopen =>
    cases h
    exact hopen
  · cases h

/-- The package id that is served. -/
def servedId : Option (Served (OCIPackageMetaDataImpl Unit)) → Option String
  | some (.metaData metaData) => some metaData.id
  | _ => none

theorem servedId_some {served : Option (Served (OCIPackageMetaDataImpl Unit))} {id : String}
    (h : servedId served = some id) :
    ∃ metaData, served = some (.metaData metaData) ∧ metaData.id = id := by
  unfold servedId at h
  split at h
  · next metaData =>
    cases h
    exact ⟨metaData, rfl, rfl⟩
  · cases h

theorem fileStore_serves (files : List (FilePath × Bytes)) :
    Serves (fileStore files) fun path => files.lookup path where
  readFile path maxSize s _ _ := by
    unfold fileStore
    dsimp only
    cases files.lookup path with
    | none => rfl
    | some contents =>
      dsimp only
      rw [Option.filter_some]
      by_cases hlarge : contents.length > maxSize
      · rw [if_pos hlarge, if_neg (by simpa using hlarge)]
        rfl
      · rw [if_neg hlarge, if_pos (by simpa using hlarge)]
        rfl
  getFile path s _ := by
    unfold fileStore
    dsimp only
    cases files.lookup path with
    | none => rfl
    | some contents => rfl
  delivers path s reader _ hreader := by
    unfold fileStore at hreader
    dsimp only at hreader
    split at hreader
    · cases hreader
    · cases hreader
      exact fun _ size hsize => ⟨size, hsize, rfl⟩

/-- The package is opened, and serves its meta-data twice, as the config in its files says. -/
theorem served_config_app : ∃ package payload digest results metaData,
    openConfig = some package ∧ package.signedBlob = some payload ∧
      signedDigest configLibraries payload = some digest ∧
      package.run configLibraries (fileStore configFiles) [.metaData, .metaData] () = .ok results ∧
      results.map servedId = [some "app", some "app"] ∧
      results.head? = some (some (.metaData metaData)) ∧ metaData.id = "app" ∧
      metaData.WellFormed ∧
      SignedConfig configLibraries configLibrary package (hexStringToBytes digest) metaData ∧
      ConfigSays configLibraries configLibrary (fun path => configFiles.lookup path) package
        metaData := by
  have hresult : (openConfig.bind fun package =>
      (package.run configLibraries (fileStore configFiles) [.metaData, .metaData] ()).toOption).map
        (List.map servedId) = some [some "app", some "app"] := by decide +kernel
  obtain ⟨results, hruns, hids⟩ := Option.map_eq_some_iff.mp hresult
  obtain ⟨package, hopen, hrun⟩ := Option.bind_eq_some_iff.mp hruns
  obtain ⟨payload, digest, hpayload, -, hdigest, hserved⟩ :=
    served_config rfl (openConfig_ok hopen)
  rcases hcalls : package.run configLibraries (fileStore configFiles) [.metaData, .metaData] () with
    fault | results'
  · rw [hcalls] at hrun
    cases hrun
  · rw [hcalls] at hrun
    cases hrun
    obtain ⟨⟨served, hall, hconfig⟩, hfiles⟩ := hserved _ _ _ hcalls
    obtain ⟨first, rest, rfl, hid, -⟩ := List.map_eq_cons_iff.mp hids
    obtain ⟨metaData, rfl, hmetaData⟩ := servedId_some hid
    obtain ⟨hwell, hsigned⟩ := hconfig metaData (hall metaData List.mem_cons_self)
    have hsays := (hfiles _ (fileStore_serves configFiles) (.metaData, some (.metaData metaData))
      List.mem_cons_self rfl metaData).mp rfl
    exact ⟨package, payload, digest, _, metaData, hopen, hpayload, hdigest, hcalls, hids, rfl,
      hmetaData, hwell, hsigned, hsays⟩

end Oci
