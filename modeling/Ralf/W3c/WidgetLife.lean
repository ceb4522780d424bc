import Ralf.Archive.SignedReads
import Ralf.W3c.SignedWidget

/-!
# What a widget package serves

The digests of a package that was opened with a bundle are those of the references of one verified
signature, and no operation changes them. Whatever the archive is when it is opened again, the
metadata, the secrets beside it and the contents that `verify` accepts have these digests, and all
operations serve the same metadata. A reader gives signed entries, and contents with their digests
to who reads an entry to its end without an error.
-/

theorem Except.map_eq_ok {ε α β : Type} {x : Except ε α} {f : α → β} {b : β}
    (h : x.map f = .ok b) : ∃ a, x = .ok a ∧ f a = b := by
  cases x with
  | error error => cases h
  | ok a => exact ⟨a, rfl, Except.ok.inj h⟩

namespace W3c

open Archive Crypto

/-! ## The digests of the references -/

/-- The digest of the first reference to a path. -/
def signedDigest (references : List Reference) (path : FilePath) : Option Bytes :=
  (references.find? fun reference => reference.path = path).map Reference.digestValue

/-- What is checked of a reference: its path stays inside the package. -/
structure CheckedReference (reference : Reference) : Prop where
  relative : reference.path.isAbsolute = false
  nonempty : reference.path.isEmpty = false
  inside : reference.path.components.head? ≠ some FilePath.dotdot
  length : reference.digestValue.length = 32

theorem addReference_ok {digests digests' : FileDigestMap} {reference : Reference}
    (h : addReference digests reference = .ok digests') :
    CheckedReference reference ∧
      digests' = digests.emplace reference.path reference.digestValue := by
  unfold addReference at h
  dsimp only at h
  split at h
  · cases h
  next hpath =>
  split at h
  · cases h
  next hdigest =>
  cases h
  rw [not_or, not_or, Bool.not_eq_true, Bool.not_eq_true] at hpath
  rw [not_or, not_not, not_not] at hdigest
  exact ⟨⟨hpath.1, hpath.2.1, hpath.2.2, hdigest.2⟩, rfl⟩

theorem signedDigest_cons (reference : Reference) (references : List Reference) (path : FilePath) :
    signedDigest (reference :: references) path =
      (if path = reference.path then some reference.digestValue else none).or
        (signedDigest references path) := by
  unfold signedDigest
  rw [List.find?_cons]
  by_cases hpath : path = reference.path
  · rw [if_pos hpath, decide_eq_true hpath.symm]
    rfl
  · rw [if_neg hpath, decide_eq_false fun heq => hpath heq.symm, Option.none_or]

/-- A path that is there keeps its digest, and another one has that of its first reference. -/
theorem addReferences_ok {references : List Reference} {digests digests' : FileDigestMap}
    (h : references.foldlM addReference digests = .ok digests') :
    (∀ reference ∈ references, CheckedReference reference) ∧
      ∀ path, digests'.find path = (digests.find path).or (signedDigest references path) := by
  induction references generalizing digests with
  | nil =>
    cases h
    exact ⟨fun _ hmem => (nomatch hmem), fun path => Option.or_none.symm⟩
  | cons reference rest ih =>
    rw [List.foldlM_cons] at h
    cases hadd : addReference digests reference with
    | error error =>
      rw [hadd] at h
      cases h
    | ok added =>
      rw [hadd] at h
      obtain ⟨hchecked, rfl⟩ := addReference_ok hadd
      obtain ⟨hrest, hfind⟩ := ih h
      refine ⟨List.forall_mem_cons.mpr ⟨hchecked, hrest⟩, fun path => ?_⟩
      rw [hfind, FileDigestMap.find_emplace, signedDigest_cons, Option.or_assoc]

section
variable {Document Node Impl Bundle Settings : Type}
  (libraries : WidgetLibraries Document Node Impl Bundle Settings)

/-- The digest that the contents of a path must have: the signature file has its own one, unless
there is a reference to it. -/
def expectedDigest (references : List Reference) (signature1Xml : Bytes) (path : FilePath) :
    Option Bytes :=
  (signedDigest references path).or
    (if path = FilePath.parse signatureFileName then some (libraries.sha256 signature1Xml)
      else none)

/-- The digests come from the references of a signature that was verified with the bundle. -/
structure SignedBy [DecidableEq Node] (bundle : Bundle) (checkExpiry : Bool)
    (signature1Xml : Bytes) (signature : XmlDigitalSignature Document Node)
    (references : List Reference) (certs : List (Certificate Impl)) : Prop where
  document : libraries.readMemory signature1Xml = some signature.document
  signedInfo : ∃ root, libraries.root signature.document = some root ∧
    signature.SignedInfoOf libraries.toLibxml root
  verified : signature.VerifiedBy libraries.toLibxml libraries.toSignatureLibraries bundle
    checkExpiry certs
  read : signature.references libraries.toLibxml libraries.toSignatureLibraries =
    .ok references
  checked : ∀ reference ∈ references, CheckedReference reference

/-! ## What is served -/

/-- The metadata is that of a `config.xml` with the digest that is expected, and the only file
beside it an `appsecrets.json` with its digest. -/
structure Serves (expected : FilePath → Option Bytes)
    (metaData : W3CPackageMetaDataImpl Settings) : Prop where
  settings : ∃ configXml, expected configXmlPath = some (libraries.sha256 configXml) ∧
    (libraries.fromConfigXml configXml).1 = some metaData.settings
  aux : ∀ file ∈ metaData.auxMetaDataFiles, file.1 = appSecretsMediaType ∧
    expected appSecretsPath = some (libraries.sha256 file.2)

/-- The files of a builder have the signed digests. -/
structure BuiltFrom (digests : FileDigestMap) (builder : W3CPackageMetaDataBuilder) : Prop where
  config : builder.configXmlContents ≠ [] →
    digests.find configXmlPath = some (libraries.sha256 builder.configXmlContents)
  secrets : builder.appSecretsContents ≠ [] →
    digests.find appSecretsPath = some (libraries.sha256 builder.appSecretsContents)

/-- The answers that a package with signed digests, certificates and metadata may give. -/
inductive Answered (digests : FileDigestMap) (certs : List (Certificate Impl))
    (metaData : Option (W3CPackageMetaDataImpl Settings)) : Event Impl Settings → Prop
  | metaData {opening : Opening} {served : Option (W3CPackageMetaDataImpl Settings)}
      {error : Option Error} (h : ∀ m, served = some m → metaData = some m) :
      Answered digests certs metaData ⟨.metaData, opening, .metaData served error⟩
  | signingCertificates {opening : Opening} :
      Answered digests certs metaData
        ⟨.signingCertificates, opening, .signingCertificates certs⟩
  | auxMetaDataFile {opening : Opening} {mediaType : String} {index : Nat}
      {served : Reported PackageAuxMetaDataImpl}
      (h : ∀ file, served = .ok file → file.mediaType = mediaType ∧ ∃ m, metaData = some m ∧
        m.auxMetaDataFiles.lookup mediaType = some file.contents) :
      Answered digests certs metaData
        ⟨.auxMetaDataFile mediaType index, opening, .auxMetaDataFile served⟩
  | auxMetaDataFileCount {opening : Opening} {mediaType : String} {served : Reported Nat}
      (h : ∀ count, served = .ok count → ∃ m, metaData = some m ∧
        count = if m.hasAuxMetaDataFile mediaType then 1 else 0) :
      Answered digests certs metaData
        ⟨.auxMetaDataFileCount mediaType, opening, .auxMetaDataFileCount served⟩
  | auxMetaDataKeys {opening : Opening} {served : Reported (List String)}
      (h : ∀ keys, served = .ok keys → ∃ m, metaData = some m ∧ keys = m.availAuxMetaData) :
      Answered digests certs metaData ⟨.auxMetaDataKeys, opening, .auxMetaDataKeys served⟩
  | reader {opening : Opening} {dupErrno : Option Nat} {served : Result ArchiveReader}
      (h : ∀ reader, served = .ok reader →
        (∃ headers, opening = .ok headers ∧ reader = .new headers (some digests)) ∧
          ∀ readData errorString,
            ReadsSigned libraries.sha256 readData errorString digests reader) :
      Answered digests certs metaData ⟨.createReader dupErrno, opening, .reader served⟩
  | verified {opening : Opening} {result : Result Unit}
      (h : result = .ok () → ∃ headers, opening = .ok headers ∧
        ∀ member ∈ fileMembers headers, ∃ path, member.path = some path ∧
          digests.find path = some (libraries.sha256 member.contents)) :
      Answered digests certs metaData ⟨.verify, opening, .verified result⟩
  | setMaxExtractionBytes {opening : Opening} {maxTotalSize : Nat} :
      Answered digests certs metaData ⟨.setMaxExtractionBytes maxTotalSize, opening, .done⟩
  | setMaxExtractionEntries {opening : Opening} {maxFileCount : Nat} :
      Answered digests certs metaData ⟨.setMaxExtractionEntries maxFileCount, opening, .done⟩

/-- A package with signed digests and certificates, and only metadata that it may serve. -/
structure Holds (digests : FileDigestMap) (certs : List (Certificate Impl))
    (package : WidgetPackage Impl Settings) : Prop where
  signed : package.digests = some digests
  certified : package.signingCerts = certs
  metaData : ∀ m, package.metaData = some m → Serves libraries digests.find m

/-- The metadata stays once there is some. -/
def Keeps (package package' : WidgetPackage Impl Settings) : Prop :=
  ∀ m, package.metaData = some m → package'.metaData = some m

/-- The package was opened with a verified signature, and whatever is asked of it while the archive
changes, the answers have the digests of its references. -/
def ServesSigned [DecidableEq Node] (bundle : Bundle) (checkExpiry : Bool) (opening : Opening)
    (package : WidgetPackage Impl Settings) : Prop :=
  ∃ headers signature1Xml signature references certs digests,
    opening = .ok headers ∧ findSignature libraries headers = .ok signature1Xml ∧
    SignedBy libraries bundle checkExpiry signature1Xml signature references certs ∧
    (∀ path, FileDigestMap.find digests path =
      expectedDigest libraries references signature1Xml path) ∧
    ∀ operations events last,
      WidgetPackage.run libraries operations package = .ok (events, last) →
      (∀ m, last.metaData = some m → Serves libraries (signedDigest references) m) ∧
        ∀ event ∈ events, Answered libraries digests certs last.metaData event

end

section
variable {Document Node Impl Bundle Settings : Type}
  {libraries : WidgetLibraries Document Node Impl Bundle Settings}
  {digests : FileDigestMap} {certs : List (Certificate Impl)}
  {package package' : WidgetPackage Impl Settings} {opening : Opening}

/-- Metadata that comes later gives the same answers. -/
theorem Answered.mono {metaData metaData' : Option (W3CPackageMetaDataImpl Settings)}
    {event : Event Impl Settings} (h : Answered libraries digests certs metaData event)
    (hkeeps : ∀ m, metaData = some m → metaData' = some m) :
    Answered libraries digests certs metaData' event := by
  cases h with
  | metaData h => exact .metaData fun m hm => hkeeps m (h m hm)
  | signingCertificates => exact .signingCertificates
  | auxMetaDataFile h =>
    refine .auxMetaDataFile fun file hfile => ?_
    obtain ⟨htype, m, hm, hlookup⟩ := h file hfile
    exact ⟨htype, m, hkeeps m hm, hlookup⟩
  | auxMetaDataFileCount h =>
    refine .auxMetaDataFileCount fun count hcount => ?_
    obtain ⟨m, hm, heq⟩ := h count hcount
    exact ⟨m, hkeeps m hm, heq⟩
  | auxMetaDataKeys h =>
    refine .auxMetaDataKeys fun keys hkeys => ?_
    obtain ⟨m, hm, heq⟩ := h keys hkeys
    exact ⟨m, hkeeps m hm, heq⟩
  | reader h => exact .reader h
  | verified h => exact .verified h
  | setMaxExtractionBytes => exact .setMaxExtractionBytes
  | setMaxExtractionEntries => exact .setMaxExtractionEntries

/-! ## The signature -/

theorem verifySignature_ok [DecidableEq Node] {bundle : Bundle} {checkExpiry : Bool}
    {signature : XmlDigitalSignature Document Node} {signature1Xml : Bytes}
    (hparse : XmlDigitalSignature.parse libraries.toLibxml signature1Xml = .ok signature)
    (h : verifySignature libraries bundle checkExpiry signature signature1Xml =
      .ok (.ok (digests, certs))) :
    ∃ references,
      SignedBy libraries bundle checkExpiry signature1Xml signature references certs ∧
      ∀ path, digests.find path = expectedDigest libraries references signature1Xml path := by
  unfold verifySignature at h
  obtain ⟨⟨⟩, hverify, h⟩ := Reporting.andThen_eq_ok h
  obtain ⟨certs', hcerts, hverified⟩ := XmlDigitalSignature.verify_ok hverify
  obtain ⟨hdocument, hsignedInfo⟩ := XmlDigitalSignature.parse_ok hparse
  split at h
  · cases h
  · cases h
  next references _ hreferences =>
  split at h
  · cases h
  next signed hsigned =>
  rw [hcerts] at h
  cases h
  unfold signedDigests at hsigned
  split at hsigned
  · cases hsigned
  next added hadded =>
  cases hsigned
  obtain ⟨hchecked, hfind⟩ := addReferences_ok hadded
  refine ⟨references, ⟨hdocument, hsignedInfo, hverified, hreferences, hchecked⟩, fun path => ?_⟩
  rw [FileDigestMap.find_emplace, hfind]
  rfl

/-- A package that was opened with a bundle has the digests of a verified signature. -/
theorem open_ok [DecidableEq Node] {bundle : Bundle} {checkExpiry : Bool}
    (h : WidgetPackage.open libraries (some bundle) checkExpiry opening = .ok (.ok package)) :
    ∃ headers signature1Xml signature references certs digests, opening = .ok headers ∧
      findSignature libraries headers = .ok signature1Xml ∧
      SignedBy libraries bundle checkExpiry signature1Xml signature references certs ∧
      (∀ path, digests.find path = expectedDigest libraries references signature1Xml path) ∧
      Holds libraries digests certs package := by
  unfold WidgetPackage.open at h
  obtain ⟨⟨digests, certs⟩, hread, h⟩ := Reporting.andThen_eq_ok h
  cases h
  unfold readAndVerifySignature at hread
  split at hread
  · cases hread
  next headers =>
  split at hread
  · cases hread
  · cases hread
  next first rest hfind =>
  split at hread
  · cases hread
  next signature hparse =>
  obtain ⟨references, hsigned, hdigests⟩ := verifySignature_ok hparse hread
  exact ⟨headers, _, signature, references, certs, digests, rfl, hfind, hsigned, hdigests,
    rfl, rfl, fun _ hm => (nomatch hm)⟩

/-! ## The metadata -/

theorem verifyFileContents_ok {path : FilePath} {contents : Bytes}
    (h : verifyFileContents libraries (some digests) path contents = .ok ()) :
    digests.find path = some (libraries.sha256 contents) := by
  dsimp only [verifyFileContents] at h
  split at h
  · cases h
  next expected hfind =>
  split at h
  · cases h
  next hdigest => rw [hfind, not_not.mp hdigest]

theorem configXmlPath_normal : configXmlPath.lexicallyNormal = configXmlPath := by decide +kernel

theorem appSecretsPath_normal : appSecretsPath.lexicallyNormal = appSecretsPath := by
  decide +kernel

/-- The digest is looked up for the normal form of the path that the builder goes by. -/
theorem BuiltFrom.add {builder : W3CPackageMetaDataBuilder} {path : FilePath} {contents : Bytes}
    (h : BuiltFrom libraries digests builder)
    (hverify : digests.find path.lexicallyNormal = some (libraries.sha256 contents)) :
    BuiltFrom libraries digests (builder.addMetaDataFile path contents) := by
  unfold W3CPackageMetaDataBuilder.addMetaDataFile
  split
  · next hpath =>
    rw [hpath, configXmlPath_normal] at hverify
    exact ⟨fun _ => hverify, h.secrets⟩
  split
  · next hpath =>
    rw [hpath, appSecretsPath_normal] at hverify
    exact ⟨h.config, fun _ => hverify⟩
  · exact h

theorem metaDataLoop_ok {headers : List Header} {builder builder' : W3CPackageMetaDataBuilder}
    (hbuilder : BuiltFrom libraries digests builder)
    (h : metaDataLoop libraries (some digests) headers builder = .ok builder') :
    BuiltFrom libraries digests builder' := by
  induction headers generalizing builder with
  | nil =>
    cases h
    exact hbuilder
  | cons header rest ih =>
    cases header with
    | failure =>
      cases h
      exact hbuilder
    | entry member =>
      rw [metaDataLoop] at h
      split at h
      · exact ih hbuilder h
      next entryPath _ =>
      dsimp only at h
      split at h
      · exact ih hbuilder h
      split at h
      · exact ih hbuilder h
      split at h
      · cases h
      split at h
      · cases h
      split at h
      · cases h
      · next hverify => exact ih (hbuilder.add (verifyFileContents_ok hverify)) h

theorem generate_ok {builder : W3CPackageMetaDataBuilder}
    {metaData : W3CPackageMetaDataImpl Settings} {error : Option Error}
    (hbuilder : BuiltFrom libraries digests builder)
    (h : builder.generate libraries = .ok (some metaData, error)) :
    Serves libraries digests.find metaData := by
  obtain ⟨config, secrets⟩ := builder
  obtain ⟨hconfig, hsecrets⟩ := hbuilder
  cases config with
  | nil => cases h
  | cons first rest =>
    dsimp only [W3CPackageMetaDataBuilder.generate] at h
    have hsigned := hconfig (List.cons_ne_nil _ _)
    split at h
    · cases h
    · cases h
    · next hparse =>
      cases h
      exact ⟨⟨_, hsigned, by rw [hparse]⟩, fun _ hmem => (nomatch hmem)⟩
    · next hparse =>
      cases h
      refine ⟨⟨_, hsigned, by rw [hparse]⟩, fun file hmem => ?_⟩
      rw [List.mem_singleton.mp hmem]
      exact ⟨rfl, hsecrets (List.cons_ne_nil _ _)⟩

theorem readMetaData_ok {metaData : W3CPackageMetaDataImpl Settings} {error : Option Error}
    (h : readMetaData libraries (some digests) opening = .ok (some metaData, error)) :
    Serves libraries digests.find metaData := by
  unfold readMetaData at h
  split at h
  · cases h
  split at h
  · cases h
  · next hloop =>
    have hempty : BuiltFrom libraries digests {} :=
      ⟨fun hne => absurd rfl hne, fun hne => absurd rfl hne⟩
    exact generate_ok (metaDataLoop_ok hempty hloop) h

/-! ## The operations -/

theorem cacheMetaData_ok {error : Option Error} (hpackage : Holds libraries digests certs package)
    (h : package.cacheMetaData libraries opening = .ok (error, package')) :
    Holds libraries digests certs package' ∧ Keeps package package' := by
  unfold WidgetPackage.cacheMetaData at h
  split at h
  · cases h
    exact ⟨hpackage, fun _ hm => hm⟩
  next hnone =>
  split at h
  · cases h
  next metaData error' hread =>
  cases h
  rw [hpackage.signed] at hread
  refine ⟨⟨hpackage.signed, hpackage.certified, fun m hm => ?_⟩, fun m hm => ?_⟩
  · rw [show metaData = some m from hm] at hread
    exact readMetaData_ok hread
  · rw [hnone] at hm
    cases hm

theorem ofMetaData_ok {α : Type} {f : W3CPackageMetaDataImpl Settings → α} {answer : Reported α}
    (hpackage : Holds libraries digests certs package)
    (h : package.ofMetaData libraries opening f = .ok (answer, package')) :
    Holds libraries digests certs package' ∧ Keeps package package' ∧
      ∀ a, answer = .ok a → ∃ m, package'.metaData = some m ∧ a = f m := by
  unfold WidgetPackage.ofMetaData at h
  split at h
  · cases h
  next cached hcache =>
  obtain ⟨hholds, hkeeps⟩ := cacheMetaData_ok hpackage hcache
  split at h
  · next m hm =>
    cases h
    refine ⟨hholds, hkeeps, fun a ha => ?_⟩
    cases ha
    exact ⟨m, hm, rfl⟩
  · cases h
    exact ⟨hholds, hkeeps, fun a ha => (nomatch ha)⟩

theorem auxMetaDataFile_ok {mediaType : String} {index : Nat}
    {answer : Reported PackageAuxMetaDataImpl} (hpackage : Holds libraries digests certs package)
    (h : package.auxMetaDataFile libraries opening mediaType index = .ok (answer, package')) :
    Holds libraries digests certs package' ∧ Keeps package package' ∧
      ∀ file, answer = .ok file → file.mediaType = mediaType ∧ ∃ m, package'.metaData = some m ∧
        m.auxMetaDataFiles.lookup mediaType = some file.contents := by
  unfold WidgetPackage.auxMetaDataFile at h
  split at h
  · cases h
    exact ⟨hpackage, fun _ hm => hm, fun file hfile => (nomatch hfile)⟩
  split at h
  · cases h
  next cached hcache =>
  obtain ⟨hholds, hkeeps⟩ := cacheMetaData_ok hpackage hcache
  split at h
  · cases h
    exact ⟨hholds, hkeeps, fun file hfile => (nomatch hfile)⟩
  · next m hm =>
    cases h
    refine ⟨hholds, hkeeps, fun file hfile => ?_⟩
    unfold W3CPackageMetaDataImpl.getAuxMetaDataFile at hfile
    split at hfile
    · cases hfile
    · next hlookup =>
      cases hfile
      exact ⟨rfl, m, hm, hlookup⟩

theorem createReader_ok {dupErrno : Option Nat} {reader : ArchiveReader}
    (hpackage : Holds libraries digests certs package)
    (h : package.createReader opening dupErrno = .ok reader) :
    ∃ headers, opening = .ok headers ∧ reader = .new headers (some digests) := by
  unfold WidgetPackage.createReader at h
  split at h
  · cases h
  split at h
  · cases h
  · next headers =>
    cases h
    exact ⟨headers, rfl, by rw [hpackage.signed]⟩

theorem verify_signed (hpackage : Holds libraries digests certs package)
    (h : package.toW3CPackage.verify libraries.sha256 opening = .ok ()) :
    ∃ headers, opening = .ok headers ∧
      ∀ member ∈ fileMembers headers, ∃ path, member.path = some path ∧
        digests.find path = some (libraries.sha256 member.contents) := by
  cases opening with
  | error error =>
    unfold W3CPackage.verify at h
    rw [hpackage.signed] at h
    dsimp only at h
    split at h <;> cases h
  | ok headers =>
    refine ⟨headers, rfl, fun member hmember => ?_⟩
    obtain ⟨path, digest, hpath, hfind, hdigest⟩ :=
      (W3CPackage.verify_ok hpackage.signed h).1 member hmember
    exact ⟨path, hpath, by rw [hfind, hdigest]⟩

/-- One operation. -/
theorem step_ok {operation : Operation} {answer : Answer Impl Settings}
    (hpackage : Holds libraries digests certs package)
    (h : package.step libraries opening operation = .ok (answer, package')) :
    Holds libraries digests certs package' ∧ Keeps package package' ∧
      Answered libraries digests certs package'.metaData ⟨operation, opening, answer⟩ := by
  have hsame : Keeps package package := fun _ hm => hm
  cases operation with
  | metaData =>
    obtain ⟨⟨error, cached⟩, hcache, heq⟩ := Except.map_eq_ok h
    cases heq
    obtain ⟨hholds, hkeeps⟩ := cacheMetaData_ok hpackage hcache
    exact ⟨hholds, hkeeps, .metaData fun m hm => hm⟩
  | signingCertificates =>
    cases h
    refine ⟨hpackage, hsame, ?_⟩
    rw [hpackage.certified]
    exact .signingCertificates
  | auxMetaDataFile mediaType index =>
    obtain ⟨⟨file, cached⟩, hread, heq⟩ := Except.map_eq_ok h
    cases heq
    obtain ⟨hholds, hkeeps, hfile⟩ := auxMetaDataFile_ok hpackage hread
    exact ⟨hholds, hkeeps, .auxMetaDataFile hfile⟩
  | auxMetaDataFileCount mediaType =>
    obtain ⟨⟨count, cached⟩, hread, heq⟩ := Except.map_eq_ok h
    cases heq
    obtain ⟨hholds, hkeeps, hcount⟩ := ofMetaData_ok hpackage hread
    exact ⟨hholds, hkeeps, .auxMetaDataFileCount hcount⟩
  | auxMetaDataKeys =>
    obtain ⟨⟨keys, cached⟩, hread, heq⟩ := Except.map_eq_ok h
    cases heq
    obtain ⟨hholds, hkeeps, hkeys⟩ := ofMetaData_ok hpackage hread
    exact ⟨hholds, hkeeps, .auxMetaDataKeys hkeys⟩
  | createReader dupErrno =>
    cases h
    refine ⟨hpackage, hsame, .reader fun reader hreader => ?_⟩
    obtain ⟨headers, hopening, rfl⟩ := createReader_ok hpackage hreader
    exact ⟨⟨headers, hopening, rfl⟩, fun readData errorString =>
      reads_signed readData errorString headers digests⟩
  | verify =>
    cases h
    exact ⟨hpackage, hsame, .verified fun hverify => verify_signed hpackage hverify⟩
  | setMaxExtractionBytes maxTotalSize =>
    cases h
    exact ⟨⟨hpackage.signed, hpackage.certified, hpackage.metaData⟩, hsame,
      .setMaxExtractionBytes⟩
  | setMaxExtractionEntries maxFileCount =>
    cases h
    exact ⟨⟨hpackage.signed, hpackage.certified, hpackage.metaData⟩, hsame,
      .setMaxExtractionEntries⟩

/-- All operations, with the metadata that there is in the end. -/
theorem run_ok {operations : List (Operation × Opening)} {events : List (Event Impl Settings)}
    (hpackage : Holds libraries digests certs package)
    (h : WidgetPackage.run libraries operations package = .ok (events, package')) :
    Holds libraries digests certs package' ∧ Keeps package package' ∧
      ∀ event ∈ events, Answered libraries digests certs package'.metaData event := by
  induction operations generalizing package events with
  | nil =>
    cases h
    exact ⟨hpackage, fun _ hm => hm, fun _ hmem => (nomatch hmem)⟩
  | cons operation rest ih =>
    obtain ⟨operation, opening⟩ := operation
    rw [WidgetPackage.run] at h
    split at h
    · cases h
    next answer next hstep =>
    obtain ⟨⟨later, last⟩, hrun, heq⟩ := Except.map_eq_ok h
    cases heq
    obtain ⟨hnext, hkeeps, hanswered⟩ := step_ok hpackage hstep
    obtain ⟨hholds, hkept, hlater⟩ := ih hnext hrun
    refine ⟨hholds, fun m hm => hkept m (hkeeps m hm), List.forall_mem_cons.mpr ⟨?_, hlater⟩⟩
    exact hanswered.mono hkept

/-- Only the signature file has a digest that is not from a reference. -/
theorem expectedDigest_of_ne {references : List Reference} {signature1Xml : Bytes}
    {path : FilePath} (hpath : path ≠ FilePath.parse signatureFileName) :
    expectedDigest libraries references signature1Xml path = signedDigest references path := by
  unfold expectedDigest
  rw [if_neg hpath, Option.or_none]

theorem configXmlPath_ne : configXmlPath ≠ FilePath.parse signatureFileName := by decide +kernel

theorem appSecretsPath_ne : appSecretsPath ≠ FilePath.parse signatureFileName := by decide +kernel

end

/-- What a package serves that was opened with a bundle is what the signature refers to. -/
theorem served_signed {Document Node Impl Bundle Settings : Type} [DecidableEq Node]
    (libraries : WidgetLibraries Document Node Impl Bundle Settings) (bundle : Bundle)
    (checkExpiry : Bool) (opening : Opening) (package : WidgetPackage Impl Settings)
    (hopen : WidgetPackage.open libraries (some bundle) checkExpiry opening = .ok (.ok package)) :
    ServesSigned libraries bundle checkExpiry opening package := by
  obtain ⟨headers, signature1Xml, signature, references, certs, digests, hheaders, hfind, hsigned,
    hdigests, hholds⟩ := open_ok hopen
  refine ⟨headers, signature1Xml, signature, references, certs, digests, hheaders, hfind, hsigned,
    hdigests, fun operations events last hrun => ?_⟩
  obtain ⟨hlast, -, hanswered⟩ := run_ok hholds hrun
  refine ⟨fun m hm => ?_, hanswered⟩
  obtain ⟨⟨configXml, hconfig, hsettings⟩, haux⟩ := hlast.metaData m hm
  rw [hdigests, expectedDigest_of_ne configXmlPath_ne] at hconfig
  rw [hdigests, expectedDigest_of_ne appSecretsPath_ne] at haux
  exact ⟨⟨configXml, hconfig, hsettings⟩, haux⟩

/-! ## A package that changes -/

/-- The nodes of a signature with one reference: the root, its three sections, a reference with the
method and the value of its digest, and a certificate. -/
def oneReferenceXml : Libxml Bytes Nat where
  readMemory := some
  root := fun _ => some 0
  isElement := fun _ => true
  isComment := fun _ => false
  name := fun node =>
    ["Signature", "SignedInfo", "SignatureValue", "KeyInfo", "Reference", "DigestMethod",
      "DigestValue", "X509Data", "X509Certificate"].getD node ""
  children := fun node => [[1, 2, 3], [4], [], [7], [5, 6], [], [], [8]].getD node []
  getProp := fun node _ =>
    if node = 4 then some (Bytes.ofString "config.xml") else some sha256Algorithm
  getContent := fun node => if node = 6 then some (0x78 :: List.replicate 31 0) else some [node.toUInt8]
  c14n := fun document visible => if visible (some 4) [1, 0] then some document else none
  unescapeUri := id
  validate := fun _ => .ok ()

/-- A certificate has no name. The first 32 bytes of the contents are the digest. -/
def oneReferenceLibraries : WidgetLibraries Bytes Nat Unit Unit Bytes where
  toLibxml := oneReferenceXml
  decodeBase64 := .ok
  loadFromVector := fun _ => .ok ()
  subject := fun _ => ""
  issuer := fun _ => ""
  verifyCertificate := fun _ _ _ _ => .ok ()
  verifySignature := fun _ data _ =>
    if data = [0x73] then .ok () else .error (.ralf .genericCryptoError "")
  sha256 := fun contents => (contents ++ List.replicate 32 0).take 32
  readData := fun member call => .read ((member.blocks.map DataBlock.bytes).getD call [])
  fromConfigXml := fun contents => (some contents, none)

/-- The signature file, and a `config.xml` with some contents. -/
def widgetArchive (configXml : Bytes) : Opening :=
  .ok [fileHeader signatureFileName [0x73], fileHeader (Bytes.ofString "config.xml") configXml]

/-- The metadata is asked for with another `config.xml`, with the signed one, and once more with the
other one. Then there are readers, with the signed one and with the other one. -/
def changingArchive : List (Operation × Opening) :=
  [(.metaData, widgetArchive [0x79]), (.metaData, widgetArchive [0x78]),
    (.metaData, widgetArchive [0x79]), (.createReader none, widgetArchive [0x78]),
    (.createReader none, widgetArchive [0x79])]

/-- What reading the second entry of a reader to its end gives, if no read fails. -/
def contentsOf (reader : ArchiveReader) : Option Bytes :=
  let s := (ReadSession.mk reader []).run oneReferenceLibraries.sha256
    ArchiveFileEntry.readOneBlock (fun _ => "") [.next, .next, .read 1 ⟨true, 16⟩]
  match s.result oneReferenceLibraries.sha256 ArchiveFileEntry.readOneBlock (fun _ => "") 1
      ⟨true, 16⟩ with
  | some (.ok []) => s.handles[1]?.map Handle.got
  | _ => none

/-- The settings that are served, or the contents that are read. -/
def servedBytes (event : Event Unit Bytes) : Option Bytes :=
  match event.answer with
  | .metaData metaData _ => metaData.map W3CPackageMetaDataImpl.settings
  | .reader (.ok reader) => contentsOf reader
  | _ => none

/-- What is served by a package that was opened, in some operations. -/
def bytesOf (opened : Reporting (WidgetPackage Unit Bytes))
    (operations : List (Operation × Opening)) : Option (List (Option Bytes)) :=
  match opened with
  | .ok (.ok package) =>
    match WidgetPackage.run oneReferenceLibraries operations package with
    | .ok (events, _) => some (events.map servedBytes)
    | .error _ => none
  | _ => none

theorem bytesOf_changing :
    bytesOf (WidgetPackage.open oneReferenceLibraries (some ()) false (widgetArchive [0x78]))
      changingArchive = some [none, some [0x78], some [0x78], some [0x78], none] := by
  decide +kernel

/-- The other `config.xml` is refused, and is not looked at when there is metadata. Its end cannot be
read. -/
theorem served_signed_changing :
    ∃ package events last,
      WidgetPackage.open oneReferenceLibraries (some ()) false (widgetArchive [0x78]) =
        .ok (.ok package) ∧
      WidgetPackage.run oneReferenceLibraries changingArchive package = .ok (events, last) ∧
      events.map servedBytes = [none, some [0x78], some [0x78], some [0x78], none] ∧
      ServesSigned oneReferenceLibraries () false (widgetArchive [0x78]) package := by
  have hbytes := bytesOf_changing
  unfold bytesOf at hbytes
  split at hbytes
  · next package hopen =>
    split at hbytes
    · next events last hrun =>
      exact ⟨package, events, last, hopen, hrun, Option.some.inj hbytes,
        served_signed oneReferenceLibraries () false (widgetArchive [0x78]) package hopen⟩
    · cases hbytes
  · cases hbytes

end W3c
