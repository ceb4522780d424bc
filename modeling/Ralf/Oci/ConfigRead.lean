import Ralf.Lib.FallibleLoop
import Ralf.Oci.ConfigJson

/-!
# What is read from a config

* `fromDocument_iff`, the meta-data is what the members of the document give, required or not, and
  it is read exactly if each of them can be;
* `ReadFrom.wellFormed`, and it is well formed then, whatever else the document says;
* `fromDocument_error`, a document that is not read has a field that fails, which the error names.
-/

namespace Oci

open FallibleLoop

variable {Double Single : Type}

theorem forObject_ok {α : Type} {step : α → String → JsonDocument Double → Except Failure α}
    {a a' : α} {json : JsonDocument Double} (h : forObject step a json = .ok a') :
    json.isObject = true ∧ forMembers step a json = .ok a' := by
  unfold forObject at h
  split at h
  · next hobject => exact ⟨hobject, h⟩
  · cases h

theorem forArray_ok {α : Type} {step : α → JsonDocument Double → Except Failure α} {a a' : α}
    {json : JsonDocument Double} (h : forArray step a json = .ok a') :
    json.isArray = true ∧ json.elements.foldlM step a = .ok a' := by
  unfold forArray at h
  split at h
  · next harray => exact ⟨harray, h⟩
  · cases h

/-- What every member keeps is kept by the loop over them. -/
theorem forObject_keeps {α : Type} {step : α → String → JsonDocument Double → Except Failure α}
    {P : α → Prop} {a a' : α} {json : JsonDocument Double}
    (hstep : ∀ a key value a', P a → step a key value = .ok a' → P a')
    (h : forObject step a json = .ok a') (ha : P a) : P a' :=
  foldlM_keeps (fun a member _ a' => hstep a member.1 member.2 a') (forObject_ok h).2 ha

theorem forArray_keeps {α : Type} {step : α → JsonDocument Double → Except Failure α}
    {P : α → Prop} {a a' : α} {json : JsonDocument Double}
    (hstep : ∀ a value a', P a → step a value = .ok a' → P a')
    (h : forArray step a json = .ok a') (ha : P a) : P a' :=
  foldlM_keeps (fun a value _ a' => hstep a value a') (forArray_ok h).2 ha

/-! ## Settings -/

namespace PackageSettings

/-- Settings that a config can have. -/
structure WellFormed (settings : PackageSettings Double) : Prop where
  icons : ∀ icon ∈ settings.icons, verifyPackagePath icon.path = true
  storageGroup : ∀ id ∈ settings.storageGroup, verifyPackageId (Bytes.ofString id) = true
  services : ∀ type, ∀ service ∈ settings.services.ofType type, service.port ≠ 0
  inputHandlingInfo : ∀ info ∈ settings.inputHandlingInfo, info ≠ {}
  loggingLevels : settings.loggingLevels &&& LoggingLevel.Default = LoggingLevel.Default
  supportedAppTypes : ∀ type ∈ settings.supportedAppTypes, type.type ≠ ""

theorem wellFormed_default : ({} : PackageSettings Double).WellFormed where
  icons _ h := absurd h List.not_mem_nil
  storageGroup _ h := absurd h (Option.not_mem_none _)
  services type _ h := by cases type <;> exact absurd h List.not_mem_nil
  inputHandlingInfo _ h := absurd h (Option.not_mem_none _)
  loggingLevels := UInt32.and_self
  supportedAppTypes _ h := absurd h List.not_mem_nil

variable {library : JsonLibrary Double Single} {settings settings' : PackageSettings Double}
  {json : JsonDocument Double}

theorem addIcon_keeps {icons icons' : List Icon} {icon : JsonDocument Double}
    (hicons : ∀ icon ∈ icons, verifyPackagePath icon.path = true)
    (h : addIcon icons icon = .ok icons') :
    ∀ icon ∈ icons', verifyPackagePath icon.path = true := by
  obtain ⟨-, h⟩ := ite_ok h
  obtain ⟨src, -, h⟩ := bind_ok h
  dsimp only at h
  split at h
  · cases h
    exact hicons
  · next hpath =>
    obtain ⟨mimeType, -, h⟩ := bind_ok h
    obtain ⟨purpose, -, h⟩ := bind_ok h
    obtain ⟨sizes, -, h⟩ := bind_ok h
    obtain ⟨sizes, -, h⟩ := bind_ok h
    cases h
    exact List.forall_mem_append.mpr ⟨hicons, List.forall_mem_singleton.mpr (not_not.mp hpath)⟩

theorem processIconsConfig_keeps (hsettings : settings.WellFormed)
    (h : processIconsConfig settings json = .ok settings') : settings'.WellFormed := by
  obtain ⟨icons, hicons, h⟩ := bind_ok h
  cases h
  exact { hsettings with
    icons := forArray_keeps (P := fun icons : List Icon =>
        ∀ icon ∈ icons, verifyPackagePath icon.path = true)
      (fun _ _ _ => addIcon_keeps) hicons fun _ h => absurd h List.not_mem_nil }

theorem processDialConfig_keeps (hsettings : settings.WellFormed)
    (h : processDialConfig settings json = .ok settings') : settings'.WellFormed := by
  obtain ⟨dialInfo, -, h⟩ := bind_ok h
  cases h
  exact { hsettings with }

/-- A flag that is set stays so. -/
theorem flag_keeps {flags flag : UInt32} (more : UInt32) (h : flags &&& flag = flag) :
    (flags ||| more) &&& flag = flag := by
  refine UInt32.toBitVec_inj.mp (BitVec.eq_of_getLsbD_eq fun i hi => ?_)
  have hbit := congrArg (fun x : UInt32 => x.toBitVec.getLsbD i) h
  simp only [UInt32.toBitVec_and, UInt32.toBitVec_or, BitVec.getLsbD_and, BitVec.getLsbD_or]
    at hbit ⊢
  cases hflag : flag.toBitVec.getLsbD i with
  | false => exact Bool.and_false _
  | true =>
    rw [hflag, Bool.and_true] at hbit
    rw [hbit, Bool.true_or, Bool.and_true]

theorem processLogLevelsConfig_keeps (hsettings : settings.WellFormed)
    (h : processLogLevelsConfig settings json = .ok settings') : settings'.WellFormed := by
  obtain ⟨levels, hlevels, h⟩ := bind_ok h
  cases h
  refine { hsettings with
    loggingLevels := forArray_keeps (P := fun levels : UInt32 =>
      levels &&& LoggingLevel.Default = LoggingLevel.Default) (fun levels level levels' h hlevel => ?_)
      hlevels UInt32.and_self }
  obtain ⟨-, hlevel⟩ := ite_ok hlevel
  cases hlevel
  exact flag_keeps _ h

theorem port_of_serviceOf {entry : JsonDocument Double} {type : NetworkServiceType}
    {service : NetworkService} (h : serviceOf entry = some (type, service)) : service.port ≠ 0 := by
  cases entry with
  | object members =>
    unfold serviceOf at h
    dsimp only at h
    split at h
    · cases h
    · next hport =>
      obtain ⟨type', -, heq⟩ := Option.map_eq_some_iff.mp h
      cases heq
      exact hport
  | _ => cases h

theorem add_keeps {services : Services} {service : NetworkService}
    (h : ∀ type, ∀ other ∈ services.ofType type, other.port ≠ 0) (hport : service.port ≠ 0)
    (type type' : NetworkServiceType) :
    ∀ other ∈ (services.add type service).ofType type', other.port ≠ 0 := by
  have hofType : (services.add type service).ofType type' =
      services.ofType type' ++ if type' = type then [service] else [] := by
    cases type <;> cases type' <;> simp [Services.add, Services.ofType]
  rw [hofType]
  refine List.forall_mem_append.mpr ⟨h type', ?_⟩
  split
  · exact List.forall_mem_singleton.mpr hport
  · exact fun _ h => absurd h List.not_mem_nil

theorem processEntries_keeps (entries : List (JsonDocument Double)) {services : Services}
    (h : ∀ type, ∀ service ∈ services.ofType type, service.port ≠ 0) :
    ∀ type, ∀ service ∈ (processEntries entries services).1.ofType type, service.port ≠ 0 := by
  induction entries generalizing services with
  | nil => exact h
  | cons entry rest ih =>
    cases entry with
    | object members =>
      rw [processEntries]
      split
      · next type service hservice => exact ih (add_keeps h (port_of_serviceOf hservice) type)
      · exact ih h
    | _ => exact h

theorem processNetworkConfig_keeps (hsettings : settings.WellFormed)
    (h : processNetworkConfig settings json = .ok settings') : settings'.WellFormed := by
  unfold processNetworkConfig at h
  dsimp only at h
  split at h
  · cases h
    refine { hsettings with services := ?_ }
    cases json with
    | array entries => exact processEntries_keeps entries hsettings.services
    | _ => exact hsettings.services
  · cases h

theorem processAppLifecycleConfig_keeps (hsettings : settings.WellFormed)
    (h : processAppLifecycleConfig library settings json = .ok settings') :
    settings'.WellFormed := by
  refine forObject_keeps (fun settings key value settings' hsettings h => ?_) h hsettings
  split_ifs at h <;> cases h <;> exact { hsettings with }

theorem processLowPowerTerminateConfig_keeps (hsettings : settings.WellFormed)
    (h : processLowPowerTerminateConfig settings json = .ok settings') :
    settings'.WellFormed := by
  unfold processLowPowerTerminateConfig at h
  dsimp only at h
  split_ifs at h <;> cases h <;> exact { hsettings with }

theorem processStorageConfig_keeps (hsettings : settings.WellFormed)
    (h : processStorageConfig settings json = .ok settings') : settings'.WellFormed := by
  refine forObject_keeps (fun settings key value settings' hsettings h => ?_) h hsettings
  split_ifs at h with hquota hstring hgroup hstring hid
  · cases h
    exact { hsettings with }
  · cases h
    exact { hsettings with
      storageGroup := fun id hmem => by
        cases hmem
        exact hid }
  · cases h
    exact hsettings

theorem processMemoryConfig_keeps (hsettings : settings.WellFormed)
    (h : processMemoryConfig settings json = .ok settings') : settings'.WellFormed := by
  refine forObject_keeps (fun settings key value settings' hsettings h => ?_) h hsettings
  split_ifs at h <;> cases h <;> exact { hsettings with }

theorem processInputHandlingConfig_keeps (hsettings : settings.WellFormed)
    (h : processInputHandlingConfig settings json = .ok settings') : settings'.WellFormed := by
  obtain ⟨info, -, h⟩ := bind_ok h
  split at h
  · cases h
    exact hsettings
  · next hne =>
    cases h
    exact { hsettings with
      inputHandlingInfo := fun info' hmem => by
        cases hmem
        exact hne }

theorem processWindowConfig_keeps (hsettings : settings.WellFormed)
    (h : processWindowConfig library settings json = .ok settings') : settings'.WellFormed := by
  refine forObject_keeps (fun settings key value settings' hsettings h => ?_) h hsettings
  split_ifs at h <;> cases h <;> exact { hsettings with }

theorem processDisplayConfig_keeps (hsettings : settings.WellFormed)
    (h : processDisplayConfig library settings json = .ok settings') : settings'.WellFormed := by
  refine forObject_keeps (fun settings key value settings' hsettings h => ?_) h hsettings
  split_ifs at h <;> cases h <;> exact { hsettings with }

theorem processAudioConfig_keeps (hsettings : settings.WellFormed)
    (h : processAudioConfig library settings json = .ok settings') : settings'.WellFormed := by
  refine forObject_keeps (fun settings key value settings' hsettings h => ?_) h hsettings
  split_ifs at h <;> cases h <;> exact { hsettings with }

theorem processOverridesConfig_keeps (hsettings : settings.WellFormed)
    (h : processOverridesConfig settings json = .ok settings') : settings'.WellFormed := by
  refine forObject_keeps (fun settings key value settings' hsettings h => ?_) h hsettings
  split_ifs at h <;> cases h <;> exact { hsettings with }

theorem addAppType_keeps {types types' : List (SupportedApplicationType Double)}
    {appType : JsonDocument Double} (htypes : ∀ type ∈ types, type.type ≠ "")
    (h : addAppType types appType = .ok types') : ∀ type ∈ types', type.type ≠ "" := by
  obtain ⟨typeInfo, -, h⟩ := bind_ok h
  split at h
  · cases h
    exact htypes
  · next hne =>
    cases h
    exact List.forall_mem_append.mpr ⟨htypes, List.forall_mem_singleton.mpr hne⟩

theorem processRuntimeConfig_keeps (hsettings : settings.WellFormed)
    (h : processRuntimeConfig settings json = .ok settings') : settings'.WellFormed := by
  refine forObject_keeps (fun settings key value settings' hsettings h => ?_) h hsettings
  split at h
  · obtain ⟨types, htypes, h⟩ := bind_ok h
    cases h
    exact { hsettings with
      supportedAppTypes := forArray_keeps (P := fun types : List (SupportedApplicationType Double) =>
          ∀ type ∈ types, type.type ≠ "")
        (fun _ _ _ => addAppType_keeps) htypes fun _ h => absurd h List.not_mem_nil }
  · cases h
    exact hsettings

/-- Every setting leaves well-formed settings. -/
theorem processSetting_keeps {key : String} (hsettings : settings.WellFormed)
    (h : processSetting library settings key json = .ok settings') : settings'.WellFormed := by
  have hall : ∀ field ∈ settingsMap library, ∀ settings', field.2 settings json = .ok settings' →
      settings'.WellFormed := by
    simp only [settingsMap, List.forall_mem_cons]
    exact ⟨fun _ => processIconsConfig_keeps hsettings, fun _ => processMemoryConfig_keeps hsettings,
      fun _ => processStorageConfig_keeps hsettings, fun _ => processDialConfig_keeps hsettings,
      fun _ => processNetworkConfig_keeps hsettings, fun _ => processLogLevelsConfig_keeps hsettings,
      fun _ => processAppLifecycleConfig_keeps hsettings,
      fun _ => processLowPowerTerminateConfig_keeps hsettings,
      fun _ => processInputHandlingConfig_keeps hsettings,
      fun _ => processWindowConfig_keeps hsettings, fun _ => processDisplayConfig_keeps hsettings,
      fun _ => processAudioConfig_keeps hsettings, fun _ => processOverridesConfig_keeps hsettings,
      fun _ => processRuntimeConfig_keeps hsettings, fun _ h => absurd h List.not_mem_nil⟩
  unfold processSetting at h
  rcases hlookup : (settingsMap library).lookup key with _ | field
  · rw [hlookup] at h
    cases h
    exact hsettings
  · rw [hlookup] at h
    obtain ⟨before, after, heq, -⟩ := List.lookup_eq_some_iff.mp hlookup
    exact hall (key, field) (heq ▸ List.mem_append_right _ List.mem_cons_self) _ h

end PackageSettings

/-! ## Fields -/

namespace OCIPackageMetaDataImpl

variable {library : JsonLibrary Double Single} {json value : JsonDocument Double}
  {metaData metaData' : OCIPackageMetaDataImpl Double}

/-- What a required member gives. -/
def Reads {α : Type} (json : JsonDocument Double) (key : String)
    (read : JsonDocument Double → Except Failure α) (a : α) : Prop :=
  ∃ value, json.members.lookup key = some value ∧ read value = .ok a

/-- What an optional member gives, or the default. -/
def ReadsOr {α : Type} (json : JsonDocument Double) (key : String) (default : α)
    (read : JsonDocument Double → Except Failure α) (a : α) : Prop :=
  (json.members.lookup key).elim (.ok default) read = .ok a

theorem required_ok {α : Type} {key : String} (read : JsonDocument Double → Except Failure α)
    (store : OCIPackageMetaDataImpl Double → α → OCIPackageMetaDataImpl Double)
    {process : OCIPackageMetaDataImpl Double → JsonDocument Double →
      Except Failure (OCIPackageMetaDataImpl Double)}
    (hprocess : ∀ value, process metaData value = read value >>= fun a => .ok (store metaData a))
    (h : processField json true metaData (key, process) = .ok metaData') :
    ∃ a, Reads json key read a ∧ metaData' = store metaData a := by
  unfold processField at h
  dsimp only at h
  rcases hlookup : json.members.lookup key with _ | value
  · rw [hlookup] at h
    cases h
  · rw [hlookup] at h
    dsimp only at h
    rw [hprocess] at h
    rcases hread : read value with failure | a
    · rw [hread] at h
      cases h
    · rw [hread] at h
      cases h
      exact ⟨a, ⟨value, hlookup, hread⟩, rfl⟩

theorem optional_ok {α : Type} {key : String} (read : JsonDocument Double → Except Failure α)
    (default : α) (store : OCIPackageMetaDataImpl Double → α → OCIPackageMetaDataImpl Double)
    {process : OCIPackageMetaDataImpl Double → JsonDocument Double →
      Except Failure (OCIPackageMetaDataImpl Double)}
    (hprocess : ∀ value, process metaData value = read value >>= fun a => .ok (store metaData a))
    (hdefault : metaData = store metaData default)
    (h : processField json false metaData (key, process) = .ok metaData') :
    ∃ a, ReadsOr json key default read a ∧ metaData' = store metaData a := by
  unfold processField at h
  dsimp only at h
  unfold ReadsOr
  rcases hlookup : json.members.lookup key with _ | value
  · rw [hlookup] at h
    cases h
    exact ⟨default, rfl, hdefault⟩
  · rw [hlookup] at h
    dsimp only at h
    rw [hprocess] at h
    rcases hread : read value with failure | a
    · rw [hread] at h
      cases h
    · rw [hread] at h
      cases h
      exact ⟨a, hread, rfl⟩

/-- The meta-data is what the members of the document give. -/
structure ReadFrom (library : JsonLibrary Double Single) (json : JsonDocument Double)
    (metaData : OCIPackageMetaDataImpl Double) : Prop where
  object : json.isObject = true
  id : Reads json "id" readId metaData.id
  version : Reads json "version" readVersion metaData.version
  type : Reads json "packageType" readPackageType metaData.type
  entryPointPath : Reads json "entryPoint" readText metaData.entryPointPath
  title : ReadsOr json "name" none (fun value => some <$> readText value) metaData.title
  versionName : ReadsOr json "versionName" "" readText metaData.versionName
  entryArgs : ReadsOr json "entryArgs" [] (forArray addArg []) metaData.entryArgs
  specifier : ReadsOr json "packageSpecifier" "" readText metaData.specifier
  dependencies : ReadsOr json "dependencies" .empty (forObject addDependency .empty)
    metaData.dependencies
  permissions : ReadsOr json "permissions" .empty (forArray addPermission .empty)
    metaData.permissions
  configuration : ReadsOr json "configuration" (.empty, {})
    (forObject (addSetting library) (.empty, {})) (metaData.allConfigs, metaData.settings)
  mimeType : ∃ start, mimeClass metaData.type = some start ∧ metaData.mimeType =
    start ++ if metaData.specifier ≠ "" then metaData.specifier else "unknown"

theorem requiredFields_ok
    (h : requiredFields.foldlM (processField json true) {} = .ok metaData) :
    ∃ id version type entryPointPath, Reads json "id" readId id ∧
      Reads json "version" readVersion version ∧ Reads json "packageType" readPackageType type ∧
      Reads json "entryPoint" readText entryPointPath ∧
      metaData = { id, version, type, entryPointPath } := by
  simp only [requiredFields, List.foldlM_cons, List.foldlM_nil] at h
  obtain ⟨m₁, h₁, h⟩ := bind_ok h
  obtain ⟨m₂, h₂, h⟩ := bind_ok h
  obtain ⟨m₃, h₃, h⟩ := bind_ok h
  obtain ⟨m₄, h₄, h⟩ := bind_ok h
  obtain ⟨id, hid, rfl⟩ := required_ok readId (fun m id => { m with id }) (fun _ => rfl) h₁
  obtain ⟨version, hversion, rfl⟩ :=
    required_ok readVersion (fun m version => { m with version }) (fun _ => rfl) h₂
  obtain ⟨type, htype, rfl⟩ :=
    required_ok readPackageType (fun m type => { m with type }) (fun _ => rfl) h₃
  obtain ⟨entryPointPath, hentryPoint, rfl⟩ :=
    required_ok readText (fun m entryPointPath => { m with entryPointPath }) (fun _ => rfl) h₄
  exact ⟨id, version, type, entryPointPath, hid, hversion, htype, hentryPoint,
    (Except.ok.inj h).symm⟩

theorem setMimeType_ok (h : metaData.setMimeType = .ok metaData') :
    ∃ start, mimeClass metaData.type = some start ∧ metaData' = { metaData with
      mimeType := start ++ if metaData.specifier ≠ "" then metaData.specifier else "unknown" } := by
  unfold setMimeType at h
  rcases hclass : mimeClass metaData.type with _ | start
  · rw [hclass] at h
    cases h
  · rw [hclass] at h
    exact ⟨start, rfl, (Except.ok.inj h).symm⟩

theorem optionalFields_ok {id entryPointPath : String} {version : VersionNumber}
    {type : PackageType}
    (h : (optionalFields library).foldlM (processField json false)
      { id, version, type, entryPointPath } = .ok metaData) :
    ∃ title versionName entryArgs specifier dependencies permissions allConfigs settings,
      ReadsOr json "name" none (fun value => some <$> readText value) title ∧
      ReadsOr json "versionName" "" readText versionName ∧
      ReadsOr json "entryArgs" [] (forArray addArg []) entryArgs ∧
      ReadsOr json "packageSpecifier" "" readText specifier ∧
      ReadsOr json "dependencies" .empty (forObject addDependency .empty) dependencies ∧
      ReadsOr json "permissions" .empty (forArray addPermission .empty) permissions ∧
      ReadsOr json "configuration" (.empty, {}) (forObject (addSetting library) (.empty, {}))
        (allConfigs, settings) ∧
      metaData =
        { id, version, type, entryPointPath, title, versionName, entryArgs, specifier, dependencies,
          permissions, allConfigs, settings } := by
  simp only [optionalFields, List.foldlM_cons, List.foldlM_nil] at h
  obtain ⟨m₁, h₁, h⟩ := bind_ok h
  obtain ⟨m₂, h₂, h⟩ := bind_ok h
  obtain ⟨m₃, h₃, h⟩ := bind_ok h
  obtain ⟨m₄, h₄, h⟩ := bind_ok h
  obtain ⟨m₅, h₅, h⟩ := bind_ok h
  obtain ⟨m₆, h₆, h⟩ := bind_ok h
  obtain ⟨m₇, h₇, h⟩ := bind_ok h
  obtain ⟨title, htitle, rfl⟩ :=
    optional_ok (fun value => some <$> readText value) none (fun m title => { m with title })
      (fun _ => rfl) rfl h₁
  obtain ⟨versionName, hversionName, rfl⟩ :=
    optional_ok readText "" (fun m versionName => { m with versionName }) (fun _ => rfl) rfl h₂
  obtain ⟨entryArgs, hentryArgs, rfl⟩ :=
    optional_ok (forArray addArg []) [] (fun m entryArgs => { m with entryArgs }) (fun _ => rfl) rfl
      h₃
  obtain ⟨specifier, hspecifier, rfl⟩ :=
    optional_ok readText "" (fun m specifier => { m with specifier }) (fun _ => rfl) rfl h₄
  obtain ⟨dependencies, hdependencies, rfl⟩ :=
    optional_ok (forObject addDependency .empty) .empty
      (fun m dependencies => { m with dependencies }) (fun _ => rfl) rfl h₅
  obtain ⟨permissions, hpermissions, rfl⟩ :=
    optional_ok (forArray addPermission .empty) .empty
      (fun m permissions => { m with permissions }) (fun _ => rfl) rfl h₆
  obtain ⟨⟨allConfigs, settings⟩, hconfiguration, rfl⟩ :=
    optional_ok (forObject (addSetting library) (.empty, {})) (.empty, {})
      (fun m kept => { m with allConfigs := kept.1, settings := kept.2 }) (fun _ => rfl) rfl h₇
  exact ⟨title, versionName, entryArgs, specifier, dependencies, permissions, allConfigs, settings,
    htitle, hversionName, hentryArgs, hspecifier, hdependencies, hpermissions, hconfiguration,
    (Except.ok.inj h).symm⟩

theorem fromDocument_ok (h : fromDocument library json = .ok metaData) :
    ReadFrom library json metaData := by
  obtain ⟨hobject, h⟩ := ite_ok h
  obtain ⟨m₁, hrequired, h⟩ := bind_ok h
  obtain ⟨m₂, hoptional, h⟩ := bind_ok h
  obtain ⟨id, version, type, entryPointPath, hid, hversion, htype, hentryPoint, rfl⟩ :=
    requiredFields_ok hrequired
  obtain ⟨title, versionName, entryArgs, specifier, dependencies, permissions, allConfigs, settings,
    htitle, hversionName, hentryArgs, hspecifier, hdependencies, hpermissions, hconfiguration, rfl⟩ :=
    optionalFields_ok hoptional
  obtain ⟨start, hstart, rfl⟩ := setMimeType_ok h
  exact ⟨not_not.mp hobject, hid, hversion, htype, hentryPoint, htitle, hversionName, hentryArgs,
    hspecifier, hdependencies, hpermissions, hconfiguration, start, hstart, rfl⟩

theorem Reads.processField {α : Type} {key : String} {read : JsonDocument Double → Except Failure α}
    {a : α} (store : OCIPackageMetaDataImpl Double → α → OCIPackageMetaDataImpl Double)
    {process : OCIPackageMetaDataImpl Double → JsonDocument Double →
      Except Failure (OCIPackageMetaDataImpl Double)} (h : Reads json key read a)
    (hprocess : ∀ value, process metaData value = read value >>= fun a => .ok (store metaData a)) :
    OCIPackageMetaDataImpl.processField json true metaData (key, process) =
      .ok (store metaData a) := by
  obtain ⟨value, hlookup, hread⟩ := h
  unfold OCIPackageMetaDataImpl.processField
  dsimp only
  rw [hlookup]
  dsimp only
  rw [hprocess, hread]
  rfl

theorem ReadsOr.processField {α : Type} {key : String} {default : α}
    {read : JsonDocument Double → Except Failure α} {a : α}
    (store : OCIPackageMetaDataImpl Double → α → OCIPackageMetaDataImpl Double)
    {process : OCIPackageMetaDataImpl Double → JsonDocument Double →
      Except Failure (OCIPackageMetaDataImpl Double)} (h : ReadsOr json key default read a)
    (hprocess : ∀ value, process metaData value = read value >>= fun a => .ok (store metaData a))
    (hdefault : metaData = store metaData default) :
    OCIPackageMetaDataImpl.processField json false metaData (key, process) =
      .ok (store metaData a) := by
  unfold ReadsOr at h
  unfold OCIPackageMetaDataImpl.processField
  dsimp only
  rcases hlookup : json.members.lookup key with _ | value
  · rw [hlookup] at h
    cases h
    exact congrArg Except.ok hdefault
  · rw [hlookup] at h
    dsimp only [Option.elim] at h ⊢
    rw [hprocess, h]
    rfl

theorem ReadFrom.fromDocument (h : ReadFrom library json metaData) :
    OCIPackageMetaDataImpl.fromDocument library json = .ok metaData := by
  obtain ⟨id, version, versionName, specifier, mimeType, entryPointPath, entryArgs, dependencies,
    type, title, permissions, settings, allConfigs⟩ := metaData
  obtain ⟨start, hclass, hmimeType⟩ := h.mimeType
  dsimp only at hclass hmimeType
  have hrequired : requiredFields.foldlM (OCIPackageMetaDataImpl.processField json true)
      ({} : OCIPackageMetaDataImpl Double) = .ok { id, version, type, entryPointPath } := by
    simp only [requiredFields, List.foldlM_cons, List.foldlM_nil]
    refine ok_bind (h.id.processField (fun m id => { m with id }) fun _ => rfl) ?_
    refine ok_bind (h.version.processField (fun m version => { m with version }) fun _ => rfl) ?_
    refine ok_bind (h.type.processField (fun m type => { m with type }) fun _ => rfl) ?_
    exact ok_bind (h.entryPointPath.processField
      (fun m entryPointPath => { m with entryPointPath }) fun _ => rfl) rfl
  have hoptional : (optionalFields library).foldlM (OCIPackageMetaDataImpl.processField json false)
      { id, version, type, entryPointPath } = .ok
        { id, version, type, entryPointPath, title, versionName, entryArgs, specifier, dependencies,
          permissions, allConfigs, settings } := by
    simp only [optionalFields, List.foldlM_cons, List.foldlM_nil]
    refine ok_bind (h.title.processField (fun m title => { m with title }) (fun _ => rfl) rfl) ?_
    refine ok_bind (h.versionName.processField (fun m versionName => { m with versionName })
      (fun _ => rfl) rfl) ?_
    refine ok_bind (h.entryArgs.processField (fun m entryArgs => { m with entryArgs })
      (fun _ => rfl) rfl) ?_
    refine ok_bind (h.specifier.processField (fun m specifier => { m with specifier })
      (fun _ => rfl) rfl) ?_
    refine ok_bind (h.dependencies.processField (fun m dependencies => { m with dependencies })
      (fun _ => rfl) rfl) ?_
    refine ok_bind (h.permissions.processField (fun m permissions => { m with permissions })
      (fun _ => rfl) rfl) ?_
    exact ok_bind (h.configuration.processField
      (fun m kept => { m with allConfigs := kept.1, settings := kept.2 }) (fun _ => rfl) rfl) rfl
  unfold OCIPackageMetaDataImpl.fromDocument
  rw [if_neg (not_not.mpr h.object)]
  refine ok_bind hrequired (ok_bind hoptional ?_)
  unfold setMimeType
  dsimp only
  rw [hclass, hmimeType]

/-- What is read from a document is what its members give. -/
theorem fromDocument_iff : fromDocument library json = .ok metaData ↔
    ReadFrom library json metaData :=
  ⟨fromDocument_ok, ReadFrom.fromDocument⟩

/-! ## What holds of all meta-data -/

/-- A text that names a package. -/
def IsPackageId (id : String) : Prop := verifyPackageId (Bytes.ofString id) = true

/-- Meta-data that a config can have. -/
structure WellFormed (metaData : OCIPackageMetaDataImpl Double) : Prop where
  id : IsPackageId metaData.id
  version : metaData.version.Printable
  type : metaData.type ≠ .Unknown
  entryPointPath : metaData.entryPointPath ≠ ""
  title : ∀ title ∈ metaData.title, title ≠ ""
  dependencies : metaData.dependencies.ForKeys IsPackageId
  permissions : metaData.permissions.ForKeys (· ≠ "")
  settings : metaData.settings.WellFormed

theorem readText_ok {s : String} (h : readText value = .ok s) : s ≠ "" := by
  obtain ⟨-, h⟩ := ite_ok h
  obtain ⟨hne, h⟩ := ite_ok h
  cases h
  exact hne

theorem readTitle_ok {title : Option String} (h : (some <$> readText value) = .ok title) :
    ∀ text ∈ title, text ≠ "" := by
  rcases htext : readText value with failure | text
  · rw [htext] at h
    cases h
  · rw [htext] at h
    cases h
    rintro _ ⟨⟩
    exact readText_ok htext

theorem readId_ok {id : String} (h : readId value = .ok id) : IsPackageId id := by
  obtain ⟨-, h⟩ := ite_ok h
  obtain ⟨hid, h⟩ := ite_ok h
  cases h
  exact not_not.mp hid

theorem fromString_ok {α : Type} {x : Except Fault (Result α)} {a : α} (h : fromString x = .ok a) :
    x = .ok (.ok a) := by
  rcases x with fault | error | a'
  · cases h
  · cases h
  · cases h
    rfl

theorem readVersion_ok {version : VersionNumber} (h : readVersion value = .ok version) :
    version.Printable := by
  obtain ⟨-, h⟩ := ite_ok h
  exact VersionNumber.fromString_printable (fromString_ok h)

theorem mimeClass_ok {type : PackageType} {start : String} (h : mimeClass type = some start) :
    type ≠ .Unknown := by
  rintro rfl
  cases h

theorem addDependency_keeps {dependencies dependencies' : KeyedMap String VersionConstraint}
    {id : String} {constraint : JsonDocument Double} (hids : dependencies.ForKeys IsPackageId)
    (h : addDependency dependencies id constraint = .ok dependencies') :
    dependencies'.ForKeys IsPackageId := by
  obtain ⟨-, h⟩ := ite_ok h
  obtain ⟨hid, h⟩ := ite_ok h
  obtain ⟨verConstraint, -, h⟩ := bind_ok h
  cases h
  exact hids.emplace (not_not.mp hid)

theorem addPermission_keeps {permissions permissions' : KeyedMap String Unit}
    {perm : JsonDocument Double} (hnames : permissions.ForKeys (· ≠ ""))
    (h : addPermission permissions perm = .ok permissions') : permissions'.ForKeys (· ≠ "") := by
  obtain ⟨-, h⟩ := ite_ok h
  obtain ⟨hne, h⟩ := ite_ok h
  cases h
  exact hnames.emplace hne

theorem addSetting_keeps {kept kept' : KeyedMap String (JsonValue Double) × PackageSettings Double}
    {key : String} (hkept : kept.2.WellFormed) (h : addSetting library kept key value = .ok kept') :
    kept'.2.WellFormed := by
  obtain ⟨settings, hsettings, h⟩ := bind_ok h
  cases h
  exact PackageSettings.processSetting_keeps hkept hsettings

/-- What holds of the default and of all that is read holds of an optional member. -/
theorem ReadsOr.elim {α : Type} {P : α → Prop} {key : String} {default : α}
    {read : JsonDocument Double → Except Failure α} {a : α} (h : ReadsOr json key default read a)
    (hdefault : P default) (hread : ∀ value a, read value = .ok a → P a) : P a := by
  unfold ReadsOr at h
  rcases hlookup : json.members.lookup key with _ | value
  · rw [hlookup] at h
    cases h
    exact hdefault
  · rw [hlookup] at h
    exact hread value a h

/-- Meta-data that is read from a document is well formed, whatever the document says. -/
theorem ReadFrom.wellFormed (h : ReadFrom library json metaData) : metaData.WellFormed where
  id := h.id.elim fun _ hread => readId_ok hread.2
  version := h.version.elim fun _ hread => readVersion_ok hread.2
  type := h.mimeType.elim fun _ hclass => mimeClass_ok hclass.1
  entryPointPath := h.entryPointPath.elim fun _ hread => readText_ok hread.2
  title := h.title.elim (P := fun title => ∀ text ∈ title, text ≠ "")
    (fun _ hnone => absurd hnone (Option.not_mem_none _)) fun _ _ => readTitle_ok
  dependencies := h.dependencies.elim (P := KeyedMap.ForKeys IsPackageId) KeyedMap.forKeys_empty
    fun _ _ hread => forObject_keeps (fun _ _ _ _ => addDependency_keeps) hread
      KeyedMap.forKeys_empty
  permissions := h.permissions.elim (P := KeyedMap.ForKeys (· ≠ "")) KeyedMap.forKeys_empty
    fun _ _ hread => forArray_keeps (fun _ _ _ => addPermission_keeps) hread
      KeyedMap.forKeys_empty
  settings := h.configuration.elim
    (P := fun kept : KeyedMap String (JsonValue Double) × PackageSettings Double =>
      kept.2.WellFormed)
    PackageSettings.wellFormed_default fun _ _ hread =>
      forObject_keeps (P := fun kept => kept.2.WellFormed) (fun _ _ _ _ => addSetting_keeps) hread
        PackageSettings.wellFormed_default

/-- A config is read exactly if its document is. -/
theorem fromConfigJson_iff {contents : Bytes} :
    fromConfigJson library contents = .ok metaData ↔
      ReadFrom library (library.parse contents) metaData := by
  unfold fromConfigJson
  split
  · next hparse =>
    constructor
    · intro h
      cases h
    · intro h
      have hobject := h.object
      rw [hparse] at hobject
      cases hobject
  · exact fromDocument_iff

/-! ## Errors -/

/-- A field that fails, with the error for it: it is missing, or the function for it fails. -/
def FieldFails (json : JsonDocument Double) (required : Bool) (field : Field Double)
    (error : Error) : Prop :=
  json.members.lookup field.1 = none ∧ required = true ∧
      error = configError (" - missing '" ++ field.1 ++ "'") ∨
    ∃ value metaData failure, json.members.lookup field.1 = some value ∧
      field.2 metaData value = .error failure ∧ error = fieldError field.1 failure

theorem processField_error {required : Bool} {field : Field Double} {error : Error}
    (h : processField json required metaData field = .error error) :
    FieldFails json required field error := by
  unfold processField at h
  rcases hlookup : json.members.lookup field.1 with _ | value
  · rw [hlookup] at h
    dsimp only at h
    split at h
    · next hrequired =>
      cases h
      exact .inl ⟨hlookup, hrequired, rfl⟩
    · cases h
  · rw [hlookup] at h
    dsimp only at h
    rcases hfield : field.2 metaData value with failure | metaData'
    · rw [hfield] at h
      cases h
      exact .inr ⟨value, metaData, failure, hlookup, hfield, rfl⟩
    · rw [hfield] at h
      cases h

theorem packageTypeOf_ne {text : Bytes} {type : PackageType} (h : packageTypeOf text = some type) :
    type ≠ .Unknown := by
  rintro rfl
  unfold packageTypeOf at h
  split_ifs at h <;> cases h

theorem readPackageType_ne {type : PackageType} (h : readPackageType value = .ok type) :
    type ≠ .Unknown := by
  obtain ⟨-, h⟩ := ite_ok h
  split at h
  · next htype =>
    cases h
    exact packageTypeOf_ne htype
  · cases h

/-- A document is not read for what one field says, or because it is no object. The error for a type
that is not known never occurs. -/
theorem fromDocument_error {error : Error} (h : fromDocument library json = .error error) :
    json.isObject = false ∧ error = configError " - not an object" ∨
      (∃ field ∈ requiredFields, FieldFails json true field error) ∨
        ∃ field ∈ optionalFields library, FieldFails json false field error := by
  unfold fromDocument at h
  split at h
  · next hobject =>
    cases h
    exact .inl ⟨Bool.eq_false_iff.mpr hobject, rfl⟩
  rcases bind_error h with hrequired | ⟨m₁, hrequired, h⟩
  · obtain ⟨field, hfield, m, hfails⟩ := foldlM_error hrequired
    exact .inr (.inl ⟨field, hfield, processField_error hfails⟩)
  rcases bind_error h with hoptional | ⟨m₂, hoptional, h⟩
  · obtain ⟨field, hfield, m, hfails⟩ := foldlM_error hoptional
    exact .inr (.inr ⟨field, hfield, processField_error hfails⟩)
  -- the type is one of those that have a MIME type
  obtain ⟨id, version, type, entryPointPath, hid, hversion, ⟨value, -, htype⟩, hentryPoint, rfl⟩ :=
    requiredFields_ok hrequired
  obtain ⟨title, versionName, entryArgs, specifier, dependencies, permissions, allConfigs, settings,
    -, -, -, -, -, -, -, rfl⟩ := optionalFields_ok hoptional
  have hne := readPackageType_ne htype
  cases type with
  | Unknown => exact absurd rfl hne
  | Runtime => cases h
  | Application => cases h
  | Service => cases h
  | Base => cases h
  | Resource => cases h

end OCIPackageMetaDataImpl

end Oci
