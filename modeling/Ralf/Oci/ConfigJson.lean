import Mathlib.Data.String.Basic
import Ralf.Core.Extraction
import Ralf.Core.JsonAccess
import Ralf.Core.VersionConstraint
import Ralf.Lib.KeyedMap
import Ralf.Oci.Settings

/-!
# The config of an OCI package

`fromConfigJson` reads the meta-data of a package from its config document, without a schema: there
is one function for each field and, in the `configuration`, for each setting. The first one that
fails ends the reading, with an error that names the field, and so does what the libraries throw.
-/

/-- `isalnum`, in the C locale. -/
def isAlnum (ch : UInt8) : Bool := 48 ≤ ch ∧ ch ≤ 57 ∨ 65 ≤ ch ∧ ch ≤ 90 ∨ 97 ≤ ch ∧ ch ≤ 122

/-- The loop of `verifyPackageId`, with the character before. -/
def verifyIdTail (prev : UInt8) : Bytes → Bool
  | [] => isAlnum prev
  | ch :: rest =>
    if ch = 46 then if prev = 46 then false else verifyIdTail ch rest
    else if ¬isAlnum ch ∧ ch ≠ 45 ∧ ch ≠ 95 then false
    else verifyIdTail ch rest

def verifyPackageId : Bytes → Bool
  | [] => false
  | first :: rest =>
    if rest.length + 1 > 256 then false
    else if ¬isAlnum first then false
    else verifyIdTail first rest

/-- `PackageType`. -/
inductive PackageType
  | Unknown
  | Runtime
  | Application
  | Service
  | Base
  | Resource
  deriving DecidableEq, Repr

/-- `DisplaySize`. -/
inductive DisplaySize
  | Default
  | Size720x480
  | Size720x576
  | Size1280x720
  | Size1920x1080
  | Size3840x2160
  | Size7680x4320
  deriving DecidableEq, Repr

/-- `DisplayRefreshRate`. -/
inductive DisplayRefreshRate
  | Default
  | FiftyHz
  | SixtyHz
  deriving DecidableEq, Repr

namespace LifecycleState

def Paused : UInt32 := 1
def Suspended : UInt32 := 2
def Hibernated : UInt32 := 4
def LowPower : UInt32 := 8

end LifecycleState

namespace LoggingLevel

def Default : UInt32 := 1
def Debug : UInt32 := 2
def Info : UInt32 := 4
def Milestone : UInt32 := 8
def Warning : UInt32 := 16
def Error : UInt32 := 32
def Fatal : UInt32 := 64

end LoggingLevel

structure DialInfo where
  dialIds : List String := []
  corsDomains : List String := []
  originHeaderRequired : Bool := false
  deriving DecidableEq, Repr

structure InputHandlingInfo where
  interceptedKeys : List String := []
  capturedKeys : List String := []
  monitoredKeys : List String := []
  deriving DecidableEq, Repr

structure DisplayInfo where
  size : DisplaySize := .Default
  refreshRate : DisplayRefreshRate := .Default
  pictureMode : Option String := none
  deriving DecidableEq, Repr

structure AudioInfo where
  soundMode : Option String := none
  soundScene : Option String := none
  loudnessAdjustment : Option Int32 := none
  deriving DecidableEq, Repr

structure Icon where
  path : FilePath
  mimeType : String
  purpose : String
  sizes : List (Int × Int)
  deriving DecidableEq, Repr

structure SupportedApplicationType (Double : Type) where
  type : String := ""
  args : Option (JsonValue Double) := none

/-- The overrides, by their type. -/
structure Overrides (Double : Type) where
  application : Option (JsonValue Double) := none
  runtime : Option (JsonValue Double) := none
  base : Option (JsonValue Double) := none

namespace Oci

/-- What is used of the JSON library and of floating-point numbers. The result of a parse that fails
is `discarded`. -/
structure JsonLibrary (Double Single : Type) where
  parse : Bytes → JsonDocument Double
  intOfDouble : Double → Int32
  singleOfDouble : Double → Single
  singleOfInt : Int → Single
  isNegative : Single → Bool
  /-- The milliseconds of a number of seconds. -/
  milliseconds : Single → UInt64

/-- Why a field is not processed: the function for it returns `false`, or something is thrown. -/
inductive Failure
  | invalid
  | thrown (what : String)
  deriving DecidableEq, Repr

/-- A call of a library that can throw. -/
def throwing {α : Type} : Except String α → Except Failure α
  | .ok a => .ok a
  | .error what => .error (.thrown what)

/-- The members of `OCIPackageMetaDataImpl` for the settings. -/
structure PackageSettings (Double : Type) where
  icons : List Icon := []
  storageQuota : Option UInt64 := none
  storageGroup : Option String := none
  memoryQuota : Option UInt64 := none
  gpuMemoryQuota : Option UInt64 := none
  supportedLifecycleStates : UInt32 := LifecycleState.Paused ||| LifecycleState.LowPower
  services : Services := {}
  dialInfo : Option DialInfo := none
  inputHandlingInfo : Option InputHandlingInfo := none
  displayInfo : DisplayInfo := {}
  audioInfo : AudioInfo := {}
  loggingLevels : UInt32 := LoggingLevel.Default
  startTimeout : Option UInt64 := none
  watchdogInterval : Option UInt64 := none
  overrides : Overrides Double := {}
  supportedAppTypes : List (SupportedApplicationType Double) := []

structure OCIPackageMetaDataImpl (Double : Type) where
  id : String := ""
  version : VersionNumber := .ofOne 0
  versionName : String := ""
  specifier : String := ""
  mimeType : String := ""
  entryPointPath : String := ""
  entryArgs : List String := []
  dependencies : KeyedMap String VersionConstraint := .empty
  type : PackageType := .Unknown
  title : Option String := none
  /-- The privileges, each bound to nothing. -/
  permissions : KeyedMap String Unit := .empty
  settings : PackageSettings Double := {}
  allConfigs : KeyedMap String (JsonValue Double) := .empty

variable {Double Single : Type}

/-- A loop over the members of an object, without a check that it is one. -/
def forMembers {α : Type} (step : α → String → JsonDocument Double → Except Failure α) (a : α)
    (json : JsonDocument Double) : Except Failure α :=
  json.members.foldlM (fun a member => step a member.1 member.2) a

/-- The same after the check. -/
def forObject {α : Type} (step : α → String → JsonDocument Double → Except Failure α) (a : α)
    (json : JsonDocument Double) : Except Failure α :=
  if json.isObject then forMembers step a json else .error .invalid

/-- A loop over the elements of an array, after the check that it is one. -/
def forArray {α : Type} (step : α → JsonDocument Double → Except Failure α) (a : α)
    (json : JsonDocument Double) : Except Failure α :=
  if json.isArray then json.elements.foldlM step a else .error .invalid

namespace PackageSettings

/-! ## Settings -/

/-- `std::stoi`. -/
def stoi (s : Bytes) : Except Failure Int :=
  match Numeral.read 10 s with
  | none => .error (.thrown "stoi")
  | some number =>
    if number.value < -2 ^ 31 ∨ 2 ^ 31 ≤ number.value then .error (.thrown "stoi")
    else .ok number.value

/-- One of the sizes of an icon, with an `x` in it. -/
def readSize (sizes : List (Int × Int)) (size : Bytes) : Except Failure (List (Int × Int)) :=
  if 120 ∈ size then do
    let width ← stoi (size.takeWhile (· ≠ 120))
    let height ← stoi (size.dropWhile (· ≠ 120)).tail
    return sizes ++ [(width, height)]
  else .ok sizes

def addIcon (icons : List Icon) (icon : JsonDocument Double) : Except Failure (List Icon) :=
  if ¬icon.isObject then .error .invalid
  else do
    let src ← throwing (icon.stringValue "src")
    let path := FilePath.parse (Bytes.ofString src)
    -- an icon without a file in the package is only logged
    if ¬verifyPackagePath path then return icons
    else do
      let mimeType ← throwing (icon.stringValue "type")
      let purpose ← throwing (icon.stringValue "purpose")
      let sizes ← throwing (icon.stringValue "sizes")
      let sizes ← ((Bytes.ofString sizes).splitOn 32).foldlM readSize []
      return icons ++ [⟨path, mimeType, purpose, sizes⟩]

def processIconsConfig (settings : PackageSettings Double) (json : JsonDocument Double) :
    Except Failure (PackageSettings Double) := do
  let icons ← forArray addIcon [] json
  return { settings with icons }

def processDialConfig (settings : PackageSettings Double) (json : JsonDocument Double) :
    Except Failure (PackageSettings Double) := do
  let dialInfo ← forObject (fun (dialInfo : DialInfo) key value =>
    if key = "appNames" ∧ value.isArray then do
      let dialIds ← throwing value.getStrings
      return { dialInfo with dialIds }
    else if key = "corsDomains" ∧ value.isArray then do
      let corsDomains ← throwing value.getStrings
      return { dialInfo with corsDomains }
    else if key = "originHeaderRequired" ∧ value.isBoolean then
      .ok { dialInfo with originHeaderRequired := value.truth }
    else .ok dialInfo) {} json
  return { settings with dialInfo := some dialInfo }

/-- The flag of a logging level, if it is a known one. -/
def levelOf (text : Bytes) : UInt32 :=
  if strcaseEq text (Bytes.ofString "fatal") then LoggingLevel.Fatal
  else if strcaseEq text (Bytes.ofString "error") then LoggingLevel.Error
  else if strcaseEq text (Bytes.ofString "warning") then LoggingLevel.Warning
  else if strcaseEq text (Bytes.ofString "milestone") then LoggingLevel.Milestone
  else if strcaseEq text (Bytes.ofString "info") then LoggingLevel.Info
  else if strcaseEq text (Bytes.ofString "debug") then LoggingLevel.Debug
  else if strcaseEq text (Bytes.ofString "default") then LoggingLevel.Default
  else 0

def processLogLevelsConfig (settings : PackageSettings Double) (json : JsonDocument Double) :
    Except Failure (PackageSettings Double) := do
  let loggingLevels ← forArray (fun levels level =>
    if ¬level.isString then .error .invalid
    else .ok (levels ||| levelOf (Bytes.ofString level.text))) LoggingLevel.Default json
  return { settings with loggingLevels }

def processNetworkConfig (settings : PackageSettings Double) (json : JsonDocument Double) :
    Except Failure (PackageSettings Double) :=
  let (services, processed) := Oci.processNetworkConfig json settings.services
  if processed then .ok { settings with services } else .error .invalid

/-- The flag of a lifecycle state, if it is a known one. -/
def stateOf (text : Bytes) : UInt32 :=
  if strcaseEq text (Bytes.ofString "paused") then LifecycleState.Paused
  else if strcaseEq text (Bytes.ofString "suspended") then LifecycleState.Suspended
  else if strcaseEq text (Bytes.ofString "hibernated") then LifecycleState.Hibernated
  else 0

/-- `get<float>` of a number. -/
def single (library : JsonLibrary Double Single) : JsonDocument Double → Single
  | .numberInteger n => library.singleOfInt n.toInt
  | .numberUnsigned n => library.singleOfInt n.toNat
  | .numberFloat x => library.singleOfDouble x
  | _ => library.singleOfInt 0

/-- The milliseconds of a timeout, which is left as it is for a negative number. -/
def timeoutOf (library : JsonLibrary Double Single) (timeout : Option UInt64)
    (value : JsonDocument Double) : Option UInt64 :=
  let seconds := single library value
  if library.isNegative seconds then timeout else some (library.milliseconds seconds)

def processAppLifecycleConfig (library : JsonLibrary Double Single)
    (settings : PackageSettings Double) (json : JsonDocument Double) :
    Except Failure (PackageSettings Double) :=
  forObject (fun (settings : PackageSettings Double) key value =>
    if key = "supportedNonActiveStates" ∧ value.isArray then
      .ok { settings with
        supportedLifecycleStates := value.elements.foldl (fun states state =>
          if state.isString then states ||| stateOf (Bytes.ofString state.text) else states)
          settings.supportedLifecycleStates }
    else if key = "startupTimeout" ∧ value.isNumber then
      .ok { settings with startTimeout := timeoutOf library settings.startTimeout value }
    else if key = "watchdogInterval" ∧ value.isNumber then
      .ok { settings with watchdogInterval := timeoutOf library settings.watchdogInterval value }
    else .ok settings) settings json

def processLowPowerTerminateConfig (settings : PackageSettings Double)
    (json : JsonDocument Double) : Except Failure (PackageSettings Double) :=
  let states := settings.supportedLifecycleStates
  if ¬json.isBoolean then .error .invalid
  else if json.truth then
    .ok { settings with supportedLifecycleStates := states &&& ~~~LifecycleState.LowPower }
  else .ok { settings with supportedLifecycleStates := states ||| LifecycleState.LowPower }

def processStorageConfig (settings : PackageSettings Double) (json : JsonDocument Double) :
    Except Failure (PackageSettings Double) :=
  forObject (fun (settings : PackageSettings Double) key value =>
    if key = "maxLocalStorage" then
      if ¬value.isString then .error .invalid
      else .ok { settings with storageQuota := parseMemorySize (Bytes.ofString value.text) }
    else if key = "sharedStorageAppId" then
      if ¬value.isString then .error .invalid
      else if ¬verifyPackageId (Bytes.ofString value.text) then .error .invalid
      else .ok { settings with storageGroup := some value.text }
    else .ok settings) settings json

def processMemoryConfig (settings : PackageSettings Double) (json : JsonDocument Double) :
    Except Failure (PackageSettings Double) :=
  forObject (fun (settings : PackageSettings Double) key value =>
    if key = "system" ∧ value.isString then
      .ok { settings with memoryQuota := parseMemorySize (Bytes.ofString value.text) }
    else if key = "gpu" ∧ value.isString then
      .ok { settings with gpuMemoryQuota := parseMemorySize (Bytes.ofString value.text) }
    else .ok settings) settings json

/-- The strings in an array. -/
def strings (json : JsonDocument Double) : List String :=
  (json.elements.filter (·.isString)).map (·.text)

def processInputHandlingConfig (settings : PackageSettings Double) (json : JsonDocument Double) :
    Except Failure (PackageSettings Double) := do
  let inputHandling ← forObject (fun (inputHandling : InputHandlingInfo) key value =>
    if key = "keyIntercept" ∧ value.isArray then
      .ok { inputHandling with
        interceptedKeys := inputHandling.interceptedKeys ++ strings value }
    else if key = "keyCapture" ∧ value.isArray then
      .ok { inputHandling with capturedKeys := inputHandling.capturedKeys ++ strings value }
    else if key = "keyMonitor" ∧ value.isArray then
      .ok { inputHandling with monitoredKeys := inputHandling.monitoredKeys ++ strings value }
    else .ok inputHandling) {} json
  if inputHandling = {} then return settings
  else return { settings with inputHandlingInfo := some inputHandling }

/-- The size of a virtual display, if it is a known one. -/
def displaySizeOf (lines : Int32) : Option DisplaySize :=
  if lines = 480 then some .Size720x480
  else if lines = 576 then some .Size720x576
  else if lines = 720 then some .Size1280x720
  else if lines = 1080 then some .Size1920x1080
  else if lines = 2160 then some .Size3840x2160
  else if lines = 4320 then some .Size7680x4320
  else none

def processWindowConfig (library : JsonLibrary Double Single) (settings : PackageSettings Double)
    (json : JsonDocument Double) : Except Failure (PackageSettings Double) :=
  forObject (fun (settings : PackageSettings Double) key value =>
    if key = "virtualDisplaySize" ∧ value.isNumber then
      .ok { settings with
        displayInfo.size :=
          (displaySizeOf (value.int library.intOfDouble)).getD settings.displayInfo.size }
    else .ok settings) settings json

/-- The refresh rate, if it is a known one. -/
def refreshRateOf (rate : Int32) : Option DisplayRefreshRate :=
  if rate = 50 then some .FiftyHz else if rate = 60 then some .SixtyHz else none

def processDisplayConfig (library : JsonLibrary Double Single) (settings : PackageSettings Double)
    (json : JsonDocument Double) : Except Failure (PackageSettings Double) :=
  forObject (fun (settings : PackageSettings Double) key value =>
    if key = "refreshRateHz" ∧ value.isNumber then
      .ok { settings with
        displayInfo.refreshRate :=
          (refreshRateOf (value.int library.intOfDouble)).getD settings.displayInfo.refreshRate }
    else if key = "pictureMode" ∧ value.isString then
      .ok { settings with displayInfo.pictureMode := some value.text }
    else .ok settings) settings json

def processAudioConfig (library : JsonLibrary Double Single) (settings : PackageSettings Double)
    (json : JsonDocument Double) : Except Failure (PackageSettings Double) :=
  forObject (fun (settings : PackageSettings Double) key value =>
    if key = "soundMode" ∧ value.isString then
      .ok { settings with audioInfo.soundMode := some value.text }
    else if key = "soundScene" ∧ value.isString then
      .ok { settings with audioInfo.soundScene := some value.text }
    else if key = "loudnessAdjustment" ∧ value.isNumberInteger then
      .ok { settings with
        audioInfo.loudnessAdjustment := some (value.int library.intOfDouble) }
    else .ok settings) settings json

def processOverridesConfig (settings : PackageSettings Double) (json : JsonDocument Double) :
    Except Failure (PackageSettings Double) :=
  forObject (fun (settings : PackageSettings Double) key value =>
    if key = "application" then
      .ok { settings with overrides.application := some value.fromJson }
    else if key = "runtime" then .ok { settings with overrides.runtime := some value.fromJson }
    else if key = "base" then .ok { settings with overrides.base := some value.fromJson }
    else .ok settings) settings json

def addAppType (types : List (SupportedApplicationType Double)) (appType : JsonDocument Double) :
    Except Failure (List (SupportedApplicationType Double)) := do
  let typeInfo ← forObject (fun (typeInfo : SupportedApplicationType Double) key value =>
    if key = "type" ∧ value.isString then .ok { typeInfo with type := value.text }
    else if key = "args" ∧ value.isObject then .ok { typeInfo with args := some value.fromJson }
    else .ok typeInfo) {} appType
  if typeInfo.type = "" then return types else return types ++ [typeInfo]

def processRuntimeConfig (settings : PackageSettings Double) (json : JsonDocument Double) :
    Except Failure (PackageSettings Double) :=
  forObject (fun (settings : PackageSettings Double) key value =>
    if key = "supportedApplicationTypes" then do
      let supportedAppTypes ← forArray addAppType [] value
      return { settings with supportedAppTypes }
    else .ok settings) settings json

/-- The functions for the settings, by their keys. -/
def settingsMap (library : JsonLibrary Double Single) :
    List (String × (PackageSettings Double → JsonDocument Double →
      Except Failure (PackageSettings Double))) :=
  [("urn:entos:config:icons", processIconsConfig),
    ("urn:rdk:config:memory", processMemoryConfig),
    ("urn:rdk:config:storage", processStorageConfig),
    ("urn:rdk:config:dial", processDialConfig),
    ("urn:rdk:config:network", processNetworkConfig),
    ("urn:rdk:config:log-levels", processLogLevelsConfig),
    ("urn:rdk:config:application-lifecycle", processAppLifecycleConfig library),
    ("urn:entos:config:low-power:terminate", processLowPowerTerminateConfig),
    ("urn:rdk:config:input-handling", processInputHandlingConfig),
    ("urn:rdk:config:window", processWindowConfig library),
    ("urn:entos:config:display", processDisplayConfig library),
    ("urn:entos:config:audio", processAudioConfig library),
    ("urn:rdk:config:overrides", processOverridesConfig),
    ("urn:rdk:config:runtime", processRuntimeConfig)]

/-- One setting. One that is not known is left alone. -/
def processSetting (library : JsonLibrary Double Single) (settings : PackageSettings Double)
    (key : String) (value : JsonDocument Double) : Except Failure (PackageSettings Double) :=
  match (settingsMap library).lookup key with
  | some processField => processField settings value
  | none => .ok settings

end PackageSettings

namespace OCIPackageMetaDataImpl

/-! ## Fields -/

def readId (json : JsonDocument Double) : Except Failure String :=
  if ¬json.isString then .error .invalid
  else if ¬verifyPackageId (Bytes.ofString json.text) then .error .invalid
  else .ok json.text

def processId (metaData : OCIPackageMetaDataImpl Double) (json : JsonDocument Double) :
    Except Failure (OCIPackageMetaDataImpl Double) := do
  let id ← readId json
  return { metaData with id }

/-- What `fromString` of a version or a constraint gives. `std::stoul` throws for a number that is
out of range. -/
def fromString {α : Type} : Except Fault (Result α) → Except Failure α
  | .error _ => .error (.thrown "stoul")
  | .ok (.error _) => .error .invalid
  | .ok (.ok version) => .ok version

def readVersion (json : JsonDocument Double) : Except Failure VersionNumber :=
  if ¬json.isString then .error .invalid
  else fromString (VersionNumber.fromString json.text.toList)

def processVersion (metaData : OCIPackageMetaDataImpl Double) (json : JsonDocument Double) :
    Except Failure (OCIPackageMetaDataImpl Double) := do
  let version ← readVersion json
  return { metaData with version }

/-- A text that is not empty. -/
def readText (json : JsonDocument Double) : Except Failure String :=
  if ¬json.isString then .error .invalid
  else if json.text = "" then .error .invalid
  else .ok json.text

def processVersionName (metaData : OCIPackageMetaDataImpl Double) (json : JsonDocument Double) :
    Except Failure (OCIPackageMetaDataImpl Double) := do
  let versionName ← readText json
  return { metaData with versionName }

def packageTypeOf (text : Bytes) : Option PackageType :=
  if strcaseEq text (Bytes.ofString "application") then some .Application
  else if strcaseEq text (Bytes.ofString "runtime") then some .Runtime
  else if strcaseEq text (Bytes.ofString "service") then some .Service
  else if strcaseEq text (Bytes.ofString "base") then some .Base
  else if strcaseEq text (Bytes.ofString "resource") then some .Resource
  else none

def readPackageType (json : JsonDocument Double) : Except Failure PackageType :=
  if ¬json.isString then .error .invalid
  else
    match packageTypeOf (Bytes.ofString json.text) with
    | some type => .ok type
    | none => .error .invalid

def processPackageType (metaData : OCIPackageMetaDataImpl Double) (json : JsonDocument Double) :
    Except Failure (OCIPackageMetaDataImpl Double) := do
  let type ← readPackageType json
  return { metaData with type }

def processPackageSpecifier (metaData : OCIPackageMetaDataImpl Double)
    (json : JsonDocument Double) : Except Failure (OCIPackageMetaDataImpl Double) := do
  let specifier ← readText json
  return { metaData with specifier }

def processName (metaData : OCIPackageMetaDataImpl Double) (json : JsonDocument Double) :
    Except Failure (OCIPackageMetaDataImpl Double) := do
  let title ← some <$> readText json
  return { metaData with title }

def processEntryPoint (metaData : OCIPackageMetaDataImpl Double) (json : JsonDocument Double) :
    Except Failure (OCIPackageMetaDataImpl Double) := do
  let entryPointPath ← readText json
  return { metaData with entryPointPath }

/-- One of the arguments. -/
def addArg (args : List String) (arg : JsonDocument Double) : Except Failure (List String) :=
  if ¬arg.isString then .error .invalid else .ok (args ++ [arg.text])

def processEntryArgs (metaData : OCIPackageMetaDataImpl Double) (json : JsonDocument Double) :
    Except Failure (OCIPackageMetaDataImpl Double) := do
  let entryArgs ← forArray addArg [] json
  return { metaData with entryArgs }

/-- One of the dependencies. -/
def addDependency (dependencies : KeyedMap String VersionConstraint) (id : String)
    (constraint : JsonDocument Double) : Except Failure (KeyedMap String VersionConstraint) :=
  if ¬constraint.isString then .error .invalid
  else if ¬verifyPackageId (Bytes.ofString id) then .error .invalid
  else do
    let verConstraint ← fromString (VersionConstraint.fromString constraint.text.toList)
    return dependencies.emplace id verConstraint

def processDependencies (metaData : OCIPackageMetaDataImpl Double) (json : JsonDocument Double) :
    Except Failure (OCIPackageMetaDataImpl Double) := do
  let dependencies ← forObject addDependency .empty json
  return { metaData with dependencies }

/-- One of the permissions. -/
def addPermission (permissions : KeyedMap String Unit) (perm : JsonDocument Double) :
    Except Failure (KeyedMap String Unit) :=
  if ¬perm.isString then .error .invalid
  else if perm.text = "" then .error .invalid
  else .ok (permissions.emplace perm.text ())

def processPermissions (metaData : OCIPackageMetaDataImpl Double) (json : JsonDocument Double) :
    Except Failure (OCIPackageMetaDataImpl Double) := do
  let permissions ← forArray addPermission metaData.permissions json
  return { metaData with permissions }

/-- One of the settings, which is kept as it is too. -/
def addSetting (library : JsonLibrary Double Single)
    (kept : KeyedMap String (JsonValue Double) × PackageSettings Double) (key : String)
    (value : JsonDocument Double) :
    Except Failure (KeyedMap String (JsonValue Double) × PackageSettings Double) := do
  let settings ← PackageSettings.processSetting library kept.2 key value
  return (kept.1.emplace key value.fromJson, settings)

def processConfiguration (library : JsonLibrary Double Single)
    (metaData : OCIPackageMetaDataImpl Double) (json : JsonDocument Double) :
    Except Failure (OCIPackageMetaDataImpl Double) := do
  let kept ← forObject (addSetting library) (metaData.allConfigs, metaData.settings) json
  return { metaData with allConfigs := kept.1, settings := kept.2 }

/-! ## The config -/

/-- An error in the config. -/
def configError (what : String) : Error :=
  .ralf .packageContentsInvalid ("Failed to parse package config JSON" ++ what)

/-- The error for a field that is not processed. -/
def fieldError (key : String) : Failure → Error
  | .invalid => configError (" - invalid '" ++ key ++ "'")
  | .thrown what => .ralf .packageContentsInvalid ("Failed to process config.json - " ++ what)

/-- A field, with the function that processes it. -/
abbrev Field (Double : Type) :=
  String × (OCIPackageMetaDataImpl Double → JsonDocument Double →
    Except Failure (OCIPackageMetaDataImpl Double))

def requiredFields : List (Field Double) :=
  [("id", processId), ("version", processVersion), ("packageType", processPackageType),
    ("entryPoint", processEntryPoint)]

def optionalFields (library : JsonLibrary Double Single) : List (Field Double) :=
  [("name", processName), ("versionName", processVersionName), ("entryArgs", processEntryArgs),
    ("packageSpecifier", processPackageSpecifier), ("dependencies", processDependencies),
    ("permissions", processPermissions), ("configuration", processConfiguration library)]

/-- One field of the config. -/
def processField (json : JsonDocument Double) (required : Bool)
    (metaData : OCIPackageMetaDataImpl Double) (field : Field Double) :
    Result (OCIPackageMetaDataImpl Double) :=
  match json.members.lookup field.1 with
  | none =>
    if required then .error (configError (" - missing '" ++ field.1 ++ "'")) else .ok metaData
  | some value => (field.2 metaData value).mapError (fieldError field.1)

/-- What the MIME type starts with. -/
def mimeClass : PackageType → Option String
  | .Application => some "application/"
  | .Runtime => some "runtime/"
  | .Service => some "service/"
  | .Base => some "base/"
  | .Resource => some "resource/"
  | .Unknown => none

/-- The MIME type, from the type of the package and the specifier. -/
def setMimeType (metaData : OCIPackageMetaDataImpl Double) :
    Result (OCIPackageMetaDataImpl Double) :=
  match mimeClass metaData.type with
  | none => .error (.ralf .packageContentsInvalid "Unknown package type")
  | some start =>
    .ok { metaData with
      mimeType := start ++ if metaData.specifier ≠ "" then metaData.specifier else "unknown" }

/-- `fromConfigJson`, of a document. -/
def fromDocument (library : JsonLibrary Double Single) (json : JsonDocument Double) :
    Result (OCIPackageMetaDataImpl Double) :=
  if ¬json.isObject then .error (configError " - not an object")
  else do
    let metaData ← requiredFields.foldlM (processField json true) {}
    let metaData ← (optionalFields library).foldlM (processField json false) metaData
    metaData.setMimeType

def fromConfigJson (library : JsonLibrary Double Single) (contents : Bytes) :
    Result (OCIPackageMetaDataImpl Double) :=
  match library.parse contents with
  | .discarded => .error (configError "")
  | json => fromDocument library json

end OCIPackageMetaDataImpl

end Oci
