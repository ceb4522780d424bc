import Ralf.Core.JsonValue
import Ralf.Core.NetworkService
import Ralf.Lib.Numeral

/-!
# Sizes and ports in the configuration of an OCI package

`parseMemorySize` reads the limits on memory and storage, and `processNetworkConfig` the network
services. Both keep 64-bit or 16-bit numbers without a check that the number fits:
`parseMemorySize_exact_iff` and `processNetworkConfig_exact_iff` say for which contents they keep
the number that is written.
-/

namespace Oci

open Numeral

/-! ## Sizes -/

/-- `parseMemorySize`. -/
def parseMemorySize (str : Bytes) : Option UInt64 :=
  if str = [] then none
  else
    match read 0 str with
    | none => none
    | some number =>
      -- `errno` is not looked at
      let value := number.toUInt64
      match number.rest.head? with
      | some 75 | some 107 => some (value * 1024)
      | some 77 | some 109 => some (value * 1024 * 1024)
      | some 71 | some 103 => some (value * 1024 * 1024 * 1024)
      | _ => some value

/-- A size that is kept is the one that is written. -/
def MemorySizeExact (str : Bytes) : Prop :=
  ∀ value, parseMemorySize str = some value → writtenSize str = some (value.toNat : Int)

theorem parseMemorySize_eq (str : Bytes) :
    parseMemorySize str =
      (read 0 str).map fun number => number.toUInt64 * unit number.rest.head? := by
  unfold parseMemorySize
  split
  case isTrue hempty =>
    rw [hempty]
    rfl
  case isFalse =>
    cases read 0 str with
    | none => rfl
    | some number =>
      dsimp only [Option.map_some]
      generalize number.rest.head? = c
      split
      case h_7 => grind [unit]
      all_goals simp [unit, UInt64.mul_assoc]

/-- `parseMemorySize` keeps the size that is written, if that fits 64 bits, and only then. -/
theorem parseMemorySize_exact_iff (str : Bytes) :
    MemorySizeExact str ↔ ∀ size, writtenSize str = some size → FitsUInt64 size := by
  unfold MemorySizeExact writtenSize
  rw [parseMemorySize_eq]
  cases read 0 str with
  | none => simp
  | some number =>
    simp only [Option.map_some, Option.some.injEq, forall_eq']
    rw [eq_comm]
    exact toUInt64_mul_exact_iff number (unit number.rest.head?)

/-! ## Network services -/

variable {Double : Type}

/-- The type of service that a text names. -/
def serviceTypeOf (text : Bytes) : Option NetworkServiceType :=
  if strcaseEq text (Bytes.ofString "public") then some .Public
  else if strcaseEq text (Bytes.ofString "exported") then some .Exported
  else if strcaseEq text (Bytes.ofString "imported") then some .Imported
  else none

/-- What the loop over the members of an entry knows: the service and its type. -/
def readMember (entry : NetworkService × Option NetworkServiceType) :
    String × JsonDocument Double → NetworkService × Option NetworkServiceType
  | ("name", .string name) => ({ entry.1 with name }, entry.2)
  | ("port", .numberInteger port) => ({ entry.1 with port := port.toUInt64.toUInt16 }, entry.2)
  | ("port", .numberUnsigned port) => ({ entry.1 with port := port.toUInt16 }, entry.2)
  | ("protocol", .string protocol) =>
    let protocol := NetworkService.protocolOf (Bytes.ofString protocol)
    ({ entry.1 with protocol := protocol.getD entry.1.protocol }, entry.2)
  | ("type", .string type) =>
    (entry.1, (serviceTypeOf (Bytes.ofString type)).or entry.2)
  | _ => entry

/-- The service and the type that an entry describes. -/
def readEntry (members : List (String × JsonDocument Double)) :
    NetworkService × Option NetworkServiceType :=
  members.foldl readMember ({}, none)

/-- The service that is added for an entry. -/
def serviceOf : JsonDocument Double → Option (NetworkServiceType × NetworkService)
  | .object members =>
    let (netService, type) := readEntry members
    if netService.port = 0 then none else type.map fun type => (type, netService)
  | _ => none

/-- The loop of `processNetworkConfig` over the entries. -/
def processEntries : List (JsonDocument Double) → Services → Services × Bool
  | [], services => (services, true)
  | .object members :: rest, services =>
    match serviceOf (.object members) with
    | some (type, service) => processEntries rest (services.add type service)
    | none => processEntries rest services
  | _ :: _, services => (services, false)

/-- `processNetworkConfig`. -/
def processNetworkConfig : JsonDocument Double → Services → Services × Bool
  | .array entries, services => processEntries entries services
  | _, services => (services, false)

/-- An entry that is an object. -/
def isObject : JsonDocument Double → Bool
  | .object _ => true
  | _ => false

/-- The entries that the loop gets to. -/
def reachedEntries : JsonDocument Double → List (JsonDocument Double)
  | .array entries => entries.takeWhile isObject
  | _ => []

/-- The port that an entry says, as an exact integer, and 0 without one. -/
def writtenPort : JsonDocument Double → Int
  | .object members => members.foldl portMember 0
  | _ => 0
where
  portMember (port : Int) : String × JsonDocument Double → Int
    | ("port", .numberInteger n) => n.toInt
    | ("port", .numberUnsigned n) => n.toNat
    | _ => port

/-- The services that `processNetworkConfig` adds have the ports that their entries say. -/
def NetworkPortsExact (json : JsonDocument Double) (services : Services) : Prop :=
  Services.PortsKept serviceOf writtenPort (reachedEntries json) services
    (processNetworkConfig json services).1

/-- The type of service that an entry says. -/
def entryType : JsonDocument Double → Option NetworkServiceType
  | .object members => (readEntry members).2
  | _ => none

/-- A port that fits 16 bits, or that is taken for no port at all. -/
def PortFits (port : Int) : Prop := 0 ≤ port ∧ port < 2 ^ 16 ∨ port % 2 ^ 16 = 0

theorem processEntries_eq (entries : List (JsonDocument Double)) (services : Services) :
    (processEntries entries services).1 = services.addAll serviceOf (entries.takeWhile isObject) := by
  induction entries generalizing services with
  | nil => rfl
  | cons entry rest ih =>
    cases entry with
    | object members =>
      rw [processEntries, List.takeWhile_cons_of_pos rfl, Services.addAll, List.foldl_cons,
        ← Services.addAll]
      cases serviceOf (.object members) with
      | none => exact ih services
      | some found => exact ih (services.add found.1 found.2)
    | _ => rfl

theorem processNetworkConfig_eq (json : JsonDocument Double) (services : Services) :
    (processNetworkConfig json services).1 =
      services.addAll serviceOf (reachedEntries json) := by
  cases json with
  | array entries => exact processEntries_eq entries services
  | _ => rfl

theorem toInt_emod_toUInt16 (n : Int64) : (n.toUInt64.toUInt16.toNat : Int) = n.toInt % 2 ^ 16 := by
  have hvalue : n.toInt = if 2 * n.toUInt64.toNat < 2 ^ 64 then (n.toUInt64.toNat : Int)
      else n.toUInt64.toNat - 2 ^ 64 :=
    BitVec.toInt_eq_toNat_cond n.toBitVec
  rw [UInt64.toNat_toUInt16, hvalue]
  split <;> omega

/-- One member keeps the port of the service at the last 16 bits of the port that is written. -/
theorem readMember_port (entry : NetworkService × Option NetworkServiceType)
    (member : String × JsonDocument Double) {written : Int}
    (h : (entry.1.port.toNat : Int) = written % 2 ^ 16) :
    ((readMember entry member).1.port.toNat : Int) =
      writtenPort.portMember written member % 2 ^ 16 := by
  unfold readMember
  split
  case h_1 => exact h
  case h_2 port => exact toInt_emod_toUInt16 port
  case h_3 port => simp [writtenPort.portMember]
  case h_4 => exact h
  case h_5 => exact h
  case h_6 hname hsigned hunsigned hprotocol htype =>
    unfold writtenPort.portMember
    split
    case h_1 port => exact absurd rfl (hsigned port)
    case h_2 port => exact absurd rfl (hunsigned port)
    case h_3 => exact h

/-- The port of the service of an entry is the last 16 bits of the port that is written. -/
theorem readEntry_port (members : List (String × JsonDocument Double)) :
    ((readEntry members).1.port.toNat : Int) = writtenPort (.object members) % 2 ^ 16 := by
  suffices hall : ∀ (entry : NetworkService × Option NetworkServiceType) (written : Int),
      (entry.1.port.toNat : Int) = written % 2 ^ 16 →
        ((members.foldl readMember entry).1.port.toNat : Int) =
          members.foldl writtenPort.portMember written % 2 ^ 16 from
    hall ({}, none) 0 rfl
  induction members with
  | nil => exact fun entry written h => h
  | cons member rest ih =>
    intro entry written h
    exact ih _ _ (readMember_port entry member h)

theorem serviceOf_eq_some_iff (members : List (String × JsonDocument Double))
    (type : NetworkServiceType) (service : NetworkService) :
    serviceOf (.object members) = some (type, service) ↔
      readEntry members = (service, some type) ∧ service.port ≠ 0 := by
  rcases hentry : readEntry members with ⟨netService, type'⟩
  rw [serviceOf, hentry]
  cases type' <;> grind

/-- `processNetworkConfig` keeps the ports that are written, if each entry with a type has one that
fits, and only then. -/
theorem processNetworkConfig_exact_iff (json : JsonDocument Double) (services : Services) :
    NetworkPortsExact json services ↔
      ∀ entry ∈ reachedEntries json, entryType entry ≠ none → PortFits (writtenPort entry) := by
  unfold NetworkPortsExact
  rw [processNetworkConfig_eq, Services.portsKept_iff]
  refine forall₂_congr fun entry hentry => ?_
  cases entry with
  | object members =>
    have hport := readEntry_port members
    simp only [serviceOf_eq_some_iff, entryType]
    generalize hwritten : writtenPort (.object members) = written at hport ⊢
    rcases hread : readEntry members with ⟨netService, type⟩
    rw [hread] at hport
    have hzero : netService.port = 0 ↔ written % 2 ^ 16 = 0 := by
      rw [← hport, Int.natCast_eq_zero]
      exact UInt16.toNat_inj.symm
    have hexact : (netService.port.toNat : Int) = written ↔ 0 ≤ written ∧ written < 2 ^ 16 := by
      rw [hport]
      omega
    unfold PortFits
    rw [← hzero, ← hexact]
    cases type <;> grind
  | _ => simp [serviceOf, entryType]

end Oci
