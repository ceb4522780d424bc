import Mathlib.Data.List.Basic
import Ralf.Core.Error
import Ralf.Core.NetworkService
import Ralf.Lib.Numeral

/-!
# Sizes and ports in the capabilities of a W3C package

`processCapabilityMemoryLimits` and `processCapabilityServices` read the content of a capability.
A limit is multiplied by its unit in 64 bits after the conversion, and a port is narrowed to 16 bits
before its range is checked: `processCapabilityMemoryLimits_exact_iff` and
`processCapabilityServices_exact_iff` say for which contents the number that is written is kept.
-/

namespace W3c

open Numeral

/-! ## Limits on memory -/

/-- The limits on memory of a package. -/
structure MemoryLimits where
  memoryQuota : Option UInt64 := none
  gpuMemoryQuota : Option UInt64 := none
  deriving DecidableEq, Repr

/-- `processCapabilityMemoryLimits`. -/
def processCapabilityMemoryLimits (name : String) (content : Bytes) (limits : MemoryLimits) :
    Result MemoryLimits :=
  match stoul 0 content with
  | none => .error (.ralf .invalidMetaData s!"Invalid '{name}' value '{content.cString}'")
  | some (limit, rest) =>
    let limit : UInt64 :=
      match rest.head? with
      | some 107 | some 75 => limit * 1024
      | some 109 | some 77 => limit * (1024 * 1024)
      | some 103 | some 71 => limit * (1024 * 1024 * 1024)
      | _ => limit
    if name = "sys-memory-limit" then .ok { limits with memoryQuota := limit }
    else if name = "gpu-memory-limit" then .ok { limits with gpuMemoryQuota := limit }
    else .ok limits

/-- The limit that a capability is for. -/
def MemoryLimits.named (limits : MemoryLimits) (name : String) : Option UInt64 :=
  if name = "sys-memory-limit" then limits.memoryQuota
  else if name = "gpu-memory-limit" then limits.gpuMemoryQuota
  else none

/-- The limit that is kept for a capability is the size that is written. -/
def MemoryLimitExact (name : String) (content : Bytes) (limits : MemoryLimits) : Prop :=
  ∀ after, processCapabilityMemoryLimits name content limits = .ok after →
    ∀ value ∈ after.named name, writtenSize content = some (value.toNat : Int)

/-- A number that is rejected for itself, or a size that fits 64 bits. -/
def LimitFits (content : Bytes) : Prop :=
  ∀ number, read 0 content = some number → number.OutOfRange ∨ FitsUInt64 number.size

/-- The names of the limits on memory. -/
def memoryCapabilities : List String := ["sys-memory-limit", "gpu-memory-limit"]

theorem processCapabilityMemoryLimits_named (name : String) {content : Bytes}
    (limits : MemoryLimits) {number : Numeral} (hread : read 0 content = some number)
    (hin : ¬number.OutOfRange) :
    ∃ after, processCapabilityMemoryLimits name content limits = .ok after ∧
      after.named name = if name ∈ memoryCapabilities then
        some (number.toUInt64 * unit number.rest.head?) else none := by
  have hunit : ∀ c : Option UInt8, (match c with
      | some 107 | some 75 => number.toUInt64 * 1024
      | some 109 | some 77 => number.toUInt64 * (1024 * 1024)
      | some 103 | some 71 => number.toUInt64 * (1024 * 1024 * 1024)
      | _ => number.toUInt64) = number.toUInt64 * unit c := by
    intro c
    split
    case h_7 => grind [unit]
    all_goals rfl
  have hstoull : stoul 0 content = some (number.toUInt64, number.rest) := by
    simp [stoul, hread, hin]
  simp only [processCapabilityMemoryLimits, hstoull, hunit, MemoryLimits.named, memoryCapabilities]
  by_cases hsys : name = "sys-memory-limit"
  · simp [hsys]
  by_cases hgpu : name = "gpu-memory-limit"
  · simp [hgpu]
  · simp [hsys, hgpu]

/-- `processCapabilityMemoryLimits` keeps the size that is written, if the size fits 64 bits or the
number itself does not, and only then. -/
theorem processCapabilityMemoryLimits_exact_iff (name : String) (content : Bytes)
    (limits : MemoryLimits) :
    MemoryLimitExact name content limits ↔ name ∈ memoryCapabilities → LimitFits content := by
  unfold MemoryLimitExact LimitFits
  cases hread : read 0 content with
  | none => simp [processCapabilityMemoryLimits, stoul, hread]
  | some number =>
    by_cases hout : number.OutOfRange
    · simp [processCapabilityMemoryLimits, stoul, hread, hout]
    obtain ⟨after, hafter, hnamed⟩ :=
      processCapabilityMemoryLimits_named name limits hread hout
    have hexact := toUInt64_mul_exact_iff number (unit number.rest.head?)
    rw [hafter]
    by_cases hname : name ∈ memoryCapabilities
    · rw [if_pos hname] at hnamed
      simp [hnamed, hname, hout, writtenSize, hread, size, ← hexact, eq_comm]
    · rw [if_neg hname] at hnamed
      simp [hnamed, hname]

/-! ## Network services -/

/-- `trimString`. -/
def trimString (str : Bytes) : Bytes :=
  let blank (c : UInt8) : Bool := c = 32 ∨ c = 9 ∨ c = 10 ∨ c = 13
  ((str.reverse.dropWhile blank).reverse).dropWhile blank

/-- `splitStringToVector`. Nothing follows a delimiter at the end. -/
def splitStringToVector (str : Bytes) (delim : UInt8) : List Bytes :=
  let parts := str.splitOn delim
  (if parts.getLast? = some [] then parts.dropLast else parts).map trimString

/-- The list that a capability adds to. -/
def serviceTypeOf (name : String) : Option NetworkServiceType :=
  if name = "hole-punch" then some .Public
  else if name = "local-socket-server" then some .Exported
  else if name = "local-socket-client" then some .Imported
  else none

/-- The protocol of an item, and the text of its port. -/
def protocolAndPortOf (protocolAndPort : Bytes) : Option (NetworkService.Protocol × Bytes) :=
  let protocol := protocolAndPort.takeWhile (· ≠ 58)
  if protocol.length = protocolAndPort.length then some (.TCP, protocolAndPort)
  else
    (NetworkService.protocolOf protocol).map fun kind =>
      (kind, protocolAndPort.drop (protocol.length + 1))

/-- The service that is added for an item. -/
def serviceOf (name : String) (item : Bytes) : Option (NetworkServiceType × NetworkService) :=
  match protocolAndPortOf item with
  | none => none
  | some (protocol, text) =>
    let port := (strtoul 0 text).toUInt16
    if port ≤ 1024 ∨ 65535 ≤ port then none
    else (serviceTypeOf name).map fun type => (type, { protocol, port })

/-- `processCapabilityServices`. -/
def processCapabilityServices (name : String) (content : Bytes) (services : Services) :
    Services :=
  services.addAll (serviceOf name) (splitStringToVector content 44)

/-- The port that an item says, as an exact integer, and 0 without one. -/
def writtenPort (item : Bytes) : Int :=
  ((protocolAndPortOf item).bind fun (_, text) => (read 0 text).map value).getD 0

/-- The services that `processCapabilityServices` adds have the ports that their items say. -/
def ServicePortsExact (name : String) (content : Bytes) (services : Services) : Prop :=
  Services.PortsKept (serviceOf name) writtenPort (splitStringToVector content 44) services
    (processCapabilityServices name content services)

/-- A port that fits 16 bits, or whose last 16 bits are not taken for a port. -/
def PortFits (number : Numeral) : Prop :=
  number.OutOfRange ∨ 0 ≤ number.value ∧ number.value < 2 ^ 16 ∨
    number.value % 2 ^ 16 ≤ 1024 ∨ number.value % 2 ^ 16 = 65535

theorem port_exact_iff (number : Numeral) :
    (1024 < number.toUInt64.toUInt16 → number.toUInt64.toUInt16 < 65535 →
        (number.toUInt64.toUInt16.toNat : Int) = number.value) ↔
      PortFits number := by
  have hport := toNat_toUInt16 number
  have hlow : 1024 < number.toUInt64.toUInt16 ↔ 1024 < number.toUInt64.toUInt16.toNat :=
    UInt16.lt_iff_toNat_lt
  have hhigh : number.toUInt64.toUInt16 < 65535 ↔ number.toUInt64.toUInt16.toNat < 65535 :=
    UInt16.lt_iff_toNat_lt
  rw [hlow, hhigh]
  unfold PortFits
  split at hport <;> grind

theorem serviceOf_eq_some_iff (name : String) (item : Bytes) (type : NetworkServiceType)
    (service : NetworkService) :
    serviceOf name item = some (type, service) ↔
      serviceTypeOf name = some type ∧ ∃ protocol text,
        protocolAndPortOf item = some (protocol, text) ∧ 1024 < (strtoul 0 text).toUInt16 ∧
        (strtoul 0 text).toUInt16 < 65535 ∧ service = { protocol, port := (strtoul 0 text).toUInt16 } := by
  unfold serviceOf
  cases hitem : protocolAndPortOf item with
  | none => simp
  | some split =>
    obtain ⟨protocol, text⟩ := split
    cases serviceTypeOf name <;> grind

/-- `processCapabilityServices` keeps the ports that are written, if each item with a protocol has
one that fits, and only then. -/
theorem processCapabilityServices_exact_iff (name : String) (content : Bytes)
    (services : Services) :
    ServicePortsExact name content services ↔
      serviceTypeOf name ≠ none → ∀ item ∈ splitStringToVector content 44,
        ∀ protocol text, protocolAndPortOf item = some (protocol, text) →
          ∀ number, read 0 text = some number → PortFits number := by
  unfold ServicePortsExact processCapabilityServices
  rw [Services.portsKept_iff]
  simp only [serviceOf_eq_some_iff]
  cases htype : serviceTypeOf name with
  | none => simp
  | some type =>
    simp only [ne_eq, reduceCtorEq, not_false_eq_true, forall_const]
    refine forall₂_congr fun item _ => ?_
    cases hitem : protocolAndPortOf item with
    | none => simp
    | some split =>
      obtain ⟨protocol, text⟩ := split
      cases hread : read 0 text with
      | none => simp [hread, strtoul]
      | some number =>
        have hwritten : writtenPort item = number.value := by
          simp [writtenPort, hitem, hread]
        have hnumber : strtoul 0 text = number.toUInt64 := by
          simp [strtoul, hread]
        rw [hwritten]
        simp only [Option.some.injEq, Prod.mk.injEq]
        constructor
        · rintro hkept _ _ ⟨rfl, rfl⟩ _ hother
          cases hread.symm.trans hother
          refine (port_exact_iff number).mp fun hlow hhigh => ?_
          refine hkept type { protocol, port := number.toUInt64.toUInt16 } ⟨rfl, protocol, text, ?_⟩
          rw [hnumber]
          exact ⟨⟨rfl, rfl⟩, hlow, hhigh, rfl⟩
        · rintro hfits _ _ ⟨-, _, _, ⟨rfl, rfl⟩, hlow, hhigh, rfl⟩
          rw [hnumber] at hlow hhigh ⊢
          exact (port_exact_iff number).mpr (hfits _ _ ⟨rfl, rfl⟩ number hread) hlow hhigh

end W3c
