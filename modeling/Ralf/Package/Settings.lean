import Ralf.Oci.Settings
import Ralf.W3c.Settings

/-!
# Sizes and ports in the configuration of a package

The two package formats have two parsers each for sizes and ports. `numbersExact_iff` says, for all
four, when the number that is kept is the one that is written.
-/

namespace Package

open Numeral

/-- Each parser keeps the numbers that are written if they fit, and wraps the others: a size that
does not fit 64 bits, unless `stoull` rejects the number itself, and a port that does not fit
16 bits, unless its last 16 bits are rejected. -/
theorem numbersExact_iff {Double : Type} :
    (∀ str, Oci.MemorySizeExact str ↔ ∀ size, writtenSize str = some size → FitsUInt64 size) ∧
    (∀ name content limits, W3c.MemoryLimitExact name content limits ↔
      name ∈ W3c.memoryCapabilities → W3c.LimitFits content) ∧
    (∀ name content services, W3c.ServicePortsExact name content services ↔
      W3c.serviceTypeOf name ≠ none → ∀ item ∈ W3c.splitStringToVector content 44,
        ∀ protocol text, W3c.protocolAndPortOf item = some (protocol, text) →
          ∀ number, read 0 text = some number → W3c.PortFits number) ∧
    ∀ (json : JsonDocument Double) (services : Services), Oci.NetworkPortsExact json services ↔
      ∀ entry ∈ Oci.reachedEntries json, Oci.entryType entry ≠ none →
        Oci.PortFits (Oci.writtenPort entry) :=
  ⟨Oci.parseMemorySize_exact_iff, W3c.processCapabilityMemoryLimits_exact_iff,
    W3c.processCapabilityServices_exact_iff, Oci.processNetworkConfig_exact_iff⟩

/-- The text `17179869185G`. -/
def wrappedSize : Bytes := [49, 55, 49, 55, 57, 56, 54, 57, 49, 56, 53, 71]

/-- The text `73616`. -/
def wrappedPort : Bytes := [55, 51, 54, 49, 54]

/-- A configuration with the port 73616. -/
def wrappedNetwork : JsonDocument Unit :=
  .array [.object [("port", .numberUnsigned 73616), ("type", .string "public")]]

/-- Each parser keeps a number that it has wrapped: 1 GiB, and the port 8080. -/
theorem not_numbersExact :
    ¬Oci.MemorySizeExact wrappedSize ∧
    ¬W3c.MemoryLimitExact "sys-memory-limit" wrappedSize {} ∧
    ¬W3c.ServicePortsExact "hole-punch" wrappedPort {} ∧
    ¬Oci.NetworkPortsExact wrappedNetwork {} := by
  have hsize : writtenSize wrappedSize = some 18446744074783293440 := by decide
  refine ⟨fun h => ?_, fun h => ?_, fun h => ?_, fun h => ?_⟩
  · have hkept := h 1073741824 (by decide)
    rw [hsize] at hkept
    exact absurd hkept (by decide)
  · have hkept := h { memoryQuota := some 1073741824 } (by decide) 1073741824 (by decide)
    rw [hsize] at hkept
    exact absurd hkept (by decide)
  · exact absurd (h .Public) (by decide)
  · exact absurd (h .Public) (by decide)

end Package
