import Ralf.DmVerity.DeviceList
import Ralf.Lib.Fields

/-!
# The names of new devices

`createDeviceNameAndUuid` makes up a name for a device, with letters drawn from the time of day, and
compares it with the names in the list of mapped devices. What it returns is new exactly as far as
the list is right: `mappedDevices_exact_iff` says for which devices the list is.
-/

namespace DmVerity

open CString

/-! ## Names -/

def ascii (chars : List Char) : Bytes := chars.map fun c => UInt8.ofNat c.toNat

def letters : Bytes :=
  ascii "abcdefghijklmnopqrstuvwxyzABCDEFGHIJKLMNOPQRSTUVWXYZ0123456789".toList

def bytesToHexString (bytes : Bytes) : Bytes := ascii (Fields.hex bytes)

/-- The letters for a value. The value is divided after each letter but the last. -/
def randomChars (value : Nat) : Bytes × Nat :=
  ((List.range 6).map fun i => letters.getD (value / 62 ^ i % 62) 0, value / 62 ^ 5)

/-- The name, as `snprintf` writes it to a buffer of 128 bytes. -/
def volumeName (idStr randomChars : Bytes) : Bytes :=
  (ascii "ralf--".toList ++ idStr ++ ascii "--".toList ++ randomChars).take 127

def volumeUuid (uuidStr idStr randomChars : Bytes) : Bytes :=
  (ascii "ralf-".toList ++ uuidStr ++ ascii "-".toList ++ idStr ++ ascii "-".toList ++
    randomChars).take 127

/-- The loop over the attempts. -/
def tryNames (existingDeviceNames : List Bytes) (uuidStr idStr : Bytes) :
    Nat → Nat → Option (Bytes × Bytes)
  | 0, _ => none
  | attempts + 1, value =>
    let (randomChars, value) := randomChars value
    if volumeName idStr randomChars ∉ existingDeviceNames then
      some (volumeName idStr randomChars, volumeUuid uuidStr idStr randomChars)
    else tryNames existingDeviceNames uuidStr idStr attempts (wrap64 (value + 7777))

/-- A time of day. -/
structure Timeval where
  sec : Nat
  usec : Nat

def Timeval.value (tv : Timeval) : Nat := wrap64 (tv.usec * 2 ^ 16) ^^^ wrap64 tv.sec

/-- A name that no existing device has, and a UUID. At most 64 bytes of `id` are used. -/
def chooseNameAndUuid (existingDevices : Listing) (id uuid : Bytes) (tv : Timeval) :
    Result (Bytes × Bytes) :=
  match tryNames (existingDevices.devices.map MappedDevice.name) (bytesToHexString (uuid.take 16))
    (text (id.take 64)) 100 tv.value with
  | some found => .ok found
  | none =>
    .error (.ralf .dmVerityError
      "Failed to create unique device name and/or uuid after 100 attempts")

/-- The name and the UUID for a new device. -/
def createDeviceNameAndUuid (devMapper : DevMapper) (id uuid : Bytes) (tv : Timeval) :
    Result (Bytes × Bytes) :=
  match devMapper.mappedDevices with
  | .error error => .error error
  | .ok existingDevices => chooseNameAndUuid existingDevices id uuid tv

/-- An attempt only ends with a name that is not in the list. -/
theorem tryNames_notMem {names : List Bytes} {uuidStr idStr : Bytes} {attempts value : Nat}
    {found : Bytes × Bytes} (h : tryNames names uuidStr idStr attempts value = some found) :
    found.1 ∉ names := by
  induction attempts generalizing value with
  | zero => cases h
  | succ attempts ih =>
    rw [tryNames] at h
    dsimp only at h
    split at h
    · next hnew =>
      cases h
      exact hnew
    · exact ih h

/-! ## New names -/

/-- The list is that of the devices, only data of the answer is read for it, and no name for a new
device is one of theirs. -/
structure DevMapper.ListsExactly (devMapper : DevMapper) (records : List DeviceRecord) : Prop where
  listed : ∃ reads, devMapper.mappedDevices =
      .ok ⟨records.map DeviceRecord.toMappedDevice, reads⟩ ∧
    ∀ read ∈ reads, read.1 + read.2 ≤ devMapper.answer.2.uint 12 4
  fresh : ∀ id uuid tv found, createDeviceNameAndUuid devMapper id uuid tv = .ok found →
    ∀ record ∈ records, record.name ≠ found.1

theorem createDeviceNameAndUuid_fresh {devMapper : DevMapper} {records : List DeviceRecord}
    {reads : List (Nat × Nat)} (h : devMapper.mappedDevices =
      .ok ⟨records.map DeviceRecord.toMappedDevice, reads⟩) {id uuid : Bytes} {tv : Timeval}
    {found : Bytes × Bytes} (hfound : createDeviceNameAndUuid devMapper id uuid tv = .ok found) :
    ∀ record ∈ records, record.name ≠ found.1 := by
  intro record hmem heq
  unfold createDeviceNameAndUuid chooseNameAndUuid at hfound
  rw [h] at hfound
  dsimp only at hfound
  split at hfound
  · next hnew =>
    cases hfound
    refine tryNames_notMem hnew ?_
    rw [← heq, List.map_map]
    exact List.mem_map_of_mem hmem
  · cases hfound

/-- Exactly if every name ends in the upper half of a block of 8 bytes, or at the end of a block
that no earlier name reached the upper half of. -/
theorem mappedDevices_exact_iff {devMapper : DevMapper} {records : List DeviceRecord}
    (h : devMapper.Lists records) : devMapper.ListsExactly records ↔ NamesKept records := by
  rw [← mappedDevices_eq_iff h]
  constructor
  · intro hexact
    exact hexact.listed
  · rintro ⟨reads, hlisted, hreads⟩
    exact ⟨⟨reads, hlisted, hreads⟩, fun _ _ _ _ => createDeviceNameAndUuid_fresh hlisted⟩

/-- A record with a name of letters. -/
def letterRecord (deviceNumber : Nat) (name : List Char) (hnumber : deviceNumber < 2 ^ 64)
    (hname : 0 < name.length ∧ name.length < dmNameLen) (hzero : 0 ∉ ascii name) :
    DeviceRecord where
  deviceNumber := deviceNumber
  name := ascii name
  padding := List.replicate ((8 - ((ascii name).length + 13) % 8) % 8) 0
  deviceNumber_lt := hnumber
  name_pos := by rw [ascii, List.length_map]; exact hname.1
  name_lt := by rw [ascii, List.length_map]; exact hname.2
  zero_notMem_name := hzero
  padding_length := List.length_replicate

def vgRoot : DeviceRecord :=
  letterRecord 64768 "vg-root".toList (by decide) (by decide) (by decide)

theorem mappedDevices_exact_vgRoot :
    (DevMapper.listing [vgRoot] (by decide)).Lists [vgRoot] ∧
      (DevMapper.listing [vgRoot] (by decide)).ListsExactly [vgRoot] :=
  ⟨DevMapper.listing_lists _ _, (mappedDevices_exact_iff (DevMapper.listing_lists _ _)).mpr
    ⟨by decide, List.pairwise_singleton _ _⟩⟩

/-- A device that was mounted for a package: 17 bytes. -/
def ralfApp : DeviceRecord :=
  letterRecord 64769 "ralf--app--aaaaaa".toList (by decide) (by decide) (by decide)

/-- The last letter of a name of 17 bytes is missing in the list. -/
theorem not_mappedDevices_exact :
    ¬ ∀ devMapper records, DevMapper.Lists devMapper records → devMapper.ListsExactly records := by
  intro h
  have hlists := DevMapper.listing_lists [ralfApp] (by decide)
  have hkept := (mappedDevices_eq_iff hlists).mp (h _ _ hlists).listed
  exact absurd (hkept.1 ralfApp List.mem_cons_self) (by decide)

end DmVerity
