import Ralf.Core.Error
import Ralf.Lib.CString

/-!
# The list of mapped devices

`DevMapper::mappedDevices` asks the kernel for the mapped devices. The answer is a chain of records
in the command buffer, each with a device number, the offset of the next record and a name.

The room for a name is taken for the record length less `sizeof(dm_name_list)`. That struct is
padded: its size is 16, and the name starts at byte 12. So the last bytes of a name can be cut off,
and the byte that ends it can be one of an earlier name, since one name buffer is in use for all.
`named_eq_iff` says for which lists no name is changed.
-/

namespace DmVerity

open CString

/-! ## The walk -/

/-- `DM_NAME_LEN`. -/
def dmNameLen : Nat := 128

/-- `DM_UUID_LEN`. -/
def dmUuidLen : Nat := 129

/-- `sizeof(dm_ioctl)`. -/
def dmIoctlSize : Nat := 312

/-- `sizeof(dm_name_list)`. -/
def dmNameListSize : Nat := 16

/-- `DM_IOCTL_DEFAULT_BUFFER_SIZE`. -/
def cmdBufferSize : Nat := 16 * 1024

/-- The command buffer for a command. The fields are the version, `data_size`, `data_start`, `flags`
with `DM_EXISTS_FLAG`, `name` and `uuid`. -/
def initialiseCmdBuf (name uuid : Bytes) : Bytes :=
  let buf : Bytes := List.replicate cmdBufferSize 0
  let buf := buf.overwrite 0 (Bytes.leBytes 4 4 ++ Bytes.leBytes 4 0 ++ Bytes.leBytes 4 0)
  let buf := buf.overwrite 12 (Bytes.leBytes 4 cmdBufferSize)
  let buf := buf.overwrite 16 (Bytes.leBytes 4 dmIoctlSize)
  let buf := buf.overwrite 28 (Bytes.leBytes 4 4)
  let buf := buf.overwrite 48 (name.take (dmNameLen - 1))
  buf.overwrite 176 (uuid.take (dmUuidLen - 1))

structure MappedDevice where
  deviceNumber : Nat
  name : Bytes
  deriving DecidableEq, Repr

/-- The devices that are found, and the ranges of the command buffer that are read for them. -/
structure Listing where
  devices : List MappedDevice
  reads : List (Nat × Nat)

/-- The room for the name of a record. -/
def maxNameLen (dataSize offset next : Nat) : Nat :=
  let maxNameLen :=
    if next = 0 then wrapSub64 (wrapSub64 dataSize offset) dmNameListSize
    else wrapSub64 next dmNameListSize
  if maxNameLen > dmNameLen then dmNameLen else maxNameLen

/-- The loop over the records. It goes on only to records at larger offsets. -/
def listRecords (cmd : Bytes) (dataSize : Nat) (nameBuf : Bytes) (offset : Nat) : Listing :=
  if _h : offset + dmNameListSize ≤ dataSize then
    let next := cmd.uint (offset + 8) 4
    let room := maxNameLen dataSize offset next
    let name := cmd.drop (offset + 12)
    let nameBuf := strncpy nameBuf name room
    let device : MappedDevice := ⟨cmd.uint offset 8, text nameBuf⟩
    let reads := [(offset, 8), (offset + 8, 4), (offset + 12, strncpyReads name room)]
    if _hnext : next = 0 then ⟨[device], reads⟩
    else
      let rest := listRecords cmd dataSize nameBuf (offset + next)
      ⟨device :: rest.devices, reads ++ rest.reads⟩
  else ⟨[], []⟩
  termination_by dataSize - offset
  decreasing_by
    unfold dmNameListSize at _h
    omega

/-- The connection to the device mapper. The kernel answers `DM_LIST_DEVICES` in the buffer. -/
structure DevMapper where
  isAvailable : Bool
  listDevices : Bytes → Int × Bytes
  errno : Nat
  listDevices_length : ∀ cmd, (listDevices cmd).2.length = cmd.length

/-- What `DM_LIST_DEVICES` returns, and the command buffer after it. -/
def DevMapper.answer (devMapper : DevMapper) : Int × Bytes :=
  devMapper.listDevices (initialiseCmdBuf [] [])

/-- Reads the answer of the kernel. -/
def readDeviceList (errno : Nat) (answer : Int × Bytes) : Result Listing :=
  let (rc, cmd) := answer
  let dataSize := cmd.uint 12 4
  let dataStart := cmd.uint 16 4
  if rc < 0 ∨ dataSize > cmdBufferSize ∨ dataStart > dataSize ∨ dataStart < dmIoctlSize then
    .error (.system errno "Failed to get list of mapped devices")
  else
    let nameBuf := List.replicate (dmNameLen + 1) 0
    let listing := listRecords cmd dataSize nameBuf dataStart
    .ok ⟨listing.devices, [(12, 4), (16, 4)] ++ listing.reads⟩

/-- `DevMapper::mappedDevices`. -/
def DevMapper.mappedDevices (devMapper : DevMapper) : Result Listing :=
  if !devMapper.isAvailable then
    .error (.ralf .dmVerityError "Device mapper is not available")
  else readDeviceList devMapper.errno devMapper.answer

/-! ## The layout of the kernel -/

/-- A mapped device and the padding after its name in its record. -/
structure DeviceRecord extends MappedDevice where
  padding : Bytes
  deviceNumber_lt : deviceNumber < 2 ^ 64
  name_pos : 0 < name.length
  name_lt : name.length < dmNameLen
  zero_notMem_name : 0 ∉ name
  /-- The record ends at a multiple of 8 bytes. -/
  padding_length : padding.length = (8 - (name.length + 13) % 8) % 8

namespace DeviceRecord

def length (record : DeviceRecord) : Nat := 12 + record.name.length + 1 + record.padding.length

/-- The bytes of a record. -/
def bytes (record : DeviceRecord) (next : Nat) : Bytes :=
  Bytes.leBytes 8 record.deviceNumber ++ (Bytes.leBytes 4 next ++
    (record.name ++ 0 :: record.padding))

/-- The room that `mappedDevices` has for the name. -/
def room (record : DeviceRecord) : Nat := (record.name.length + 4) / 8 * 8

@[simp] theorem length_bytes (record : DeviceRecord) (next : Nat) :
    (record.bytes next).length = record.length := by
  simp [bytes, length]
  omega

theorem length_eq (record : DeviceRecord) : record.length = 16 + record.room := by
  have hpadding := record.padding_length
  unfold length room
  omega

theorem room_le (record : DeviceRecord) : record.room ≤ dmNameLen := by
  have hname := record.name_lt
  unfold room
  unfold dmNameLen at hname ⊢
  omega

end DeviceRecord

/-- The records of a list of devices. -/
def packRecords : List DeviceRecord → Bytes
  | [] => []
  | [record] => record.bytes 0
  | record :: next :: rest => record.bytes record.length ++ packRecords (next :: rest)

/-- The kernel lists the devices: the answer holds their records. -/
structure DevMapper.Lists (devMapper : DevMapper) (records : List DeviceRecord) : Prop where
  isAvailable : devMapper.isAvailable = true
  ok : 0 ≤ devMapper.answer.1
  dataStart : dmIoctlSize ≤ devMapper.answer.2.uint 16 4
  dataSize : devMapper.answer.2.uint 12 4 =
    devMapper.answer.2.uint 16 4 + (packRecords records).length
  fits : devMapper.answer.2.uint 12 4 ≤ cmdBufferSize
  packed : devMapper.answer.2.slice (devMapper.answer.2.uint 16 4) (packRecords records).length =
    packRecords records

/-! ## The walk over the records -/

/-- The devices with the names that the name buffer holds for them. -/
def named : Bytes → List DeviceRecord → List MappedDevice
  | _, [] => []
  | nameBuf, record :: rest =>
    let nameBuf := strncpy nameBuf (record.name ++ [0]) record.room
    ⟨record.deviceNumber, text nameBuf⟩ :: named nameBuf rest

section
variable {cmd before rest : Bytes} {record : DeviceRecord} {next dataSize : Nat}

theorem uint_deviceNumber (hcmd : cmd = before ++ (record.bytes next ++ rest)) :
    cmd.uint before.length 8 = record.deviceNumber := by
  have hslice := @Bytes.slice_append_right before (record.bytes next ++ rest) 0 8
  rw [Nat.add_zero, ← hcmd] at hslice
  rw [Bytes.uint, hslice, DeviceRecord.bytes, List.append_assoc,
    Bytes.slice_append_eq (Bytes.leBytes_length 8 _)]
  exact Bytes.le_leBytes record.deviceNumber_lt

theorem uint_next (hcmd : cmd = before ++ (record.bytes next ++ rest)) (hnext : next < 2 ^ 32) :
    cmd.uint (before.length + 8) 4 = next := by
  have hslice := @Bytes.slice_append_right before (record.bytes next ++ rest) 8 4
  have hskip := @Bytes.slice_append_right (Bytes.leBytes 8 record.deviceNumber)
    (Bytes.leBytes 4 next ++ (record.name ++ 0 :: record.padding) ++ rest) 0 4
  rw [Bytes.leBytes_length] at hskip
  rw [Bytes.uint, hcmd, hslice, DeviceRecord.bytes, List.append_assoc, hskip, List.append_assoc,
    Bytes.slice_append_eq (Bytes.leBytes_length 4 _)]
  exact Bytes.le_leBytes hnext

theorem drop_name (hcmd : cmd = before ++ (record.bytes next ++ rest)) :
    cmd.drop (before.length + 12) = record.name ++ 0 :: (record.padding ++ rest) := by
  have hhead : (Bytes.leBytes 8 record.deviceNumber ++ Bytes.leBytes 4 next).length = 12 := by simp
  have hbytes : record.bytes next ++ rest =
      (Bytes.leBytes 8 record.deviceNumber ++ Bytes.leBytes 4 next) ++
        (record.name ++ 0 :: (record.padding ++ rest)) := by
    simp [DeviceRecord.bytes]
  rw [hcmd, ← List.drop_drop, List.drop_left, hbytes, List.drop_left' hhead]

/-- One step of the walk. -/
theorem listRecords_record (hcmd : cmd = before ++ (record.bytes next ++ rest))
    (hfits : before.length + record.length ≤ dataSize) (hsize : dataSize < 2 ^ 64)
    (hlast : next = 0 → dataSize = before.length + record.length)
    (hnext : next ≠ 0 → next = record.length) (nameBuf : Bytes) :
    ∃ reads, (∀ read ∈ reads, read.1 + read.2 ≤ dataSize) ∧
      listRecords cmd dataSize nameBuf before.length =
        let nameBuf := strncpy nameBuf (record.name ++ [0]) record.room
        let device : MappedDevice := ⟨record.deviceNumber, text nameBuf⟩
        if next = 0 then ⟨[device], reads⟩
        else
          let rest := listRecords cmd dataSize nameBuf (before.length + next)
          ⟨device :: rest.devices, reads ++ rest.reads⟩ := by
  have hlength := record.length_eq
  have hroom := record.room_le
  unfold dmNameLen at hroom
  have huint : cmd.uint (before.length + 8) 4 = next := by
    refine uint_next hcmd ?_
    by_cases hzero : next = 0
    · omega
    · have := hnext hzero
      omega
  have hmax : maxNameLen dataSize before.length next = record.room := by
    unfold maxNameLen dmNameListSize dmNameLen
    dsimp only
    by_cases hzero : next = 0
    · rw [if_pos hzero, wrapSub64_of_le (by omega) hsize, wrapSub64_of_le (by omega) (by omega),
        if_neg (by have := hlast hzero; omega)]
      have := hlast hzero
      omega
    · have := hnext hzero
      rw [if_neg hzero, wrapSub64_of_le (by omega) (by omega), if_neg (by omega)]
      omega
  have hreads := strncpyReads_le record.zero_notMem_name (record.padding ++ rest) record.room
  have hnamed : record.length = 12 + record.name.length + 1 + record.padding.length := rfl
  refine ⟨[(before.length, 8), (before.length + 8, 4), (before.length + 12,
    strncpyReads (record.name ++ 0 :: (record.padding ++ rest)) record.room)], ?_, ?_⟩
  · simp only [List.forall_mem_cons, List.not_mem_nil, false_implies, implies_true, and_true]
    omega
  · rw [listRecords, dif_pos (by unfold dmNameListSize; omega), uint_deviceNumber hcmd, huint]
    dsimp only
    rw [hmax, drop_name hcmd,
      strncpy_congr record.zero_notMem_name nameBuf (record.padding ++ rest) []]
    rfl

end

/-- The walk finds every record, and it stays inside the data. -/
theorem listRecords_packed (records : List DeviceRecord) (before after nameBuf : Bytes)
    (hsize : before.length + (packRecords records).length < 2 ^ 64) :
    let listing := listRecords (before ++ (packRecords records ++ after))
      (before.length + (packRecords records).length) nameBuf before.length
    listing.devices = named nameBuf records ∧
      ∀ read ∈ listing.reads, read.1 + read.2 ≤ before.length + (packRecords records).length := by
  induction records generalizing before nameBuf with
  | nil =>
    rw [listRecords, dif_neg (by unfold dmNameListSize packRecords; simp)]
    exact ⟨rfl, nofun⟩
  | cons record rest ih =>
    cases rest with
    | nil =>
      have hstep := @listRecords_record
        (before ++ (packRecords [record] ++ after)) before after record 0
        (before.length + (packRecords [record]).length) rfl (by simp [packRecords]) hsize
        (fun _ => by simp [packRecords]) (fun h => absurd rfl h) nameBuf
      obtain ⟨reads, hreads, heq⟩ := hstep
      rw [heq]
      exact ⟨rfl, hreads⟩
    | cons next rest =>
      have hlength : (packRecords (record :: next :: rest)).length =
          record.length + (packRecords (next :: rest)).length := by
        simp [packRecords]
      have hpos : record.length ≠ 0 := by
        rw [record.length_eq]
        omega
      have hcmd : before ++ (packRecords (record :: next :: rest) ++ after) =
          before ++ (record.bytes record.length ++ (packRecords (next :: rest) ++ after)) := by
        simp [packRecords]
      obtain ⟨reads, hreads, heq⟩ := listRecords_record hcmd
        (show before.length + record.length ≤
          before.length + (packRecords (record :: next :: rest)).length by omega) hsize
        (fun h => absurd h hpos) (fun _ => rfl) nameBuf
      have hrest := ih (before ++ record.bytes record.length)
        (strncpy nameBuf (record.name ++ [0]) record.room) (by simp; omega)
      rw [List.length_append, DeviceRecord.length_bytes, List.append_assoc, Nat.add_assoc,
        ← hlength, ← hcmd] at hrest
      rw [heq, if_neg hpos]
      exact ⟨congrArg _ hrest.1, List.forall_mem_append.mpr ⟨hreads, hrest.2⟩⟩

/-! ## The names -/

/-- What names of some lengths leave in the name buffer: in each block of 8 bytes that one of them
reached, the first 4 bytes are in the name. -/
def Left (lengths : List Nat) (nameBuf : Bytes) : Prop :=
  ∀ p, p % 8 < 4 → (nameBuf.getD p 0 ≠ 0 ↔ ∃ n ∈ lengths, p / 8 * 8 + 4 ≤ n)

theorem left_zeros (n : Nat) : Left [] (List.replicate n 0) := by
  intro p _
  refine iff_of_false (not_not.mpr ?_) (by simp)
  rw [List.getD_eq_getElem?_getD, List.getElem?_replicate]
  split <;> rfl

theorem Left.strncpy {lengths : List Nat} {nameBuf : Bytes} (h : Left lengths nameBuf)
    (record : DeviceRecord) :
    Left (record.name.length :: lengths)
      (strncpy nameBuf (record.name ++ [0]) record.room) := by
  intro p hp
  rw [strncpy_getD record.zero_notMem_name, List.exists_mem_cons_iff]
  unfold DeviceRecord.room
  split
  · next hroom =>
    have hlt : p < record.name.length := by omega
    refine iff_of_true (fun hzero => record.zero_notMem_name ?_) (.inl (by omega))
    rw [List.getD_eq_getElem _ _ hlt] at hzero
    exact hzero ▸ List.getElem_mem hlt
  · next hroom =>
    rw [h p hp, or_iff_right (by omega)]

/-- A name comes out of the buffer as it is exactly if its NUL byte is copied, or it ends at a block
that no earlier name reached. -/
theorem text_strncpy_iff {lengths : List Nat} {nameBuf : Bytes} (h : Left lengths nameBuf)
    (record : DeviceRecord) :
    text (CString.strncpy nameBuf (record.name ++ [0]) record.room) = record.name ↔
      4 ≤ record.name.length % 8 ∨ record.name.length % 8 = 0 ∧
        ∀ n ∈ lengths, n < record.name.length + 4 := by
  have hget := strncpy_getD record.zero_notMem_name nameBuf [] record.room
  have hnul : record.name.getD record.name.length 0 = 0 := by simp
  rw [text_eq_iff record.zero_notMem_name]
  simp only [hget, hnul]
  unfold DeviceRecord.room
  rcases Nat.lt_or_ge (record.name.length % 8) 4 with hlow | hhigh
  · have hend := h record.name.length hlow
    rw [if_neg (by omega)]
    rcases Nat.eq_zero_or_pos (record.name.length % 8) with hzero | hpos
    · have hall : ∀ p < record.name.length, (if p < (record.name.length + 4) / 8 * 8 then
          record.name.getD p 0 else nameBuf.getD p 0) = record.name.getD p 0 := by
        intro p hp
        rw [if_pos (by omega)]
      rw [and_iff_right hall, or_iff_right (by omega), and_iff_right hzero, ← not_iff_not, ← ne_eq,
        hend]
      push Not
      refine exists_congr fun n => and_congr_right fun _ => ?_
      omega
    · -- the first byte that is cut off is in a block of which the byte at the end is none
      refine iff_of_false (fun ⟨hall, hzero⟩ => ?_) (by omega)
      have hcut := hall (record.name.length / 8 * 8) (by omega)
      rw [if_neg (by omega)] at hcut
      have hlt : record.name.length / 8 * 8 < record.name.length := by omega
      have hne : nameBuf.getD (record.name.length / 8 * 8) 0 ≠ 0 := by
        rw [hcut, List.getD_eq_getElem _ _ hlt]
        exact fun hzero => record.zero_notMem_name (hzero ▸ List.getElem_mem hlt)
      rw [h _ (by omega)] at hne
      refine absurd hzero (hend.mpr ?_)
      obtain ⟨n, hn, hle⟩ := hne
      exact ⟨n, hn, by omega⟩
  · refine iff_of_true ⟨fun p hp => if_pos (by omega), if_pos (by omega)⟩ (.inl hhigh)

/-- Every name ends in the upper half of a block of 8 bytes, or at the end of a block that no
earlier name reached the upper half of. -/
def NamesKept (records : List DeviceRecord) : Prop :=
  (∀ record ∈ records, record.name.length % 8 = 0 ∨ 4 ≤ record.name.length % 8) ∧
    records.Pairwise fun earlier record =>
      record.name.length % 8 = 0 → earlier.name.length < record.name.length + 4

/-- The names that come out of the buffer are those of the records. -/
theorem named_eq_iff {lengths : List Nat} {nameBuf : Bytes} (h : Left lengths nameBuf)
    (records : List DeviceRecord) :
    named nameBuf records = records.map DeviceRecord.toMappedDevice ↔
      NamesKept records ∧ ∀ record ∈ records, record.name.length % 8 = 0 →
        ∀ n ∈ lengths, n < record.name.length + 4 := by
  induction records generalizing lengths nameBuf with
  | nil => exact iff_of_true rfl ⟨⟨nofun, List.Pairwise.nil⟩, nofun⟩
  | cons record rest ih =>
    have hrecord := text_strncpy_iff h record
    have hdevice : (⟨record.deviceNumber, text (CString.strncpy nameBuf (record.name ++ [0])
        record.room)⟩ : MappedDevice) = record.toMappedDevice ↔
          text (CString.strncpy nameBuf (record.name ++ [0]) record.room) = record.name := by
      rw [show record.toMappedDevice = ⟨record.deviceNumber, record.name⟩ from rfl,
        MappedDevice.mk.injEq, and_iff_right rfl]
    rw [named, List.map_cons, List.cons.injEq, hdevice, hrecord, ih (h.strncpy record)]
    unfold NamesKept
    rw [List.pairwise_cons, List.forall_mem_cons, List.forall_mem_cons]
    constructor
    · rintro ⟨hkept, ⟨hall, hpairs⟩, hlengths⟩
      refine ⟨⟨⟨by tauto, hall⟩, ⟨fun later hmem hzero => ?_, hpairs⟩⟩, fun hzero => ?_,
        fun later hmem hzero n hn => ?_⟩
      · exact hlengths later hmem hzero _ List.mem_cons_self
      · exact (hkept.resolve_left (by omega)).2
      · exact hlengths later hmem hzero n (List.mem_cons_of_mem _ hn)
    · rintro ⟨⟨⟨hkept, hall⟩, ⟨hlater, hpairs⟩⟩, hfirst, hlengths⟩
      refine ⟨?_, ⟨hall, hpairs⟩, fun later hmem hzero => List.forall_mem_cons.mpr ?_⟩
      · rcases hkept with hzero | hhigh
        · exact .inr ⟨hzero, hfirst hzero⟩
        · exact .inl hhigh
      · exact ⟨hlater later hmem hzero, hlengths later hmem hzero⟩

/-! ## The list -/

theorem length_initialiseCmdBuf (name uuid : Bytes) :
    (initialiseCmdBuf name uuid).length = cmdBufferSize := by
  have hstore : ∀ {buf data : Bytes} {pos : Nat}, buf.length = cmdBufferSize →
      pos + data.length ≤ dmIoctlSize → (buf.overwrite pos data).length = cmdBufferSize := by
    intro buf data pos hbuf hle
    have hsize : dmIoctlSize ≤ cmdBufferSize := by decide
    rw [Bytes.overwrite_length (by omega), hbuf]
  unfold initialiseCmdBuf
  refine hstore (hstore (hstore (hstore (hstore (hstore List.length_replicate ?_) ?_) ?_) ?_) ?_) ?_
  all_goals
    simp [dmIoctlSize, dmNameLen, dmUuidLen]
    try omega

theorem append_of_slice {cmd packed : Bytes} {start : Nat}
    (h : cmd.slice start packed.length = packed) :
    cmd.take start ++ (packed ++ (cmd.drop start).drop packed.length) = cmd := by
  have hdrop : packed ++ (cmd.drop start).drop packed.length = cmd.drop start := by
    conv_rhs => rw [← List.take_append_drop packed.length (cmd.drop start)]
    exact congrArg (· ++ _) h.symm
  rw [hdrop, List.take_append_drop]

/-- The devices that are returned. -/
theorem mappedDevices_lists {devMapper : DevMapper} {records : List DeviceRecord}
    (h : devMapper.Lists records) :
    ∃ reads, devMapper.mappedDevices =
        .ok ⟨named (List.replicate (dmNameLen + 1) 0) records, reads⟩ ∧
      ∀ read ∈ reads, read.1 + read.2 ≤ devMapper.answer.2.uint 12 4 := by
  have hdataStart := h.dataStart
  have hfits := h.fits
  have hsize := h.dataSize
  have hlength : devMapper.answer.2.length = cmdBufferSize := by
    unfold DevMapper.answer
    rw [devMapper.listDevices_length, length_initialiseCmdBuf]
  have hmax : cmdBufferSize < 2 ^ 64 := by decide
  have hbefore : (devMapper.answer.2.take (devMapper.answer.2.uint 16 4)).length =
      devMapper.answer.2.uint 16 4 := by
    rw [List.length_take]
    omega
  have hwalk := listRecords_packed records
    (devMapper.answer.2.take (devMapper.answer.2.uint 16 4))
    ((devMapper.answer.2.drop (devMapper.answer.2.uint 16 4)).drop (packRecords records).length)
    (List.replicate (dmNameLen + 1) 0) (by omega)
  rw [append_of_slice h.packed, hbefore, ← hsize] at hwalk
  unfold DevMapper.mappedDevices readDeviceList
  dsimp only
  rw [h.isAvailable, if_neg (by decide), if_neg]
  · refine ⟨_, congrArg (fun devices => Except.ok (Listing.mk devices _)) hwalk.1, ?_⟩
    refine List.forall_mem_append.mpr ⟨?_, hwalk.2⟩
    unfold dmIoctlSize at hdataStart
    simp only [List.forall_mem_cons, List.not_mem_nil, false_implies, implies_true, and_true]
    omega
  · rw [not_or, not_or, not_or, not_lt, not_lt, not_lt, not_lt]
    exact ⟨h.ok, hfits, by omega, hdataStart⟩

/-- The list is that of the records exactly if no name is changed. -/
theorem mappedDevices_eq_iff {devMapper : DevMapper} {records : List DeviceRecord}
    (h : devMapper.Lists records) :
    (∃ reads, devMapper.mappedDevices =
        .ok ⟨records.map DeviceRecord.toMappedDevice, reads⟩ ∧
      ∀ read ∈ reads, read.1 + read.2 ≤ devMapper.answer.2.uint 12 4) ↔ NamesKept records := by
  obtain ⟨reads, heq, hreads⟩ := mappedDevices_lists h
  have hnamed := named_eq_iff (left_zeros (dmNameLen + 1)) records
  rw [and_iff_left fun _ _ _ => nofun] at hnamed
  rw [← hnamed, heq]
  constructor
  · rintro ⟨reads', heq', -⟩
    exact congrArg Listing.devices (Except.ok.inj heq')
  · intro hnames
    exact ⟨reads, congrArg (fun devices => Except.ok (Listing.mk devices reads)) hnames, hreads⟩

/-! ## Every list that fits can be the answer -/

/-- The fields of the answer in front of the records. -/
def answerHeader (dataSize : Nat) : Bytes :=
  List.replicate 12 0 ++ (Bytes.leBytes 4 dataSize ++ (Bytes.leBytes 4 dmIoctlSize ++
    List.replicate 292 0))

@[simp] theorem length_answerHeader (dataSize : Nat) :
    (answerHeader dataSize).length = dmIoctlSize := by
  simp only [answerHeader, List.length_append, List.length_replicate, Bytes.leBytes_length]
  rfl

theorem answerHeader_dataSize {dataSize : Nat} (h : dataSize < 2 ^ 32) (rest : Bytes) :
    (answerHeader dataSize ++ rest).uint 12 4 = dataSize := by
  have hskip := @Bytes.slice_append_right (List.replicate 12 0)
    (Bytes.leBytes 4 dataSize ++ (Bytes.leBytes 4 dmIoctlSize ++ List.replicate 292 0)) 0 4
  rw [List.length_replicate, Bytes.slice_append_eq (Bytes.leBytes_length 4 _)] at hskip
  rw [Bytes.uint, Bytes.slice_append_left (by rw [length_answerHeader]; decide), answerHeader]
  exact (congrArg Bytes.le hskip).trans (Bytes.le_leBytes h)

theorem answerHeader_dataStart (dataSize : Nat) (rest : Bytes) :
    (answerHeader dataSize ++ rest).uint 16 4 = dmIoctlSize := by
  have hskip := @Bytes.slice_append_right (List.replicate 12 0 ++ Bytes.leBytes 4 dataSize)
    (Bytes.leBytes 4 dmIoctlSize ++ List.replicate 292 0) 0 4
  rw [List.length_append, List.length_replicate, Bytes.leBytes_length, List.append_assoc,
    Bytes.slice_append_eq (Bytes.leBytes_length 4 _)] at hskip
  rw [Bytes.uint, Bytes.slice_append_left (by rw [length_answerHeader]; decide), answerHeader]
  exact (congrArg Bytes.le hskip).trans (Bytes.le_leBytes (by decide))

/-- The answer that holds the records. -/
def packAnswer (records : List DeviceRecord) : Bytes :=
  let dataSize := dmIoctlSize + (packRecords records).length
  answerHeader dataSize ++ (packRecords records ++ List.replicate (cmdBufferSize - dataSize) 0)

theorem length_packAnswer {records : List DeviceRecord}
    (hfits : dmIoctlSize + (packRecords records).length ≤ cmdBufferSize) :
    (packAnswer records).length = cmdBufferSize := by
  simp only [packAnswer, List.length_append, length_answerHeader, List.length_replicate]
  omega

/-- A device mapper that lists the devices. -/
def DevMapper.listing (records : List DeviceRecord)
    (hfits : dmIoctlSize + (packRecords records).length ≤ cmdBufferSize) : DevMapper where
  isAvailable := true
  listDevices cmd := if cmd.length = cmdBufferSize then (0, packAnswer records) else (-1, cmd)
  errno := 0
  listDevices_length cmd := by
    split
    · next hcmd => rw [length_packAnswer hfits, hcmd]
    · rfl

/-- Every list of records that fits the command buffer can be the answer. -/
theorem DevMapper.listing_lists (records : List DeviceRecord)
    (hfits : dmIoctlSize + (packRecords records).length ≤ cmdBufferSize) :
    (DevMapper.listing records hfits).Lists records := by
  have hanswer : (DevMapper.listing records hfits).answer = (0, packAnswer records) := by
    simp only [DevMapper.answer, DevMapper.listing, length_initialiseCmdBuf, if_true]
  have hmax : cmdBufferSize < 2 ^ 32 := by decide
  have hsize : (packAnswer records).uint 12 4 = dmIoctlSize + (packRecords records).length :=
    answerHeader_dataSize (Nat.lt_of_le_of_lt hfits hmax) _
  have hstart : (packAnswer records).uint 16 4 = dmIoctlSize := answerHeader_dataStart _ _
  have hpacked : (packAnswer records).slice dmIoctlSize (packRecords records).length =
      packRecords records := by
    have hskip := @Bytes.slice_append_right
      (answerHeader (dmIoctlSize + (packRecords records).length))
      (packRecords records ++ List.replicate (cmdBufferSize -
        (dmIoctlSize + (packRecords records).length)) 0) 0 (packRecords records).length
    rw [length_answerHeader, Bytes.slice_append_eq rfl] at hskip
    exact hskip
  refine ⟨rfl, ?_, ?_, ?_, ?_, ?_⟩ <;> rw [hanswer] <;> dsimp only
  · rw [hstart]
  · rw [hsize, hstart]
  · rw [hsize]
    exact hfits
  · rw [hstart, hpacked]

end DmVerity
