import Ralf.DmVerity.KernelObjects
import Ralf.DmVerity.Mounter

/-!
# Mounting an image

`DmVerityMounterLinux::doMount` and what it calls, as programs that make calls to the kernel: it
attaches the image to a loop device, maps the loop device with dm-verity, and mounts the mapped
device. Each step that fails undoes those before it.
-/

namespace DmVerity

namespace Mounter

open Calls Prog

/-- A program of the mounter. -/
abbrev Script (α : Type) := Prog Call Call.Answer α

abbrev syscall (call : Call) : Script call.Answer := ask call

/-- Gives up with the last error number. -/
def failErrno {α : Type} (what : String) : Script (Result α) := do
  let errno ← syscall .errno
  return .error (.system errno what)

def dmVerityError {α : Type} (what : String) : Result α := .error (.ralf .dmVerityError what)

/-! ## Flags -/

namespace MountFlag

def readOnly : Nat := 2 ^ 0
def noSuid : Nat := 2 ^ 1
def noDevice : Nat := 2 ^ 2
def noExec : Nat := 2 ^ 3
def directIO : Nat := 2 ^ 16
def noAutoClear : Nat := 2 ^ 17
def uDevSync : Nat := 2 ^ 24

end MountFlag

def hasFlag (flags flag : Nat) : Bool := flags &&& flag = flag

/-- `MS_RDONLY`, `MS_NODEV`, `MS_NOSUID` and `MS_NOEXEC`. -/
def mountFlags (flags : Nat) : Nat :=
  1 ||| (if hasFlag flags MountFlag.noDevice then 4 else 0) |||
    (if hasFlag flags MountFlag.noSuid then 2 else 0) |||
    (if hasFlag flags MountFlag.noExec then 8 else 0)

def fsTypeName : FileSystemType → String
  | .erofs => "erofs"
  | .squashfs => "squashfs"
  | .ext3 => "ext3"
  | .ext4 => "ext4"

/-! ## The loop device -/

/-- Finds a free loop device. -/
def getFreeLoopDevice : Script (Result Nat) := do
  if !(← syscall .openLoopControl) then
    failErrno "Failed to open loop-control dev node"
  else
    match ← syscall .loopCtlGetFree with
    | none => failErrno "Failed to get available free loop device"
    | some number =>
      if !(← syscall (.statLoop number)) then
        failErrno s!"Failed to access loop device at '/dev/loop{number}'"
      else return .ok number

def ebusy : Nat := 16

/-- One try to get a loop device: a descriptor and the number of an attached one. There is no result
when another process was faster. -/
def claimLoopDevice (imageFd flags : Nat) : Script (Option (Result (Nat × Nat))) := do
  match ← getFreeLoopDevice with
  | .error error => return some (.error error)
  | .ok number =>
    match ← syscall (.openLoop number (hasFlag flags MountFlag.readOnly)) with
    | none =>
      let failed ← failErrno s!"Failed to open loop device at '/dev/loop{number}'"
      return some failed
    | some loopDevFd =>
      if ← syscall (.loopSetFd loopDevFd imageFd) then return some (.ok (loopDevFd, number))
      else
        let err ← syscall .errno
        let _ ← syscall (.close loopDevFd)
        -- the path was cleared before it gets into the message
        if err ≠ ebusy then
          let failed ← failErrno "LOOP_SET_FD ioctl failed on @ ''"
          return some failed
        else return none

/-- Clears a loop device that could not be set up. -/
def clearLoopDevice (loopDevFd : Nat) (what : String) : Script (Result Nat) := do
  let errno ← syscall .errno
  let _ ← syscall (.loopClrFd loopDevFd)
  let _ ← syscall (.close loopDevFd)
  return .error (.system errno what)

/-- Sets a loop device up. It always gets the auto-clear flag. -/
def setUpLoopDevice (loopDevFd number : Nat) (fileRange : FileRange) (flags : Nat) :
    Script (Result Nat) := do
  if !(← syscall (.loopSetStatus loopDevFd fileRange.offset fileRange.size)) then
    clearLoopDevice loopDevFd s!"Failed to set the loopdevice flags on @ '/dev/loop{number}'"
  else if hasFlag flags MountFlag.directIO then
    if !(← syscall (.loopSetDirectIo loopDevFd)) then
      clearLoopDevice loopDevFd
        s!"Failed to set the loopdevice directio flag on @ '/dev/loop{number}'"
    else return .ok loopDevFd
  else return .ok loopDevFd

/-- Attaches the image to a free loop device, and gives a descriptor of it. -/
def loopDeviceAttach (imageFd : Nat) (fileRange : FileRange) (flags : Nat) :
    Script (Result Nat) := do
  match ← repeatUntil (claimLoopDevice imageFd flags) with
  | .error error => return .error error
  | .ok (loopDevFd, number) => setUpLoopDevice loopDevFd number fileRange flags

/-! ## The mapped device -/

/-- The control device can be opened, and it has version 4.6 or a later one. -/
def openDevMapper : Script Bool := do
  if !(← syscall .openControl) then return false
  else
    match ← syscall .dmVersion with
    | none => return false
    | some (major, minor, _) => return 4 < major ∨ major = 4 ∧ 6 ≤ minor

/-- `sizeof(dm_target_spec)`. -/
def dmTargetSpecSize : Nat := 40

def removeDevice (name : Bytes) (deferred : Bool) : Script (Result Unit) := do
  if ← syscall (.dmDevRemove name deferred) then return .ok ()
  else failErrno "Failed to remove device mapper dm-verity device"

/-- Creates the device and loads its table. -/
def createDevice (dataSize : Nat) (deviceName deviceUuid : Bytes) (targetType : String)
    (targetParams : List Char) (readOnly : Bool) : Script (Result Unit) := do
  if targetParams.length ≥ cmdBufferSize - dmIoctlSize - dmTargetSpecSize then
    return dmVerityError "devmapper target parameters are too large"
  else
    match ← syscall (.dmDevCreate deviceName deviceUuid) with
    | none => failErrno "Failed to create device mapper dm-verity device"
    | some _ =>
      if ← syscall (.dmTableLoad deviceName (dataSize / 512) targetType targetParams readOnly) then
        return .ok ()
      else
        let _ ← removeDevice deviceName false
        failErrno "Failed to load table for dm-verity device in devmapper"

def startUDevSync (useUDevSync : Bool) : Script (Option Nat) :=
  if useUDevSync then syscall .createCookie else pure none

def waitUDevSync : Option Nat → Script Unit
  | none => pure ()
  | some cookie => do
    let _ ← syscall (.waitCookie cookie)
    return ()

/-- Resumes the device, and gives its number. -/
def activateDevice (name : Bytes) (readOnly useUDevSync : Bool) : Script (Result DevNum) := do
  let cookie ← startUDevSync useUDevSync
  match ← syscall (.dmDevSuspend name readOnly cookie) with
  | none => failErrno "Failed to activate device mapper dm-verity device"
  | some dev =>
    waitUDevSync cookie
    return .ok dev

/-- Looks for a block device among entries of `/dev`. -/
def findDevEntry (dev : DevNum) : List String → Script (Option String)
  | [] => return none
  | path :: rest => do
    if (← syscall (.stat path)) = some dev then return some path
    else findDevEntry dev rest

/-- The attempts to find a device node. -/
def findDeviceNodeIn (dev : DevNum) : Nat → Script (Result String)
  | 0 => failErrno s!"devmapper failed to find mapped block device {dev.1}:{dev.2}"
  | attempts + 1 => do
    let blockDevPath := s!"/dev/block/{dev.1}:{dev.2}"
    if (← syscall (.stat blockDevPath)) = some dev then return .ok blockDevPath
    else
      match ← findDevEntry dev (← syscall .devEntries) with
      | some path => return .ok path
      | none => findDeviceNodeIn dev attempts

def findDeviceNode (dev : DevNum) : Script (Result String) := findDeviceNodeIn dev 5

/-- A name without `/` that fits, and a UUID that fits. -/
def checkDeviceNameAndUuid (name uuid : Bytes) : Result Unit :=
  if name.length ≥ dmNameLen ∨ 0x2f ∈ name then
    dmVerityError "Invalid device name for devmapper"
  else if uuid.length ≥ dmUuidLen then dmVerityError "Invalid device uuid for devmapper"
  else .ok ()

/-- `DevMapper::readDmVeritySuperBlock`. -/
def readLoopSuperBlock (devFd hashesOffset : Nat) : Script (Result VeritySuperBlock) := do
  match ← syscall (.preadLoop devFd 4096 hashesOffset) with
  | .error _ => failErrno "Failed to read image file"
  | .data buf =>
    if buf.length ≠ 4096 then failErrno "Failed to read image file"
    else
      let superBlock := VeritySuperBlock.ofBytes buf
      match checkSuperBlock superBlock with
      | .error error => return .error error
      | .ok () => return .ok superBlock

/-- The part of `mapWithVerity` that makes a device, activates it and looks for its node. -/
def mapTable (name uuid : Bytes) (dataSize : Nat) (targetParams : List Char) (useUDevSync : Bool) :
    Script (Result String) := do
  match ← createDevice dataSize name uuid "verity" targetParams true with
  | .error error => return .error error
  | .ok () =>
    match ← activateDevice name true useUDevSync with
    | .error error =>
      let _ ← removeDevice name false
      return .error error
    | .ok dev =>
      match ← findDeviceNode dev with
      | .error error =>
        let _ ← removeDevice name false
        return .error error
      | .ok devNodePath => return .ok devNodePath

/-- Maps a loop device with dm-verity, and gives the path of the mapped device. The device mapper is
open. -/
def mapWithVerity (devFd : Nat) (name uuid : Bytes) (hashOffset dataSize : Nat) (rootHash : Bytes)
    (useUDevSync : Bool) : Script (Result String) := do
  match checkDeviceNameAndUuid name uuid with
  | .error error => return .error error
  | .ok () =>
    if rootHash.length ≠ 32 then
      return dmVerityError "Invalid root hash size, only SHA256 is supported"
    else if name = [] ∧ uuid = [] then
      return dmVerityError "Must supply a device name and/or uuid to map a device"
    else
      match ← syscall (.fstat devFd) with
      | none => failErrno "Failed to get loop device stat"
      | some (false, _) => return dmVerityError "Supplied loop device is not a block device"
      | some (true, rdev) =>
        match ← syscall (.blkSszGet devFd) with
        | none => failErrno "Failed to get loop device block size"
        | some loopDevBlkSize =>
          if dataSize % loopDevBlkSize ≠ 0 ∨ hashOffset % loopDevBlkSize ≠ 0 then
            return dmVerityError "dm-verity superblock or data is not block aligned"
          else
            match ← readLoopSuperBlock devFd hashOffset with
            | .error error => return .error error
            | .ok superBlock =>
              let actual := wrap64 (superBlock.dataBlocks * superBlock.dataBlockSize)
              if dataSize ≠ actual then
                return dmVerityError <|
                  s!"The data size in the package doesn't match dm-verity superblock (expect " ++
                  s!"{dataSize}, actual {actual})"
              else
                mapTable name uuid dataSize
                  (createTargetParams rdev.1 rdev.2 superBlock rootHash hashOffset) useUDevSync

/-- `DevMapper::unmap`. -/
def unmap (name uuid : Bytes) (deferred : Bool) : Script (Result Unit) := do
  match checkDeviceNameAndUuid name uuid with
  | .error error => return .error error
  | .ok () =>
    if name = [] ∧ uuid = [] then
      return dmVerityError "Must supply a device name and/or uuid to remove"
    else removeDevice name deferred

def readTableStatus (status : TableStatus) : Result Bytes :=
  if status.dataSize < dmIoctlSize + dmTargetSpecSize then
    dmVerityError "Device mapper response buffer is too small"
  else if status.dataSize > cmdBufferSize then
    dmVerityError "Device mapper response buffer is too large"
  else if status.dataStart < dmIoctlSize ∨ status.dataStart ≥ status.dataSize then
    dmVerityError "Device mapper response buffer has invalid data start offset"
  else if status.targetCount < 1 then dmVerityError "Device mapper device has no targets"
  else .ok status.params

/-- `DevMapper::mapStatus`. -/
def mapStatus (name uuid : Bytes) : Script (Result Bytes) := do
  match checkDeviceNameAndUuid name uuid with
  | .error error => return .error error
  | .ok () =>
    if name = [] ∧ uuid = [] then
      return dmVerityError "Must supply a device name and/or uuid to remove"
    else
      match ← syscall (.dmTableStatus name) with
      | none => failErrno "Failed to get status of dm-verity device"
      | some status => return readTableStatus status

/-! ## The mount -/

/-- A name for the device that no mapped device has. -/
def chooseDeviceName (id uuid : Bytes) : Script (Result (Bytes × Bytes)) := do
  let answer ← syscall .dmListDevices
  let errno ← syscall .errno
  match readDeviceList errno answer with
  | .error error => return .error error
  | .ok existingDevices =>
    let tv ← syscall .gettimeofday
    return chooseNameAndUuid existingDevices id uuid tv

/-- What a mount returns. -/
structure DmVerityMount where
  devicePath : String
  mountPoint : String
  volumeName : Bytes
  volumeUuid : Bytes
  deriving DecidableEq, Repr

/-- Takes a mount and its device away again. -/
def undoMount (mountPoint : String) (volumeName volumeUuid : Bytes) (error : Error) :
    Script (Result DmVerityMount) := do
  let _ ← syscall (.umount mountPoint)
  let _ ← unmap volumeName volumeUuid false
  return .error error

/-- The part of `doMount` after the mount. -/
def checkMounted (mapperDevPath mountPoint : String) (volumeName volumeUuid : Bytes) (flags : Nat) :
    Script (Result DmVerityMount) := do
  match ← mapStatus volumeName volumeUuid with
  | .error error => undoMount mountPoint volumeName volumeUuid error
  | .ok dmStatus =>
    if dmStatus ≠ ascii "V".toList then
      undoMount mountPoint volumeName volumeUuid
        (.ralf .dmVerityError "Detected corruption in dm-verity image, cannot mount")
    else if hasFlag flags MountFlag.noAutoClear then
      return .ok ⟨mapperDevPath, mountPoint, volumeName, volumeUuid⟩
    else
      let _ ← unmap volumeName volumeUuid true
      return .ok ⟨mapperDevPath, mountPoint, volumeName, volumeUuid⟩

/-- The part of `doMount` that mounts the mapped device. -/
def mountMapped (fsType : FileSystemType) (mapperDevPath mountPoint : String)
    (volumeName volumeUuid : Bytes) (flags : Nat) : Script (Result DmVerityMount) := do
  if ← syscall (.mount mapperDevPath mountPoint (fsTypeName fsType) (mountFlags flags)) then
    checkMounted mapperDevPath mountPoint volumeName volumeUuid flags
  else
    let errno ← syscall .errno
    let _ ← unmap volumeName volumeUuid false
    return .error (.system errno
      s!"Failed to mount dm-verity image '{mapperDevPath}' at '{mountPoint}'")

/-- The part of `doMount` that makes objects: the loop device, the mapped device and the mount. -/
def mountImage (fsType : FileSystemType) (imageFd : Nat) (mountPoint : String)
    (dataRange hashesRange : FileRange) (rootHash volumeName volumeUuid : Bytes) (flags : Nat) :
    Script (Result DmVerityMount) := do
  let overallRange : FileRange :=
    ⟨dataRange.offset, wrapSub64 (wrap64 (hashesRange.offset + hashesRange.size)) dataRange.offset,
      dataRange.offset_lt, wrap64_lt _⟩
  match ← loopDeviceAttach imageFd overallRange flags with
  | .error error => return .error error
  | .ok loopDevFd =>
    let mapperDevPath ← mapWithVerity loopDevFd volumeName volumeUuid
      (wrapSub64 hashesRange.offset overallRange.offset) dataRange.size rootHash
      (hasFlag flags MountFlag.uDevSync)
    let _ ← syscall (.close loopDevFd)
    match mapperDevPath with
    | .error error => return .error error
    | .ok mapperDevPath =>
      mountMapped fsType mapperDevPath mountPoint volumeName volumeUuid flags

/-- Reads the superblock of the image. Without room for one, nothing is read. -/
def readImageSuperBlock (imageFd : Nat) (dataRange hashesRange : FileRange) :
    Script (Result VeritySuperBlock) := do
  let read ← if hashesRange.size < 4096 then pure (.error 0)
    else syscall (.preadImage imageFd 4096 hashesRange.offset)
  let errno ← syscall .errno
  return (readDmVeritySuperBlock ⟨.ok 0, fun _ _ _ => read⟩ dataRange hashesRange ⟨0, errno, []⟩).1

/-- `doMount`. The image is open. -/
def doMount (name : Bytes) (fsType : FileSystemType) (imageFd : Nat) (mountPoint : String)
    (dataRange hashesRange : FileRange) (rootHash : Bytes) (flags : Nat) :
    Script (Result DmVerityMount) := do
  if !(← syscall (.symlinkStatus mountPoint)) then
    return .error (.ralf .invalidArgument s!"Mount point '{mountPoint}' is not a directory")
  else
    match checkFileRanges dataRange hashesRange with
    | .error error => return .error error
    | .ok () =>
      match ← readImageSuperBlock imageFd dataRange hashesRange with
      | .error error => return .error error
      | .ok sb =>
        let actual := wrap64 (sb.dataBlocks * sb.dataBlockSize)
        if dataRange.size ≠ actual then
          return dmVerityError <|
            s!"The data size in the package doesn't match dm-verity superblock (expect " ++
            s!"{dataRange.size}, actual {actual})"
        else if !(← openDevMapper) then
          return dmVerityError "Device mapper is not available on this system"
        else
          match ← chooseDeviceName name sb.uuid with
          | .error error => return .error error
          | .ok (volumeName, volumeUuid) =>
            mountImage fsType imageFd mountPoint dataRange hashesRange rootHash volumeName volumeUuid
              flags

end Mounter

end DmVerity
