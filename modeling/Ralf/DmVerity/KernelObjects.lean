import Ralf.DmVerity.TargetParams
import Ralf.DmVerity.DeviceName
import Ralf.Lib.Calls

/-!
# The kernel objects of a mount

A mount of a package needs three objects of the kernel: an attached loop device, a mapped device and
a mount. Objects that the mounter made are marked as its own. Other processes change theirs at any
time, and they can take any loop device or device name that is free.

A call says which answers the kernel can give in a state, and what they do. Whether a call hits an
object of the mounter or of another process is not checked by the kernel.
-/

namespace DmVerity

/-- A major and a minor number. -/
abbrev DevNum := Nat × Nat

/-! ## Objects -/

/-- An attached loop device. -/
structure LoopDevice where
  number : Nat
  own : Bool
  autoclear : Bool
  /-- Another process has it open. -/
  held : Bool
  deriving DecidableEq, Repr

/-- A mapped device, with the loop device that its table uses. -/
structure DmDevice where
  name : Bytes
  number : DevNum
  own : Bool
  loop : Option Nat
  /-- It goes when it is not mounted any more. -/
  deferred : Bool
  deriving DecidableEq, Repr

structure Mount where
  device : DevNum
  mountPoint : String
  own : Bool
  deriving DecidableEq, Repr

/-- The objects, and the descriptors that the mounter has open on loop devices. The last mount comes
first. -/
structure Kernel where
  loops : List LoopDevice
  devices : List DmDevice
  mounts : List Mount
  fds : List (Nat × Nat)
  deriving DecidableEq, Repr

namespace Kernel

variable (s : Kernel)

/-- A loop device has users. -/
def inUse (number : Nat) : Bool :=
  s.fds.any (·.2 = number) || s.devices.any (·.loop = some number) ||
    s.loops.any fun loop => loop.number = number && loop.held

/-- After a user of a loop device went. -/
def release (number : Nat) : Kernel :=
  if s.inUse number then s
  else { s with loops := s.loops.filter fun loop => !(loop.number = number && loop.autoclear) }

def close (fd : Nat) : Kernel :=
  match s.fds.lookup fd with
  | none => s
  | some number => { s with fds := s.fds.filter fun open_ => open_.1 ≠ fd }.release number

def attach (number : Nat) : Kernel :=
  { s with loops := ⟨number, true, false, false⟩ :: s.loops }

def setAutoclear (number : Nat) : Kernel :=
  { s with loops := s.loops.map fun loop =>
    if loop.number = number then { loop with autoclear := true } else loop }

/-- The backing file of a loop device is cleared; if a device uses it, when that goes. -/
def detach (number : Nat) : Kernel :=
  if s.devices.any (·.loop = some number) then s.setAutoclear number
  else { s with loops := s.loops.filter (·.number ≠ number) }

/-- A name or a number is in use already. -/
def isTaken (name : Bytes) (number : DevNum) : Bool :=
  (s.devices.any fun device => device.name = name || device.number = number) ||
    s.mounts.any (·.device = number)

def create (name : Bytes) (number : DevNum) : Kernel :=
  { s with devices := ⟨name, number, true, none, false⟩ :: s.devices }

/-- The device with a name gets a table. -/
def load (name : Bytes) (loop : Option Nat) : Kernel :=
  { s with devices := s.devices.map fun device =>
    if device.name = name then { device with loop } else device }

def defer (name : Bytes) : Kernel :=
  { s with devices := s.devices.map fun device =>
    if device.name = name then { device with deferred := true } else device }

def isMounted (device : DmDevice) : Bool := s.mounts.any (·.device = device.number)

def drop (device : DmDevice) : Kernel :=
  let s := { s with devices := s.devices.filter (·.name ≠ device.name) }
  match device.loop with
  | none => s
  | some number => s.release number

/-- After the device with a name was removed, or was not. A device that is mounted can only be
removed later, and one of the mounter that is not mounted is removed. -/
def remove (name : Bytes) (deferred removed : Bool) : Option Kernel :=
  match s.devices.find? (·.name = name) with
  | none => if removed then none else some s
  | some device =>
    if s.isMounted device then
      if !removed then some s else if deferred then some (s.defer name) else none
    else if removed then some (s.drop device)
    else if device.own then none
    else some s

/-- The last mount at a mount point goes, with its device if that was deferred. -/
def unmount (mountPoint : String) : Kernel :=
  match s.mounts.find? (·.mountPoint = mountPoint) with
  | none => s
  | some mount =>
    let s := { s with mounts := s.mounts.eraseP (·.mountPoint = mountPoint) }
    match s.devices.find? fun device => device.number = mount.device && device.deferred with
    | none => s
    | some device => if s.isMounted device then s else s.drop device

end Kernel

/-! ## Calls -/

inductive FileSystemType
  | squashfs
  | erofs
  | ext3
  | ext4
  deriving DecidableEq, Repr

/-- The answer to `DM_TABLE_STATUS`. -/
structure TableStatus where
  dataSize : Nat
  dataStart : Nat
  targetCount : Nat
  params : Bytes

/-- The calls of the mounter. `errno` reads the last error number. -/
inductive Call
  | errno
  | symlinkStatus (path : String)
  | preadImage (imageFd size offset : Nat)
  | openControl
  | dmVersion
  | dmListDevices
  | gettimeofday
  | openLoopControl
  | loopCtlGetFree
  | statLoop (number : Nat)
  | openLoop (number : Nat) (readOnly : Bool)
  | loopSetFd (fd imageFd : Nat)
  | loopSetStatus (fd offset sizeLimit : Nat)
  | loopSetDirectIo (fd : Nat)
  | loopClrFd (fd : Nat)
  | close (fd : Nat)
  | fstat (fd : Nat)
  | blkSszGet (fd : Nat)
  | preadLoop (fd size offset : Nat)
  | dmDevCreate (name uuid : Bytes)
  | dmTableLoad (name : Bytes) (length : Nat) (targetType : String) (params : List Char)
      (readOnly : Bool)
  | createCookie
  | dmDevSuspend (name : Bytes) (readOnly : Bool) (cookie : Option Nat)
  | waitCookie (cookie : Nat)
  | stat (path : String)
  | devEntries
  | mount (source target : String) (fsType : String) (flags : Nat)
  | dmTableStatus (name : Bytes)
  | umount (target : String)
  | dmDevRemove (name : Bytes) (deferred : Bool)

/-- What a call returns. A call of which only the success counts returns a `Bool`. `statLoop` says
whether there is a block device, and `stat` gives the number of one. -/
@[reducible] def Call.Answer : Call → Type
  | .errno => Nat
  | .preadImage .. | .preadLoop .. => ReadResult
  | .dmVersion => Option (Nat × Nat × Nat)
  | .dmListDevices => Int × Bytes
  | .gettimeofday => Timeval
  | .loopCtlGetFree | .openLoop .. | .blkSszGet _ | .createCookie => Option Nat
  | .loopClrFd _ | .umount _ => Unit
  | .fstat _ => Option (Bool × DevNum)
  | .dmDevCreate .. | .dmDevSuspend .. | .stat _ => Option DevNum
  | .devEntries => List String
  | .dmTableStatus _ => Option TableStatus
  | .symlinkStatus _ | .openControl | .openLoopControl | .statLoop _ | .loopSetFd ..
  | .loopSetStatus .. | .loopSetDirectIo _ | .close _ | .dmTableLoad .. | .waitCookie _
  | .mount .. | .dmDevRemove .. => Bool

/-- The device numbers of loop devices, and of the block devices that have a path. -/
structure DeviceNodes where
  loop : Nat → DevNum
  node : String → Option DevNum
  loop_injective : Function.Injective loop

namespace DeviceNodes

variable (nodes : DeviceNodes)

/-- The loop device that a line of a table names as its data device. -/
def tableLoop (s : Kernel) (params : List Char) : Option Nat :=
  match readDevice ((params.splitOn ' ').getD 1 []) with
  | none => none
  | some dev => (s.loops.find? fun loop => nodes.loop loop.number = dev).map LoopDevice.number

/-- The state after an answer, if the kernel can give it. Clearing up the mounter's own objects does
not fail. -/
def answer : (call : Call) → call.Answer → Kernel → Option Kernel
  | .openLoop number _, some fd, s =>
    if fd ∈ s.fds.map Prod.fst then none else some { s with fds := (fd, number) :: s.fds }
  | .loopSetFd fd _, true, s => (s.fds.lookup fd).bind fun number =>
    if number ∈ s.loops.map LoopDevice.number then none else some (s.attach number)
  | .loopSetStatus fd _ _, true, s => (s.fds.lookup fd).map s.setAutoclear
  | .loopClrFd fd, (), s => (s.fds.lookup fd).map s.detach
  | .close fd, _, s => some (s.close fd)
  | .fstat fd, some (true, dev), s =>
    if (s.fds.lookup fd).map nodes.loop = some dev then some s else none
  | .blkSszGet _, some size, s => if size = 0 then none else some s
  | .dmDevCreate name _, some number, s =>
    if s.isTaken name number then none else some (s.create name number)
  | .dmTableLoad name _ _ params _, true, s => some (s.load name (nodes.tableLoop s params))
  | .dmDevSuspend name _ _, some number, s =>
    if s.devices.any fun device => device.name = name && device.number = number then some s
    else none
  | .stat path, some dev, s => if nodes.node path = some dev then some s else none
  | .mount source target _ _, true, s =>
    (nodes.node source).map fun dev => { s with mounts := ⟨dev, target, true⟩ :: s.mounts }
  | .umount target, (), s => some (s.unmount target)
  | .dmDevRemove name deferred, removed, s => s.remove name deferred removed
  | _, _, s => some s

end DeviceNodes

/-! ## Other processes -/

namespace Kernel

/-- What the kernel and the processes keep to. Others leave the objects of the mounter alone, and
they do not mount over its mounts. -/
structure WellFormed (s : Kernel) : Prop where
  loopNumbers : (s.loops.map LoopDevice.number).Nodup
  deviceNames : (s.devices.map DmDevice.name).Nodup
  deviceNumbers : (s.devices.map DmDevice.number).Nodup
  /-- The loop device of a table is attached. -/
  attached : ∀ device ∈ s.devices, ∀ number, device.loop = some number →
    number ∈ s.loops.map LoopDevice.number
  ownLoops : ∀ loop ∈ s.loops, loop.own = true → ∀ device ∈ s.devices,
    device.loop = some loop.number → device.own = true
  ownDevices : ∀ device ∈ s.devices, device.own = true → ∀ mount ∈ s.mounts,
    mount.device = device.number → mount.own = true
  ownMounts : ∀ mount ∈ s.mounts, mount.own = true →
    s.mounts.find? (·.mountPoint = mount.mountPoint) = some mount

/-- What the mounter owns. -/
structure Owns (loops : List LoopDevice) (devices : List DmDevice) (mounts : List Mount)
    (fds : List (Nat × Nat)) (s : Kernel) : Prop where
  wellFormed : s.WellFormed
  loops : s.loops.filter LoopDevice.own = loops
  devices : s.devices.filter DmDevice.own = devices
  mounts : s.mounts.filter Mount.own = mounts
  fds : s.fds = fds

/-- Other processes do what they like with their own objects. -/
def Others (s s' : Kernel) : Prop :=
  Owns (s.loops.filter LoopDevice.own) (s.devices.filter DmDevice.own)
    (s.mounts.filter Mount.own) s.fds s'

/-- A call leaves what others made as it is. Only an auto-clear loop device goes that has no user
left. -/
structure OthersKept (s s' : Kernel) : Prop where
  loops : ∀ loop ∈ s.loops, loop.own = false →
    loop ∈ s'.loops ∨ loop.autoclear = true ∧ s'.inUse loop.number = false
  devices : ∀ device ∈ s.devices, device.own = false → device ∈ s'.devices
  mounts : ∀ mount ∈ s.mounts, mount.own = false → mount ∈ s'.mounts

end Kernel

end DmVerity
