import Mathlib.Logic.Function.Basic
import Ralf.DmVerity.MountScript
import Ralf.Lib.CallParts

/-!
# The life of a mount

`DmVerityMounterLinux::mount` opens an image and mounts it. What it returns is a `DmVerityMount`
object, which unmounts when it goes, unless it was detached or unmounted before. `PackageMount`
holds such an object and can be moved.

A session is a client of the library: it mounts an image, uses any number of `PackageMount`
variables in any order, and in the end they all go out of scope.
-/

namespace DmVerity

namespace Mounter

/-! ## Calls -/

/-- The kernel objects, and the descriptors that are open on the image. -/
structure Machine where
  kernel : Kernel
  images : List Nat
  deriving DecidableEq, Repr

/-- The calls of `doMount`, and those before and after it. -/
inductive MountCall
  | mounter (call : Call)
  | openImage (path : String) (direct : Bool)
  | imageFlags (fd : Nat)
  | closeImage (fd : Nat)
  | umount2 (mountPoint : String)
  | statMountPoint (mountPoint : String)

/-- What a call returns. `imageFlags` says whether `O_DIRECT` is set, and `statMountPoint` gives the
number of the device. -/
@[reducible] def MountCall.Answer : MountCall → Type
  | .mounter call => call.Answer
  | .openImage .. => Option Nat
  | .imageFlags _ => Option Bool
  | .closeImage _ | .umount2 _ => Bool
  | .statMountPoint _ => Option DevNum

/-- The state after an answer, if it can be given. A mount that is in use is not unmounted. -/
def answerMount (nodes : DeviceNodes) :
    (call : MountCall) → call.Answer → Machine → Option Machine
  | .mounter call, x, m => (nodes.answer call x m.kernel).map fun kernel => { m with kernel }
  | .openImage .., some fd, m =>
    if fd ∈ m.images then none else some { m with images := fd :: m.images }
  | .closeImage fd, _, m => some { m with images := m.images.filter (· ≠ fd) }
  | .umount2 mountPoint, true, m =>
    if m.kernel.mounts.any (·.mountPoint = mountPoint) then
      some { m with kernel := m.kernel.unmount mountPoint }
    else none
  | .statMountPoint mountPoint, some dev, m =>
    match m.kernel.mounts.find? (·.mountPoint = mountPoint) with
    | none => some m
    | some mount => if dev = mount.device then some m else none
  | _, _, m => some m

open Calls Prog

/-- A program that mounts, or uses a mount. -/
abbrev MountScript (α : Type) := Prog MountCall MountCall.Answer α

abbrev request (call : MountCall) : MountScript call.Answer := ask call

/-- A program of `doMount`. -/
def mounter {α : Type} (p : Script α) : MountScript α := p.inside .mounter fun _ x => x

/-! ## The object -/

/-- A `DmVerityMount` object: what was mounted, and its flags. -/
structure MountObject where
  mount : DmVerityMount
  deviceNumber : Option DevNum
  detached : Bool
  unmounted : Bool
  deriving DecidableEq, Repr

inductive MountStatus
  | notMounted
  | mounted
  | corrupted
  deriving DecidableEq, Repr

/-- What an operation answers. -/
inductive Reply
  | isMounted (mounted : Bool)
  | mountPoint (path : String)
  | volumeName (name : Bytes)
  | volumeUuid (uuid : Bytes)
  | status (status : MountStatus)
  deriving DecidableEq, Repr

/-- What happened in a session: a call of `umount2`, with its success, an answer, or the object was
detached. -/
inductive Event
  | umount2 (unmounted : Bool)
  | reply (reply : Reply)
  | detached
  deriving DecidableEq, Repr

namespace MountObject

/-- The constructor: it asks for the number of the mounted device. -/
def create (mount : DmVerityMount) : MountScript MountObject := do
  let deviceNumber ← mounter (syscall (.stat mount.devicePath))
  return ⟨mount, deviceNumber, false, false⟩

variable (object : MountObject)

def doUnmount : MountScript (List Event) := do
  let unmounted ← request (.umount2 object.mount.mountPoint)
  return [.umount2 unmounted]

/-- The device of the mount point is the one that was mounted. -/
def isMounted : MountScript Bool := do
  if object.unmounted then return false
  else
    match object.deviceNumber with
    | none => return false
    | some number =>
      let dev ← request (.statMountPoint object.mount.mountPoint)
      return dev = some number

def mountPoint : String := if object.unmounted then "" else object.mount.mountPoint

def volumeName : Bytes := if object.unmounted then [] else object.mount.volumeName

def volumeUuid : Bytes := if object.unmounted then [] else object.mount.volumeUuid

def unmount : MountScript (MountObject × List Event) := do
  if object.unmounted then return (object, [])
  else
    let events ← object.doUnmount
    return ({ object with unmounted := true }, events)

def detach : MountObject := { object with detached := true }

/-- Without an answer of the device mapper, the mount counts as not corrupted. -/
def status : MountScript MountStatus := do
  if !(← object.isMounted) then return .notMounted
  else if !(← mounter openDevMapper) then return .mounted
  else
    match ← mounter (mapStatus object.mount.volumeName object.mount.volumeUuid) with
    | .error _ => return .mounted
    | .ok dmStatus => return if dmStatus = ascii "C".toList then .corrupted else .mounted

/-- The destructor. -/
def destroy : MountScript (List Event) :=
  if !object.detached && !object.unmounted then object.doUnmount else pure []

end MountObject

/-! ## Mounting -/

section
variable (name : Bytes) (fsType : FileSystemType) (mountPoint : String)
  (dataRange hashesRange : FileRange) (rootHash : Bytes)

def einval : Nat := 22

def MountFlag.clear (flags flag : Nat) : Nat := flags &&& ((2 ^ 32 - 1) ^^^ flag)

/-- `doMount` with the object that it returns. -/
def doMountObject (imageFd flags : Nat) : MountScript (Result MountObject) := do
  match ← mounter (doMount name fsType imageFd mountPoint dataRange hashesRange rootHash flags) with
  | .error error => return .error error
  | .ok mount => return .ok (← MountObject.create mount)

/-- Mounts the image and closes it. -/
def mountAndClose (imageFd flags : Nat) : MountScript (Result MountObject) := do
  let result ← doMountObject name fsType mountPoint dataRange hashesRange rootHash imageFd flags
  let _ ← request (.closeImage imageFd)
  return result

def failOpen (imagePath : String) : MountScript (Result MountObject) :=
  mounter (failErrno s!"Failed to open file @ '{imagePath}'")

/-- The overload of `mount` for a path. Without support for `O_DIRECT`, it does without. -/
def mountPath (imagePath : String) (flags : Nat) : MountScript (Result MountObject) := do
  match ← request (.openImage imagePath (hasFlag flags MountFlag.directIO)) with
  | some imageFd =>
    mountAndClose name fsType mountPoint dataRange hashesRange rootHash imageFd flags
  | none =>
    if hasFlag flags MountFlag.directIO ∧ (← mounter (syscall .errno)) = einval then
      match ← request (.openImage imagePath false) with
      | some imageFd =>
        mountAndClose name fsType mountPoint dataRange hashesRange rootHash imageFd
          (MountFlag.clear flags MountFlag.directIO)
      | none => failOpen imagePath
    else failOpen imagePath

/-- The overload of `mount` for a descriptor. Without `O_DIRECT` the image is opened once more. -/
def mountFd (imageFd : Nat) (flags : Nat) : MountScript (Result MountObject) := do
  if hasFlag flags MountFlag.directIO then
    match ← request (.imageFlags imageFd) with
    | none => mounter (failErrno "Failed to get flags on image fd")
    | some false =>
      mountPath name fsType mountPoint dataRange hashesRange rootHash
        s!"/proc/self/fd/{imageFd}" flags
    | some true => doMountObject name fsType mountPoint dataRange hashesRange rootHash imageFd flags
  else doMountObject name fsType mountPoint dataRange hashesRange rootHash imageFd flags

/-- What `mount` can be called with. -/
inductive ImageSource
  | path (imagePath : String)
  | descriptor (imageFd : Nat)
  deriving DecidableEq, Repr

def mount : ImageSource → Nat → MountScript (Result MountObject)
  | .path imagePath => mountPath name fsType mountPoint dataRange hashesRange rootHash imagePath
  | .descriptor imageFd => mountFd name fsType mountPoint dataRange hashesRange rootHash imageFd

end

/-! ## Sessions -/

/-- What a client does with its `PackageMount` variables. -/
inductive Operation (n : Nat)
  | isMounted (i : Fin n)
  | mountPoint (i : Fin n)
  | volumeName (i : Fin n)
  | volumeUuid (i : Fin n)
  | status (i : Fin n)
  | unmount (i : Fin n)
  | detach (i : Fin n)
  | move (target source : Fin n)
  deriving DecidableEq, Repr

/-- The variables, each with the object that it has, and what happened so far. -/
structure Session (n : Nat) where
  mounts : Fin n → Option MountObject
  log : List Event

namespace Session

variable {n : Nat} (session : Session n)

def append (events : List Event) : Session n := { session with log := session.log ++ events }

def set (i : Fin n) (object : Option MountObject) : Session n :=
  { session with mounts := Function.update session.mounts i object }

/-- Asks the object of a variable. A variable without one has its own answer. -/
def answer (i : Fin n) (empty : Reply) (ask : MountObject → MountScript Reply) :
    MountScript Reply :=
  match session.mounts i with
  | none => pure empty
  | some object => ask object

def query (i : Fin n) (empty : Reply) (ask : MountObject → MountScript Reply) :
    MountScript (Session n) := do
  return session.append [.reply (← session.answer i empty ask)]

/-- The object that was in a variable goes. -/
def delete (object : Option MountObject) : MountScript (Session n) :=
  match object with
  | none => return session
  | some object => return session.append (← object.destroy)

def unmount (i : Fin n) : MountScript (Session n) :=
  match session.mounts i with
  | none => return session
  | some object => do
    let (object, events) ← object.unmount
    return (session.set i (some object)).append events

def detach (i : Fin n) : Session n :=
  match session.mounts i with
  | none => session
  | some object => (session.set i (some object.detach)).append [.detached]

/-- A move assignment. The object of the target goes after it was replaced. -/
def move (target source : Fin n) : MountScript (Session n) :=
  if target = source then return session
  else
    ((session.set target (session.mounts source)).set source none).delete (session.mounts target)

def step : Operation n → MountScript (Session n)
  | .isMounted i =>
    session.query i (.isMounted false) fun object => return .isMounted (← object.isMounted)
  | .mountPoint i =>
    session.query i (.mountPoint "") fun object => return .mountPoint object.mountPoint
  | .volumeName i =>
    session.query i (.volumeName []) fun object => return .volumeName object.volumeName
  | .volumeUuid i =>
    session.query i (.volumeUuid []) fun object => return .volumeUuid object.volumeUuid
  | .status i =>
    session.query i (.status .notMounted) fun object => return .status (← object.status)
  | .unmount i => session.unmount i
  | .detach i => return session.detach i
  | .move target source => session.move target source

def runAll : List (Operation n) → Session n → MountScript (Session n)
  | [], session => return session
  | operation :: rest, session => do runAll rest (← session.step operation)

/-- Variables go out of scope. -/
def endScope : List (Fin n) → Session n → MountScript (Session n)
  | [], session => return session
  | i :: rest, session => do endScope rest (← (session.set i none).delete (session.mounts i))

/-- The mount is in one of the variables. -/
def start (i : Fin n) (object : MountObject) : Session n :=
  ⟨Function.update (fun _ => none) i (some object), []⟩

end Session

/-- The mount, and what is done with it. -/
def use {n : Nat} (mount : MountScript (Result MountObject)) (i : Fin n)
    (operations : List (Operation n)) : MountScript (Result (Session n)) := do
  match ← mount with
  | .error error => return .error error
  | .ok object => return .ok (← (Session.start i object).runAll operations)

/-- A whole session: the mount, what is done with it, and the end of all variables. -/
def lifetime {n : Nat} (mount : MountScript (Result MountObject)) (i : Fin n)
    (operations : List (Operation n)) (scope : List (Fin n)) :
    MountScript (Result (Session n)) := do
  match ← use mount i operations with
  | .error error => return .error error
  | .ok session => return .ok (← session.endScope scope)

end Mounter

end DmVerity
