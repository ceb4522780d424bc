import Ralf.DmVerity.MountSpecs

/-!
# Mounting is all or nothing

`doMount` gets a loop device, a mapped device and a mount, in this order, and undoes those it has
when a later step fails. A failed mount leaves nothing of it behind, and one that does not fail
leaves one of each. What other processes do in between does not matter, and no call takes an object
of theirs away.
-/

namespace DmVerity

namespace Mounter

open Calls System Kernel

variable {nodes : DeviceNodes} {P : Kernel → Prop} {number : Nat} {dev : DevNum}
  {name uuid : Bytes} {mountPoint : String}

/-! ## Taking objects away -/

theorem unmap_eq (h : TakesName name uuid) (deferred : Bool) :
    unmap name uuid deferred = removeDevice name deferred := by
  unfold unmap
  rw [h.1]
  exact if_neg h.2

/-- Without a mount, the device goes at once, and the loop device with it. -/
theorem unmap_spec (h : TakesName name uuid) :
    Spec nodes (Owns [imageLoop number] [⟨name, dev, true, some number, false⟩] [] [])
      (unmap name uuid false) fun _ => Clean := by
  rw [unmap_eq h]
  have hremove : Spec nodes
      (Owns [imageLoop number] [⟨name, dev, true, some number, false⟩] [] [])
      (removeDevice name false) fun _ =>
        Owns (loopsLeft [imageLoop number] [] (some number)) [] [] [] :=
    removeDevice_spec ⟨name, dev, true, some number, false⟩ false (by simp)
  rwa [loopsLeft_closed] at hremove

/-- With a mount, the device is at most marked for removal. -/
theorem unmap_deferred_spec (h : TakesName name uuid) :
    Spec nodes (Owns [imageLoop number] [⟨name, dev, true, some number, false⟩]
        [⟨dev, mountPoint, true⟩] []) (unmap name uuid true) fun _ s =>
      ∃ deferred, Owns [imageLoop number] [⟨name, dev, true, some number, deferred⟩]
        [⟨dev, mountPoint, true⟩] [] s := by
  rw [unmap_eq h]
  refine Spec.dmDevDefer ⟨name, dev, true, some number, false⟩ rfl fun deferred removed => ?_
  split
  · exact .ret stable_owns fun _ h => ⟨deferred, h⟩
  · exact (failErrno_keeps stable_owns _).conseq (fun _ h => h) fun _ _ h => ⟨deferred, h⟩

theorem undoMount_spec {O : DmVerityMount → Kernel → Prop} (h : TakesName name uuid)
    (error : Error) :
    Spec nodes (Owns [imageLoop number] [⟨name, dev, true, some number, false⟩]
        [⟨dev, mountPoint, true⟩] []) (undoMount mountPoint name uuid error)
      (Outcome Clean O) := by
  refine Spec.umount ⟨name, dev, true, some number, false⟩ ⟨dev, mountPoint, true⟩ rfl rfl ?_
  exact Triple.bind (unmap_spec h) fun _ => .ret stable_owns fun _ h => h

/-! ## The mount -/

/-- A mount that did not fail: one loop device, one mapped device on it, and one mount of that. -/
def Mounted (nodes : DeviceNodes) (mountPoint : String) (mount : DmVerityMount) (s : Kernel) :
    Prop :=
  ∃ number dev deferred, mount.mountPoint = mountPoint ∧ nodes.node mount.devicePath = some dev ∧
    Owns [imageLoop number] [⟨mount.volumeName, dev, true, some number, deferred⟩]
      [⟨dev, mountPoint, true⟩] [] s

theorem mapStatus_spec (hP : (kernel nodes).Stable P) (name uuid : Bytes) :
    Spec nodes P (mapStatus name uuid) fun _ => P := by
  unfold mapStatus
  split
  · exact .ret hP fun _ h => h
  split
  · exact .ret hP fun _ h => h
  refine .quiet (fun _ _ => rfl) hP fun status => ?_
  cases status with
  | none => exact failErrno_keeps hP _
  | some status => exact .ret hP fun _ h => h

theorem checkMounted_spec {mapperDevPath : String} (h : TakesName name uuid)
    (hnode : nodes.node mapperDevPath = some dev) (flags : Nat) :
    Spec nodes (Owns [imageLoop number] [⟨name, dev, true, some number, false⟩]
        [⟨dev, mountPoint, true⟩] []) (checkMounted mapperDevPath mountPoint name uuid flags)
      (Outcome Clean (Mounted nodes mountPoint)) := by
  refine Triple.bind (mapStatus_spec stable_owns name uuid) fun dmStatus => ?_
  cases dmStatus with
  | error error => exact undoMount_spec h error
  | ok dmStatus =>
    dsimp only
    split_ifs
    · exact undoMount_spec h _
    · exact .ret stable_owns fun _ hs => ⟨number, dev, false, rfl, hnode, hs⟩
    · refine Triple.bind (unmap_deferred_spec h) fun _ => .exists_pre fun deferred => ?_
      exact .ret stable_owns fun _ hs => ⟨number, dev, deferred, rfl, hnode, hs⟩

theorem mountMapped_spec {mapperDevPath : String} (fsType : FileSystemType)
    (h : TakesName name uuid) (flags : Nat) :
    Spec nodes (Mapped nodes number name [] mapperDevPath)
      (mountMapped fsType mapperDevPath mountPoint name uuid flags)
      (Outcome Clean (Mounted nodes mountPoint)) := by
  refine .exists_pre fun dev => .and_pre fun hnode => ?_
  refine Spec.mount hnode ?_ (checkMounted_spec h hnode flags)
  refine .quiet (fun _ _ => rfl) stable_owns fun errno => ?_
  exact Triple.bind (unmap_spec h) fun _ => .ret stable_owns fun _ h => h

theorem mountImage_spec (fsType : FileSystemType) (imageFd : Nat) (mountPoint : String)
    (dataRange hashesRange : FileRange) (rootHash volumeName volumeUuid : Bytes) (flags : Nat) :
    Spec nodes Clean (mountImage fsType imageFd mountPoint dataRange hashesRange rootHash volumeName
        volumeUuid flags)
      (Outcome Clean (Mounted nodes mountPoint)) := by
  refine Triple.bind (loopDeviceAttach_spec imageFd _ flags) fun attached => ?_
  cases attached with
  | error error => exact .ret stable_owns fun _ h => h
  | ok loopDevFd =>
    refine .exists_pre fun number => ?_
    refine Triple.bind (mapWithVerity_spec _ _ rootHash _) fun mapperDevPath => ?_
    cases mapperDevPath with
    | error error =>
      -- the mounter is the last user of the loop device
      refine Spec.close (by simp) fun _ => .ret stable_owns fun _ h => ?_
      simpa [Outcome] using h
    | ok mapperDevPath =>
      refine .and_pre fun hname => .exists_pre fun dev => .and_pre fun hnode => ?_
      -- the mapped device is a user of the loop device
      refine Spec.close (by simp) fun _ => ?_
      simpa using (mountMapped_spec fsType hname flags).conseq
        (fun s (hs : Owns _ _ _ _ s) => ⟨dev, hnode, hs⟩) fun _ _ h => h

/-! ## Before there are objects -/

theorem openDevMapper_spec (hP : (kernel nodes).Stable P) :
    Spec nodes P openDevMapper fun _ => P := by
  refine .quiet (fun _ _ => rfl) hP fun opened => ?_
  split
  · exact .ret hP fun _ h => h
  · refine .quiet (fun _ _ => rfl) hP fun version => ?_
    cases version with
    | none => exact .ret hP fun _ h => h
    | some version => exact .ret hP fun _ h => h

theorem chooseDeviceName_spec (hP : (kernel nodes).Stable P) (id uuid : Bytes) :
    Spec nodes P (chooseDeviceName id uuid) fun _ => P := by
  refine .quiet (fun _ _ => rfl) hP fun answer => ?_
  refine .quiet (fun _ _ => rfl) hP fun errno => ?_
  split
  · exact .ret hP fun _ h => h
  · refine .quiet (fun _ _ => rfl) hP fun tv => ?_
    exact .ret hP fun _ h => h

theorem readImageSuperBlock_spec (hP : (kernel nodes).Stable P) (imageFd : Nat)
    (dataRange hashesRange : FileRange) :
    Spec nodes P (readImageSuperBlock imageFd dataRange hashesRange) fun _ => P := by
  have hrest : ∀ read : ReadResult, Spec nodes P (do
      let errno ← syscall .errno
      return (readDmVeritySuperBlock ⟨.ok 0, fun _ _ _ => read⟩ dataRange hashesRange
        ⟨0, errno, []⟩).1) fun _ => P :=
    fun _ => .quiet (fun _ _ => rfl) hP fun _ => .ret hP fun _ h => h
  unfold readImageSuperBlock
  split
  · exact hrest (.error 0)
  · exact .quiet (fun _ _ => rfl) hP hrest

theorem doMount_spec (name : Bytes) (fsType : FileSystemType) (imageFd : Nat) (mountPoint : String)
    (dataRange hashesRange : FileRange) (rootHash : Bytes) (flags : Nat) :
    Spec nodes Clean (doMount name fsType imageFd mountPoint dataRange hashesRange rootHash flags)
      (Outcome Clean (Mounted nodes mountPoint)) := by
  refine .quiet (fun _ _ => rfl) stable_owns fun isDirectory => ?_
  split
  · exact .ret stable_owns fun _ h => h
  split
  · exact .ret stable_owns fun _ h => h
  refine Triple.bind (readImageSuperBlock_spec stable_owns imageFd dataRange hashesRange) fun sb => ?_
  cases sb with
  | error error => exact .ret stable_owns fun _ h => h
  | ok sb =>
    dsimp only
    split
    · exact .ret stable_owns fun _ h => h
    refine Triple.bind (openDevMapper_spec stable_owns) fun isAvailable => ?_
    split
    · exact .ret stable_owns fun _ h => h
    refine Triple.bind (chooseDeviceName_spec stable_owns name sb.uuid) fun chosen => ?_
    cases chosen with
    | error error => exact .ret stable_owns fun _ h => h
    | ok chosen =>
      exact mountImage_spec fsType imageFd mountPoint dataRange hashesRange rootHash chosen.1
        chosen.2 flags

/-- In every run from a state, whatever the calls answer and other processes do, no call takes away
an object of another process. When the program returns, the mounter owns nothing after an error, and
one loop device, one mapped device on it and one mount of that after a success. -/
def AllOrNothing (nodes : DeviceNodes) (mountPoint : String)
    (program : Script (Result DmVerityMount)) (s : Kernel) : Prop :=
  (∀ call next s', (kernel nodes).Reaches (program, s) (.call call next, s') →
      ∀ x s'', nodes.answer call x s' = some s'' → s'.OthersKept s'') ∧
    ∀ result s', (kernel nodes).Reaches (program, s) (.ret result, s') →
      match result with
      | .error _ => s'.Owns [] [] [] []
      | .ok mount => ∃ number dev deferred,
          mount.mountPoint = mountPoint ∧ nodes.node mount.devicePath = some dev ∧
            s'.Owns [⟨number, true, true, false⟩]
              [⟨mount.volumeName, dev, true, some number, deferred⟩] [⟨dev, mountPoint, true⟩] []

theorem doMount_allOrNothing (nodes : DeviceNodes) (name : Bytes) (fsType : FileSystemType)
    (imageFd : Nat) (mountPoint : String) (dataRange hashesRange : FileRange) (rootHash : Bytes) (flags : Nat)
    {s : Kernel} (hclean : s.Owns [] [] [] []) :
    AllOrNothing nodes mountPoint
      (doMount name fsType imageFd mountPoint dataRange hashesRange rootHash flags) s := by
  have hspec : Spec nodes Clean _ _ :=
    doMount_spec name fsType imageFd mountPoint dataRange hashesRange rootHash flags
  obtain ⟨hcalls, hresults⟩ := hspec.adequate hclean
  refine ⟨hcalls, fun result s' hrun => ?_⟩
  have houtcome := hresults result s' hrun
  cases result with
  | error error => exact houtcome
  | ok mount => exact houtcome

/-- Loop devices have the major number 7, and there is one mapped device. -/
def oneDeviceNode : DeviceNodes where
  loop number := (7, number)
  node path := if path = "/dev/block/253:0" then some (253, 0) else none
  loop_injective _ _ h := (Prod.mk.inj h).2

/-- The answers of a kernel when nothing fails, with no other mapped device. -/
def smoothAnswer (superBlock : VeritySuperBlock) : (call : Call) → Kernel → call.Answer
  | .errno, _ => 0
  | .loopClrFd _, _ | .umount _, _ => ()
  | .preadImage .., _ | .preadLoop .., _ => .data superBlock.block
  | .dmVersion, _ => some (4, 40, 0)
  | .dmListDevices, _ =>
    (0, List.replicate 12 0 ++ (Bytes.leBytes 4 dmIoctlSize ++ Bytes.leBytes 4 dmIoctlSize))
  | .gettimeofday, _ => ⟨100, 200⟩
  | .loopCtlGetFree, s => some s.loops.length
  | .openLoop .., _ => some 7
  | .blkSszGet _, _ => some 512
  | .createCookie, _ => none
  | .fstat fd, s => (s.fds.lookup fd).map fun number => (true, oneDeviceNode.loop number)
  | .dmDevCreate .., _ | .dmDevSuspend .., _ | .stat _, _ => some (253, 0)
  | .devEntries, _ => []
  | .dmTableStatus _, _ => some ⟨400, dmIoctlSize, 1, ascii "V".toList⟩
  | .symlinkStatus _, _ | .openControl, _ | .openLoopControl, _ | .statLoop _, _ | .loopSetFd .., _
  | .loopSetStatus .., _ | .loopSetDirectIo _, _ | .close _, _ | .dmTableLoad .., _
  | .waitCookie _, _ | .mount .., _ | .dmDevRemove .., _ => true

/-- An image of three blocks. -/
def mountThreeBlocks : Script (Result DmVerityMount) :=
  doMount (ascii "vg".toList) .erofs 4 "/mnt" ⟨0, 12288, by decide, by decide⟩
    ⟨12288, 12288, by decide, by decide⟩ (List.replicate 32 7) MountFlag.readOnly

/-- Another process has a loop device already. The mount can come to its end without an error, and
then it has added its own objects. -/
theorem doMount_allOrNothing_secondLoop :
    AllOrNothing oneDeviceNode "/mnt" mountThreeBlocks ⟨[⟨0, false, true, true⟩], [], [], []⟩ ∧
      ∃ mount s', (kernel oneDeviceNode).Reaches
        (mountThreeBlocks, ⟨[⟨0, false, true, true⟩], [], [], []⟩) (.ret (.ok mount), s') := by
  refine ⟨doMount_allOrNothing _ _ _ _ _ _ _ _ _
    ⟨⟨by simp, by simp, by simp, by simp, by simp, by simp, by simp⟩, rfl, rfl, rfl, rfl⟩, ?_⟩
  have hrun : (((kernel oneDeviceNode).run
      (smoothAnswer (.formatted (List.replicate 16 1) 3 [])) 40 mountThreeBlocks
      ⟨[⟨0, false, true, true⟩], [], [], []⟩).any fun out => out.1.toOption.isSome) = true := by
    decide +kernel
  obtain ⟨⟨result, s'⟩, hresult, hok⟩ := (Option.any_eq_true _ _).mp hrun
  cases result with
  | error error => exact absurd hok Bool.false_ne_true
  | ok mount => exact ⟨mount, s', run_reaches hresult⟩

end Mounter

end DmVerity
