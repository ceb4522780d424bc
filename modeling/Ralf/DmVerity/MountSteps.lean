import Ralf.DmVerity.AllOrNothing
import Ralf.DmVerity.MountObject

/-!
# What a mount leaves at each step

The programs of `doMount` run inside those that open the image and use the mount. Each of these has
a triple over the kernel objects and the descriptors of the image.
-/

namespace DmVerity

namespace Mounter

open Calls System Kernel

/-- The kernel, the descriptors of the image, and the other processes. -/
def machine (nodes : DeviceNodes) : System Machine MountCall MountCall.Answer where
  answer := answerMount nodes
  others m m' := m.kernel.Others m'.kernel ∧ m'.images = m.images

variable {nodes : DeviceNodes} {α β : Type} {P : Kernel → Prop} {images : List Nat}

variable (nodes) in
/-- A program from `P` to `Q` that leaves the objects of others alone. -/
abbrev MachineSpec (P : Machine → Prop) (p : MountScript α) (Q : α → Machine → Prop) : Prop :=
  (machine nodes).Triple (fun m m' => m.kernel.OthersKept m'.kernel) P p Q

/-- What holds of the kernel objects, with the open descriptors. -/
def On (images : List Nat) (P : Kernel → Prop) (m : Machine) : Prop :=
  P m.kernel ∧ m.images = images

theorem stable_on (hP : (kernel nodes).Stable P) : (machine nodes).Stable (On images P) :=
  fun _ _ hothers h => ⟨hP _ _ hothers.1 h.1, hothers.2.trans h.2⟩

/-! ## Programs of the mounter -/

/-- What the mounter calls is a part of all calls. -/
def mounterPart : (kernel nodes).Part (machine nodes) where
  call := .mounter
  reply _ x := x
  state := Machine.kernel
  answer {c x s s'} h := by
    obtain ⟨kernel, hanswer, rfl⟩ := Option.map_eq_some_iff.mp h
    exact hanswer
  others h := h.1

theorem mounterPart_frame : (@mounterPart nodes).Frame (·.images = images) := by
  refine ⟨fun _ _ hothers h => hothers.2.trans h, fun {c x s s'} hanswer h => ?_⟩
  obtain ⟨kernel, -, rfl⟩ := Option.map_eq_some_iff.mp hanswer
  exact h

theorem MachineSpec.inside {p : Script α} {Q : α → Kernel → Prop} (h : Spec nodes P p Q) :
    MachineSpec nodes (On images P) (mounter p) fun a => On images (Q a) :=
  Triple.inside mounterPart_frame (fun _ _ _ _ _ _ hkept => hkept) h

/-! ## Calls -/

theorem MachineSpec.quiet {call : MountCall} {f : call.Answer → MountScript β}
    {P : Machine → Prop} {Q : β → Machine → Prop}
    (hquiet : ∀ x m m', answerMount nodes call x m = some m' → m' = m)
    (hP : (machine nodes).Stable P) (hf : ∀ x, MachineSpec nodes P (f x) Q) :
    MachineSpec nodes P (request call >>= f) Q := by
  refine Triple.ask (R := fun _ => P) hP (fun m x m' hm hanswer => ?_) hf
  rw [hquiet x m m' hanswer]
  exact ⟨.refl _, hm⟩

theorem MachineSpec.openImage {path : String} {direct : Bool} {f : Option Nat → MountScript β}
    {Q : β → Machine → Prop} (hP : (kernel nodes).Stable P)
    (hnone : MachineSpec nodes (On images P) (f none) Q)
    (hsome : ∀ fd ∉ images, MachineSpec nodes (On (fd :: images) P) (f (some fd)) Q) :
    MachineSpec nodes (On images P) (request (.openImage path direct) >>= f) Q := by
  refine Triple.ask (R := Round (On images P) fun fd m => fd ∉ images ∧ On (fd :: images) P m)
    (stable_on hP) (fun m x m' hm hanswer => ?_) fun x => ?_
  · cases x with
    | none =>
      cases (show some m = some m' from hanswer)
      exact ⟨.refl _, hm⟩
    | some fd =>
      have hanswer : (if fd ∈ m.images then none else some { m with images := fd :: m.images }) =
        some m' := hanswer
      split at hanswer
      · cases hanswer
      · next hfree =>
        cases hanswer
        rw [hm.2] at hfree
        exact ⟨.refl _, hfree, hm.1, congrArg (fd :: ·) hm.2⟩
  · cases x with
    | none => exact hnone
    | some fd => exact .and_pre fun hfree => hsome fd hfree

theorem MachineSpec.closeImage {fd : Nat} {f : Bool → MountScript β} {Q : β → Machine → Prop}
    (hP : (kernel nodes).Stable P) (hfree : fd ∉ images)
    (hf : ∀ x, MachineSpec nodes (On images P) (f x) Q) :
    MachineSpec nodes (On (fd :: images) P) (request (.closeImage fd) >>= f) Q := by
  refine Triple.ask (R := fun _ => On images P) (stable_on hP) (fun m x m' hm hanswer => ?_) hf
  cases (show some { m with images := m.images.filter (· ≠ fd) } = some m' from hanswer)
  refine ⟨.refl _, hm.1, ?_⟩
  have hkept : images.filter (· ≠ fd) = images :=
    List.filter_eq_self.mpr fun other hother => decide_eq_true fun heq => hfree (heq ▸ hother)
  show m.images.filter (· ≠ fd) = images
  rw [hm.2, List.filter_cons_of_neg (by simp), hkept]

theorem MachineSpec.errno {f : Nat → MountScript β} {Q : β → Machine → Prop}
    (hP : (kernel nodes).Stable P) (hf : ∀ errno, MachineSpec nodes (On images P) (f errno) Q) :
    MachineSpec nodes (On images P) (mounter (syscall .errno) >>= f) Q := by
  have hquiet : ∀ x m m', answerMount nodes (.mounter .errno) x m = some m' → m' = m :=
    fun _ _ _ h => (Option.some.inj h).symm
  exact MachineSpec.quiet hquiet (stable_on hP) hf

/-! ## Mounting -/

/-- A new object, and its mount. -/
def NewObject (nodes : DeviceNodes) (mountPoint : String) (object : MountObject) (s : Kernel) :
    Prop :=
  (object.detached = false ∧ object.unmounted = false) ∧ Mounted nodes mountPoint object.mount s

/-- A mount that fails leaves nothing behind, with the same descriptors open as before. -/
abbrev MountSpec (nodes : DeviceNodes) (mountPoint : String) (images : List Nat)
    (p : MountScript (Result MountObject)) : Prop :=
  MachineSpec nodes (On images Clean) p
    fun result => On images (Outcome Clean (NewObject nodes mountPoint) result)

section
variable {name : Bytes} {fsType : FileSystemType} {mountPoint : String}
  {dataRange hashesRange : FileRange} {rootHash : Bytes}

theorem stable_mounted {mount : DmVerityMount} :
    (kernel nodes).Stable (Mounted nodes mountPoint mount) :=
  .exists fun _ => .exists fun _ => .exists fun _ => .and_pure (.and_pure stable_owns)

theorem stable_outcome {result : Result MountObject} :
    (kernel nodes).Stable (Outcome Clean (NewObject nodes mountPoint) result) := by
  cases result with
  | error error => exact stable_owns
  | ok object => exact .and_pure stable_mounted

theorem create_spec (mount : DmVerityMount) :
    MachineSpec nodes (On images (Mounted nodes mountPoint mount)) (MountObject.create mount)
      fun object => On images (NewObject nodes mountPoint object) := by
  refine Triple.bind (MachineSpec.inside (Q := fun _ => Mounted nodes mountPoint mount) ?_)
    fun deviceNumber => .ret (stable_on stable_mounted) fun m hm => ⟨⟨⟨rfl, rfl⟩, hm.1⟩, hm.2⟩
  intro s hs s' hothers x s'' hanswer
  have hsame : s'' = s' := by
    cases x with
    | none => exact (Option.some.inj hanswer).symm
    | some dev =>
      have hanswer : (if nodes.node mount.devicePath = some dev then some s' else none) =
        some s'' := hanswer
      split at hanswer
      · exact (Option.some.inj hanswer).symm
      · cases hanswer
  rw [hsame]
  exact ⟨.refl _, fun _ hs' => stable_mounted.star hs' (stable_mounted.star hothers hs)⟩

theorem doMountObject_spec (imageFd flags : Nat) :
    MountSpec nodes mountPoint images
      (doMountObject name fsType mountPoint dataRange hashesRange rootHash imageFd flags) := by
  refine Triple.bind (MachineSpec.inside
    (doMount_spec name fsType imageFd mountPoint dataRange hashesRange rootHash flags)) fun result => ?_
  cases result with
  | error error => exact .ret (stable_on stable_owns) fun _ hm => hm
  | ok mount =>
    exact Triple.bind (create_spec mount) fun object =>
      .ret (stable_on (.and_pure stable_mounted)) fun _ hm => hm

theorem mountAndClose_spec {imageFd : Nat} (hfree : imageFd ∉ images) (flags : Nat) :
    MachineSpec nodes (On (imageFd :: images) Clean)
      (mountAndClose name fsType mountPoint dataRange hashesRange rootHash imageFd flags)
      fun result => On images (Outcome Clean (NewObject nodes mountPoint) result) := by
  refine Triple.bind (doMountObject_spec imageFd flags) fun result => ?_
  exact MachineSpec.closeImage stable_outcome hfree fun _ =>
    .ret (stable_on stable_outcome) fun _ hm => hm

theorem failErrno_mountSpec (what : String) :
    MountSpec nodes mountPoint images (mounter (failErrno what)) :=
  MachineSpec.inside (failErrno_spec stable_owns what)

theorem mountPath_spec (imagePath : String) (flags : Nat) :
    MountSpec nodes mountPoint images
      (mountPath name fsType mountPoint dataRange hashesRange rootHash imagePath flags) := by
  have hfail : MountSpec nodes mountPoint images (failOpen imagePath) := failErrno_mountSpec _
  refine MachineSpec.openImage stable_owns ?_ fun fd hfree => mountAndClose_spec hfree flags
  dsimp only
  refine MachineSpec.errno stable_owns fun errno => ?_
  split
  · refine MachineSpec.openImage stable_owns hfail fun fd hfree => mountAndClose_spec hfree _
  · exact hfail

theorem mountFd_spec (imageFd : Nat) (flags : Nat) :
    MountSpec nodes mountPoint images
      (mountFd name fsType mountPoint dataRange hashesRange rootHash imageFd flags) := by
  unfold mountFd
  split
  · refine MachineSpec.quiet (fun _ _ _ h => (Option.some.inj h).symm) (stable_on stable_owns)
      fun direct => ?_
    cases direct with
    | none => exact failErrno_mountSpec _
    | some direct =>
      cases direct with
      | false => exact mountPath_spec _ flags
      | true => exact doMountObject_spec imageFd flags
  · exact doMountObject_spec imageFd flags

theorem mount_spec (image : ImageSource) (flags : Nat) :
    MountSpec nodes mountPoint images
      (mount name fsType mountPoint dataRange hashesRange rootHash image flags) := by
  cases image with
  | path imagePath => exact mountPath_spec imagePath flags
  | descriptor imageFd => exact mountFd_spec imageFd flags

end

end Mounter

end DmVerity
