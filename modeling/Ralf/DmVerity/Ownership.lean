import Mathlib.Data.List.Nodup
import Ralf.DmVerity.KernelObjects

/-!
# What the mounter owns

`Kernel.Owns` lists the objects of the mounter. Other processes keep it as it is. Here is what each
of the calls that change objects makes of it, and that none of them changes an object of others
(`OthersKept`).
-/

namespace DmVerity

namespace Kernel

variable {s s' : Kernel} {loops : List LoopDevice} {devices : List DmDevice} {mounts : List Mount}
  {fds : List (Nat × Nat)}

theorem OthersKept.refl (s : Kernel) : s.OthersKept s :=
  ⟨fun _ h _ => .inl h, fun _ h _ => h, fun _ h _ => h⟩

theorem Owns.others (h : s.Owns loops devices mounts fds) (hothers : s.Others s') :
    s'.Owns loops devices mounts fds := by
  unfold Others at hothers
  rwa [h.loops, h.devices, h.mounts, h.fds] at hothers

theorem Owns.mem_loops (h : s.Owns loops devices mounts fds) {loop : LoopDevice} :
    loop ∈ loops ↔ loop ∈ s.loops ∧ loop.own = true := by
  rw [← h.loops, List.mem_filter]

theorem Owns.mem_devices (h : s.Owns loops devices mounts fds) {device : DmDevice} :
    device ∈ devices ↔ device ∈ s.devices ∧ device.own = true := by
  rw [← h.devices, List.mem_filter]

theorem Owns.mem_mounts (h : s.Owns loops devices mounts fds) {mount : Mount} :
    mount ∈ mounts ↔ mount ∈ s.mounts ∧ mount.own = true := by
  rw [← h.mounts, List.mem_filter]

theorem WellFormed.loop_eq (h : s.WellFormed) {loop loop' : LoopDevice} (hmem : loop ∈ s.loops)
    (hmem' : loop' ∈ s.loops) (heq : loop.number = loop'.number) : loop = loop' :=
  List.inj_on_of_nodup_map h.loopNumbers hmem hmem' heq

theorem WellFormed.device_eq (h : s.WellFormed) {device device' : DmDevice}
    (hmem : device ∈ s.devices) (hmem' : device' ∈ s.devices) (heq : device.name = device'.name) :
    device = device' :=
  List.inj_on_of_nodup_map h.deviceNames hmem hmem' heq

/-! ## The last user of a loop device -/

theorem inUse_eq_true_iff {number : Nat} : s.inUse number = true ↔
    (∃ fd ∈ s.fds, fd.2 = number) ∨ (∃ device ∈ s.devices, device.loop = some number) ∨
      ∃ loop ∈ s.loops, loop.number = number ∧ loop.held = true := by
  unfold inUse
  simp [or_assoc]

theorem WellFormed.release (h : s.WellFormed) (number : Nat) : (s.release number).WellFormed := by
  unfold Kernel.release
  split
  · exact h
  · next hfree =>
    refine ⟨h.loopNumbers.sublist (List.filter_sublist.map _), h.deviceNames, h.deviceNumbers,
      fun device hdevice other hloop => ?_, fun loop hloop hown device hdevice heq => ?_,
      h.ownDevices, h.ownMounts⟩
    · obtain ⟨loop, hmem, heq⟩ := List.mem_map.mp (h.attached device hdevice other hloop)
      have hne : other ≠ number := by
        rintro rfl
        exact hfree (inUse_eq_true_iff.mpr (.inr (.inl ⟨device, hdevice, hloop⟩)))
      refine List.mem_map.mpr ⟨loop, List.mem_filter.mpr ⟨hmem, ?_⟩, heq⟩
      simp [heq, hne]
    · exact h.ownLoops loop (List.mem_filter.mp hloop).1 hown device hdevice heq

theorem release_othersKept (s : Kernel) (number : Nat) : s.OthersKept (s.release number) := by
  unfold Kernel.release
  split
  · exact .refl s
  · next hfree =>
    refine ⟨fun loop hloop _ => ?_, fun _ h _ => h, fun _ h _ => h⟩
    by_cases hgone : loop.number = number ∧ loop.autoclear = true
    · obtain ⟨rfl, hauto⟩ := hgone
      refine .inr ⟨hauto, Bool.eq_false_iff.mpr fun huse => hfree ?_⟩
      rw [inUse_eq_true_iff] at huse ⊢
      refine huse.imp_right (.imp_right ?_)
      rintro ⟨loop', hmem, heq⟩
      exact ⟨loop', (List.mem_filter.mp hmem).1, heq⟩
    · exact .inl (List.mem_filter.mpr ⟨hloop, by simpa [imp_iff_not_or] using hgone⟩)

theorem Owns.inUse_of_own (h : s.Owns loops devices mounts fds) {number : Nat}
    (huse : (fds.any (·.2 = number) || devices.any (·.loop = some number)) = true) :
    s.inUse number = true := by
  simp only [Bool.or_eq_true, List.any_eq_true, decide_eq_true_eq] at huse
  rw [inUse_eq_true_iff, h.fds]
  rcases huse with hfd | ⟨device, hdevice, hloop⟩
  · exact .inl hfd
  · exact .inr (.inl ⟨device, (h.mem_devices.mp hdevice).1, hloop⟩)

/-- A loop device of the mounter has no other users. -/
theorem Owns.own_of_inUse (h : s.Owns loops devices mounts fds) {loop : LoopDevice}
    (hloop : loop ∈ loops) (hheld : loop.held = false) (huse : s.inUse loop.number = true) :
    (fds.any (·.2 = loop.number) || devices.any (·.loop = some loop.number)) = true := by
  obtain ⟨hmem, hown⟩ := h.mem_loops.mp hloop
  simp only [Bool.or_eq_true, List.any_eq_true, decide_eq_true_eq]
  rcases inUse_eq_true_iff.mp huse with
    hfd | ⟨device, hdevice, heq⟩ | ⟨other, hother, heq, hheld'⟩
  · rw [h.fds] at hfd
    exact .inl hfd
  · have hdeviceOwn := h.wellFormed.ownLoops loop hmem hown device hdevice heq
    exact .inr ⟨device, h.mem_devices.mpr ⟨hdevice, hdeviceOwn⟩, heq⟩
  · rw [h.wellFormed.loop_eq hother hmem heq, hheld] at hheld'
    cases hheld'

/-- What the mounter owns after a user of a loop device went. -/
theorem Owns.release (h : s.Owns loops devices mounts fds)
    (hheld : ∀ loop ∈ loops, loop.held = false) (number : Nat) :
    (s.release number).Owns
      (if fds.any (·.2 = number) || devices.any (·.loop = some number) then loops
        else loops.filter fun loop => !(loop.number = number && loop.autoclear))
      devices mounts fds := by
  have hwell := h.wellFormed.release number
  unfold Kernel.release at hwell ⊢
  by_cases huse : s.inUse number = true
  · rw [if_pos huse] at hwell ⊢
    refine ⟨hwell, ?_, h.devices, h.mounts, h.fds⟩
    rw [h.loops]
    split
    · rfl
    · next hnone =>
      refine (List.filter_eq_self.mpr fun loop hloop => ?_).symm
      have hne : loop.number ≠ number := by
        rintro rfl
        exact hnone (h.own_of_inUse hloop (hheld loop hloop) huse)
      simp [hne]
  · rw [if_neg huse] at hwell ⊢
    rw [if_neg (mt h.inUse_of_own huse)]
    refine ⟨hwell, ?_, h.devices, h.mounts, h.fds⟩
    rw [← h.loops]
    exact List.filter_comm _ _ _

/-! ## Descriptors -/

theorem Owns.setFds (h : s.Owns loops devices mounts fds) (fds' : List (Nat × Nat)) :
    ({ s with fds := fds' } : Kernel).Owns loops devices mounts fds' :=
  ⟨⟨h.wellFormed.loopNumbers, h.wellFormed.deviceNames, h.wellFormed.deviceNumbers,
    h.wellFormed.attached, h.wellFormed.ownLoops, h.wellFormed.ownDevices, h.wellFormed.ownMounts⟩,
    h.loops, h.devices, h.mounts, rfl⟩

/-- Closing the last descriptor detaches an auto-clear loop device that no mapped device uses. -/
theorem Owns.close {fd number : Nat} (h : s.Owns loops devices mounts [(fd, number)])
    (hheld : ∀ loop ∈ loops, loop.held = false) :
    (s.close fd).Owns
        (if devices.any (·.loop = some number) then loops
          else loops.filter fun loop => !(loop.number = number && loop.autoclear))
        devices mounts [] ∧ s.OthersKept (s.close fd) := by
  have hclose : s.close fd = ({ s with fds := [] } : Kernel).release number := by
    unfold Kernel.close
    rw [h.fds]
    simp
  rw [hclose]
  have hkept := release_othersKept { s with fds := [] } number
  exact ⟨(h.setFds []).release hheld number, hkept.loops, hkept.devices, hkept.mounts⟩

/-! ## Objects that change -/

section
variable {α γ : Type} (f : α → α)

theorem key_update {p : Prop} [Decidable p] (key : α → γ) (h : ∀ a, key (f a) = key a) (a : α) :
    key (if p then f a else a) = key a := by
  split
  · exact h a
  · rfl

/-- What a change of some objects leaves alone in each, it leaves alone in all. -/
theorem map_key_update (p : α → Prop) [DecidablePred p] (key : α → γ)
    (h : ∀ a, key (f a) = key a) (l : List α) :
    (l.map fun a => if p a then f a else a).map key = l.map key := by
  rw [List.map_map]
  exact List.map_congr_left fun a _ => key_update f key h a

end

/-! ## Loop devices -/

theorem Owns.attach (h : s.Owns [] devices mounts fds) {number : Nat}
    (hfree : number ∉ s.loops.map LoopDevice.number) :
    (s.attach number).Owns [⟨number, true, false, false⟩] devices mounts fds ∧
      s.OthersKept (s.attach number) := by
  refine ⟨⟨⟨?_, h.wellFormed.deviceNames, h.wellFormed.deviceNumbers, ?_, ?_,
    h.wellFormed.ownDevices, h.wellFormed.ownMounts⟩, ?_, h.devices, h.mounts, h.fds⟩,
    fun loop hloop _ => .inl (List.mem_cons_of_mem _ hloop), fun _ hmem _ => hmem,
    fun _ hmem _ => hmem⟩
  · exact List.nodup_cons.mpr ⟨hfree, h.wellFormed.loopNumbers⟩
  · intro device hdevice other hloop
    exact List.mem_cons_of_mem _ (h.wellFormed.attached device hdevice other hloop)
  · intro loop hloop hown device hdevice heq
    rcases List.mem_cons.mp hloop with rfl | hloop
    · exact absurd (h.wellFormed.attached device hdevice _ heq) hfree
    · exact h.wellFormed.ownLoops loop hloop hown device hdevice heq
  · exact congrArg (⟨number, true, false, false⟩ :: ·) h.loops

theorem Owns.setAutoclear {number : Nat} {autoclear : Bool}
    (h : s.Owns [⟨number, true, autoclear, false⟩] devices mounts fds) :
    (s.setAutoclear number).Owns [⟨number, true, true, false⟩] devices mounts fds ∧
      s.OthersKept (s.setAutoclear number) := by
  obtain ⟨hmem, -⟩ := h.mem_loops.mp List.mem_cons_self
  have hnumbers : (s.setAutoclear number).loops.map LoopDevice.number =
      s.loops.map LoopDevice.number := by
    unfold Kernel.setAutoclear
    exact map_key_update (fun loop => { loop with autoclear := true }) (·.number = number)
      LoopDevice.number (fun _ => rfl) s.loops
  refine ⟨⟨⟨hnumbers ▸ h.wellFormed.loopNumbers, h.wellFormed.deviceNames,
    h.wellFormed.deviceNumbers, ?_, ?_, h.wellFormed.ownDevices, h.wellFormed.ownMounts⟩, ?_,
    h.devices, h.mounts, h.fds⟩, ?_, fun _ hmem _ => hmem, fun _ hmem _ => hmem⟩
  · rw [hnumbers]
    exact h.wellFormed.attached
  · intro _ hset hloopOwn device hdevice heq
    obtain ⟨loop, hloop, rfl⟩ := List.mem_map.mp hset
    rw [key_update (fun l => { l with autoclear := true }) LoopDevice.own fun _ => rfl] at hloopOwn
    rw [key_update (fun l => { l with autoclear := true }) LoopDevice.number fun _ => rfl] at heq
    exact h.wellFormed.ownLoops loop hloop hloopOwn device hdevice heq
  · have hown : LoopDevice.own ∘ (fun loop : LoopDevice =>
        if loop.number = number then { loop with autoclear := true } else loop) =
          LoopDevice.own := by
      funext loop
      dsimp only [Function.comp_apply]
      rw [key_update (fun l => { l with autoclear := true }) LoopDevice.own fun _ => rfl]
    unfold Kernel.setAutoclear
    rw [List.filter_map, hown, h.loops]
    simp
  · intro loop hloop hother
    refine .inl (List.mem_map.mpr ⟨loop, hloop, if_neg fun heq => ?_⟩)
    rw [h.wellFormed.loop_eq hloop hmem heq] at hother
    cases hother

/-- A loop device of the mounter that no mapped device uses is detached at once. -/
theorem Owns.detach {number : Nat} {autoclear held : Bool}
    (h : s.Owns [⟨number, true, autoclear, held⟩] [] mounts fds) :
    (s.detach number).Owns [] [] mounts fds ∧ s.OthersKept (s.detach number) := by
  obtain ⟨hmem, hmemOwn⟩ := h.mem_loops.mp List.mem_cons_self
  have hunused : ∀ device ∈ s.devices, device.loop ≠ some number := by
    intro device hdevice hloop
    have hown := h.wellFormed.ownLoops _ hmem hmemOwn device hdevice hloop
    exact absurd (h.mem_devices.mpr ⟨hdevice, hown⟩) List.not_mem_nil
  have hdetach : s.detach number =
      { s with loops := s.loops.filter (·.number ≠ number) } := by
    unfold Kernel.detach
    rw [if_neg (by simpa using hunused)]
  rw [hdetach]
  refine ⟨⟨⟨h.wellFormed.loopNumbers.sublist (List.filter_sublist.map _), h.wellFormed.deviceNames,
    h.wellFormed.deviceNumbers, ?_, ?_, h.wellFormed.ownDevices, h.wellFormed.ownMounts⟩, ?_,
    h.devices, h.mounts, h.fds⟩, ?_, fun _ hmem _ => hmem, fun _ hmem _ => hmem⟩
  · intro device hdevice other hloop
    obtain ⟨loop, hloopMem, rfl⟩ :=
      List.mem_map.mp (h.wellFormed.attached device hdevice other hloop)
    refine List.mem_map_of_mem (List.mem_filter.mpr ⟨hloopMem, decide_eq_true fun heq => ?_⟩)
    exact hunused device hdevice (heq ▸ hloop)
  · intro loop hloop hown device hdevice heq
    exact h.wellFormed.ownLoops loop (List.mem_filter.mp hloop).1 hown device hdevice heq
  · rw [List.filter_comm, h.loops]
    simp
  · intro loop hloop hother
    refine .inl (List.mem_filter.mpr ⟨hloop, decide_eq_true fun heq => ?_⟩)
    rw [h.wellFormed.loop_eq hloop hmem heq] at hother
    cases hother

/-! ## Mapped devices -/

theorem isTaken_eq_false_iff {name : Bytes} {number : DevNum} : s.isTaken name number = false ↔
    (∀ device ∈ s.devices, device.name ≠ name ∧ device.number ≠ number) ∧
      ∀ mount ∈ s.mounts, mount.device ≠ number := by
  simp [isTaken]

theorem Owns.create (h : s.Owns loops [] [] fds) {name : Bytes} {number : DevNum}
    (hfree : s.isTaken name number = false) :
    (s.create name number).Owns loops [⟨name, number, true, none, false⟩] [] fds ∧
      s.OthersKept (s.create name number) := by
  obtain ⟨hdevices, hmounts⟩ := isTaken_eq_false_iff.mp hfree
  refine ⟨⟨⟨h.wellFormed.loopNumbers, ?_, ?_, ?_, ?_, ?_, h.wellFormed.ownMounts⟩, h.loops, ?_,
    h.mounts, h.fds⟩, fun _ hmem _ => .inl hmem, fun _ hmem _ => List.mem_cons_of_mem _ hmem,
    fun _ hmem _ => hmem⟩
  · refine List.nodup_cons.mpr ⟨fun hname => ?_, h.wellFormed.deviceNames⟩
    obtain ⟨device, hdevice, heq⟩ := List.mem_map.mp hname
    exact (hdevices device hdevice).1 heq
  · refine List.nodup_cons.mpr ⟨fun hnumber => ?_, h.wellFormed.deviceNumbers⟩
    obtain ⟨device, hdevice, heq⟩ := List.mem_map.mp hnumber
    exact (hdevices device hdevice).2 heq
  · intro device hdevice other hloop
    rcases List.mem_cons.mp hdevice with rfl | hdevice
    · cases hloop
    · exact h.wellFormed.attached device hdevice other hloop
  · intro loop hloop hown device hdevice heq
    rcases List.mem_cons.mp hdevice with rfl | hdevice
    · rfl
    · exact h.wellFormed.ownLoops loop hloop hown device hdevice heq
  · intro device hdevice hown mount hmem heq
    rcases List.mem_cons.mp hdevice with rfl | hdevice
    · exact absurd heq (hmounts mount hmem)
    · exact h.wellFormed.ownDevices device hdevice hown mount hmem heq
  · exact congrArg (_ :: ·) h.devices

/-- A change of the mounter's device that leaves its name and number. -/
theorem Owns.update {device : DmDevice} (h : s.Owns loops [device] mounts fds)
    (f : DmDevice → DmDevice) (hf : ∀ d, (f d).name = d.name ∧ (f d).number = d.number ∧
      (f d).own = d.own)
    (hattached : ∀ number, (f device).loop = some number → number ∈ s.loops.map LoopDevice.number) :
    let s' : Kernel := { s with devices := s.devices.map fun d =>
      if d.name = device.name then f d else d }
    s'.Owns loops [f device] mounts fds ∧ s.OthersKept s' := by
  obtain ⟨hmem, hmemOwn⟩ := h.mem_devices.mp List.mem_cons_self
  -- the device is the only one that is changed
  have hchange : ∀ d ∈ s.devices, (if d.name = device.name then f d else d) =
      if d = device then f device else d := by
    intro d hd
    by_cases heq : d = device
    · rw [if_pos heq, heq, if_pos rfl]
    · rw [if_neg heq, if_neg fun hname => heq (h.wellFormed.device_eq hd hmem hname)]
  have hown : ∀ d : DmDevice, (if d.name = device.name then f d else d).own = d.own :=
    fun d => key_update f DmDevice.own (fun d => (hf d).2.2) d
  refine ⟨⟨⟨h.wellFormed.loopNumbers, ?_, ?_, ?_, ?_, ?_, h.wellFormed.ownMounts⟩, h.loops, ?_,
    h.mounts, h.fds⟩, fun _ hmem _ => .inl hmem, ?_, fun _ hmem _ => hmem⟩
  · exact map_key_update f (·.name = device.name) DmDevice.name (fun d => (hf d).1) s.devices ▸
      h.wellFormed.deviceNames
  · exact map_key_update f (·.name = device.name) DmDevice.number (fun d => (hf d).2.1) s.devices ▸
      h.wellFormed.deviceNumbers
  · intro _ hset number hloop
    obtain ⟨d, hd, rfl⟩ := List.mem_map.mp hset
    rw [hchange d hd] at hloop
    split at hloop
    · exact hattached number hloop
    · exact h.wellFormed.attached d hd number hloop
  · intro loop hloop hloopOwn _ hset heq
    obtain ⟨d, hd, rfl⟩ := List.mem_map.mp hset
    rw [hown]
    rw [hchange d hd] at heq
    split at heq
    · next hdevice => rw [hdevice, hmemOwn]
    · exact h.wellFormed.ownLoops loop hloop hloopOwn d hd heq
  · intro _ hset hdeviceOwn mount hmount heq
    obtain ⟨d, hd, rfl⟩ := List.mem_map.mp hset
    rw [hown] at hdeviceOwn
    rw [key_update f DmDevice.number fun d => (hf d).2.1] at heq
    exact h.wellFormed.ownDevices d hd hdeviceOwn mount hmount heq
  · have hcomp : DmDevice.own ∘ (fun d : DmDevice => if d.name = device.name then f d else d) =
        DmDevice.own := funext hown
    dsimp only
    rw [List.filter_map, hcomp, h.devices, List.map_singleton, if_pos rfl]
  · intro d hd hother
    refine List.mem_map.mpr ⟨d, hd, (hchange d hd).trans (if_neg ?_)⟩
    rintro rfl
    rw [hmemOwn] at hother
    cases hother

theorem Owns.load {device : DmDevice} (h : s.Owns loops [device] mounts fds) {loop : Option Nat}
    (hloop : ∀ number, loop = some number → number ∈ s.loops.map LoopDevice.number) :
    (s.load device.name loop).Owns loops [{ device with loop }] mounts fds ∧
      s.OthersKept (s.load device.name loop) :=
  h.update (fun d => { d with loop }) (fun _ => ⟨rfl, rfl, rfl⟩) hloop

theorem Owns.defer {device : DmDevice} (h : s.Owns loops [device] mounts fds) :
    (s.defer device.name).Owns loops [{ device with deferred := true }] mounts fds ∧
      s.OthersKept (s.defer device.name) := by
  obtain ⟨hmem, -⟩ := h.mem_devices.mp List.mem_cons_self
  exact h.update (fun d => { d with deferred := true }) (fun _ => ⟨rfl, rfl, rfl⟩)
    (h.wellFormed.attached device hmem)

/-- The loop devices that are left when a device goes that used one: if no descriptor is open, an
auto-clear one is detached with it. -/
def loopsLeft (loops : List LoopDevice) (fds : List (Nat × Nat)) : Option Nat → List LoopDevice
  | none => loops
  | some number => if fds.any (·.2 = number) then loops
    else loops.filter fun loop => !(loop.number = number && loop.autoclear)

/-- What the mounter owns without its device. -/
theorem Owns.drop {device : DmDevice} (h : s.Owns loops [device] mounts fds)
    (hheld : ∀ loop ∈ loops, loop.held = false) :
    (s.drop device).Owns (loopsLeft loops fds device.loop) [] mounts fds ∧
      s.OthersKept (s.drop device) := by
  obtain ⟨hmem, hmemOwn⟩ := h.mem_devices.mp List.mem_cons_self
  have hdropped : ({ s with devices := s.devices.filter (·.name ≠ device.name) } : Kernel).Owns
      loops [] mounts fds := by
    refine ⟨⟨h.wellFormed.loopNumbers, h.wellFormed.deviceNames.sublist (List.filter_sublist.map _),
      h.wellFormed.deviceNumbers.sublist (List.filter_sublist.map _),
      fun d hd => h.wellFormed.attached d (List.mem_filter.mp hd).1,
      fun loop hloop hown d hd => h.wellFormed.ownLoops loop hloop hown d (List.mem_filter.mp hd).1,
      fun d hd => h.wellFormed.ownDevices d (List.mem_filter.mp hd).1, h.wellFormed.ownMounts⟩,
      h.loops, ?_, h.mounts, h.fds⟩
    dsimp only
    rw [List.filter_comm, h.devices]
    simp
  have hkept : ∀ d ∈ s.devices, d.own = false →
      d ∈ s.devices.filter (·.name ≠ device.name) := by
    intro d hd hother
    refine List.mem_filter.mpr ⟨hd, decide_eq_true fun heq => ?_⟩
    rw [h.wellFormed.device_eq hd hmem heq, hmemOwn] at hother
    cases hother
  unfold Kernel.drop
  dsimp only
  cases device.loop with
  | none => exact ⟨hdropped, fun _ hloop _ => .inl hloop, hkept, fun _ hmount _ => hmount⟩
  | some number =>
    have hreleased := hdropped.release hheld number
    have hothers := release_othersKept
      { s with devices := s.devices.filter (·.name ≠ device.name) } number
    refine ⟨?_, hothers.loops, fun d hd hother => hothers.devices d (hkept d hd hother) hother,
      hothers.mounts⟩
    rwa [List.any_nil, Bool.or_false] at hreleased

theorem Owns.find_device {device : DmDevice} (h : s.Owns loops [device] mounts fds) :
    s.devices.find? (·.name = device.name) = some device := by
  obtain ⟨hmem, -⟩ := h.mem_devices.mp List.mem_cons_self
  cases hfind : s.devices.find? (·.name = device.name) with
  | none => exact absurd (List.find?_eq_none.mp hfind device hmem) (by simp)
  | some found =>
    have hname : found.name = device.name := by simpa using List.find?_some hfind
    rw [h.wellFormed.device_eq (List.mem_of_find?_eq_some hfind) hmem hname]

/-- The mounter's device is removed for sure when it is not mounted. -/
theorem Owns.remove_unmounted {device : DmDevice} (h : s.Owns loops [device] [] fds)
    (hheld : ∀ loop ∈ loops, loop.held = false) {deferred removed : Bool}
    (hremove : s.remove device.name deferred removed = some s') :
    s'.Owns (loopsLeft loops fds device.loop) [] [] fds ∧ s.OthersKept s' := by
  obtain ⟨hmem, hown⟩ := h.mem_devices.mp List.mem_cons_self
  have hunmounted : s.isMounted device = false := by
    refine List.any_eq_false.mpr fun mount hmount heq => ?_
    have hmountOwn := h.wellFormed.ownDevices device hmem hown mount hmount (of_decide_eq_true heq)
    exact absurd (h.mem_mounts.mpr ⟨hmount, hmountOwn⟩) List.not_mem_nil
  unfold Kernel.remove at hremove
  rw [h.find_device] at hremove
  simp only [hunmounted, hown, Bool.false_eq_true, if_false, if_true] at hremove
  cases removed with
  | true =>
    have heq : s.drop device = s' := by simpa using hremove
    rw [← heq]
    exact h.drop hheld
  | false => exact absurd hremove (by simp)

/-- A mounted device stays, and it may be marked for later removal. -/
theorem Owns.remove_mounted {device : DmDevice} {mount : Mount}
    (h : s.Owns loops [device] [mount] fds) (hmount : mount.device = device.number) {removed : Bool}
    (hremove : s.remove device.name true removed = some s') :
    ∃ deferred, s'.Owns loops [{ device with deferred }] [mount] fds ∧ s.OthersKept s' := by
  obtain ⟨hmem, -⟩ := h.mem_mounts.mp List.mem_cons_self
  have hmounted : s.isMounted device = true :=
    List.any_eq_true.mpr ⟨mount, hmem, decide_eq_true hmount⟩
  unfold Kernel.remove at hremove
  rw [h.find_device] at hremove
  simp only [hmounted, if_true] at hremove
  cases removed with
  | false =>
    have heq : s = s' := by simpa using hremove
    rw [← heq]
    exact ⟨device.deferred, h, .refl s⟩
  | true =>
    have heq : s.defer device.name = s' := by simpa using hremove
    rw [← heq]
    exact ⟨true, h.defer⟩

theorem Owns.suspend {device : DmDevice} (h : s.Owns loops [device] mounts fds) {number : DevNum}
    (hsuspend : (s.devices.any fun d => d.name = device.name && d.number = number) = true) :
    number = device.number := by
  obtain ⟨hmem, -⟩ := h.mem_devices.mp List.mem_cons_self
  obtain ⟨d, hd, heq⟩ := List.any_eq_true.mp hsuspend
  simp only [Bool.and_eq_true, decide_eq_true_eq] at heq
  rw [← heq.2, h.wellFormed.device_eq hd hmem heq.1]

/-! ## Mounts -/

theorem Owns.mount (h : s.Owns loops devices [] fds) (device : DevNum) (mountPoint : String) :
    let s' : Kernel := { s with mounts := ⟨device, mountPoint, true⟩ :: s.mounts }
    s'.Owns loops devices [⟨device, mountPoint, true⟩] fds ∧ s.OthersKept s' := by
  have hnone : ∀ mount ∈ s.mounts, mount.own ≠ true := fun mount hmount hown =>
    absurd (h.mem_mounts.mpr ⟨hmount, hown⟩) List.not_mem_nil
  refine ⟨⟨⟨h.wellFormed.loopNumbers, h.wellFormed.deviceNames, h.wellFormed.deviceNumbers,
    h.wellFormed.attached, h.wellFormed.ownLoops, ?_, ?_⟩, h.loops, h.devices,
    congrArg (_ :: ·) h.mounts, h.fds⟩, fun _ hmem _ => .inl hmem, fun _ hmem _ => hmem,
    fun _ hmem _ => List.mem_cons_of_mem _ hmem⟩
  · intro d hd hown mount hmount heq
    rcases List.mem_cons.mp hmount with rfl | hmount
    · rfl
    · exact h.wellFormed.ownDevices d hd hown mount hmount heq
  · intro mount hmount hown
    rcases List.mem_cons.mp hmount with rfl | hmount
    · simp
    · exact absurd hown (hnone mount hmount)

/-- The mounter's mount is the last one at its mount point. -/
theorem Owns.mounts_split {mount : Mount} (h : s.Owns loops devices [mount] fds) :
    ∃ before after, s.mounts = before ++ mount :: after ∧
      s.mounts.eraseP (·.mountPoint = mount.mountPoint) = before ++ after ∧
      (before ++ after).filter Mount.own = [] := by
  obtain ⟨hmem, hown⟩ := h.mem_mounts.mp List.mem_cons_self
  obtain ⟨-, before, after, hsplit, hbefore⟩ :=
    List.find?_eq_some_iff_append.mp (h.wellFormed.ownMounts mount hmem hown)
  refine ⟨before, after, hsplit, ?_, ?_⟩
  · rw [hsplit, List.eraseP_append_right _ (by simpa using hbefore),
      List.eraseP_cons_of_pos (by simp)]
  · have hmounts := h.mounts
    rw [hsplit, List.filter_append, List.filter_cons_of_pos hown] at hmounts
    have hlength := congrArg List.length hmounts
    rw [List.length_append, List.length_cons, List.length_singleton] at hlength
    rw [List.filter_append, List.eq_nil_of_length_eq_zero (by omega : (before.filter _).length = 0),
      List.eq_nil_of_length_eq_zero (by omega : (after.filter _).length = 0)]
    rfl

/-- A device that is not marked for removal stays when it is unmounted. -/
theorem Owns.unmount_eq {device : DmDevice} {mount : Mount} (h : s.Owns loops [device] [mount] fds)
    (hmount : mount.device = device.number) (hdeferred : device.deferred = false) :
    s.unmount mount.mountPoint =
      { s with mounts := s.mounts.eraseP (·.mountPoint = mount.mountPoint) } := by
  obtain ⟨hmem, hown⟩ := h.mem_mounts.mp List.mem_cons_self
  obtain ⟨hdevice, -⟩ := h.mem_devices.mp List.mem_cons_self
  have hnone : s.devices.find? (fun d => d.number = mount.device && d.deferred) = none := by
    refine List.find?_eq_none.mpr fun d hd heq => ?_
    simp only [Bool.and_eq_true, decide_eq_true_eq] at heq
    have hd : d = device := List.inj_on_of_nodup_map h.wellFormed.deviceNumbers hd hdevice
      (heq.1.trans hmount)
    rw [hd, hdeferred] at heq
    exact Bool.noConfusion heq.2
  unfold Kernel.unmount
  rw [h.wellFormed.ownMounts mount hmem hown]
  dsimp only
  rw [hnone]

/-- The mounts without the mounter's own. -/
theorem Owns.eraseMount {mount : Mount} (h : s.Owns loops devices [mount] fds) :
    let s' : Kernel := { s with mounts := s.mounts.eraseP (·.mountPoint = mount.mountPoint) }
    s'.Owns loops devices [] fds ∧ s.OthersKept s' := by
  obtain ⟨-, hown⟩ := h.mem_mounts.mp List.mem_cons_self
  obtain ⟨before, after, hsplit, herase, hfilter⟩ := h.mounts_split
  rw [herase]
  have hsub : ∀ m ∈ before ++ after, m ∈ s.mounts := by
    intro m hm
    rw [hsplit]
    exact List.mem_append.mpr ((List.mem_append.mp hm).imp_right (List.mem_cons_of_mem _))
  refine ⟨⟨⟨h.wellFormed.loopNumbers, h.wellFormed.deviceNames, h.wellFormed.deviceNumbers,
    h.wellFormed.attached, h.wellFormed.ownLoops,
    fun d hd hdOwn m hm => h.wellFormed.ownDevices d hd hdOwn m (hsub m hm), ?_⟩, h.loops,
    h.devices, hfilter, h.fds⟩, fun _ hmem _ => .inl hmem, fun _ hmem _ => hmem, ?_⟩
  · intro m hm hmOwn
    exact absurd (List.mem_filter.mpr ⟨hm, hmOwn⟩) (hfilter ▸ List.not_mem_nil)
  · intro m hm hother
    rw [hsplit, List.mem_append, List.mem_cons] at hm
    rcases hm with hm | rfl | hm
    · exact List.mem_append_left _ hm
    · rw [hown] at hother
      cases hother
    · exact List.mem_append_right _ hm

theorem Owns.unmount {device : DmDevice} {mount : Mount} (h : s.Owns loops [device] [mount] fds)
    (hmount : mount.device = device.number) (hdeferred : device.deferred = false) :
    (s.unmount mount.mountPoint).Owns loops [device] [] fds ∧
      s.OthersKept (s.unmount mount.mountPoint) := by
  rw [h.unmount_eq hmount hdeferred]
  exact h.eraseMount

theorem OthersKept.trans {s₁ s₂ s₃ : Kernel} (h : s₁.OthersKept s₂) (h' : s₂.OthersKept s₃)
    (hloops : s₂.loops = s₁.loops) : s₁.OthersKept s₃ :=
  ⟨fun loop hloop hother => h'.loops loop (hloops ▸ hloop) hother,
    fun device hdevice hother => h'.devices device (h.devices device hdevice hother) hother,
    fun mount hmount hother => h'.mounts mount (h.mounts mount hmount hother) hother⟩

/-- A device that is marked for removal goes when it is unmounted, and the loop device with it. -/
theorem Owns.unmount_deferred {device : DmDevice} {mount : Mount}
    (h : s.Owns loops [device] [mount] fds) (hmount : mount.device = device.number)
    (hdeferred : device.deferred = true) (hheld : ∀ loop ∈ loops, loop.held = false) :
    (s.unmount mount.mountPoint).Owns (loopsLeft loops fds device.loop) [] [] fds ∧
      s.OthersKept (s.unmount mount.mountPoint) := by
  obtain ⟨hmem, hown⟩ := h.mem_mounts.mp List.mem_cons_self
  obtain ⟨hdevice, hdeviceOwn⟩ := h.mem_devices.mp List.mem_cons_self
  obtain ⟨herased, hkept⟩ := h.eraseMount
  have hfind : s.devices.find? (fun d => d.number = mount.device && d.deferred) = some device := by
    cases hfound : s.devices.find? fun d => d.number = mount.device && d.deferred with
    | none =>
      refine absurd (List.find?_eq_none.mp hfound device hdevice) ?_
      simp [hmount, hdeferred]
    | some found =>
      have hnumber : found.number = mount.device ∧ found.deferred = true := by
        simpa using List.find?_some hfound
      have hsame : found = device := List.inj_on_of_nodup_map h.wellFormed.deviceNumbers
        (List.mem_of_find?_eq_some hfound) hdevice (hnumber.1.trans hmount)
      rw [hsame]
  -- every mount of the device is the mounter's own, which is gone
  have hfree : Kernel.isMounted
      { s with mounts := s.mounts.eraseP (·.mountPoint = mount.mountPoint) } device = false := by
    refine List.any_eq_false.mpr fun m hm heq => ?_
    have hmOwn := herased.wellFormed.ownDevices device hdevice hdeviceOwn m hm
      (of_decide_eq_true heq)
    exact absurd (herased.mem_mounts.mpr ⟨hm, hmOwn⟩) List.not_mem_nil
  unfold Kernel.unmount
  rw [h.wellFormed.ownMounts mount hmem hown]
  dsimp only
  rw [hfind]
  dsimp only
  rw [if_neg (Bool.eq_false_iff.mp hfree)]
  obtain ⟨hdropped, hkept'⟩ := herased.drop hheld
  exact ⟨hdropped, hkept.trans hkept' rfl⟩

end Kernel

end DmVerity
