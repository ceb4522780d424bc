import Ralf.DmVerity.MountScript
import Ralf.DmVerity.Ownership

/-!
# What the mounter has at each step

Each call, and each program that gets a loop device or a mapped device, has a triple: what the
mounter owns before and after it, when it fails and when it does not. No call takes away an object
of another process, whatever these do in between.
-/

namespace DmVerity

namespace Mounter

open Calls System Kernel

/-- The kernel with the other processes. -/
def kernel (nodes : DeviceNodes) : System Kernel Call Call.Answer where
  answer := nodes.answer
  others := Others

variable {nodes : DeviceNodes} {α β : Type} {P : Kernel → Prop} {loops : List LoopDevice}
  {devices : List DmDevice} {mounts : List Mount} {fds : List (Nat × Nat)}

variable (nodes) in
/-- A program from `P` to `Q` that leaves the objects of others alone. -/
abbrev Spec (P : Kernel → Prop) (p : Script α) (Q : α → Kernel → Prop) : Prop :=
  (kernel nodes).Triple OthersKept P p Q

/-- What holds after an error, and after a value. -/
def Outcome (E : Kernel → Prop) (O : α → Kernel → Prop) : Result α → Kernel → Prop
  | .error _, s => E s
  | .ok a, s => O a s

theorem stable_owns : (kernel nodes).Stable (Owns loops devices mounts fds) :=
  fun _ _ hothers h => h.others hothers

/-! ## Calls that change nothing -/

theorem kept_of_eq {s s' : Kernel} (h : some s = some s') (hs : P s) : s.OthersKept s' ∧ P s' := by
  cases h
  exact ⟨.refl s, hs⟩

theorem Spec.quiet {call : Call} {f : call.Answer → Script β} {Q : β → Kernel → Prop}
    (hquiet : ∀ x s, nodes.answer call x s = some s) (hP : (kernel nodes).Stable P)
    (hf : ∀ x, Spec nodes P (f x) Q) : Spec nodes P (syscall call >>= f) Q :=
  Triple.ask hP (fun s x _ hs hanswer => kept_of_eq ((hquiet x s).symm.trans hanswer) hs) hf

theorem failErrno_spec {O : α → Kernel → Prop} (hP : (kernel nodes).Stable P) (what : String) :
    Spec nodes P (failErrno what) (Outcome P O) :=
  .quiet (fun _ _ => rfl) hP fun _ => .ret hP fun _ h => h

theorem failErrno_bind_spec {f : Result α → Script β} {Q : β → Kernel → Prop} {what : String}
    (hP : (kernel nodes).Stable P) (hf : ∀ error, Spec nodes P (f (.error error)) Q) :
    Spec nodes P (failErrno what >>= f) Q := by
  refine Triple.bind (failErrno_spec (O := fun _ _ => False) hP what) fun result => ?_
  cases result with
  | error error => exact hf error
  | ok value => exact fun _ h => h.elim

/-- Giving up changes nothing. -/
theorem failErrno_keeps (hP : (kernel nodes).Stable P) (what : String) :
    Spec nodes P (failErrno what : Script (Result α)) fun _ => P :=
  .quiet (fun _ _ => rfl) hP fun _ => .ret hP fun _ h => h

/-! ## Calls that change objects -/

section
variable {fd number : Nat} {Q : β → Kernel → Prop}

theorem Spec.openLoop {readOnly : Bool} {f : Option Nat → Script β}
    (hnone : Spec nodes (Owns loops devices mounts []) (f none) Q)
    (hsome : ∀ fd, Spec nodes (Owns loops devices mounts [(fd, number)]) (f (some fd)) Q) :
    Spec nodes (Owns loops devices mounts []) (syscall (.openLoop number readOnly) >>= f) Q := by
  refine Triple.ask (R := Round (Owns loops devices mounts []) fun fd =>
    Owns loops devices mounts [(fd, number)]) stable_owns
    (fun s x s' hs hanswer => ?_) fun x => ?_
  · cases x with
    | none => exact kept_of_eq hanswer hs
    | some fd =>
      have hanswer : (if fd ∈ s.fds.map Prod.fst then none
          else some { s with fds := (fd, number) :: s.fds }) = some s' := hanswer
      split at hanswer
      · cases hanswer
      · cases hanswer
        rw [hs.fds]
        exact ⟨⟨fun _ h _ => .inl h, fun _ h _ => h, fun _ h _ => h⟩, hs.setFds _⟩
  · cases x with
    | none => exact hnone
    | some fd => exact hsome fd

theorem Spec.loopSetFd {imageFd : Nat} {f : Bool → Script β}
    (hfalse : Spec nodes (Owns [] devices mounts [(fd, number)]) (f false) Q)
    (htrue : Spec nodes (Owns [⟨number, true, false, false⟩] devices mounts [(fd, number)])
      (f true) Q) :
    Spec nodes (Owns [] devices mounts [(fd, number)]) (syscall (.loopSetFd fd imageFd) >>= f) Q := by
  refine Triple.ask (R := fun x =>
    Owns (if x then [⟨number, true, false, false⟩] else []) devices mounts [(fd, number)])
    stable_owns (fun s x s' hs hanswer => ?_) fun x => ?_
  · cases x with
    | false => exact kept_of_eq hanswer hs
    | true =>
      have hanswer : ((s.fds.lookup fd).bind fun number =>
          if number ∈ s.loops.map LoopDevice.number then none
          else some (s.attach number)) = some s' := hanswer
      rw [hs.fds, List.lookup_cons_self, Option.bind_some] at hanswer
      split at hanswer
      · cases hanswer
      · next hfree =>
        cases hanswer
        exact ⟨(hs.attach hfree).2, (hs.attach hfree).1⟩
  · cases x with
    | false => exact hfalse
    | true => exact htrue

theorem Spec.loopSetStatus {offset sizeLimit : Nat} {f : Bool → Script β}
    (hfalse : Spec nodes (Owns [⟨number, true, false, false⟩] devices mounts [(fd, number)])
      (f false) Q)
    (htrue : Spec nodes (Owns [⟨number, true, true, false⟩] devices mounts [(fd, number)])
      (f true) Q) :
    Spec nodes (Owns [⟨number, true, false, false⟩] devices mounts [(fd, number)])
      (syscall (.loopSetStatus fd offset sizeLimit) >>= f) Q := by
  refine Triple.ask (R := fun x =>
    Owns [⟨number, true, x, false⟩] devices mounts [(fd, number)]) stable_owns
    (fun s x s' hs hanswer => ?_) fun x => ?_
  · cases x with
    | false => exact kept_of_eq hanswer hs
    | true =>
      have hanswer : (s.fds.lookup fd).map s.setAutoclear = some s' := hanswer
      rw [hs.fds, List.lookup_cons_self] at hanswer
      cases hanswer
      exact ⟨hs.setAutoclear.2, hs.setAutoclear.1⟩
  · cases x with
    | false => exact hfalse
    | true => exact htrue

theorem Spec.loopClrFd {autoclear : Bool} {f : Unit → Script β}
    (hf : Spec nodes (Owns [] [] mounts [(fd, number)]) (f ()) Q) :
    Spec nodes (Owns [⟨number, true, autoclear, false⟩] [] mounts [(fd, number)])
      (syscall (.loopClrFd fd) >>= f) Q := by
  refine Triple.ask (R := fun _ => Owns [] [] mounts [(fd, number)]) stable_owns
    (fun s x s' hs hanswer => ?_) fun _ => hf
  have hanswer : (s.fds.lookup fd).map s.detach = some s' := hanswer
  rw [hs.fds, List.lookup_cons_self] at hanswer
  cases hanswer
  exact ⟨hs.detach.2, hs.detach.1⟩

theorem Spec.close {f : Bool → Script β} (hheld : ∀ loop ∈ loops, loop.held = false)
    (hf : ∀ x, Spec nodes (Owns
      (if devices.any (·.loop = some number) then loops
        else loops.filter fun loop => !(loop.number = number && loop.autoclear))
      devices mounts []) (f x) Q) :
    Spec nodes (Owns loops devices mounts [(fd, number)]) (syscall (.close fd) >>= f) Q := by
  refine Triple.ask (R := fun _ => _) stable_owns (fun s x s' hs hanswer => ?_) hf
  cases (show some (s.close fd) = some s' from hanswer)
  exact ⟨(hs.close hheld).2, (hs.close hheld).1⟩

/-- A descriptor of a loop device that is not attached is closed. -/
theorem Spec.closeUnattached {f : Bool → Script β}
    (hf : ∀ x, Spec nodes (Owns [] devices mounts []) (f x) Q) :
    Spec nodes (Owns [] devices mounts [(fd, number)]) (syscall (.close fd) >>= f) Q := by
  refine Spec.close nofun fun x => ?_
  rw [List.filter_nil, ite_self]
  exact hf x

theorem Spec.dmDevCreate {name uuid : Bytes} {f : Option DevNum → Script β}
    (hnone : Spec nodes (Owns loops [] [] fds) (f none) Q)
    (hsome : ∀ number, Spec nodes (Owns loops [⟨name, number, true, none, false⟩] [] fds)
      (f (some number)) Q) :
    Spec nodes (Owns loops [] [] fds) (syscall (.dmDevCreate name uuid) >>= f) Q := by
  refine Triple.ask (R := Round (Owns loops [] [] fds) fun number =>
    Owns loops [⟨name, number, true, none, false⟩] [] fds) stable_owns
    (fun s x s' hs hanswer => ?_) fun x => ?_
  · cases x with
    | none => exact kept_of_eq hanswer hs
    | some number =>
      have hanswer : (if s.isTaken name number then none else some (s.create name number)) =
        some s' := hanswer
      split at hanswer
      · cases hanswer
      · next hfree =>
        cases hanswer
        have hcreate := hs.create (Bool.eq_false_iff.mpr hfree)
        exact ⟨hcreate.2, hcreate.1⟩
  · cases x with
    | none => exact hnone
    | some number => exact hsome number

theorem tableLoop_eq {s : Kernel} {loop : LoopDevice} {params : List Char} (hmem : loop ∈ s.loops)
    (hline : readDevice ((params.splitOn ' ').getD 1 []) = some (nodes.loop loop.number)) :
    nodes.tableLoop s params = some loop.number := by
  unfold DeviceNodes.tableLoop
  rw [hline]
  dsimp only
  cases hfind : s.loops.find? fun l => nodes.loop l.number = nodes.loop loop.number with
  | none => exact absurd (List.find?_eq_none.mp hfind loop hmem) (by simp)
  | some found =>
    have hsame : nodes.loop found.number = nodes.loop loop.number := by
      simpa using List.find?_some hfind
    rw [Option.map_some, nodes.loop_injective hsame]

/-- The table uses the loop device that the line names. -/
theorem Spec.dmTableLoad (device : DmDevice) {loop : LoopDevice} {length : Nat}
    {targetType : String} {params : List Char} {readOnly : Bool} {f : Bool → Script β}
    (hline : readDevice ((params.splitOn ' ').getD 1 []) = some (nodes.loop loop.number))
    (hfalse : Spec nodes (Owns [loop] [device] mounts fds) (f false) Q)
    (htrue : Spec nodes (Owns [loop] [{ device with loop := some loop.number }] mounts fds)
      (f true) Q) :
    Spec nodes (Owns [loop] [device] mounts fds)
      (syscall (.dmTableLoad device.name length targetType params readOnly) >>= f) Q := by
  refine Triple.ask (R := fun x => Owns [loop]
    [if x then { device with loop := some loop.number } else device] mounts fds) stable_owns
    (fun s x s' hs hanswer => ?_) fun x => ?_
  · cases x with
    | false => exact kept_of_eq hanswer hs
    | true =>
      obtain ⟨hmem, -⟩ := hs.mem_loops.mp List.mem_cons_self
      have hanswer : some (s.load device.name (nodes.tableLoop s params)) = some s' := hanswer
      rw [tableLoop_eq hmem hline] at hanswer
      cases hanswer
      have hload := hs.load (fun number (heq : some loop.number = some number) =>
        Option.some.inj heq ▸ List.mem_map_of_mem hmem)
      exact ⟨hload.2, hload.1⟩
  · cases x with
    | false => exact hfalse
    | true => exact htrue

theorem Spec.dmDevSuspend {device : DmDevice} {readOnly : Bool} {cookie : Option Nat}
    {f : Option DevNum → Script β}
    (hnone : Spec nodes (Owns loops [device] mounts fds) (f none) Q)
    (hsome : Spec nodes (Owns loops [device] mounts fds) (f (some device.number)) Q) :
    Spec nodes (Owns loops [device] mounts fds)
      (syscall (.dmDevSuspend device.name readOnly cookie) >>= f) Q := by
  refine Triple.ask (R := fun x s => Owns loops [device] mounts fds s ∧
    (x = none ∨ x = some device.number)) stable_owns (fun s x s' hs hanswer => ?_) fun x => ?_
  · cases x with
    | none => exact (kept_of_eq hanswer hs).imp_right fun hs => ⟨hs, .inl rfl⟩
    | some number =>
      have hanswer : (if s.devices.any fun d => d.name = device.name && d.number = number
        then some s else none) = some s' := hanswer
      split at hanswer
      · next hsuspend =>
        cases hanswer
        exact ⟨.refl s, hs, .inr (congrArg some (hs.suspend hsuspend))⟩
      · cases hanswer
  · rintro s ⟨hs, rfl | rfl⟩
    · exact hnone s hs
    · exact hsome s hs

theorem Spec.dmDevRemove {device : DmDevice} {deferred : Bool} {f : Bool → Script β}
    (hheld : ∀ loop ∈ loops, loop.held = false)
    (hf : ∀ x, Spec nodes (Owns (loopsLeft loops fds device.loop) [] [] fds) (f x) Q) :
    Spec nodes (Owns loops [device] [] fds)
      (syscall (.dmDevRemove device.name deferred) >>= f) Q := by
  refine Triple.ask (R := fun _ => _) stable_owns (fun s x s' hs hanswer => ?_) hf
  have hremove := hs.remove_unmounted hheld
    (show s.remove device.name deferred x = some s' from hanswer)
  exact ⟨hremove.2, hremove.1⟩

theorem Spec.dmDevDefer (device : DmDevice) {mount : Mount} {f : Bool → Script β}
    (hmount : mount.device = device.number)
    (hf : ∀ deferred x, Spec nodes (Owns loops [{ device with deferred }] [mount] fds) (f x) Q) :
    Spec nodes (Owns loops [device] [mount] fds)
      (syscall (.dmDevRemove device.name true) >>= f) Q := by
  refine Triple.ask
    (R := fun _ s => ∃ deferred, Owns loops [{ device with deferred }] [mount] fds s) stable_owns
    (fun s x s' hs hanswer => ?_) fun x s hs => ?_
  · obtain ⟨deferred, hremove⟩ := hs.remove_mounted hmount
      (show s.remove device.name true x = some s' from hanswer)
    exact ⟨hremove.2, deferred, hremove.1⟩
  · obtain ⟨deferred, hs⟩ := hs
    exact hf deferred x s hs

theorem Spec.mount {source target fsType : String} {flags : Nat} {dev : DevNum}
    {f : Bool → Script β} (hnode : nodes.node source = some dev)
    (hfalse : Spec nodes (Owns loops devices [] fds) (f false) Q)
    (htrue : Spec nodes (Owns loops devices [⟨dev, target, true⟩] fds) (f true) Q) :
    Spec nodes (Owns loops devices [] fds)
      (syscall (.mount source target fsType flags) >>= f) Q := by
  refine Triple.ask (R := fun x => Owns loops devices (if x then [⟨dev, target, true⟩] else []) fds)
    stable_owns (fun s x s' hs hanswer => ?_) fun x => ?_
  · cases x with
    | false => exact kept_of_eq hanswer hs
    | true =>
      have hanswer : ((nodes.node source).map fun dev =>
        { s with mounts := ⟨dev, target, true⟩ :: s.mounts }) = some s' := hanswer
      rw [hnode] at hanswer
      cases hanswer
      exact ⟨(hs.mount dev target).2, (hs.mount dev target).1⟩
  · cases x with
    | false => exact hfalse
    | true => exact htrue

theorem Spec.umount (device : DmDevice) (mount : Mount) {f : Unit → Script β}
    (hmount : mount.device = device.number) (hdeferred : device.deferred = false)
    (hf : Spec nodes (Owns loops [device] [] fds) (f ()) Q) :
    Spec nodes (Owns loops [device] [mount] fds) (syscall (.umount mount.mountPoint) >>= f) Q := by
  refine Triple.ask (R := fun _ => Owns loops [device] [] fds) stable_owns
    (fun s x s' hs hanswer => ?_) fun _ => hf
  cases (show some (s.unmount mount.mountPoint) = some s' from hanswer)
  have hunmount := hs.unmount hmount hdeferred
  exact ⟨hunmount.2, hunmount.1⟩

/-- A descriptor has the number of its loop device. -/
theorem Spec.fstat {f : Option (Bool × DevNum) → Script β}
    (hnone : Spec nodes (Owns loops devices mounts [(fd, number)]) (f none) Q)
    (hother : ∀ dev,
      Spec nodes (Owns loops devices mounts [(fd, number)]) (f (some (false, dev))) Q)
    (hblock : Spec nodes (Owns loops devices mounts [(fd, number)])
      (f (some (true, nodes.loop number))) Q) :
    Spec nodes (Owns loops devices mounts [(fd, number)]) (syscall (.fstat fd) >>= f) Q := by
  refine Triple.ask (R := fun x s => Owns loops devices mounts [(fd, number)] s ∧
    ∀ dev, x = some (true, dev) → dev = nodes.loop number) stable_owns
    (fun s x s' hs hanswer => ?_) fun x => ?_
  · rcases x with _ | ⟨_ | _, dev⟩
    · exact (kept_of_eq hanswer hs).imp_right fun hs => ⟨hs, nofun⟩
    · exact (kept_of_eq hanswer hs).imp_right fun hs => ⟨hs, nofun⟩
    · have hanswer : (if (s.fds.lookup fd).map nodes.loop = some dev then some s else none) =
        some s' := hanswer
      rw [hs.fds, List.lookup_cons_self] at hanswer
      split at hanswer
      · next hdev =>
        cases hanswer
        refine ⟨.refl s, hs, fun dev' heq => ?_⟩
        rw [← (Prod.mk.inj (Option.some.inj heq)).2]
        exact (Option.some.inj hdev).symm
      · cases hanswer
  · rintro s ⟨hs, hdev⟩
    rcases x with _ | ⟨_ | _, dev⟩
    · exact hnone s hs
    · exact hother dev s hs
    · rw [hdev dev rfl]
      exact hblock s hs

/-- A path leads to the device that it has. -/
theorem Spec.stat {path : String} {f : Option DevNum → Script β} (hP : (kernel nodes).Stable P)
    (hf : ∀ x, (∀ dev, x = some dev → nodes.node path = some dev) → Spec nodes P (f x) Q) :
    Spec nodes P (syscall (.stat path) >>= f) Q := by
  refine Triple.ask (R := fun x s => P s ∧ ∀ dev, x = some dev → nodes.node path = some dev) hP
    (fun s x s' hs hanswer => ?_) fun x s hs => hf x hs.2 s hs.1
  cases x with
  | none => exact (kept_of_eq hanswer hs).imp_right fun hs => ⟨hs, nofun⟩
  | some dev =>
    have hanswer : (if nodes.node path = some dev then some s else none) = some s' := hanswer
    split at hanswer
    · next hnode =>
      cases hanswer
      exact ⟨.refl s, hs, fun dev' heq => heq ▸ hnode⟩
    · cases hanswer

/-- A block size is positive. -/
theorem Spec.blkSszGet {f : Option Nat → Script β} (hP : (kernel nodes).Stable P)
    (hf : ∀ x, Spec nodes P (f x) Q) : Spec nodes P (syscall (.blkSszGet fd) >>= f) Q := by
  refine Triple.ask hP (fun s x s' hs hanswer => ?_) hf
  cases x with
  | none => exact kept_of_eq hanswer hs
  | some size =>
    have hanswer : (if size = 0 then none else some s) = some s' := hanswer
    split at hanswer
    · cases hanswer
    · exact kept_of_eq hanswer hs

end

/-! ## The loop device -/

theorem getFreeLoopDevice_spec (hP : (kernel nodes).Stable P) :
    Spec nodes P getFreeLoopDevice (Outcome P fun _ => P) := by
  refine .quiet (fun _ _ => rfl) hP fun opened => ?_
  split
  · exact failErrno_spec hP _
  · refine .quiet (fun _ _ => rfl) hP fun number => ?_
    cases number with
    | none => exact failErrno_spec hP _
    | some number =>
      refine .quiet (fun _ _ => rfl) hP fun isBlockDevice => ?_
      split
      · exact failErrno_spec hP _
      · exact .ret hP fun _ h => h

/-- The mounter owns nothing. -/
abbrev Clean : Kernel → Prop := Owns [] [] [] []

/-- The loop device of the image. -/
abbrev imageLoop (number : Nat) : LoopDevice := ⟨number, true, true, false⟩

theorem claimLoopDevice_spec (imageFd flags : Nat) :
    Spec nodes Clean (claimLoopDevice imageFd flags) (Round Clean (Outcome Clean fun claimed =>
      Owns [⟨claimed.2, true, false, false⟩] [] [] [(claimed.1, claimed.2)])) := by
  refine Triple.bind (getFreeLoopDevice_spec stable_owns) fun found => ?_
  cases found with
  | error error => exact .ret stable_owns fun _ h => h
  | ok number =>
    refine Spec.openLoop ?_ fun loopDevFd => ?_
    · exact failErrno_bind_spec stable_owns fun error => .ret stable_owns fun _ h => h
    · refine Spec.loopSetFd ?_ ?_
      · -- another process was faster, or the call failed: nothing is attached
        refine .quiet (fun _ _ => rfl) stable_owns fun err => ?_
        refine Spec.closeUnattached fun _ => ?_
        split
        · exact failErrno_bind_spec stable_owns fun error => .ret stable_owns fun _ h => h
        · exact .ret stable_owns fun _ h => h
      · exact .ret stable_owns fun _ h => h

theorem clearLoopDevice_spec {fd number : Nat} {autoclear : Bool} {O : Nat → Kernel → Prop}
    (what : String) :
    Spec nodes (Owns [⟨number, true, autoclear, false⟩] [] [] [(fd, number)])
      (clearLoopDevice fd what) (Outcome Clean O) := by
  refine .quiet (fun _ _ => rfl) stable_owns fun errno => ?_
  refine Spec.loopClrFd (Spec.closeUnattached fun _ => ?_)
  exact .ret stable_owns fun _ h => h

theorem setUpLoopDevice_spec (fd number : Nat) (fileRange : FileRange) (flags : Nat) :
    Spec nodes (Owns [⟨number, true, false, false⟩] [] [] [(fd, number)])
      (setUpLoopDevice fd number fileRange flags)
      (Outcome Clean fun fd => Owns [imageLoop number] [] [] [(fd, number)]) := by
  refine Spec.loopSetStatus (clearLoopDevice_spec _) ?_
  simp only [Bool.not_true, Bool.false_eq_true, if_false]
  split
  · refine .quiet (fun _ _ => rfl) stable_owns fun enabled => ?_
    split
    · exact clearLoopDevice_spec _
    · exact .ret stable_owns fun _ h => h
  · exact .ret stable_owns fun _ h => h

theorem loopDeviceAttach_spec (imageFd : Nat) (fileRange : FileRange) (flags : Nat) :
    Spec nodes Clean (loopDeviceAttach imageFd fileRange flags)
      (Outcome Clean fun fd s => ∃ number, Owns [imageLoop number] [] [] [(fd, number)] s) := by
  refine Triple.bind
    (Triple.repeatUntil stable_owns (fun result => ?_) (claimLoopDevice_spec imageFd flags)) fun result => ?_
  · cases result with
    | error error => exact stable_owns
    | ok claimed => exact stable_owns
  · cases result with
    | error error => exact .ret stable_owns fun _ h => h
    | ok claimed =>
      refine (setUpLoopDevice_spec claimed.1 claimed.2 fileRange flags).conseq (fun _ h => h) ?_
      intro result s h
      cases result with
      | error error => exact h
      | ok fd => exact ⟨claimed.2, h⟩

/-! ## The mapped device -/

section
variable {fd number : Nat} {name uuid : Bytes} {dev : DevNum} {loop : Option Nat}

theorem removeDevice_spec (device : DmDevice) (deferred : Bool)
    (hheld : ∀ loop ∈ loops, loop.held = false) :
    Spec nodes (Owns loops [device] [] fds) (removeDevice device.name deferred) fun _ =>
      Owns (loopsLeft loops fds device.loop) [] [] fds := by
  refine Spec.dmDevRemove hheld fun removed => ?_
  split
  · exact .ret stable_owns fun _ h => h
  · exact failErrno_keeps stable_owns _

/-- While a descriptor is open, the loop device stays. -/
theorem loopsLeft_open (hloop : ∀ n, loop = some n → n = number) :
    loopsLeft [imageLoop number] [(fd, number)] loop = [imageLoop number] := by
  cases loop with
  | none => rfl
  | some n => simp [loopsLeft, hloop n rfl]

theorem loopsLeft_closed : loopsLeft [imageLoop number] [] (some number) = [] := by
  simp [loopsLeft]

/-- A device is taken away again before it has a mount. -/
theorem removeDevice_open_spec (hloop : ∀ n, loop = some n → n = number) :
    Spec nodes (Owns [imageLoop number] [⟨name, dev, true, loop, false⟩] [] [(fd, number)])
      (removeDevice name false) fun _ => Owns [imageLoop number] [] [] [(fd, number)] := by
  have hremove : Spec nodes
      (Owns [imageLoop number] [⟨name, dev, true, loop, false⟩] [] [(fd, number)])
      (removeDevice name false) fun _ =>
        Owns (loopsLeft [imageLoop number] [(fd, number)] loop) [] [] [(fd, number)] :=
    removeDevice_spec ⟨name, dev, true, loop, false⟩ false (by simp)
  rwa [loopsLeft_open hloop] at hremove

theorem createDevice_spec {dataSize : Nat} {targetType : String} {params : List Char}
    {readOnly : Bool}
    (hline : readDevice ((params.splitOn ' ').getD 1 []) = some (nodes.loop number)) :
    Spec nodes (Owns [imageLoop number] [] [] [(fd, number)])
      (createDevice dataSize name uuid targetType params readOnly)
      (Outcome (Owns [imageLoop number] [] [] [(fd, number)]) fun _ s =>
        ∃ dev, Owns [imageLoop number] [⟨name, dev, true, some number, false⟩] [] [(fd, number)]
          s) := by
  unfold createDevice
  split
  · exact .ret stable_owns fun _ h => h
  · refine Spec.dmDevCreate (failErrno_spec stable_owns _) fun dev => ?_
    refine Spec.dmTableLoad ⟨name, dev, true, none, false⟩ hline ?_ ?_
    · exact Triple.bind (removeDevice_open_spec nofun) fun _ => failErrno_spec stable_owns _
    · exact .ret stable_owns fun _ h => ⟨dev, h⟩

theorem startUDevSync_spec (hP : (kernel nodes).Stable P) (useUDevSync : Bool) :
    Spec nodes P (startUDevSync useUDevSync) fun _ => P := by
  unfold startUDevSync
  split
  · show Spec nodes P (syscall .createCookie >>= pure) _
    exact .quiet (fun _ _ => rfl) hP fun _ => .ret hP fun _ h => h
  · exact .ret hP fun _ h => h

theorem waitUDevSync_spec (hP : (kernel nodes).Stable P) (cookie : Option Nat) :
    Spec nodes P (waitUDevSync cookie) fun _ => P := by
  cases cookie with
  | none => exact .ret hP fun _ h => h
  | some cookie =>
    exact .quiet (fun _ _ => rfl) hP fun _ => .ret hP fun _ h => h

theorem activateDevice_spec (device : DmDevice) (readOnly useUDevSync : Bool) :
    Spec nodes (Owns loops [device] mounts fds) (activateDevice device.name readOnly useUDevSync)
      (Outcome (Owns loops [device] mounts fds) fun dev s =>
        dev = device.number ∧ Owns loops [device] mounts fds s) := by
  refine Triple.bind (startUDevSync_spec stable_owns useUDevSync) fun cookie => ?_
  refine Spec.dmDevSuspend (failErrno_spec stable_owns _) ?_
  refine Triple.bind (waitUDevSync_spec stable_owns cookie) fun _ => ?_
  exact .ret stable_owns fun _ h => ⟨rfl, h⟩

theorem findDevEntry_spec (hP : (kernel nodes).Stable P) (dev : DevNum) (entries : List String) :
    Spec nodes P (findDevEntry dev entries) fun found s =>
      P s ∧ ∀ path, found = some path → nodes.node path = some dev := by
  induction entries with
  | nil => exact .ret hP fun _ h => ⟨h, nofun⟩
  | cons path rest ih =>
    refine Spec.stat hP fun x hx => ?_
    split
    · next heq =>
      refine .ret hP fun _ h => ⟨h, fun path' hpath => ?_⟩
      cases hpath
      exact hx dev heq
    · exact ih

theorem findDeviceNode_spec (hP : (kernel nodes).Stable P) (dev : DevNum) :
    Spec nodes P (findDeviceNode dev)
      (Outcome P fun path s => nodes.node path = some dev ∧ P s) := by
  unfold findDeviceNode
  generalize 5 = attempts
  induction attempts with
  | zero => exact failErrno_spec hP _
  | succ attempts ih =>
    refine Spec.stat hP fun x hx => ?_
    split
    · next heq => exact .ret hP fun _ h => ⟨hx dev heq, h⟩
    · refine .quiet (fun _ _ => rfl) hP fun entries => ?_
      refine Triple.bind (findDevEntry_spec hP dev entries) fun found => ?_
      cases found with
      | none => exact ih.conseq (fun _ h => h.1) fun _ _ h => h
      | some path =>
        exact .ret (fun s s' hothers h => ⟨hP s s' hothers h.1, h.2⟩)
          fun _ h => ⟨h.2 path rfl, h.1⟩

/-- The mapped device of the image: it uses the loop device, and a path leads to it. -/
def Mapped (nodes : DeviceNodes) (number : Nat) (name : Bytes) (fds : List (Nat × Nat))
    (path : String) (s : Kernel) : Prop :=
  ∃ dev, nodes.node path = some dev ∧
    Owns [imageLoop number] [⟨name, dev, true, some number, false⟩] [] fds s

theorem mapTable_spec {dataSize : Nat} {params : List Char} {useUDevSync : Bool}
    (hline : readDevice ((params.splitOn ' ').getD 1 []) = some (nodes.loop number)) :
    Spec nodes (Owns [imageLoop number] [] [] [(fd, number)])
      (mapTable name uuid dataSize params useUDevSync)
      (Outcome (Owns [imageLoop number] [] [] [(fd, number)])
        (Mapped nodes number name [(fd, number)])) := by
  refine Triple.bind (createDevice_spec hline) fun created => ?_
  cases created with
  | error error => exact .ret stable_owns fun _ h => h
  | ok _ =>
    refine .exists_pre fun dev => ?_
    have hremove : Spec nodes
        (Owns [imageLoop number] [⟨name, dev, true, some number, false⟩] [] [(fd, number)])
        (removeDevice name false) fun _ => Owns [imageLoop number] [] [] [(fd, number)] :=
      removeDevice_open_spec fun n heq => (Option.some.inj heq).symm
    refine Triple.bind (activateDevice_spec ⟨name, dev, true, some number, false⟩ true useUDevSync)
      fun activated => ?_
    cases activated with
    | error error => exact Triple.bind hremove fun _ => .ret stable_owns fun _ h => h
    | ok activated =>
      refine .and_pre fun hactivated => ?_
      rw [hactivated]
      refine Triple.bind (findDeviceNode_spec stable_owns dev) fun found => ?_
      cases found with
      | error error => exact Triple.bind hremove fun _ => .ret stable_owns fun _ h => h
      | ok path =>
        exact .and_pre fun hnode => .ret stable_owns fun _ h => ⟨dev, hnode, h⟩

/-- The device mapper takes a name and a UUID. -/
def TakesName (name uuid : Bytes) : Prop :=
  checkDeviceNameAndUuid name uuid = .ok () ∧ ¬(name = [] ∧ uuid = [])

theorem readLoopSuperBlock_spec (hP : (kernel nodes).Stable P) (devFd hashesOffset : Nat) :
    Spec nodes P (readLoopSuperBlock devFd hashesOffset)
      (Outcome P fun superBlock s => superBlock.Supported ∧ P s) := by
  refine .quiet (fun _ _ => rfl) hP fun read => ?_
  cases read with
  | error errno => exact failErrno_spec hP _
  | data buf =>
    dsimp only
    split
    · exact failErrno_spec hP _
    · split
      · exact .ret hP fun _ h => h
      · next hcheck =>
        exact .ret hP fun _ h => ⟨VeritySuperBlock.checkSuperBlock_ok_iff.mp hcheck, h⟩

theorem mapWithVerity_spec (hashOffset dataSize : Nat) (rootHash : Bytes) (useUDevSync : Bool) :
    Spec nodes (Owns [imageLoop number] [] [] [(fd, number)])
      (mapWithVerity fd name uuid hashOffset dataSize rootHash useUDevSync)
      (Outcome (Owns [imageLoop number] [] [] [(fd, number)]) fun path s =>
        TakesName name uuid ∧ Mapped nodes number name [(fd, number)] path s) := by
  unfold mapWithVerity
  split
  · exact .ret stable_owns fun _ h => h
  next hname =>
  split_ifs with hroot hempty
  · exact .ret stable_owns fun _ h => h
  · exact .ret stable_owns fun _ h => h
  refine Spec.fstat (failErrno_spec stable_owns _) (fun _ => .ret stable_owns fun _ h => h) ?_
  refine Spec.blkSszGet stable_owns fun loopDevBlkSize => ?_
  cases loopDevBlkSize with
  | none => exact failErrno_spec stable_owns _
  | some loopDevBlkSize =>
    dsimp only
    split
    · exact .ret stable_owns fun _ h => h
    refine Triple.bind (readLoopSuperBlock_spec stable_owns fd hashOffset) fun read => ?_
    cases read with
    | error error => exact .ret stable_owns fun _ h => h
    | ok superBlock =>
      refine .and_pre fun hsupported => ?_
      dsimp only
      split
      · exact .ret stable_owns fun _ h => h
      · have hline : readDevice (((createTargetParams (nodes.loop number).1 (nodes.loop number).2
            superBlock rootHash hashOffset).splitOn ' ').getD 1 []) = some (nodes.loop number) := by
          rw [splitOn_createTargetParams hsupported]
          exact readDevice_deviceField _ _
        refine (mapTable_spec hline).conseq (fun _ h => h) ?_
        intro result s h
        cases result with
        | error error => exact h
        | ok path => exact ⟨⟨hname, hempty⟩, h⟩

end

end Mounter

end DmVerity
