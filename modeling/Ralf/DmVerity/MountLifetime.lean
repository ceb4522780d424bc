import Ralf.DmVerity.MountSteps

/-!
# A mount goes with its last owner

In a session, at most one `PackageMount` has the object of the mount, however it is moved.
`umount2` is called at most once, and after that every answer is that nothing is mounted. If the
client does not detach the mount, `umount2` is called before the session ends.
-/

namespace DmVerity

namespace Mounter

open Calls System Kernel

/-! ## Phases -/

/-- Before and after `umount2`. -/
inductive Phase
  | mounted
  | left (unmounted : Bool)
  deriving DecidableEq, Repr

namespace Phase

def isLeft : Phase → Bool
  | mounted => false
  | left _ => true

end Phase

namespace Event

def IsUmount : Event → Prop
  | umount2 _ => True
  | reply _ | detached => False

/-- An answer that nothing is mounted, or no answer at all. -/
def Silent : Event → Prop
  | umount2 _ => False
  | detached => True
  | reply (.isMounted mounted) => mounted = false
  | reply (.mountPoint path) => path = ""
  | reply (.volumeName name) => name = []
  | reply (.volumeUuid uuid) => uuid = []
  | reply (.status status) => status = .notMounted

end Event

/-- What happened up to a phase. -/
def Phase.Log : Phase → List Event → Prop
  | .mounted, log => ∀ event ∈ log, ¬ event.IsUmount
  | .left unmounted, log => ∃ before after, log = before ++ .umount2 unmounted :: after ∧
      (∀ event ∈ before, ¬ event.IsUmount) ∧ ∀ event ∈ after, event.Silent

/-- What the mounter owns in a phase. A device that was marked for removal goes with the mount, and
the loop device with it. -/
def Phase.Objects (volumeName : Bytes) (mountPoint : String) (number : Nat) (dev : DevNum)
    (deferred : Bool) : Phase → Kernel → Prop
  | .mounted | .left false =>
    Owns [imageLoop number] [⟨volumeName, dev, true, some number, deferred⟩]
      [⟨dev, mountPoint, true⟩] []
  | .left true =>
    if deferred then Clean
    else Owns [imageLoop number] [⟨volumeName, dev, true, some number, false⟩] [] []

/-! ## The invariant -/

section
variable {n : Nat}

/-- What holds of the variables and the log in a phase. As long as the object is not detached, one
variable has it until `umount2`. -/
structure Session.Inv (mount : DmVerityMount) (phase : Phase) (session : Session n) : Prop where
  log : phase.Log session.log
  object : ∀ i object, session.mounts i = some object →
    object.mount = mount ∧ object.unmounted = phase.isLeft
  single : ∀ i j, session.mounts i ≠ none → session.mounts j ≠ none → i = j
  kept : Event.detached ∉ session.log → phase = .mounted →
    ∃ i object, session.mounts i = some object ∧ object.detached = false

variable {mount : DmVerityMount} {phase : Phase} {session : Session n}

theorem Phase.Log.append {log events : List Event} (h : phase.Log log)
    (hreply : ∀ event ∈ events, ¬ event.IsUmount)
    (hsilent : phase.isLeft = true → ∀ event ∈ events, event.Silent) :
    phase.Log (log ++ events) := by
  cases phase with
  | mounted => exact fun event hevent => (List.mem_append.mp hevent).elim (h event) (hreply event)
  | left unmounted =>
    obtain ⟨before, after, rfl, hbefore, hafter⟩ := h
    refine ⟨before, after ++ events, by simp, hbefore, fun event hevent => ?_⟩
    exact (List.mem_append.mp hevent).elim (hafter event) (hsilent rfl event)

theorem Phase.Log.umount2 {log : List Event} (h : Phase.mounted.Log log) (unmounted : Bool) :
    (Phase.left unmounted).Log (log ++ [.umount2 unmounted]) :=
  ⟨log, [], rfl, h, nofun⟩

theorem Session.Inv.append {events : List Event} (h : session.Inv mount phase)
    (hreply : ∀ event ∈ events, ¬ event.IsUmount)
    (hsilent : phase.isLeft = true → ∀ event ∈ events, event.Silent) :
    (session.append events).Inv mount phase :=
  ⟨h.log.append hreply hsilent, h.object, h.single,
    fun hdetached => h.kept fun hmem => hdetached (List.mem_append_left _ hmem)⟩

/-- A variable has the mount in another object. -/
theorem Session.Inv.setObject {phase' : Phase} {i : Fin n}
    {object object' : MountObject} (h : session.Inv mount phase)
    (hobject : session.mounts i = some object) (hmount : object'.mount = mount)
    (hunmounted : object'.unmounted = phase'.isLeft) {log : List Event} (hlog : phase'.Log log)
    (hkept : Event.detached ∉ log → phase' = .mounted → object'.detached = false) :
    Session.Inv mount phase' ⟨(session.set i (some object')).mounts, log⟩ := by
  have honly : ∀ j, j ≠ i → session.mounts j = none := by
    intro j hne
    by_contra hsome
    exact hne (h.single j i hsome (by rw [hobject]; exact Option.some_ne_none object))
  have hmounts : ∀ j, (session.set i (some object')).mounts j =
      if j = i then some object' else none := by
    intro j
    show Function.update session.mounts i (some object') j = _
    split
    · next heq => rw [heq, Function.update_self]
    · next hne => rw [Function.update_of_ne hne, honly j hne]
  refine ⟨hlog, fun j found hfound => ?_, fun j k hj hk => ?_, fun hattached hphase => ?_⟩
  · dsimp only at hfound
    rw [hmounts j] at hfound
    split at hfound
    · cases hfound
      exact ⟨hmount, hunmounted⟩
    · cases hfound
  · dsimp only at hj hk
    rw [hmounts] at hj hk
    simp only [ne_eq, ite_eq_right_iff, reduceCtorEq, imp_false, not_not] at hj hk
    exact hj.trans hk.symm
  · exact ⟨i, object', (hmounts i).trans (if_pos rfl), hkept hattached hphase⟩

/-- The object goes to another variable that has none. -/
theorem Session.Inv.move {i j : Fin n} (h : session.Inv mount phase) (hne : i ≠ j)
    (hempty : session.mounts i = none) :
    ((session.set i (session.mounts j)).set j none).Inv mount phase := by
  have hmounts : ∀ k, ((session.set i (session.mounts j)).set j none).mounts k =
      if k = j then none else if k = i then session.mounts j else session.mounts k := by
    intro k
    show Function.update (Function.update session.mounts i (session.mounts j)) j none k = _
    simp only [Function.update_apply]
  refine ⟨h.log, fun k object hk => ?_, fun k l hk hl => ?_, fun hattached hphase => ?_⟩
  · rw [hmounts] at hk
    split_ifs at hk
    · exact h.object j object hk
    · exact h.object k object hk
  · rw [hmounts] at hk hl
    have hkj : k ≠ j := fun heq => hk (if_pos heq)
    have hlj : l ≠ j := fun heq => hl (if_pos heq)
    rw [if_neg hkj] at hk
    rw [if_neg hlj] at hl
    by_cases hki : k = i <;> by_cases hli : l = i
    · exact hki.trans hli.symm
    · rw [if_pos hki] at hk
      rw [if_neg hli] at hl
      exact absurd (h.single j l hk hl).symm hlj
    · rw [if_neg hki] at hk
      rw [if_pos hli] at hl
      exact absurd (h.single k j hk hl) hkj
    · rw [if_neg hki] at hk
      rw [if_neg hli] at hl
      exact h.single k l hk hl
  · obtain ⟨k, object, hk, hdetached⟩ := h.kept hattached hphase
    by_cases hkj : k = j
    · refine ⟨i, object, ?_, hdetached⟩
      rw [hmounts, if_neg hne, if_pos rfl, ← hkj, hk]
    · refine ⟨k, object, ?_, hdetached⟩
      have hki : k ≠ i := by
        rintro rfl
        rw [hempty] at hk
        cases hk
      rw [hmounts, if_neg hkj, if_neg hki, hk]

/-- No variable has an object any more. -/
theorem Session.Inv.empty {phase' : Phase} {log : List Event} {mounts : Fin n → Option MountObject}
    (hnone : ∀ i, mounts i = none) (hlog : phase'.Log log)
    (hkept : Event.detached ∉ log → phase' ≠ .mounted) :
    Session.Inv mount phase' ⟨mounts, log⟩ := by
  refine ⟨hlog, fun i object hi => ?_, fun i j hi => absurd (hnone i) hi, fun hattached hphase => ?_⟩
  · exact absurd ((hnone i).symm.trans hi) nofun
  · exact absurd hphase (hkept hattached)

end

/-! ## Calls on the mount -/

section
variable {nodes : DeviceNodes} {β : Type} {n : Nat} {images : List Nat} {mount : DmVerityMount}
  {number : Nat} {dev : DevNum} {deferred : Bool} {phase : Phase}

variable (images mount number dev deferred) in
/-- The objects of a phase, with the open descriptors. -/
abbrev ObjectsOf (phase : Phase) : Machine → Prop :=
  On images (phase.Objects mount.volumeName mount.mountPoint number dev deferred)

theorem stable_objects :
    (kernel nodes).Stable
      (phase.Objects mount.volumeName mount.mountPoint number dev deferred) := by
  cases phase with
  | mounted => exact stable_owns
  | left unmounted =>
    cases unmounted with
    | false => exact stable_owns
    | true =>
      cases deferred with
      | false => exact stable_owns
      | true => exact stable_owns

theorem umount2_objects {s : Kernel}
    (h : Phase.mounted.Objects mount.volumeName mount.mountPoint number dev deferred s) :
    (Phase.left true).Objects mount.volumeName mount.mountPoint number dev deferred
        (s.unmount mount.mountPoint) ∧ s.OthersKept (s.unmount mount.mountPoint) := by
  have howns : s.Owns [imageLoop number] [⟨mount.volumeName, dev, true, some number, deferred⟩]
    [⟨dev, mount.mountPoint, true⟩] [] := h
  unfold Phase.Objects
  cases deferred with
  | false => exact howns.unmount rfl rfl
  | true =>
    have hunmount := howns.unmount_deferred rfl rfl (by simp)
    rwa [loopsLeft_closed] at hunmount

theorem MachineSpec.umount2 {f : Bool → MountScript β} {Q : β → Machine → Prop}
    (hf : ∀ unmounted, MachineSpec nodes
      (ObjectsOf images mount number dev deferred (.left unmounted)) (f unmounted) Q) :
    MachineSpec nodes (ObjectsOf images mount number dev deferred .mounted)
      (request (.umount2 mount.mountPoint) >>= f) Q := by
  refine Triple.ask (R := fun unmounted =>
    ObjectsOf images mount number dev deferred (.left unmounted)) (stable_on stable_objects)
    (fun m x m' hm hanswer => ?_) hf
  cases x with
  | false =>
    cases (show some m = some m' from hanswer)
    exact ⟨.refl _, hm⟩
  | true =>
    have hanswer : (if m.kernel.mounts.any (·.mountPoint = mount.mountPoint) then
        some { m with kernel := m.kernel.unmount mount.mountPoint } else none) = some m' := hanswer
    split at hanswer
    · cases hanswer
      obtain ⟨hobjects, hkept⟩ := umount2_objects hm.1
      exact ⟨hkept, hobjects, hm.2⟩
    · cases hanswer

theorem statMountPoint_quiet {mountPoint : String} {x : Option DevNum} {m m' : Machine}
    (h : answerMount nodes (.statMountPoint mountPoint) x m = some m') : m' = m := by
  unfold answerMount at h
  cases x with
  | none => exact (Option.some.inj h).symm
  | some dev =>
    dsimp only at h
    cases hfind : m.kernel.mounts.find? (·.mountPoint = mountPoint) with
    | none =>
      rw [hfind] at h
      exact (Option.some.inj h).symm
    | some mount =>
      rw [hfind] at h
      dsimp only at h
      split at h
      · exact (Option.some.inj h).symm
      · cases h

variable {P : Kernel → Prop}

theorem isMounted_spec (hP : (kernel nodes).Stable P) (object : MountObject) :
    MachineSpec nodes (On images P) object.isMounted
      fun mounted m => (object.unmounted = true → mounted = false) ∧ On images P m := by
  unfold MountObject.isMounted
  split
  · exact .ret (stable_on hP) fun m hm => ⟨fun _ => rfl, hm⟩
  · next hunmounted =>
    cases object.deviceNumber with
    | none => exact .ret (stable_on hP) fun m hm => ⟨fun _ => rfl, hm⟩
    | some number =>
      refine MachineSpec.quiet (fun _ _ _ => statMountPoint_quiet) (stable_on hP) fun found => ?_
      exact .ret (stable_on hP) fun m hm => ⟨fun h => absurd h hunmounted, hm⟩

theorem status_spec (hP : (kernel nodes).Stable P) (object : MountObject) :
    MachineSpec nodes (On images P) object.status
      fun status m => (object.unmounted = true → status = .notMounted) ∧ On images P m := by
  refine Triple.bind (isMounted_spec hP object) fun mounted => .and_pre fun hmounted => ?_
  cases mounted with
  | false => exact .ret (stable_on hP) fun m hm => ⟨fun _ => rfl, hm⟩
  | true =>
    have hleft : object.unmounted = true → False := fun h => Bool.noConfusion (hmounted h)
    have hret : ∀ status, MachineSpec nodes (On images P) (pure status) fun status m =>
        (object.unmounted = true → status = MountStatus.notMounted) ∧ On images P m :=
      fun status => .ret (stable_on hP) fun m hm => ⟨fun h => (hleft h).elim, hm⟩
    refine Triple.bind (MachineSpec.inside (openDevMapper_spec hP)) fun isAvailable => ?_
    split
    · exact hret _
    · refine Triple.bind (MachineSpec.inside (mapStatus_spec hP _ _)) fun dmStatus => ?_
      cases dmStatus with
      | error error => exact hret _
      | ok dmStatus => exact hret _

/-! ## Operations -/

variable {session : Session n}

variable (images mount number dev deferred) in
/-- The invariant with the objects of a phase. -/
def Held (session : Session n) (m : Machine) : Prop :=
  ∃ phase, session.Inv mount phase ∧ ObjectsOf images mount number dev deferred phase m

theorem stable_held : (machine nodes).Stable
    (Held images mount number dev deferred session) :=
  .exists fun _ => .and_pure (stable_on stable_objects)

theorem query_spec {i : Fin n} {empty : Reply} {ask : MountObject → MountScript Reply}
    (hempty : (Event.reply empty).Silent)
    (hask : ∀ phase object, MachineSpec nodes (ObjectsOf images mount number dev deferred phase)
      (ask object) fun reply m => (object.unmounted = true → (Event.reply reply).Silent) ∧
        ObjectsOf images mount number dev deferred phase m) :
    MachineSpec nodes (Held images mount number dev deferred session)
      (session.query i empty ask) (Held images mount number dev deferred) := by
  refine .exists_pre fun phase => .and_pre fun hinv => ?_
  have hanswer : MachineSpec nodes (ObjectsOf images mount number dev deferred phase)
      (session.answer i empty ask) fun reply m =>
        (phase.isLeft = true → (Event.reply reply).Silent) ∧
          ObjectsOf images mount number dev deferred phase m := by
    unfold Session.answer
    cases hobject : session.mounts i with
    | none => exact .ret (stable_on stable_objects) fun m hm => ⟨fun _ => hempty, hm⟩
    | some object =>
      refine (hask phase object).conseq (fun _ hm => hm) fun reply m hm => ⟨fun hleft => ?_, hm.2⟩
      exact hm.1 ((hinv.object i object hobject).2.trans hleft)
  refine Triple.bind hanswer fun reply => .and_pre fun hsilent => ?_
  refine .ret (stable_on stable_objects) fun m hm => ⟨phase, ?_, hm⟩
  exact hinv.append (by simp [Event.IsUmount]) fun hleft => by simpa using hsilent hleft

/-- The destructor calls `umount2` when nobody did before. -/
theorem destroy_spec {object : MountObject} {log : List Event} (hmount : object.mount = mount)
    (hunmounted : object.unmounted = phase.isLeft) (hlog : phase.Log log) :
    MachineSpec nodes (ObjectsOf images mount number dev deferred phase) object.destroy
      fun events m => ∃ phase', phase'.Log (log ++ events) ∧
        (phase' = .mounted → phase = .mounted ∧ object.detached = true) ∧
        ObjectsOf images mount number dev deferred phase' m := by
  unfold MountObject.destroy
  split
  · next hdestroy =>
    rw [hunmounted, Bool.and_eq_true, Bool.not_eq_true', Bool.not_eq_true'] at hdestroy
    cases phase with
    | left unmounted => cases hdestroy.2
    | mounted =>
      unfold MountObject.doUnmount
      rw [hmount]
      refine MachineSpec.umount2 fun unmounted => .ret (stable_on stable_objects) fun m hm => ?_
      exact ⟨_, hlog.umount2 unmounted, nofun, hm⟩
  · next hkeep =>
    refine .ret (stable_on stable_objects) fun m hm => ⟨phase, by simpa using hlog, ?_, hm⟩
    rintro rfl
    refine ⟨rfl, ?_⟩
    simpa [hunmounted, Phase.isLeft] using hkeep

/-- An object goes that no variable has any more. -/
theorem delete_spec {object : Option MountObject} {mounts : Fin n → Option MountObject}
    {log : List Event} (hlog : phase.Log log)
    (hnone : object = none → Session.Inv mount phase ⟨mounts, log⟩)
    (hsome : ∀ o, object = some o → (o.mount = mount ∧ o.unmounted = phase.isLeft) ∧
      (∀ i, mounts i = none) ∧
        (Event.detached ∉ log → phase = .mounted → o.detached = false)) :
    MachineSpec nodes (ObjectsOf images mount number dev deferred phase)
      (Session.delete ⟨mounts, log⟩ object) fun session m => session.mounts = mounts ∧
        Held images mount number dev deferred session m := by
  cases object with
  | none => exact .ret (stable_on stable_objects) fun m hm => ⟨rfl, phase, hnone rfl, hm⟩
  | some object =>
    obtain ⟨⟨hmount, hunmounted⟩, hempty, hdetached⟩ := hsome object rfl
    refine Triple.bind (destroy_spec hmount hunmounted hlog) fun events => .exists_pre fun phase' =>
      .and_pre fun hlog' => .and_pre fun hmounted => ?_
    refine .ret (stable_on stable_objects) fun m hm => ⟨rfl, phase', .empty hempty hlog' ?_, hm⟩
    intro hattached hphase
    obtain ⟨hbefore, hdetach⟩ := hmounted hphase
    rw [hdetached (fun hmem => hattached (List.mem_append_left _ hmem)) hbefore] at hdetach
    cases hdetach

/-- The first call of `unmount` calls `umount2`. -/
theorem unmountObject_spec {object : MountObject} {log : List Event} (hmount : object.mount = mount)
    (hunmounted : object.unmounted = phase.isLeft) (hlog : phase.Log log) :
    MachineSpec nodes (ObjectsOf images mount number dev deferred phase) object.unmount
      fun out m => ∃ phase', phase'.Log (log ++ out.2) ∧
        (out.1.mount = mount ∧ out.1.unmounted = phase'.isLeft ∧ phase' ≠ .mounted) ∧
        ObjectsOf images mount number dev deferred phase' m := by
  unfold MountObject.unmount
  split
  · next hleft =>
    refine .ret (stable_on stable_objects) fun m hm => ⟨phase, by simpa using hlog, ?_, hm⟩
    refine ⟨hmount, hunmounted, ?_⟩
    rintro rfl
    cases hunmounted.symm.trans hleft
  · next hfirst =>
    cases phase with
    | left unmounted => exact absurd hunmounted hfirst
    | mounted =>
      unfold MountObject.doUnmount
      rw [hmount]
      refine MachineSpec.umount2 fun unmounted => .ret (stable_on stable_objects) fun m hm => ?_
      exact ⟨_, hlog.umount2 unmounted, ⟨rfl, rfl, nofun⟩, hm⟩

theorem unmount_spec (i : Fin n) :
    MachineSpec nodes (Held images mount number dev deferred session)
      (session.unmount i) (Held images mount number dev deferred) := by
  refine .exists_pre fun phase => .and_pre fun hinv => ?_
  unfold Session.unmount
  cases hobject : session.mounts i with
  | none => exact .ret (stable_on stable_objects) fun m hm => ⟨phase, hinv, hm⟩
  | some object =>
    obtain ⟨hmount, hunmounted⟩ := hinv.object i object hobject
    refine Triple.bind (unmountObject_spec hmount hunmounted hinv.log) fun out =>
      .exists_pre fun phase' => .and_pre fun hlog => .and_pre fun hout => ?_
    refine .ret (stable_on stable_objects) fun m hm => ⟨phase', ?_, hm⟩
    exact hinv.setObject hobject hout.1 hout.2.1 hlog fun _ hphase => absurd hphase hout.2.2

theorem Session.Inv.detach (h : session.Inv mount phase) (i : Fin n) :
    (session.detach i).Inv mount phase := by
  unfold Session.detach
  cases hobject : session.mounts i with
  | none => exact h
  | some object =>
    obtain ⟨hmount, hunmounted⟩ := h.object i object hobject
    have hdetached : object.detach.mount = mount ∧ object.detach.unmounted = phase.isLeft :=
      ⟨hmount, hunmounted⟩
    have hlog : phase.Log (session.log ++ [.detached]) :=
      h.log.append (by simp [Event.IsUmount]) fun _ => by simp [Event.Silent]
    exact h.setObject hobject hdetached.1 hdetached.2 hlog fun hattached =>
      absurd (List.mem_append_right _ List.mem_cons_self) hattached

/-- When the only object leaves its variable, there is none left. -/
theorem Session.Inv.none_of_ne {i j : Fin n} {object : MountObject}
    (h : session.Inv mount phase) (hobject : session.mounts i = some object)
    (hne : j ≠ i) : session.mounts j = none := by
  by_contra hsome
  exact hne (h.single j i hsome (by rw [hobject]; exact Option.some_ne_none object))

theorem Session.Inv.detached_of (h : session.Inv mount phase) {i : Fin n}
    {object : MountObject} (hobject : session.mounts i = some object)
    (hattached : Event.detached ∉ session.log) (hphase : phase = .mounted) :
    object.detached = false := by
  obtain ⟨j, kept, hkept, hdetached⟩ := h.kept hattached hphase
  by_cases hne : j = i
  · rw [hne, hobject] at hkept
    cases hkept
    exact hdetached
  · rw [h.none_of_ne hobject hne] at hkept
    cases hkept

/-- Another object in a variable, and the one that was in it goes. -/
theorem move_spec (target source : Fin n) :
    MachineSpec nodes (Held images mount number dev deferred session)
      (session.move target source) (Held images mount number dev deferred) := by
  refine .exists_pre fun phase => .and_pre fun hinv => ?_
  unfold Session.move
  split
  · exact .ret (stable_on stable_objects) fun m hm => ⟨phase, hinv, hm⟩
  · next hne =>
    refine (delete_spec hinv.log (hinv.move hne) fun object hobject => ?_).conseq (fun _ hm => hm)
      fun session m hm => hm.2
    refine ⟨hinv.object target object hobject, fun i => ?_, hinv.detached_of hobject⟩
    show Function.update (Function.update session.mounts target (session.mounts source)) source none
      i = none
    rw [hinv.none_of_ne hobject (Ne.symm hne)]
    simp only [Function.update_apply, ite_eq_left_iff]
    exact fun _ htarget => hinv.none_of_ne hobject htarget

/-- A variable goes out of scope. -/
theorem leaveScope_spec (i : Fin n) :
    MachineSpec nodes (Held images mount number dev deferred session)
      ((session.set i none).delete (session.mounts i)) fun session' m =>
        session'.mounts = Function.update session.mounts i none ∧
          Held images mount number dev deferred session' m := by
  refine .exists_pre fun phase => .and_pre fun hinv => ?_
  refine delete_spec hinv.log (fun hnone => ?_) fun object hobject => ?_
  · have hsame : Function.update session.mounts i none = session.mounts := by
      rw [← hnone, Function.update_eq_self]
    rw [hsame]
    exact hinv
  · refine ⟨hinv.object i object hobject, fun j => ?_, hinv.detached_of hobject⟩
    simp only [Function.update_apply, ite_eq_left_iff]
    exact fun hne => hinv.none_of_ne hobject hne

/-! ## Sessions -/

/-- An answer that the object has itself. -/
theorem field_spec {reply : MountObject → Reply}
    (hreply : ∀ object : MountObject, object.unmounted = true → (Event.reply (reply object)).Silent)
    (phase : Phase) (object : MountObject) :
    MachineSpec nodes (ObjectsOf images mount number dev deferred phase) (pure (reply object))
      fun reply m => (object.unmounted = true → (Event.reply reply).Silent) ∧
        ObjectsOf images mount number dev deferred phase m :=
  .ret (stable_on stable_objects) fun _ hm => ⟨hreply object, hm⟩

theorem step_spec (operation : Operation n) :
    MachineSpec nodes (Held images mount number dev deferred session)
      (session.step operation)
      (Held images mount number dev deferred) := by
  cases operation with
  | detach i =>
    refine .exists_pre fun phase => .and_pre fun hinv => ?_
    exact .ret (stable_on stable_objects) fun m hm => ⟨phase, hinv.detach i, hm⟩
  | isMounted i =>
    refine query_spec rfl fun phase object => ?_
    exact Triple.bind (isMounted_spec stable_objects object) fun mounted => .and_pre fun hleft =>
      .ret (stable_on stable_objects) fun m hm => ⟨hleft, hm⟩
  | mountPoint i =>
    exact query_spec rfl (field_spec fun _ hleft => if_pos hleft)
  | volumeName i =>
    exact query_spec rfl (field_spec fun _ hleft => if_pos hleft)
  | volumeUuid i =>
    exact query_spec rfl (field_spec fun _ hleft => if_pos hleft)
  | status i =>
    refine query_spec rfl fun phase object => ?_
    exact Triple.bind (status_spec stable_objects object) fun status => .and_pre fun hleft =>
      .ret (stable_on stable_objects) fun m hm => ⟨hleft, hm⟩
  | unmount i =>
    exact unmount_spec i
  | move target source =>
    exact move_spec target source

theorem runAll_spec (operations : List (Operation n)) :
    MachineSpec nodes (Held images mount number dev deferred session)
      (Session.runAll operations session)
      (Held images mount number dev deferred) := by
  induction operations generalizing session with
  | nil => exact .ret stable_held fun _ hm => hm
  | cons operation rest ih => exact Triple.bind (step_spec operation) fun session => ih

/-- After the variables went out of scope, none of them has an object. -/
theorem endScope_spec (scope : List (Fin n)) :
    MachineSpec nodes (Held images mount number dev deferred session)
      (Session.endScope scope session) fun session' m =>
        (∀ i, i ∈ scope ∨ session.mounts i = none → session'.mounts i = none) ∧
          Held images mount number dev deferred session' m := by
  induction scope generalizing session with
  | nil => exact .ret stable_held fun m hm => ⟨fun i hi => hi.resolve_left nofun, hm⟩
  | cons i rest ih =>
    refine Triple.bind (leaveScope_spec i) fun session' => .and_pre fun hmounts => ?_
    refine ih.conseq (fun _ hm => hm) fun session'' m hm => ⟨fun j hj => hm.1 j ?_, hm.2⟩
    rw [hmounts]
    by_cases hji : j = i
    · exact .inr (by rw [hji, Function.update_self])
    · rw [Function.update_of_ne hji]
      exact hj.imp_left fun hmem => (List.mem_cons.mp hmem).resolve_left hji

theorem Session.start_inv {i : Fin n} {object : MountObject} (hdetached : object.detached = false)
    (hunmounted : object.unmounted = false) :
    (Session.start i object).Inv object.mount .mounted := by
  have hmounts : ∀ j, (Session.start i object).mounts j = if j = i then some object else none := by
    intro j
    show Function.update (fun _ => none) i (some object) j = _
    rw [Function.update_apply]
  refine ⟨nofun, fun j found hj => ?_, fun j k hj hk => ?_, fun _ _ => ?_⟩
  · rw [hmounts] at hj
    split at hj
    · cases hj
      exact ⟨rfl, hunmounted⟩
    · cases hj
  · rw [hmounts] at hj hk
    simp only [ne_eq, ite_eq_right_iff, reduceCtorEq, imp_false, not_not] at hj hk
    exact hj.trans hk.symm
  · exact ⟨i, object, (hmounts i).trans (if_pos rfl), hdetached⟩

/-- At most one variable has the object of a mount. -/
def Session.AtMostOne (session : Session n) : Prop :=
  ∀ i j, session.mounts i ≠ none → session.mounts j ≠ none → i = j

/-- What there is after a part of a session: nothing when the mount failed, else the objects of a
phase. An object that was not detached is in a variable until `umount2`. -/
def Leaves (mountPoint : String) : Result (Session n) → Kernel → Prop
  | .error _, s => s.Owns [] [] [] []
  | .ok session, s => ∃ (volumeName : Bytes) (number : Nat) (dev : DevNum) (deferred : Bool)
      (phase : Phase), phase.Objects volumeName mountPoint number dev deferred s ∧
        phase.Log session.log ∧ session.AtMostOne ∧
          (.detached ∉ session.log → phase = .mounted → ∃ i, session.mounts i ≠ none)

variable (images) in
/-- The postcondition of a part of a session. -/
def HeldResult (mountPoint : String) : Result (Session n) → Machine → Prop
  | .error _, m => On images Clean m
  | .ok session, m => ∃ mount number dev deferred, mount.mountPoint = mountPoint ∧
      Held images mount number dev deferred session m

theorem HeldResult.leaves {mountPoint : String} {result : Result (Session n)} {m : Machine}
    (h : HeldResult images mountPoint result m) : On images (Leaves mountPoint result) m := by
  cases result with
  | error error => exact h
  | ok session =>
    obtain ⟨mount, number, dev, deferred, rfl, phase, hinv, hobjects, himages⟩ := h
    refine ⟨⟨_, number, dev, deferred, phase, hobjects, hinv.log, hinv.single, ?_⟩, himages⟩
    intro hattached hphase
    obtain ⟨i, object, hobject, -⟩ := hinv.kept hattached hphase
    exact ⟨i, by rw [hobject]; exact Option.some_ne_none object⟩

theorem use_spec {mountPoint : String} {program : MountScript (Result MountObject)}
    (hprogram : MountSpec nodes mountPoint images program) (i : Fin n)
    (operations : List (Operation n)) :
    MachineSpec nodes (On images Clean) (use program i operations)
      (HeldResult images mountPoint) := by
  refine Triple.bind hprogram fun result => ?_
  cases result with
  | error error => exact .ret (stable_on stable_owns) fun m hm => ⟨hm.1, hm.2⟩
  | ok object =>
    -- the objects of the mount
    have hstart : ∀ m, On images (NewObject nodes mountPoint object) m →
        ∃ number dev deferred, object.mount.mountPoint = mountPoint ∧
          Held images object.mount number dev deferred (Session.start i object) m := by
      rintro m ⟨⟨⟨hdetached, hunmounted⟩, number, dev, deferred, hpoint, -, howns⟩, himages⟩
      refine ⟨number, dev, deferred, hpoint, .mounted, Session.start_inv hdetached hunmounted, ?_⟩
      exact ⟨hpoint ▸ howns, himages⟩
    refine Triple.conseq ?_ hstart fun _ _ h => h
    refine .exists_pre fun number => .exists_pre fun dev => .exists_pre fun deferred =>
      .and_pre fun hpoint => ?_
    refine Triple.bind (runAll_spec operations) fun session => ?_
    exact .ret stable_held fun m hm => ⟨_, number, dev, deferred, hpoint, hm⟩

/-- No variable has an object, and `umount2` was called if the object was not detached. -/
def Session.Ended (session : Session n) : Prop :=
  (∀ i, session.mounts i = none) ∧
    (Event.detached ∉ session.log → ∃ unmounted, Event.umount2 unmounted ∈ session.log)

theorem Session.Inv.ended (h : session.Inv mount phase) (hempty : ∀ i, session.mounts i = none) :
    session.Ended := by
  refine ⟨hempty, fun hattached => ?_⟩
  cases phase with
  | mounted =>
    obtain ⟨i, object, hobject, -⟩ := h.kept hattached rfl
    cases (hempty i).symm.trans hobject
  | left unmounted =>
    obtain ⟨before, after, hlog, -, -⟩ := h.log
    exact ⟨unmounted, hlog ▸ List.mem_append_right before List.mem_cons_self⟩

theorem lifetime_spec {mountPoint : String} {program : MountScript (Result MountObject)}
    (hprogram : MountSpec nodes mountPoint images program) (i : Fin n)
    (operations : List (Operation n)) {scope : List (Fin n)} (hscope : ∀ i, i ∈ scope) :
    MachineSpec nodes (On images Clean) (lifetime program i operations scope) fun result m =>
      (∀ session, result = .ok session → session.Ended) ∧ HeldResult images mountPoint result m := by
  refine Triple.bind (use_spec hprogram i operations) fun result => ?_
  cases result with
  | error error => exact .ret (stable_on stable_owns) fun m hm => ⟨nofun, hm⟩
  | ok session =>
    refine .exists_pre fun mount => .exists_pre fun number => .exists_pre fun dev =>
      .exists_pre fun deferred => .and_pre fun hpoint => ?_
    refine Triple.bind (endScope_spec scope) fun session => .and_pre fun hnone => ?_
    refine .ret stable_held fun m hm => ⟨?_, mount, number, dev, deferred, hpoint, hm⟩
    rintro _ ⟨⟩
    obtain ⟨phase, hinv, -⟩ := hm
    exact hinv.ended fun i => hnone i (.inl (hscope i))

end

/-- In every run, no call takes away an object of another process. At its end, the descriptors of
the image are as they were before, and the rest is as `Leaves` and `ended` say. -/
def Lifetime {n : Nat} (nodes : DeviceNodes) (mountPoint : String) (ended : Session n → Prop)
    (program : MountScript (Result (Session n))) (m : Machine) : Prop :=
  (∀ call next m', (machine nodes).Reaches (program, m) (.call call next, m') →
      ∀ x m'', answerMount nodes call x m' = some m'' → m'.kernel.OthersKept m''.kernel) ∧
    ∀ result m', (machine nodes).Reaches (program, m) (.ret result, m') →
      m'.images = m.images ∧ Leaves mountPoint result m'.kernel ∧
        ∀ session, result = .ok session → ended session

/-- The answers when nothing fails. -/
def smoothMountAnswer (superBlock : VeritySuperBlock) : (call : MountCall) → Machine → call.Answer
  | .mounter call, m => smoothAnswer superBlock call m.kernel
  | .openImage .., _ => some 3
  | .imageFlags _, _ | .closeImage _, _ | .umount2 _, _ => true
  | .statMountPoint _, _ => some (253, 0)

theorem no_offset_lt : 0 < 2 ^ 64 := by decide

theorem three_blocks_lt : 12288 < 2 ^ 64 := by decide

/-- An image of three blocks. The object moves from the first variable to the second one, so a
`detach` of the first one does nothing. -/
def mountVgBlocks : MountScript (Result MountObject) :=
  mount (ascii "vg".toList) .erofs "/mnt" ⟨0, 12288, no_offset_lt, three_blocks_lt⟩
    ⟨12288, 12288, three_blocks_lt, three_blocks_lt⟩ (List.replicate 32 7) (.path "/vg.ralf")
    MountFlag.directIO

def moveAndDetach : List (Operation 2) := [.isMounted 0, .move 1 0, .detach 0, .isMounted 0]

end Mounter

end DmVerity
