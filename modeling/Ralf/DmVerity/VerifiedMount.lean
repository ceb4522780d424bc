import Ralf.DmVerity.MountObject
import Ralf.DmVerity.MountSpecs
import Ralf.Lib.Transcript

/-!
# What is mounted

Whatever the kernel answers, the mounter attaches only the image to a loop device, and sets only its
range. It
loads only verity tables that name such a loop device and the root hash that it was given, and it
mounts only the node of a device that it loaded such a table into.
-/

namespace DmVerity

namespace Mounter

open Calls System

/-! ## What is allowed -/

/-- What decides what a mount may show. -/
structure MountRequest where
  mountPoint : String
  dataRange : FileRange
  hashesRange : FileRange
  rootHash : Bytes

namespace MountRequest

variable (request : MountRequest)

/-- The range of the data and the hashes. -/
def overallRange : FileRange :=
  ⟨request.dataRange.offset,
    wrapSub64 (wrap64 (request.hashesRange.offset + request.hashesRange.size))
      request.dataRange.offset, request.dataRange.offset_lt, wrap64_lt _⟩

/-- Where the hashes are on the loop device. -/
def hashOffset : Nat := wrapSub64 request.hashesRange.offset request.overallRange.offset

/-- A line of a table for the root hash, on the device of a descriptor that has the image. -/
structure IsTable (s : Transcript Call Call.Answer) (params : List Char) (imageFd fd : Nat)
    (dev : DevNum) (superBlock : VeritySuperBlock) : Prop where
  attached : ⟨.loopSetFd fd imageFd, true⟩ ∈ s
  range : ⟨.loopSetStatus fd request.overallRange.offset request.overallRange.size, true⟩ ∈ s
  device : ⟨.fstat fd, some (true, dev)⟩ ∈ s
  supported : superBlock.Supported
  size : request.dataRange.size = wrap64 (superBlock.dataBlocks * superBlock.dataBlockSize)
  line : params =
    createTargetParams dev.1 dev.2 superBlock request.rootHash request.hashOffset

/-- A path is the node of a device that has a table for the root hash. -/
structure IsVerified (s : Transcript Call Call.Answer) (source : String) (name : Bytes)
    (params : List Char) (cookie : Option Nat) (dev : DevNum) : Prop where
  table :
    ⟨.dmTableLoad name (request.dataRange.size / 512) "verity" params true, true⟩ ∈ s
  active : ⟨.dmDevSuspend name true cookie, some dev⟩ ∈ s
  node : ⟨.stat source, some dev⟩ ∈ s

def Verified (s : Transcript Call Call.Answer) (source : String) : Prop :=
  ∃ name params cookie dev, request.IsVerified s source name params cookie dev

/-- The calls that are allowed after what was said, for an image that some descriptors have. Only
those that decide what is mounted are restricted. -/
def Allowed (images : Nat → Prop) (s : Transcript Call Call.Answer) : Call → Prop
  | .preadImage imageFd _ _ => images imageFd
  | .loopSetFd _ imageFd => images imageFd
  | .loopSetStatus _ offset sizeLimit =>
    offset = request.overallRange.offset ∧ sizeLimit = request.overallRange.size
  | .dmTableLoad _ length targetType params readOnly =>
    length = request.dataRange.size / 512 ∧ targetType = "verity" ∧ readOnly = true ∧
      ∃ imageFd fd dev superBlock, request.IsTable s params imageFd fd dev superBlock
  | .mount source target _ flags =>
    target = request.mountPoint ∧ flags % 2 = 1 ∧ request.Verified s source
  | _ => True

end MountRequest

/-- A call that is not restricted. -/
def IsFree : Call → Prop
  | .preadImage .. | .loopSetFd .. | .loopSetStatus .. | .dmTableLoad .. | .mount .. => False
  | _ => True

theorem IsFree.allowed {request : MountRequest} {images : Nat → Prop}
    {s : Transcript Call Call.Answer} {call : Call} (h : IsFree call) :
    request.Allowed images s call := by
  cases call <;> first | exact h.elim | trivial

variable {request : MountRequest} {imageFd : Nat} {P : Transcript Call Call.Answer → Prop}
  {α β : Type}

variable (request imageFd) in
/-- A program from `P` to `Q` that only makes calls that are allowed for the image of a descriptor. -/
abbrev Orderly (P : Transcript Call Call.Answer → Prop) (p : Script α)
    (Q : α → Transcript Call Call.Answer → Prop) : Prop :=
  Says (request.Allowed (· = imageFd)) P p Q

theorem Orderly.free {p : Script α} (hp : p.Within IsFree) (hP : Grows P) :
    Orderly request imageFd P p fun _ => P :=
  .within hp (fun _ _ h => h.allowed) hP

/-- A call that is not restricted and not remembered. -/
theorem Orderly.quiet {call : Call} {f : call.Answer → Script β}
    {Q : β → Transcript Call Call.Answer → Prop} (hcall : IsFree call) (hP : Grows P)
    (hf : ∀ x, Orderly request imageFd P (f x) Q) : Orderly request imageFd P (syscall call >>= f) Q :=
  .skip hP (fun _ _ => hcall.allowed) hf

/-! ## Programs without restricted calls -/

theorem failErrno_within (what : String) : (failErrno what : Script (Result α)).Within IsFree :=
  .ask trivial fun _ => .ret _

theorem getFreeLoopDevice_within : getFreeLoopDevice.Within IsFree := by
  refine .ask trivial fun opened => ?_
  split
  · exact failErrno_within _
  refine .ask trivial fun number => ?_
  cases number with
  | none => exact failErrno_within _
  | some number =>
    refine .ask trivial fun found => ?_
    split
    · exact failErrno_within _
    · exact .ret _

theorem openDevMapper_within : openDevMapper.Within IsFree := by
  refine .ask trivial fun opened => ?_
  split
  · exact .ret _
  refine .ask trivial fun version => ?_
  cases version with
  | none => exact .ret _
  | some version => exact .ret _

theorem removeDevice_within (name : Bytes) (deferred : Bool) :
    (removeDevice name deferred).Within IsFree := by
  refine .ask trivial fun removed => ?_
  split
  · exact .ret _
  · exact failErrno_within _

theorem startUDevSync_within (useUDevSync : Bool) :
    (startUDevSync useUDevSync).Within IsFree := by
  unfold startUDevSync
  split
  · exact ⟨trivial, fun _ => trivial⟩
  · exact .ret _

theorem waitUDevSync_within (cookie : Option Nat) : (waitUDevSync cookie).Within IsFree := by
  cases cookie with
  | none => exact .ret _
  | some cookie => exact .ask trivial fun _ => .ret _

theorem unmap_within (name uuid : Bytes) (deferred : Bool) :
    (unmap name uuid deferred).Within IsFree := by
  unfold unmap
  split
  · exact .ret _
  split
  · exact .ret _
  · exact removeDevice_within name deferred

theorem mapStatus_within (name uuid : Bytes) : (mapStatus name uuid).Within IsFree := by
  unfold mapStatus
  split
  · exact .ret _
  split
  · exact .ret _
  refine .ask trivial fun status => ?_
  cases status with
  | none => exact failErrno_within _
  | some status => exact .ret _

theorem chooseDeviceName_within (id uuid : Bytes) : (chooseDeviceName id uuid).Within IsFree := by
  refine .ask trivial fun answer => .ask trivial fun errno => ?_
  split
  · exact .ret _
  · exact .ask trivial fun tv => .ret _

theorem undoMount_within (mountPoint : String) (name uuid : Bytes) (error : Error) :
    (undoMount mountPoint name uuid error).Within IsFree :=
  .ask trivial fun _ => .bind (unmap_within name uuid false) fun _ => .ret _

theorem checkMounted_within (mapperDevPath mountPoint : String) (name uuid : Bytes)
    (flags : Nat) : (checkMounted mapperDevPath mountPoint name uuid flags).Within IsFree := by
  refine .bind (mapStatus_within name uuid) fun status => ?_
  cases status with
  | error error => exact undoMount_within mountPoint name uuid error
  | ok status =>
    dsimp only
    split
    · exact undoMount_within mountPoint name uuid _
    split
    · exact .ret _
    · exact .bind (unmap_within name uuid true) fun _ => .ret _

/-! ## The loop device -/

/-- Giving up ends with any assertion about errors. -/
theorem failErrno_orderly {Q : Result α → Transcript Call Call.Answer → Prop} (what : String)
    (hP : Grows P) (hQ : ∀ error s, P s → Q (.error error) s) :
    Orderly request imageFd P (failErrno what) Q :=
  Orderly.quiet trivial hP fun _ => .ret fun s hs => hQ _ s hs

/-- What is known of a result: nothing after an error. -/
abbrev Known (Q : α → Transcript Call Call.Answer → Prop) :
    Result α → Transcript Call Call.Answer → Prop
  | .error _, _ => True
  | .ok a, s => Q a s

theorem clearLoopDevice_orderly {Q : Nat → Transcript Call Call.Answer → Prop} (fd : Nat)
    (what : String) (hP : Grows P) : Orderly request imageFd P (clearLoopDevice fd what) (Known Q) :=
  Orderly.quiet trivial hP fun _ => Orderly.quiet trivial hP fun _ =>
    Orderly.quiet trivial hP fun _ => .ret fun _ _ => trivial

/-- A loop device has the image, and its range is set to that of the image. -/
abbrev Attached (request : MountRequest) (imageFd fd : Nat) (s : Transcript Call Call.Answer) :
    Prop :=
  ⟨.loopSetFd fd imageFd, true⟩ ∈ s ∧
    ⟨.loopSetStatus fd request.overallRange.offset request.overallRange.size, true⟩ ∈ s

/-- One try, in which another process can be faster. -/
theorem claimLoopDevice_orderly (flags : Nat) :
    Orderly request imageFd (fun _ => True) (claimLoopDevice imageFd flags)
      (Round (fun _ => True) (Known fun claimed s => ⟨.loopSetFd claimed.1 imageFd, true⟩ ∈ s)) := by
  have hfail : ∀ what : String, Orderly request imageFd (fun _ => True)
      (do return some (← failErrno what))
      (Round (fun _ => True)
        (Known fun (claimed : Nat × Nat) s => ⟨.loopSetFd claimed.1 imageFd, true⟩ ∈ s)) := by
    intro what
    refine Says.bind (R := fun result _ => ∃ error, result = .error error)
      (failErrno_orderly what (.pure True) fun error _ _ => ⟨error, rfl⟩) fun result => ?_
    refine .ret fun s hresult => ?_
    obtain ⟨error, rfl⟩ := hresult
    trivial
  refine Says.bind (Orderly.free getFreeLoopDevice_within (.pure True)) fun free => ?_
  cases free with
  | error error => exact .ret fun _ _ => trivial
  | ok number =>
    refine Orderly.quiet trivial (.pure True) fun opened => ?_
    cases opened with
    | none => exact hfail _
    | some fd =>
      refine Says.ask (.pure True) (fun _ _ => rfl) fun attached => ?_
      cases attached with
      | true => exact .ret fun _ h => h.2
      | false =>
        refine Says.conseq ?_ (fun _ _ => trivial) fun _ _ h => h
        refine Orderly.quiet trivial (.pure True) fun err => ?_
        refine Orderly.quiet trivial (.pure True) fun _ => ?_
        split
        · exact hfail _
        · exact .ret fun _ _ => trivial

theorem setUpLoopDevice_orderly (fd number flags : Nat) :
    Orderly request imageFd (fun s => ⟨.loopSetFd fd imageFd, true⟩ ∈ s)
      (setUpLoopDevice fd number request.overallRange flags)
      (Known (Attached request imageFd)) := by
  have hset : Grows (C := Call) (A := Call.Answer) fun s => ⟨.loopSetFd fd imageFd, true⟩ ∈ s :=
    .mem _
  refine Says.ask hset (fun _ _ => ⟨rfl, rfl⟩) fun done => ?_
  cases done with
  | false => exact clearLoopDevice_orderly fd _ (hset.and (.mem _))
  | true =>
    simp only [Bool.not_true, Bool.false_eq_true, if_false]
    split
    · refine Orderly.quiet trivial (hset.and (.mem _)) fun enabled => ?_
      split
      · exact clearLoopDevice_orderly fd _ (hset.and (.mem _))
      · exact .ret fun _ h => h
    · exact .ret fun _ h => h

theorem loopDeviceAttach_orderly (flags : Nat) :
    Orderly request imageFd (fun _ => True) (loopDeviceAttach imageFd request.overallRange flags)
      (Known (Attached request imageFd)) := by
  refine Says.bind (.repeatUntil (claimLoopDevice_orderly flags)) fun claimed => ?_
  cases claimed with
  | error error => exact .ret fun _ _ => trivial
  | ok claimed => exact setUpLoopDevice_orderly claimed.1 claimed.2 flags

/-! ## The mapped device -/

section
variable {name uuid : Bytes} {params : List Char}

/-- A device that got the line of a table. -/
abbrev Loaded (request : MountRequest) (name : Bytes) (params : List Char)
    (s : Transcript Call Call.Answer) : Prop :=
  ⟨.dmTableLoad name (request.dataRange.size / 512) "verity" params true, true⟩ ∈ s

theorem createDevice_orderly (hP : Grows P)
    (htable : ∀ s, P s → ∃ imageFd fd dev superBlock, request.IsTable s params imageFd fd dev superBlock) :
    Orderly request imageFd P (createDevice request.dataRange.size name uuid "verity" params true)
      (Known fun _ => Loaded request name params) := by
  unfold createDevice
  split
  · exact .ret fun _ _ => trivial
  refine Orderly.quiet trivial hP fun created => ?_
  cases created with
  | none => exact failErrno_orderly _ hP fun _ _ _ => trivial
  | some dev =>
    refine Says.ask hP (fun s hs => ⟨rfl, rfl, rfl, htable s hs⟩) fun loaded => ?_
    cases loaded with
    | true => exact .ret fun _ h => h.2
    | false =>
      have hgrows := hP.and (.mem ⟨.dmTableLoad name (request.dataRange.size / 512) "verity" params
        true, false⟩)
      refine Says.bind (Orderly.free (removeDevice_within name false) hgrows) fun _ => ?_
      exact failErrno_orderly _ hgrows fun _ _ _ => trivial

/-- A device that was resumed, with its number. -/
abbrev Active (name : Bytes) (dev : DevNum) (s : Transcript Call Call.Answer) : Prop :=
  ∃ cookie, ⟨.dmDevSuspend name true cookie, some dev⟩ ∈ s

theorem active_grows (name : Bytes) (dev : DevNum) : Grows (Active name dev) :=
  fun _ _ ⟨cookie, h⟩ => ⟨cookie, List.mem_append_left _ h⟩

theorem activateDevice_orderly (hP : Grows P) (useUDevSync : Bool) :
    Orderly request imageFd P (activateDevice name true useUDevSync)
      (Known fun dev s => P s ∧ Active name dev s) := by
  refine Says.bind (Orderly.free (startUDevSync_within useUDevSync) hP) fun cookie => ?_
  refine Says.ask hP (fun _ _ => trivial) fun number => ?_
  have hgrows := hP.and (.mem ⟨.dmDevSuspend name true cookie, number⟩)
  cases number with
  | none => exact failErrno_orderly _ hgrows fun _ _ _ => trivial
  | some dev =>
    refine Says.bind (Orderly.free (waitUDevSync_within cookie) hgrows) fun _ => ?_
    exact .ret fun _ h => ⟨h.1, cookie, h.2⟩

theorem findDevEntry_orderly (hP : Grows P) (dev : DevNum) (entries : List String) :
    Orderly request imageFd P (findDevEntry dev entries) fun found s =>
      P s ∧ ∀ path, found = some path → ⟨.stat path, some dev⟩ ∈ s := by
  induction entries with
  | nil => exact .ret fun _ h => ⟨h, nofun⟩
  | cons path rest ih =>
    refine Says.ask hP (fun _ _ => trivial) fun x => ?_
    split
    · next heq =>
      refine .ret fun _ h => ⟨h.1, fun path' hpath => ?_⟩
      cases hpath
      rw [← heq]
      exact h.2
    · exact ih.conseq (fun _ h => h.1) fun _ _ h => h

theorem findDeviceNode_orderly (hP : Grows P) (dev : DevNum) :
    Orderly request imageFd P (findDeviceNode dev)
      (Known fun path s => P s ∧ ⟨.stat path, some dev⟩ ∈ s) := by
  unfold findDeviceNode
  generalize 5 = attempts
  induction attempts with
  | zero => exact failErrno_orderly _ hP fun _ _ _ => trivial
  | succ attempts ih =>
    refine Says.ask hP (fun _ _ => trivial) fun x => ?_
    split
    · next heq =>
      rw [heq]
      exact .ret fun _ h => h
    · have hstat := hP.and (.mem ⟨.stat s!"/dev/block/{dev.1}:{dev.2}", x⟩)
      refine Orderly.quiet trivial hstat fun entries => ?_
      refine Says.bind (findDevEntry_orderly hstat dev entries) fun found => ?_
      cases found with
      | none => exact ih.conseq (fun _ h => h.1.1) fun _ _ h => h
      | some path => exact .ret fun _ h => ⟨h.1.1, h.2 path rfl⟩

theorem mapTable_orderly (hP : Grows P)
    (htable : ∀ s, P s → ∃ imageFd fd dev superBlock, request.IsTable s params imageFd fd dev superBlock)
    (useUDevSync : Bool) :
    Orderly request imageFd P (mapTable name uuid request.dataRange.size params useUDevSync)
      (Known fun path s => request.Verified s path) := by
  refine Says.bind (createDevice_orderly hP htable) fun created => ?_
  cases created with
  | error error => exact .ret fun _ _ => trivial
  | ok _ =>
    have hloaded : Grows (Loaded request name params) := .mem _
    refine Says.bind (activateDevice_orderly hloaded useUDevSync) fun activated => ?_
    cases activated with
    | error error =>
      exact Says.bind (Orderly.free (removeDevice_within name false) (.pure True)) fun _ =>
        .ret fun _ _ => trivial
    | ok dev =>
      have hactive := hloaded.and (active_grows name dev)
      refine Says.bind (findDeviceNode_orderly hactive dev) fun found => ?_
      cases found with
      | error error =>
        exact Says.bind (Orderly.free (removeDevice_within name false) (.pure True)) fun _ =>
          .ret fun _ _ => trivial
      | ok path =>
        refine .ret fun s h => ?_
        obtain ⟨⟨htable, cookie, hsuspend⟩, hnode⟩ := h
        exact ⟨name, params, cookie, dev, htable, hsuspend, hnode⟩

theorem readLoopSuperBlock_orderly (hP : Grows P) (devFd hashesOffset : Nat) :
    Orderly request imageFd P (readLoopSuperBlock devFd hashesOffset)
      (Known fun superBlock s => superBlock.Supported ∧ P s) := by
  refine Orderly.quiet trivial hP fun read => ?_
  cases read with
  | error errno => exact failErrno_orderly _ hP fun _ _ _ => trivial
  | data buf =>
    dsimp only
    split
    · exact failErrno_orderly _ hP fun _ _ _ => trivial
    split
    · exact .ret fun _ _ => trivial
    · next hcheck => exact .ret fun _ h => ⟨VeritySuperBlock.checkSuperBlock_ok_iff.mp hcheck, h⟩

theorem mapWithVerity_orderly (devFd : Nat) (useUDevSync : Bool) :
    Orderly request imageFd (Attached request imageFd devFd)
      (mapWithVerity devFd name uuid request.hashOffset request.dataRange.size request.rootHash
        useUDevSync)
      (Known fun path s => request.Verified s path) := by
  have hattached : Grows (Attached request imageFd devFd) := .and (.mem _) (.mem _)
  unfold mapWithVerity
  split
  · exact .ret fun _ _ => trivial
  split
  · exact .ret fun _ _ => trivial
  split
  · exact .ret fun _ _ => trivial
  refine Says.ask hattached (fun _ _ => trivial) fun x => ?_
  have hdevice := hattached.and (.mem ⟨.fstat devFd, x⟩)
  rcases x with _ | ⟨isBlock, rdev⟩
  · exact failErrno_orderly _ hdevice fun _ _ _ => trivial
  cases isBlock with
  | false => exact .ret fun _ _ => trivial
  | true =>
    refine Orderly.quiet trivial hdevice fun blockSize => ?_
    cases blockSize with
    | none => exact failErrno_orderly _ hdevice fun _ _ _ => trivial
    | some blockSize =>
      dsimp only
      split
      · exact .ret fun _ _ => trivial
      refine Says.bind (readLoopSuperBlock_orderly hdevice devFd _) fun read => ?_
      cases read with
      | error error => exact .ret fun _ _ => trivial
      | ok superBlock =>
        dsimp only
        split
        · exact .ret fun _ _ => trivial
        next hsize =>
        refine (mapTable_orderly ((Grows.pure superBlock.Supported).and hdevice) ?_ _).conseq
          (fun _ h => h) fun _ _ h => h
        rintro s ⟨hsupported, ⟨hset, hrange⟩, hfstat⟩
        exact ⟨imageFd, devFd, rdev, superBlock, hset, hrange, hfstat, hsupported,
          not_not.mp hsize, rfl⟩

end

/-! ## The mount -/

theorem mountFlags_odd (flags : Nat) : mountFlags flags % 2 = 1 := by
  unfold mountFlags
  split <;> split <;> split <;> rfl

theorem verified_grows (source : String) : Grows fun s => request.Verified s source := by
  rintro s e ⟨name, params, cookie, dev, htable, hactive, hnode⟩
  exact ⟨name, params, cookie, dev, List.mem_append_left _ htable,
    List.mem_append_left _ hactive, List.mem_append_left _ hnode⟩

theorem mountMapped_orderly (fsType : FileSystemType) (mapperDevPath : String)
    (name uuid : Bytes) (flags : Nat) :
    Orderly request imageFd (fun s => request.Verified s mapperDevPath)
      (mountMapped fsType mapperDevPath request.mountPoint name uuid flags) fun _ _ => True := by
  refine Says.ask (verified_grows mapperDevPath) (fun _ h => ⟨rfl, mountFlags_odd flags, h⟩) fun mounted => ?_
  refine (Orderly.free ?_ (.pure True)).conseq (fun _ _ => trivial) fun _ _ h => h
  split
  · exact checkMounted_within mapperDevPath request.mountPoint name uuid flags
  · exact .ask trivial fun _ => .bind (unmap_within name uuid false) fun _ => .ret _

theorem mountImage_orderly (fsType : FileSystemType) (name uuid : Bytes) (flags : Nat) :
    Orderly request imageFd (fun _ => True)
      (mountImage fsType imageFd request.mountPoint request.dataRange request.hashesRange
        request.rootHash name uuid flags) fun _ _ => True := by
  refine Says.bind (loopDeviceAttach_orderly flags) fun attached => ?_
  cases attached with
  | error error => exact .ret fun _ _ => trivial
  | ok loopDevFd =>
    refine Says.bind (mapWithVerity_orderly loopDevFd _) fun mapped => ?_
    cases mapped with
    | error error => exact Orderly.quiet trivial (.pure True) fun _ => .ret fun _ _ => trivial
    | ok mapperDevPath =>
      exact Orderly.quiet trivial (verified_grows mapperDevPath) fun _ =>
        mountMapped_orderly fsType mapperDevPath name uuid flags

theorem readImageSuperBlock_orderly (dataRange hashesRange : FileRange) :
    Orderly request imageFd (fun _ => True) (readImageSuperBlock imageFd dataRange hashesRange)
      fun _ _ => True := by
  unfold readImageSuperBlock
  dsimp only
  split
  · exact Orderly.quiet trivial (.pure True) fun errno => .ret fun _ h => h
  · exact Says.skip (.pure True) (fun _ _ => rfl) fun read =>
      Orderly.quiet trivial (.pure True) fun errno => .ret fun _ h => h

theorem doMount_orderly (id : Bytes) (fsType : FileSystemType) (flags : Nat) :
    Orderly request imageFd (fun _ => True)
      (doMount id fsType imageFd request.mountPoint request.dataRange request.hashesRange
        request.rootHash flags) fun _ _ => True := by
  have htrue : Grows (C := Call) (A := Call.Answer) fun _ => True := .pure True
  refine Orderly.quiet trivial htrue fun isDirectory => ?_
  split
  · exact .ret fun _ _ => trivial
  split
  · exact .ret fun _ _ => trivial
  refine Says.bind (readImageSuperBlock_orderly _ _) fun read => ?_
  cases read with
  | error error => exact .ret fun _ _ => trivial
  | ok sb =>
    dsimp only
    split
    · exact .ret fun _ _ => trivial
    refine Says.bind (Orderly.free openDevMapper_within htrue) fun opened => ?_
    split
    · exact .ret fun _ _ => trivial
    refine Says.bind (Orderly.free (chooseDeviceName_within id sb.uuid) htrue) fun chosen => ?_
    cases chosen with
    | error error => exact .ret fun _ _ => trivial
    | ok chosen => exact mountImage_orderly fsType chosen.1 chosen.2 flags

/-! ## The image file -/

/-- A call of `doMount`. -/
def mounterExchange : Exchange MountCall MountCall.Answer → Option (Exchange Call Call.Answer)
  | ⟨.mounter call, x⟩ => some ⟨call, x⟩
  | _ => none

/-- What was said by `doMount`. -/
def exchanged (s : Transcript MountCall MountCall.Answer) : Transcript Call Call.Answer :=
  s.filterMap mounterExchange

/-- The file that is opened as the image. -/
def ImageSource.file : ImageSource → String
  | .path imagePath => imagePath
  | .descriptor imageFd => s!"/proc/self/fd/{imageFd}"

/-- The descriptors of the image: the one that was given, and those that were opened. -/
def ImageSource.Has (image : ImageSource) (s : Transcript MountCall MountCall.Answer)
    (imageFd : Nat) : Prop :=
  image = .descriptor imageFd ∨ ∃ direct, ⟨.openImage image.file direct, some imageFd⟩ ∈ s

theorem ImageSource.Has.append {image : ImageSource} {s : Transcript MountCall MountCall.Answer}
    (h : image.Has s imageFd) (after : Transcript MountCall MountCall.Answer) :
    image.Has (s ++ after) imageFd :=
  h.imp_right fun ⟨direct, hmem⟩ => ⟨direct, List.mem_append_left _ hmem⟩

theorem has_grows (image : ImageSource) (imageFd : Nat) : Grows fun s => image.Has s imageFd :=
  fun _ e h => h.append [e]

/-- The calls of a mount that are allowed: it opens no other file as the image. -/
def MountRequest.AllowedMount (request : MountRequest) (image : ImageSource)
    (s : Transcript MountCall MountCall.Answer) : MountCall → Prop
  | .mounter call => request.Allowed (image.Has s) (exchanged s) call
  | .openImage path _ => path = image.file
  | _ => True

variable (request) in
/-- A program that only makes calls that are allowed for an image. -/
abbrev OrderlyMount (image : ImageSource) (P : Transcript MountCall MountCall.Answer → Prop)
    (p : MountScript α) : Prop :=
  Says (request.AllowedMount image) P p fun _ => P

section
variable {image : ImageSource} {P : Transcript MountCall MountCall.Answer → Prop}

theorem exchanged_concat (s : Transcript MountCall MountCall.Answer) (call : Call)
    (x : call.Answer) :
    exchanged (s ++ [⟨.mounter call, x⟩]) = exchanged s ++ [⟨call, x⟩] := by
  unfold exchanged
  rw [List.filterMap_append]
  rfl

theorem allowed_mono {images images' : Nat → Prop} (himages : ∀ imageFd, images imageFd →
    images' imageFd) {s : Transcript Call Call.Answer} {call : Call}
    (h : request.Allowed images s call) : request.Allowed images' s call := by
  cases call with
  | preadImage imageFd size offset => exact himages imageFd h
  | loopSetFd fd imageFd => exact himages imageFd h
  | _ => exact h

/-- A program of `doMount` in a mount, with a descriptor of the image. -/
theorem OrderlyMount.mounter {p : Script α}
    (hp : Orderly request imageFd (fun _ => True) p fun _ _ => True) :
    OrderlyMount request image (image.Has · imageFd) (mounter p) := by
  unfold Mounter.mounter
  refine Says.conseq (hp.inside exchanged (fun s call x => exchanged_concat s call x)
    (has_grows image imageFd) fun s call hhas hallowed => ?_) (fun _ hs => ⟨trivial, hs⟩)
    fun _ _ hs => hs.2
  exact allowed_mono (fun fd hfd => by rwa [hfd]) hallowed

/-- A program of calls that are not restricted. -/
theorem OrderlyMount.free {p : Script α} (hp : p.Within IsFree) (hP : Grows P) :
    OrderlyMount request image P (Mounter.mounter p) := by
  unfold Mounter.mounter
  have hsays : Says (request.Allowed fun _ => False) (fun _ => True) p fun _ _ => True :=
    .within hp (fun _ _ h => h.allowed) (.pure True)
  refine Says.conseq (Says.inside exchanged (fun s call x => exchanged_concat s call x) hP
    (fun s call _ hallowed => ?_) hsays) (fun _ hs => ⟨trivial, hs⟩) fun _ _ hs => hs.2
  exact allowed_mono (fun _ hfalse => hfalse.elim) hallowed

theorem OrderlyMount.skip {call : MountCall} {f : call.Answer → MountScript β} (hP : Grows P)
    (hcall : ∀ s, request.AllowedMount image s call)
    (hf : ∀ x, OrderlyMount request image P (f x)) :
    OrderlyMount request image P (Mounter.request call >>= f) :=
  Says.skip hP (fun s _ => hcall s) hf

theorem doMountObject_orderly (id : Bytes) (fsType : FileSystemType) (flags : Nat) :
    OrderlyMount request image (image.Has · imageFd) (doMountObject id fsType request.mountPoint
      request.dataRange request.hashesRange request.rootHash imageFd flags) := by
  refine Says.bind (OrderlyMount.mounter (doMount_orderly id fsType flags)) fun mounted => ?_
  cases mounted with
  | error error => exact .ret fun _ h => h
  | ok mount =>
    refine Says.bind (R := fun _ s => image.Has s imageFd) ?_ fun object => .ret fun _ h => h
    refine Says.bind (OrderlyMount.free ?_ (has_grows image imageFd)) fun _ => .ret fun _ h => h
    exact ⟨trivial, fun _ => trivial⟩

theorem mountAndClose_orderly (id : Bytes) (fsType : FileSystemType) (flags : Nat) :
    OrderlyMount request image (image.Has · imageFd) (mountAndClose id fsType request.mountPoint
      request.dataRange request.hashesRange request.rootHash imageFd flags) :=
  Says.bind (doMountObject_orderly id fsType flags) fun _ =>
    OrderlyMount.skip (has_grows image imageFd) (fun _ => trivial) fun _ => .ret fun _ h => h

theorem failOpen_orderly (imagePath : String) :
    OrderlyMount request image (fun _ => True) (failOpen imagePath) :=
  OrderlyMount.free (failErrno_within _) (.pure True)

/-- Opens the image. -/
theorem OrderlyMount.open {direct : Bool} {f : Option Nat → MountScript β}
    (hnone : OrderlyMount request image (fun _ => True) (f none))
    (hsome : ∀ imageFd, OrderlyMount request image (image.Has · imageFd) (f (some imageFd))) :
    OrderlyMount request image (fun _ => True)
      (Mounter.request (.openImage image.file direct) >>= f) := by
  refine Says.ask (.pure True) (fun _ _ => rfl) fun opened => ?_
  cases opened with
  | none => exact hnone.conseq (fun _ _ => trivial) fun _ _ h => h
  | some imageFd =>
    exact (hsome imageFd).conseq (fun _ hs => .inr ⟨direct, hs.2⟩) fun _ _ _ => trivial

theorem mountPath_orderly (id : Bytes) (fsType : FileSystemType) (flags : Nat) :
    OrderlyMount request image (fun _ => True) (mountPath id fsType request.mountPoint
      request.dataRange request.hashesRange request.rootHash image.file flags) := by
  refine OrderlyMount.open ?_ fun imageFd => mountAndClose_orderly id fsType flags
  refine Says.bind (OrderlyMount.free (P := fun _ => True) ⟨trivial, fun _ => trivial⟩ (.pure True))
    fun errno => ?_
  split
  · exact OrderlyMount.open (failOpen_orderly image.file) fun imageFd =>
      mountAndClose_orderly id fsType _
  · exact failOpen_orderly image.file

/-- Whatever is answered, a mount only makes calls that are allowed for its image. -/
theorem mount_orderly (id : Bytes) (fsType : FileSystemType) (flags : Nat) :
    OrderlyMount request image (fun _ => True) (mount id fsType request.mountPoint
      request.dataRange request.hashesRange request.rootHash image flags) := by
  cases image with
  | path imagePath => exact mountPath_orderly id fsType flags
  | descriptor imageFd =>
    have hmount : ∀ flags, OrderlyMount request (.descriptor imageFd) (fun _ => True)
        (doMountObject id fsType request.mountPoint request.dataRange request.hashesRange
          request.rootHash imageFd flags) := fun flags =>
      (doMountObject_orderly id fsType flags).conseq (fun _ _ => .inl rfl) fun _ _ _ => trivial
    show OrderlyMount request (.descriptor imageFd) (fun _ => True) (mountFd id fsType
      request.mountPoint request.dataRange request.hashesRange request.rootHash imageFd flags)
    unfold mountFd
    split
    · refine OrderlyMount.skip (.pure True) (fun _ => trivial) fun direct => ?_
      rcases direct with _ | direct
      · exact OrderlyMount.free (failErrno_within _) (.pure True)
      cases direct with
      | false => exact mountPath_orderly id fsType flags
      | true => exact hmount flags
    · exact hmount flags

end

/-! ## Whole transcripts -/

theorem exchanged_lawful {image : ImageSource} {s : Transcript MountCall MountCall.Answer}
    (h : Lawful (request.AllowedMount image) s) :
    Lawful (request.Allowed (image.Has s)) (exchanged s) := by
  intro before e after heq
  obtain ⟨s₁, s₂, rfl, rfl, hafter⟩ := List.filterMap_eq_append_iff.mp heq
  obtain ⟨skipped, ⟨call, x⟩, rest, rfl, hskipped, hcall, -⟩ :=
    List.filterMap_eq_cons_iff.mp hafter
  have hallowed : request.AllowedMount image (s₁ ++ skipped) call :=
    h (s₁ ++ skipped) ⟨call, x⟩ rest (List.append_assoc s₁ skipped _).symm
  have hsame : exchanged (s₁ ++ skipped) = exchanged s₁ := by
    unfold exchanged
    rw [List.filterMap_append, List.filterMap_eq_nil_iff.mpr hskipped, List.append_nil]
  cases call with
  | mounter call =>
    cases hcall
    rw [← exchanged, ← hsame]
    refine allowed_mono (fun imageFd hhas => ?_) hallowed
    rw [← List.append_assoc]
    exact hhas.append _
  | _ => cases hcall

namespace MountRequest

/-- What is mounted is the image: its source is the node of a device, the table of the device names
the root hash and a loop device, and the loop device has a descriptor of the image and its range. -/
def Shows (request : MountRequest) (images : Nat → Prop) (s : Transcript Call Call.Answer)
    (source : String) : Prop :=
  ∃ name params cookie dev imageFd fd loop superBlock,
    request.IsVerified s source name params cookie dev ∧ images imageFd ∧
    request.IsTable s params imageFd fd loop superBlock ∧
    (params.splitOn ' ')[1]? = some (deviceField loop.1 loop.2) ∧
    (params.splitOn ' ')[8]? = some (Fields.hex request.rootHash)

theorem IsTable.mono {s : Transcript Call Call.Answer} {params : List Char} {imageFd fd : Nat}
    {dev : DevNum} {superBlock : VeritySuperBlock}
    (h : request.IsTable s params imageFd fd dev superBlock)
    (after : Transcript Call Call.Answer) :
    request.IsTable (s ++ after) params imageFd fd dev superBlock :=
  ⟨List.mem_append_left _ h.attached, List.mem_append_left _ h.range, List.mem_append_left _ h.device, h.supported, h.size, h.line⟩

theorem IsVerified.mono {s : Transcript Call Call.Answer} {source : String} {name : Bytes}
    {params : List Char} {cookie : Option Nat} {dev : DevNum}
    (h : request.IsVerified s source name params cookie dev)
    (after : Transcript Call Call.Answer) :
    request.IsVerified (s ++ after) source name params cookie dev :=
  ⟨List.mem_append_left _ h.table, List.mem_append_left _ h.active, List.mem_append_left _ h.node⟩

/-- The fields of a line that say what is verified. -/
theorem IsTable.fields {s : Transcript Call Call.Answer} {params : List Char} {imageFd fd : Nat}
    {dev : DevNum} {superBlock : VeritySuperBlock}
    (h : request.IsTable s params imageFd fd dev superBlock) :
    (params.splitOn ' ')[1]? = some (deviceField dev.1 dev.2) ∧
      (params.splitOn ' ')[8]? = some (Fields.hex request.rootHash) := by
  rw [h.line, splitOn_createTargetParams h.supported]
  exact ⟨rfl, rfl⟩

end MountRequest

/-- Where every call is allowed, every mount shows the image. -/
theorem shows_of_lawful {images : Nat → Prop} {s : Transcript Call Call.Answer}
    (h : Lawful (request.Allowed images) s) {source target fsType : String} {flags : Nat}
    {mounted : Bool} (hmem : ⟨.mount source target fsType flags, mounted⟩ ∈ s) :
    target = request.mountPoint ∧ flags % 2 = 1 ∧ request.Shows images s source := by
  obtain ⟨before, after, rfl⟩ := List.append_of_mem hmem
  obtain ⟨htarget, hflags, name, params, cookie, dev, hverified⟩ := h before _ after rfl
  obtain ⟨earlier, later, rfl⟩ := List.append_of_mem hverified.table
  have hloaded : request.Allowed images earlier
      (.dmTableLoad name (request.dataRange.size / 512) "verity" params true) := by
    refine h earlier ⟨_, true⟩ (later ++ ⟨.mount source target fsType flags, mounted⟩ :: after) ?_
    rw [List.append_assoc, List.cons_append]
  obtain ⟨-, -, -, imageFd, fd, loop, superBlock, htable⟩ := hloaded
  obtain ⟨first, second, rfl⟩ := List.append_of_mem htable.attached
  have himage : request.Allowed images first (.loopSetFd fd imageFd) := by
    refine h first ⟨_, true⟩ (second ++
      (⟨.dmTableLoad name (request.dataRange.size / 512) "verity" params true, true⟩ :: later) ++
        ⟨.mount source target fsType flags, mounted⟩ :: after) ?_
    simp only [List.append_assoc, List.cons_append]
  refine ⟨htarget, hflags, name, params, cookie, dev, imageFd, fd, loop, superBlock,
    hverified.mono _, himage, ?_, htable.fields⟩
  rw [List.append_assoc]
  exact htable.mono _

end Mounter

end DmVerity
