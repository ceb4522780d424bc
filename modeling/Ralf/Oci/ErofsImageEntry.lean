import Ralf.Archive.Entries

/-!
# Entries of an EROFS image layer

An `OCIErofsImageEntry` wraps an entry of an EROFS image as an entry of a package. The
wrapped entry is an interface: its `read` is a parameter that gives at most the bytes asked
for from an offset on, and the error that it set. It may depend on the reads that were made before.
-/

namespace Oci

open Posix Archive

/-- The entry of an image that is wrapped. A read is given with the sizes and the offsets of the
reads that were made before. -/
structure OCIErofsImageEntry where
  path : FilePath
  type : FileType
  permissions : Nat
  size : Nat
  modificationTime : Int
  read : List (Nat × Nat) → Nat → Nat → Option Error × Bytes

/-- `PATH_MAX`. -/
def pathMax : Nat := 4096

/-- An error object, which may hold no error. -/
def errorOf (error : Option Error) : Error := error.getD ⟨.system 0, ""⟩

/-- The number of a file type. -/
def fileTypeNumber : FileType → Nat
  | .regular => 1
  | .directory => 2
  | .symlink => 3
  | .block => 4
  | .character => 5
  | .fifo => 6
  | .socket => 7
  | .unknown => 8

namespace OCIErofsImageEntry

section
variable (faults : Nat → Option Errno) (targetDir : Location)

/-- The loop that copies a file's contents, from an offset on and after the reads that were made
before. Every turn copies at least one byte. -/
def copyContents (entry : OCIErofsImageEntry) (loc : Location) (maxSize : Nat) :
    Nat → List (Nat × Nat) → Nat → Script (Result Nat)
  | 0, _, offset => return .ok offset
  | fuel + 1, before, offset => do
    if offset < entry.size then
      match entry.read before 4096 offset with
      | (error, data) =>
        if error.isSome ∨ data = [] then
          let code := (errorOf error).code
          let what := (errorOf error).what
          return .error ⟨code, s!"Failed to read file '{entry.path.cStr}' - {what}"⟩
        else if offset + data.length > maxSize then
          return .error (.ralf .packageContentsInvalid
            s!"File '{entry.path.cStr}' exceeds maximum allowed size")
        else
          match ← fileCall faults loc
            (writeContents fun contents => pwrite contents data offset) with
          | .error errno =>
            return .error (.system errno s!"Failed to write to file '{entry.path.cStr}'")
          | .ok _ =>
            copyContents entry loc maxSize fuel (before ++ [(4096, offset)]) (offset + data.length)
    else return .ok offset

/-- What `writeTo` does for a regular file. A file that could not be written stays. -/
def writeFile (entry : OCIErofsImageEntry) (maxSize : Nat) : Script (Result Nat) := do
  match ← call faults targetDir (openat entry.permissions) entry.path with
  | .error errno => return .error (.system errno s!"Failed to create file '{entry.path.cStr}'")
  | .ok loc =>
    match ← copyContents faults entry loc maxSize entry.size [] 0 with
    | .error error => return .error error
    | .ok offset =>
      match ← fileCall faults loc fun node => { node with mode := entry.permissions } with
      | .error errno =>
        return .error (.system errno s!"Failed to set file mode for file '{entry.path.cStr}'")
      | .ok _ => return .ok offset

/-- What `writeTo` does for a directory. -/
def writeDirectory (entry : OCIErofsImageEntry) : Script (Result Nat) := do
  match ← call faults targetDir (mkdirat 0o755) entry.path with
  | .error errno => return .error (.system errno s!"Failed to create directory '{entry.path.cStr}'")
  | .ok _ => return .ok 0

/-- `symlinkat` with a buffer, which ends at its first NUL byte; an empty target is refused. -/
def symlinkBuffer (buffer : Bytes) : Op Location := fun fs target =>
  let linkTarget := buffer.takeWhile (· ≠ 0)
  if linkTarget = [] then .error enoent else symlinkat linkTarget fs target

/-- What `writeTo` does for a symlink. -/
def writeSymlink (entry : OCIErofsImageEntry) (maxSize : Nat) : Script (Result Nat) := do
  match entry.read [] (pathMax - 1) 0 with
  | (error, target) =>
    if error.isSome ∨ target = [] then
      let what := (errorOf error).what
      return .error (.ralf .erofsError
        s!"Failed to read symlink target for '{entry.path.cStr}' - {what}")
    else if target.length > maxSize then
      return .error (.ralf .erofsError s!"Symlink target for '{entry.path.cStr}' is too long")
    else
      match ← call faults targetDir (symlinkBuffer target) entry.path with
      | .error errno =>
        return .error (.system errno s!"Failed to create symlink '{entry.path.cStr}'")
      | .ok _ => return .ok target.length

/-- What `writeTo` does when nothing is in the way. -/
def create (entry : OCIErofsImageEntry) (maxSize : Nat) : Script (Result Nat) :=
  match entry.type with
  | .regular => writeFile faults targetDir entry maxSize
  | .directory => writeDirectory faults targetDir entry
  | .symlink => writeSymlink faults targetDir entry maxSize
  | type =>
    let number := fileTypeNumber type
    return .error (.ralf .notSupported
      s!"Unsupported file type {number} for entry '{entry.path.cStr}'")

def writeTo (entry : OCIErofsImageEntry) (maxSize : Nat) (options : ExtractOptions) :
    Script (Result Nat) := do
  match ← checkExtraction faults targetDir entry.path entry.type entry.permissions options with
  | .error error => return .error error
  | .ok .skip => return .ok 0
  | .ok .extract =>
    match ← create faults targetDir entry maxSize with
    | .error error => return .error error
    | .ok amountWritten =>
      let _ ← call faults targetDir (utimensat entry.modificationTime) entry.path
      return .ok amountWritten

end

/-! ## What writing changes -/

section
variable {faults : Nat → Option Errno} {targetDir : Location} {names : List Bytes} {target : Target}
  {link was : Prop} {entry : OCIErofsImageEntry} {maxSize : Nat}

/-- Where a script ends: a symlink is the one that was there, or the result is a symlink that was
made. -/
def LinkLeft (loc : Location) (was made : Prop) (result : Result Nat) (fs : FileSystem) : Prop :=
  IsLink fs loc → match result with
    | .ok _ => made
    | .error _ => was

theorem copyContents_onFile (loc : Location) (fuel : Nat) (before : List (Nat × Nat))
    (offset : Nat) : OnFile faults loc (copyContents faults entry loc maxSize fuel before offset) := by
  induction fuel generalizing before offset with
  | zero => exact OnFile.pure _
  | succ fuel ih =>
    unfold copyContents
    split
    · dsimp only
      split
      · exact OnFile.pure _
      split
      · exact OnFile.pure _
      refine OnFile.bind (OnFile.fileCall writeContents_keepsKind) fun result => ?_
      cases result with
      | error errno => exact OnFile.pure _
      | ok _ => exact ih _ _
    · exact OnFile.pure _

/-- A result that is reached without a symlink. -/
theorem linkLeft_of_not {loc : Location} {made : Prop} {result : Result Nat} {fs : FileSystem}
    (h : IsLink fs loc → False) : LinkLeft loc was made result fs := fun hlink => (h hlink).elim

theorem createat_not_isLink {kind : FileKind} {mode : Nat} {before fs : FileSystem} {loc : Location}
    (hkind : ∀ path, kind ≠ .symlink path) (h : createat kind mode before target = .ok (loc, fs)) :
    ¬ IsLink fs target.loc := by
  rw [(createat_eq_set h).2, isLink_set_iff]
  cases kind with
  | directory => exact Bool.false_ne_true
  | regular contents => exact Bool.false_ne_true
  | symlink path => exact absurd rfl (hkind path)

theorem writeFile_spec (hpath : entry.path = FilePath.ofNames names)
    (hleads : Leads targetDir names target) :
    Spec targetDir names target.loc link (fun fs => IsLink fs target.loc → was)
      (writeFile faults targetDir entry maxSize)
        (LinkLeft target.loc was (entry.type = .symlink)) := by
  unfold writeFile
  rw [hpath]
  refine Spec.bind hleads (Spec.call (createat_local fun h => nomatch h) hleads) fun result => ?_
  cases result with
  | error errno => exact Spec.pure fun _ h => h
  | ok loc =>
    -- the descriptor is for the file that was made at the path
    have hopened : ∀ fs, (∃ before, (IsLink before target.loc → was) ∧
        openat entry.permissions before target = .ok (loc, fs)) → loc = target.loc :=
      fun fs ⟨before, _, hopen⟩ => (createat_eq_set hopen).1
    refine Spec.assume hopened fun hloc => ?_
    subst hloc
    have hregular : ∀ path, FileKind.regular [] ≠ .symlink path := fun _ h => nomatch h
    refine Spec.pre (P := fun fs => IsLink fs target.loc → False) ?_ fun fs ⟨before, _, hopen⟩ =>
      createat_not_isLink hregular hopen
    refine Spec.bind hleads ((copyContents_onFile _ _ _ _).keeps hleads).preserves fun result => ?_
    cases result with
    | error error => exact Spec.pure fun _ h => linkLeft_of_not h
    | ok offset =>
      have hchmod : Keeps targetDir names target.loc False
          (fileCall faults target.loc fun node => { node with mode := entry.permissions }) :=
        Keeps.fileCall fun _ => id
      refine Spec.bind hleads hchmod.preserves fun result => ?_
      cases result with
      | error errno => exact Spec.pure fun _ h => linkLeft_of_not h
      | ok _ => exact Spec.pure fun _ h => linkLeft_of_not h

theorem writeDirectory_spec (hpath : entry.path = FilePath.ofNames names)
    (hleads : Leads targetDir names target) :
    Spec targetDir names target.loc link (fun fs => IsLink fs target.loc → was)
      (writeDirectory faults targetDir entry)
        (LinkLeft target.loc was (entry.type = .symlink)) := by
  unfold writeDirectory
  rw [hpath]
  refine Spec.bind hleads (Spec.call (createat_local fun h => nomatch h) hleads) fun result => ?_
  cases result with
  | error errno => exact Spec.pure fun _ h => h
  | ok loc =>
    have hdirectory : ∀ path, FileKind.directory ≠ .symlink path := fun _ h => nomatch h
    exact Spec.pure fun fs ⟨before, _, hmade⟩ =>
      linkLeft_of_not (createat_not_isLink hdirectory hmade)

theorem symlinkBuffer_local (buffer : Bytes) (hlink : link) : Local link
    (symlinkBuffer buffer) where
  frame fs target a fs' h := by
    unfold symlinkBuffer at h
    dsimp only at h
    split at h
    · cases h
    · exact (createat_local fun _ => hlink).frame _ _ _ _ h
  links fs target a fs' h hafter := .inl hlink

theorem writeSymlink_spec (hpath : entry.path = FilePath.ofNames names)
    (hleads : Leads targetDir names target) (htype : entry.type = .symlink) (hlink : link) :
    Spec targetDir names target.loc link (fun fs => IsLink fs target.loc → was)
      (writeSymlink faults targetDir entry maxSize)
      (LinkLeft target.loc was (entry.type = .symlink)) := by
  unfold writeSymlink
  rw [hpath]
  split
  split
  · exact Spec.pure fun _ h => h
  split
  · exact Spec.pure fun _ h => h
  refine Spec.bind hleads (Spec.call (symlinkBuffer_local _ hlink) hleads) fun result => ?_
  cases result with
  | error errno => exact Spec.pure fun _ h => h
  | ok _ => exact Spec.pure fun _ _ _ => htype

theorem create_spec (hpath : entry.path = FilePath.ofNames names)
    (hleads : Leads targetDir names target) :
    Spec targetDir names target.loc (entry.type = .symlink) (fun fs => IsLink fs target.loc → was)
      (create faults targetDir entry maxSize)
        (LinkLeft target.loc was (entry.type = .symlink)) := by
  unfold create
  split
  · exact writeFile_spec hpath hleads
  · exact writeDirectory_spec hpath hleads
  · next htype => exact writeSymlink_spec hpath hleads htype htype
  · exact Spec.pure fun _ h => h

/-- Without options a symlink is left only by an entry that is a symlink. -/
theorem writeTo_spec (hpath : entry.path = FilePath.ofNames names)
    (hleads : Leads targetDir names target) :
    Spec targetDir names target.loc (entry.type = .symlink) (fun fs => IsLink fs target.loc → was)
      (writeTo faults targetDir entry maxSize ExtractOption.none)
      (LinkLeft target.loc was (entry.type = .symlink)) := by
  have hcheck : Spec targetDir names target.loc (entry.type = .symlink)
    (fun fs => IsLink fs target.loc → was)
      (checkExtraction faults targetDir entry.path entry.type entry.permissions ExtractOption.none)
      fun result fs => (result = .ok .skip → SkipOk target.loc entry.type ExtractOption.none fs) ∧
        (IsLink fs target.loc → was) := by
    rw [hpath]
    exact ((checkExtraction_spec _ _ _ hleads).and
      (checkExtraction_spec _ _ _ hleads).keeps.preserves).pre fun _ h => ⟨trivial, h⟩
  unfold writeTo
  refine Spec.bind hleads hcheck fun result => ?_
  rcases result with error | _ | _
  · exact Spec.pure fun _ h => h.2
  · refine Spec.pure fun fs h => linkLeft_of_not ?_
    obtain ⟨-, node, hnode, hkind⟩ := h.1 rfl rfl
    rintro ⟨node', hnode', hlink⟩
    rw [hnode] at hnode'
    cases hnode'
    rw [Node.isSymlink, hkind] at hlink
    cases hlink
  · refine Spec.bind hleads ((create_spec hpath hleads).pre fun _ h => h.2) fun result => ?_
    rw [hpath]
    cases result with
    | error error => exact Spec.pure fun _ h => h
    | ok amountWritten =>
      have htime : Keeps targetDir names target.loc False
          (call faults targetDir (utimensat entry.modificationTime) (FilePath.ofNames names)) :=
        Keeps.call (changeat_local _) hleads
      exact Spec.bind hleads htime.preserves fun _ => Spec.pure fun _ h => h

end

end OCIErofsImageEntry

end Oci
