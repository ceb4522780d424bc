import Ralf.Oci.ErofsImageEntry

/-!
# Extracting a package

`Package::extractTo` writes the entries that a package reader yields to a directory, with
limits on their number and on the bytes of their contents. An entry is one of an archive,
with the state of its reader, or one of an EROFS image.
-/

namespace Package

open Posix Archive Oci

/-- An entry that a package reader yields. -/
inductive EntryImpl
  | archive (entry : PackageEntry) (state : SharedReadState)
  | erofs (entry : OCIErofsImageEntry)

namespace EntryImpl

def path : EntryImpl → FilePath
  | archive entry _ => entry.path
  | erofs entry => entry.path

def type : EntryImpl → FileType
  | archive entry _ =>
    match entry.kind with
    | .directory => .directory
    | .symlink _ => .symlink
    | .file _ _ => .regular
  | erofs entry => entry.type

def permissions : EntryImpl → Nat
  | archive entry _ => entry.perms
  | erofs entry => entry.permissions

def size : EntryImpl → Nat
  | archive entry _ => entry.size
  | erofs entry => entry.size

def modificationTime : EntryImpl → Int
  | archive entry _ => entry.modTime
  | erofs entry => entry.modificationTime

def writeTo (sha256 : Bytes → Bytes) (faults : Nat → Option Errno) (targetDir : Location)
    (entry : EntryImpl) (maxSize : Nat) (options : ExtractOptions) : Script (Result Nat) :=
  match entry with
  | archive entry state => entry.writeTo sha256 faults targetDir maxSize options state
  | erofs entry => entry.writeTo faults targetDir maxSize options

end EntryImpl

/-- The object that a path leads to when symlinks at its end are followed. -/
def followLinks (fs : FileSystem) : Nat → Target → Except Errno Target
  | 0, _ => .error eloop
  | links + 1, target =>
    match fs.lookup target.loc with
    | none => .error enoent
    | some node =>
      match node.kind with
      | .symlink link =>
        match locate fs target.loc.dropLast link with
        | .error errno => .error errno
        | .ok target => followLinks fs links target
      | _ => .ok target

/-- `utimensat` of the modification time, following symlinks. -/
def utimensatFollow (mtime : Int) : Op Unit := fun fs target =>
  match followLinks fs maxLinks target with
  | .error errno => .error errno
  | .ok target => utimensat mtime fs target

section
variable (sha256 : Bytes → Bytes) (faults : Nat → Option Errno) (targetDir : Location)

/-- How extracting ended, with the entries that were written and the sizes that writing them
gave, for statements. -/
structure Extraction where
  result : Result (List (FilePath × Int))
  written : List (EntryImpl × Nat)

/-- The loop of `extractTo`. It gives the directories whose times are still to be set. -/
def extractLoop (sizeLimit entriesLimit : Nat) (options : ExtractOptions) :
    List EntryImpl → Nat → Nat → List (FilePath × Int) → List (EntryImpl × Nat) → Script Extraction
  | [], _, _, dirModTimes, written => return ⟨.ok dirModTimes, written⟩
  | entry :: rest, totalExtracted, totalEntries, dirModTimes, written => do
    let entrySize := entry.size
    if wrap64 (totalExtracted + entrySize) > sizeLimit then
      return ⟨.error (.ralf .packageExtractLimitExceeded "Package extraction size limit exceeded"),
        written⟩
    else
      match ← entry.writeTo sha256 faults targetDir entrySize options with
      | .error error => return ⟨.error error, written⟩
      | .ok amount =>
        let written := written ++ [(entry, amount)]
        let totalEntries := totalEntries + 1
        if totalEntries ≥ entriesLimit then
          return ⟨.error (.ralf .packageExtractLimitExceeded
            "Package extraction entry limit exceeded"), written⟩
        else
          let dirModTimes :=
            if entry.type = .directory then dirModTimes ++ [(entry.path, entry.modificationTime)]
            else dirModTimes
          extractLoop sizeLimit entriesLimit options rest (wrap64 (totalExtracted + amount))
            totalEntries dirModTimes written

/-- Sets the times of directories, without an error when that fails. -/
def setDirectoryTimes : List (FilePath × Int) → Script Unit
  | [] => return ()
  | (dirPath, mtime) :: rest => do
    let _ ← call faults targetDir (utimensatFollow mtime) dirPath
    setDirectoryTimes rest

/-- The entries that a package reader yields before it ends, and the error it then has. -/
structure PackageReaderImpl where
  entries : List EntryImpl
  error : Option Error

/-- `extractTo` of a package with limits, given what creating the reader gives. -/
def extractTo (maxExtractionBytes maxExtractionEntries : Nat)
    (createReader : Result PackageReaderImpl) (options : ExtractOptions) : Script Extraction := do
  match createReader with
  | .error error => return ⟨.error error, []⟩
  | .ok reader =>
    let extraction ← extractLoop sha256 faults targetDir maxExtractionBytes maxExtractionEntries
      options reader.entries 0 0 [] []
    match extraction.result with
    | .error _ => return extraction
    | .ok dirModTimes =>
      match reader.error with
      | some error => return ⟨.error error, extraction.written⟩
      | none =>
        setDirectoryTimes faults targetDir dirModTimes
        return extraction

end

/-! ## The times of directories -/

section
variable {sha256 : Bytes → Bytes} {faults : Nat → Option Errno} {targetDir : Location}
  {sizeLimit entriesLimit : Nat} {options : ExtractOptions}

/-- The directories among entries, with their times. -/
def directoryTimes (entries : List EntryImpl) : List (FilePath × Int) :=
  (entries.filter fun entry => entry.type = .directory).map fun entry =>
    (entry.path, entry.modificationTime)

/-- The loop keeps the directories with their times, in order. -/
theorem extractLoop_directoryTimes {entries : List EntryImpl} {totalExtracted totalEntries : Nat}
    {dirs dirs' : List (FilePath × Int)} {written written' : List (EntryImpl × Nat)} {w w' : World}
    (h : extractLoop sha256 faults targetDir sizeLimit entriesLimit options entries totalExtracted
      totalEntries dirs written w = (⟨.ok dirs', written'⟩, w')) :
    dirs' = dirs ++ directoryTimes entries := by
  induction entries generalizing totalExtracted totalEntries dirs written w with
  | nil =>
    cases h
    exact (List.append_nil _).symm
  | cons entry rest ih =>
    unfold extractLoop at h
    dsimp only at h
    split at h
    · cases h
    rw [bind_apply] at h
    rcases hwrite : entry.writeTo sha256 faults targetDir entry.size options w with
      ⟨error | amount, w₁⟩
    · rw [hwrite] at h
      cases h
    rw [hwrite] at h
    dsimp only at h
    split at h
    · cases h
    rw [ih h]
    unfold directoryTimes
    by_cases htype : entry.type = .directory
    · rw [if_pos htype, List.filter_cons, if_pos (decide_eq_true htype), List.map_cons,
        List.append_assoc]
      rfl
    · rw [if_neg htype, List.filter_cons, if_neg (Bool.not_eq_true _ ▸ decide_eq_false htype)]

variable (faults targetDir)

/-- The object whose time a call sets, unless the call fails. -/
def timedBy (path : FilePath) (w : World) : Option Location :=
  if (faults w.steps).isSome then none
  else
    ((locate w.fs targetDir path).bind (followLinks w.fs maxLinks)).toOption.map Target.loc

/-- The last time that is set for an object, in a world. -/
def lastTime : List (FilePath × Int) → World → Location → Option Int
  | [], _, _ => none
  | (path, mtime) :: rest, w, loc =>
    (lastTime rest (call faults targetDir (utimensatFollow mtime) path w).2 loc).or
      (if timedBy faults targetDir path w = some loc then some mtime else none)

variable {faults targetDir}

theorem followLinks_lookup {fs : FileSystem} {links : Nat} {target target' : Target}
    (h : followLinks fs links target = .ok target') : ∃ node, fs.lookup target'.loc = some node := by
  induction links generalizing target with
  | zero => cases h
  | succ links ih =>
    unfold followLinks at h
    split at h
    · cases h
    next node hnode =>
    split at h
    · split at h
      · cases h
      · exact ih h
    · cases h
      exact ⟨node, hnode⟩

/-- A call sets the time of one object, or of none. -/
theorem utimensatFollow_cases (path : FilePath) (mtime : Int) (w : World) :
    (timedBy faults targetDir path w = none ∧
        (call faults targetDir (utimensatFollow mtime) path w).2.fs = w.fs) ∨
      ∃ loc node, timedBy faults targetDir path w = some loc ∧ w.fs.lookup loc = some node ∧
        (call faults targetDir (utimensatFollow mtime) path w).2.fs =
          w.fs.set loc { node with mtime := mtime } := by
  unfold timedBy call
  cases faults w.steps with
  | some errno => exact .inl ⟨rfl, rfl⟩
  | none =>
    cases locate w.fs targetDir path with
    | error errno => exact .inl ⟨rfl, rfl⟩
    | ok target =>
      unfold utimensatFollow
      dsimp only [Except.bind]
      cases hfollow : followLinks w.fs maxLinks target with
      | error errno => exact .inl ⟨rfl, rfl⟩
      | ok found =>
        obtain ⟨node, hnode⟩ := followLinks_lookup hfollow
        have hset : utimensat mtime w.fs found =
            .ok ((), w.fs.set found.loc { node with mtime := mtime }) := by
          unfold utimensat changeat
          rw [hnode]
        refine .inr ⟨found.loc, node, rfl, hnode, ?_⟩
        dsimp only
        rw [hset]

theorem utimensatFollow_lookup (path : FilePath) (mtime : Int) (w : World) (loc : Location) :
    (call faults targetDir (utimensatFollow mtime) path w).2.fs.lookup loc =
      if timedBy faults targetDir path w = some loc then
        (w.fs.lookup loc).map fun node => { node with mtime := mtime }
      else w.fs.lookup loc := by
  rcases @utimensatFollow_cases faults targetDir path mtime w with
    ⟨hnone, hfs⟩ | ⟨found, node, hfound, hnode, hfs⟩
  · rw [hnone, hfs, if_neg (Option.some_ne_none loc).symm]
  · rw [hfound, hfs]
    by_cases heq : found = loc
    · subst heq
      rw [if_pos rfl, hnode]
      exact FileSystem.lookup_set_self _
    · rw [if_neg fun h => heq (Option.some.inj h)]
      exact FileSystem.lookup_set_of_ne (Ne.symm heq) _

/-- Setting the times of directories sets the last time that there is for each object. -/
theorem setDirectoryTimes_lookup (dirs : List (FilePath × Int)) (w : World) (loc : Location) :
    (setDirectoryTimes faults targetDir dirs w).2.fs.lookup loc =
      (w.fs.lookup loc).map fun node =>
        { node with mtime := (lastTime faults targetDir dirs w loc).getD node.mtime } := by
  induction dirs generalizing w with
  | nil => exact (congrFun Option.map_id_fun' _).symm
  | cons dir rest ih =>
    obtain ⟨path, mtime⟩ := dir
    unfold setDirectoryTimes lastTime
    rw [bind_apply, ih, utimensatFollow_lookup]
    by_cases htimed : timedBy faults targetDir path w = some loc
    · rw [if_pos htimed, if_pos htimed, Option.map_map]
      congr 1
      funext node
      cases lastTime faults targetDir rest
          (call faults targetDir (utimensatFollow mtime) path w).2 loc with
      | some time => rfl
      | none => rfl
    · rw [if_neg htimed, if_neg htimed, Option.or_none]

end

end Package
