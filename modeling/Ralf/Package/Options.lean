import Ralf.Lib.PosixFresh
import Ralf.Package.ExtractTo

/-!
# Extraction options

Every entry is written the same way: `checkExtraction` decides, from the object that is at
the entry's path and from the options, whether the entry is skipped, refused or created,
and the rest does not look at the options (`Guarded`).

`SkipExistingFiles` and `NoOverwriteDirectories` have the same bit. The laws of both are
stated for the entries that `extractTo` comes to, each of which meets the tree that the ones
before it left, and for the times of directories, which are set at the end. `options_laws_iff`
says for which packages they hold.
-/

namespace Package

open Posix Archive Oci

variable {sha256 : Bytes → Bytes} {faults : Nat → Option Errno} {targetDir : Location}
  {entry : EntryImpl} {maxSize : Nat} {w : World} {node : Node} {path : FilePath}

/-! ## What checking does -/

/-- The check of an entry. -/
def EntryImpl.check (faults : Nat → Option Errno) (targetDir : Location) (entry : EntryImpl)
    (options : ExtractOptions) : Script (Result ExtractOperation) :=
  checkExtraction faults targetDir entry.path entry.type entry.permissions options

/-- The object that the check finds at a path. -/
def Finds (faults : Nat → Option Errno) (targetDir : Location) (w : World) (path : FilePath)
    (node : Node) : Prop :=
  (call faults targetDir fstatat path w).1 = .ok node

/-- The error for an entry that cannot be skipped. -/
def mismatched (path : FilePath) : Error :=
  .ralf .fileExists s!"Cannot skip existing '{path.cStr}' as mismatched types"

/-- Looking at a path leaves the tree as it is. -/
theorem stat_cases (faults : Nat → Option Errno) (targetDir : Location)
    (path : FilePath) (w : World) :
    (∃ errno w', call faults targetDir fstatat path w = (.error errno, w') ∧ w'.fs = w.fs ∧
        w'.steps = w.steps + 1) ∨
      ∃ node target w', call faults targetDir fstatat path w = (.ok node, w') ∧ w'.fs = w.fs ∧
        w'.steps = w.steps + 1 ∧ locate w.fs targetDir path = .ok target ∧
        w.fs.lookup target.loc = some node := by
  rcases call_cases faults targetDir fstatat path w with
    ⟨errno, w', hcall, hfs, hsteps⟩ | ⟨target, node, w', hlocate, hresult, hcall, hsteps⟩
  · exact .inl ⟨errno, w', hcall, hfs, hsteps⟩
  · obtain ⟨hfs, hnode⟩ := fstatat_ok hresult
    exact .inr ⟨node, target, w', hcall, hfs, hsteps, hlocate, hnode⟩

/-- Nothing found: the options do not matter. -/
theorem check_of_not_finds (h : ∀ node, ¬ Finds faults targetDir w entry.path node)
    (options options' : ExtractOptions) :
    entry.check faults targetDir options w = entry.check faults targetDir options' w := by
  unfold EntryImpl.check checkExtraction
  rw [bind_apply, bind_apply]
  rcases stat_cases faults targetDir entry.path w with
    ⟨errno, w', hcall, -⟩ | ⟨node, _, w', hcall, -⟩
  · rw [hcall]
  · exact absurd (congrArg Prod.fst hcall) (h node)

/-- The check with the bit of `SkipExistingFiles`. -/
theorem check_skip (h : Finds faults targetDir w entry.path node) : ∃ w',
    w'.fs = w.fs ∧ w'.steps = w.steps + 1 ∧
      entry.check faults targetDir ExtractOption.skipExistingFiles w =
        (if entry.type = .directory ∧ node.kind ≠ .directory ∨
            entry.type ≠ .directory ∧ node.kind.isRegular = true then .error (mismatched entry.path)
          else .ok .skip, w') := by
  unfold EntryImpl.check checkExtraction
  rw [bind_apply]
  rcases stat_cases faults targetDir entry.path w with
    ⟨errno, w', hcall, -⟩ | ⟨found, _, w', hcall, hfs, hsteps, -⟩
  · unfold Finds at h
    rw [hcall] at h
    cases h
  · unfold Finds at h
    rw [hcall] at h
    cases h
    rw [hcall]
    refine ⟨w', hfs, hsteps, ?_⟩
    dsimp only
    rw [if_neg (by decide), if_pos (by decide)]
    split <;> rfl

/-! ## What writing adds -/

/-- The entry's own checks pass: the target of a symlink of an archive is not too long, and
the reader of a file of an archive is still at it. -/
def EntryImpl.Ready (entry : EntryImpl) (maxSize : Nat) : Prop :=
  match entry with
  | .erofs _ => True
  | .archive entry state =>
    match entry.kind with
    | .directory => True
    | .symlink target => target.length ≤ maxSize
    | .file _ index => checkReadState index state = .ok ()

/-- Creates an entry if its check says so. -/
def guarded (check : Script (Result ExtractOperation)) (skipped : Nat)
    (place : Script (Result Nat)) :
    Script (Result Nat) := do
  match ← check with
  | .error error => return .error error
  | .ok .skip => return .ok skipped
  | .ok .extract => place

theorem symlinkBuffer_creates (buffer : Bytes) :
    Creates (OCIErofsImageEntry.symlinkBuffer buffer) := by
  intro fs target found fs' h
  unfold OCIErofsImageEntry.symlinkBuffer at h
  dsimp only at h
  split at h
  · cases h
  · exact createat_creates _ _ fs target found fs' h

/-- Setting the times of an object that was just created, as the last step. -/
theorem utimensat_fills {fs : FileSystem} {target : Target} {result : Result Nat} {mtime : Int}
    (hlocate : locate fs targetDir path = .ok target) :
    Fills fs target.loc (do
      let _ ← call faults targetDir (utimensat mtime) path
      return result) :=
  Fills.bind (Fills.call (@changeat_local True _) hlocate) fun _ => Fills.pure _

theorem unlinkat_fills {fs : FileSystem} {target : Target} {result : Result Nat}
    (hlocate : locate fs targetDir path = .ok target) :
    Fills fs target.loc (do
      let _ ← call faults targetDir unlinkat path
      return result) :=
  Fills.bind (Fills.call (@unlinkat_local True) hlocate) fun _ => Fills.pure _

theorem writeDirectory_guarded (entry : PackageEntry) : ∃ place, Adds place ∧ ∀ options,
    writeDirectory faults targetDir entry options =
      guarded (checkExtraction faults targetDir entry.path .directory entry.perms
        options) 0 place := by
  refine ⟨_, ?_, fun options => rfl⟩
  refine Adds.create (createat_creates _ _) (fun errno => Adds.pure _) fun fs target hlocate => ?_
  exact utimensat_fills hlocate

theorem writeSymlink_guarded (entry : PackageEntry) {target : Bytes} (h : target.length ≤ maxSize) :
    ∃ place, Adds place ∧ ∀ options,
      writeSymlink faults targetDir entry target maxSize options =
        guarded (checkExtraction faults targetDir entry.path .symlink entry.perms options)
          target.length place := by
  refine ⟨_, ?_, fun options => if_neg (Nat.not_lt.mpr h)⟩
  refine Adds.create (createat_creates _ _) (fun errno => Adds.pure _) fun fs target hlocate => ?_
  exact utimensat_fills hlocate

theorem writeFile_guarded (entry : PackageEntry) (digest : Option Bytes) {index : Nat}
    {state : SharedReadState} (h : checkReadState index state = .ok ()) :
    ∃ place, Adds place ∧ ∀ options,
      writeFile sha256 faults targetDir entry digest index maxSize options state =
        guarded (checkExtraction faults targetDir entry.path .regular entry.perms
          options) 0 place := by
  refine ⟨_, ?_, fun options => by unfold writeFile; rw [h]; rfl⟩
  refine Adds.create (createat_creates _ _) (fun errno => Adds.pure _) fun fs target hlocate => ?_
  refine Fills.bind (doFileWrite_onFile _ _ _ _ _ _).fills fun result => ?_
  cases result with
  | error error => exact unlinkat_fills hlocate
  | ok size =>
    refine Fills.bind Fills.fileCall fun result => ?_
    cases result with
    | error errno => exact Fills.bind Fills.fileCall fun _ => unlinkat_fills hlocate
    | ok _ => exact Fills.bind Fills.fileCall fun _ => Fills.pure _

/-- The last step of writing an entry of an image. -/
def finish (faults : Nat → Option Errno) (targetDir : Location) (image : OCIErofsImageEntry)
    (result : Result Nat) : Script (Result Nat) := do
  match result with
  | .error error => return .error error
  | .ok amountWritten =>
    let _ ← call faults targetDir (utimensat image.modificationTime) image.path
    return .ok amountWritten

theorem finish_fills {fs : FileSystem} {target : Target} {image : OCIErofsImageEntry}
    (hlocate : locate fs targetDir image.path = .ok target) (result : Result Nat) :
    Fills fs target.loc (finish faults targetDir image result) := by
  cases result with
  | error error => exact Fills.pure _
  | ok amountWritten => exact utimensat_fills hlocate

theorem create_adds (image : OCIErofsImageEntry) :
    Adds (image.create faults targetDir maxSize >>= finish faults targetDir image) := by
  unfold OCIErofsImageEntry.create
  cases image.type with
  | regular =>
    dsimp only
    unfold OCIErofsImageEntry.writeFile
    rw [bind_assoc]
    refine Adds.create (createat_creates _ _) (fun errno => Adds.pure _) fun fs target hlocate => ?_
    refine Fills.bind (Fills.bind (OCIErofsImageEntry.copyContents_onFile _ _ _ _).fills
      fun result => ?_) (finish_fills hlocate)
    cases result with
    | error error => exact Fills.pure _
    | ok offset =>
      refine Fills.bind Fills.fileCall fun result => ?_
      cases result with
      | error errno => exact Fills.pure _
      | ok _ => exact Fills.pure _
  | directory =>
    dsimp only
    unfold OCIErofsImageEntry.writeDirectory
    rw [bind_assoc]
    refine Adds.create (createat_creates _ _) (fun errno => Adds.pure _) fun fs target hlocate => ?_
    exact @finish_fills faults targetDir fs target image hlocate (.ok 0)
  | symlink =>
    dsimp only
    unfold OCIErofsImageEntry.writeSymlink
    dsimp only
    split
    · exact Adds.pure _
    split
    · exact Adds.pure _
    rw [bind_assoc]
    refine Adds.create (symlinkBuffer_creates _)
      (fun errno => Adds.pure _) fun fs target hlocate => ?_
    exact @finish_fills faults targetDir fs target image hlocate (.ok _)
  | character => exact Adds.pure _
  | block => exact Adds.pure _
  | fifo => exact Adds.pure _
  | socket => exact Adds.pure _
  | unknown => exact Adds.pure _

/-- Every entry is written by a check that knows the options and a creation that does not. -/
theorem writeTo_guarded (h : entry.Ready maxSize) : ∃ skipped place, Adds place ∧ ∀ options,
    entry.writeTo sha256 faults targetDir maxSize options =
      guarded (entry.check faults targetDir options) skipped place := by
  cases entry with
  | erofs image => exact ⟨0, _, create_adds image, fun options => rfl⟩
  | archive entry state =>
    obtain ⟨path, kind, size, perms, modTime⟩ := entry
    cases kind with
    | directory =>
      obtain ⟨place, hadds, hplace⟩ :=
        @writeDirectory_guarded faults targetDir ⟨path, .directory, size, perms, modTime⟩
      exact ⟨0, place, hadds, hplace⟩
    | symlink target =>
      obtain ⟨place, hadds, hplace⟩ :=
        @writeSymlink_guarded faults targetDir maxSize ⟨path, .symlink target, size, perms, modTime⟩
          target h
      exact ⟨target.length, place, hadds, hplace⟩
    | file digest index =>
      obtain ⟨place, hadds, hplace⟩ :=
        @writeFile_guarded sha256 faults targetDir maxSize
          ⟨path, .file digest index, size, perms, modTime⟩ digest index state h
      exact ⟨0, place, hadds, hplace⟩

/-! ## The laws of one entry -/

theorem writeTo_of_not_finds (hready : entry.Ready maxSize)
    (h : ∀ node, ¬ Finds faults targetDir w entry.path node) (options options' : ExtractOptions) :
    entry.writeTo sha256 faults targetDir maxSize options w =
      entry.writeTo sha256 faults targetDir maxSize options' w := by
  obtain ⟨skipped, place, -, hwrite⟩ :=
    @writeTo_guarded sha256 faults targetDir entry maxSize hready
  rw [hwrite, hwrite]
  unfold guarded
  rw [bind_apply, bind_apply, check_of_not_finds h options options']

/-- An entry that meets an object is skipped or refused, and nothing changes. -/
theorem writeTo_skip (hready : entry.Ready maxSize) (h : Finds faults targetDir w entry.path node) :
    ∃ n w', w'.fs = w.fs ∧ w'.steps = w.steps + 1 ∧
      entry.writeTo sha256 faults targetDir maxSize ExtractOption.skipExistingFiles w =
        (if entry.type = .directory ∧ node.kind ≠ .directory ∨
            entry.type ≠ .directory ∧ node.kind.isRegular = true then .error (mismatched entry.path)
          else .ok n, w') := by
  obtain ⟨skipped, place, -, hwrite⟩ :=
    @writeTo_guarded sha256 faults targetDir entry maxSize hready
  obtain ⟨w', hfs, hsteps, hcheck⟩ := check_skip h
  refine ⟨skipped, w', hfs, hsteps, ?_⟩
  rw [hwrite]
  unfold guarded
  rw [bind_apply, hcheck]
  split <;> rfl

/-- Without options, what is not a directory for a directory is removed first. -/
theorem writeTo_none_steps (hready : entry.Ready maxSize)
    (h : Finds faults targetDir w entry.path node)
    (hkind : ¬ (entry.type = .directory ∧ node.kind = .directory)) :
    w.steps + 2 ≤ (entry.writeTo sha256 faults targetDir maxSize ExtractOption.none w).2.steps := by
  obtain ⟨skipped, place, hadds, hwrite⟩ :=
    @writeTo_guarded sha256 faults targetDir entry maxSize hready
  have hcheck : w.steps + 2 ≤ (entry.check faults targetDir ExtractOption.none w).2.steps := by
    unfold EntryImpl.check checkExtraction
    rw [bind_apply]
    rcases stat_cases faults targetDir entry.path w with
      ⟨errno, w', hcall, -⟩ | ⟨found, _, w', hcall, -, hsteps, -⟩
    · unfold Finds at h
      rw [hcall] at h
      cases h
    unfold Finds at h
    rw [hcall] at h
    cases h
    rw [hcall]
    dsimp only
    rw [if_neg (by decide), if_neg (by decide)]
    -- what is removed, and whether that works, does not matter for the steps
    by_cases hdirectory : node.kind = .directory
    · have hremoved := call_steps faults targetDir rmdirat entry.path w'
      rw [if_pos hdirectory, if_neg fun htype => hkind ⟨htype, hdirectory⟩, bind_apply]
      rcases hremove : call faults targetDir rmdirat entry.path w' with ⟨errno | _, w''⟩ <;>
        rw [hremove] at hremoved
      · exact (hremoved.trans (congrArg Nat.succ hsteps)).ge
      · exact (hremoved.trans (congrArg Nat.succ hsteps)).ge
    · have hremoved := call_steps faults targetDir unlinkat entry.path w'
      rw [if_neg hdirectory, bind_apply]
      rcases hremove : call faults targetDir unlinkat entry.path w' with ⟨errno | _, w''⟩ <;>
        rw [hremove] at hremoved
      · exact (hremoved.trans (congrArg Nat.succ hsteps)).ge
      · exact (hremoved.trans (congrArg Nat.succ hsteps)).ge
  rw [hwrite]
  unfold guarded
  rw [bind_apply]
  generalize entry.check faults targetDir ExtractOption.none w = checked at hcheck
  obtain ⟨result, w'⟩ := checked
  rcases result with error | operation
  · exact hcheck
  · cases operation with
    | skip => exact hcheck
    | extract => exact Nat.le_trans hcheck (hadds w').2

section
variable (sha256 : Bytes → Bytes) (faults : Nat → Option Errno) (targetDir : Location)

/-- What `SkipExistingFiles` promises for an entry that meets an object. -/
structure SkipLaw (w : World) (entry : EntryImpl) (maxSize : Nat) : Prop where
  skips : ∀ node, Finds faults targetDir w entry.path node →
    entry.type ≠ .directory → node.kind ≠ .directory → ∃ n w',
      entry.writeTo sha256 faults targetDir maxSize ExtractOption.skipExistingFiles
        w = (.ok n, w') ∧
        w'.fs = w.fs
  refuses : ∀ node, Finds faults targetDir w entry.path node →
    (entry.type = .directory ↔ node.kind ≠ .directory) → ∃ w',
      entry.writeTo sha256 faults targetDir maxSize ExtractOption.skipExistingFiles w =
          (.error (mismatched entry.path), w') ∧
        w'.fs = w.fs

/-- What `NoOverwriteDirectories` promises: a directory that meets a directory leaves it as it
is, and everything else is written as without options. -/
structure NoOverwriteLaw (w : World) (entry : EntryImpl) (maxSize : Nat) : Prop where
  keeps : ∀ node, Finds faults targetDir w entry.path node →
    entry.type = .directory → node.kind = .directory → ∃ n w',
      entry.writeTo sha256 faults targetDir maxSize ExtractOption.noOverwriteDirectories w =
          (.ok n, w') ∧
        w'.fs = w.fs
  same : (∀ node, Finds faults targetDir w entry.path node →
      ¬ (entry.type = .directory ∧ node.kind = .directory)) →
    entry.writeTo sha256 faults targetDir maxSize ExtractOption.noOverwriteDirectories w =
      entry.writeTo sha256 faults targetDir maxSize ExtractOption.none w

end

/-- The skip law holds unless a file or a symlink meets a regular file, which is refused, or a
directory, which is skipped. -/
theorem skipLaw_iff (hready : entry.Ready maxSize) :
    SkipLaw sha256 faults targetDir w entry maxSize ↔
      ∀ node, Finds faults targetDir w entry.path node → entry.type ≠ .directory →
        node.kind.isRegular = false ∧ node.kind ≠ .directory := by
  constructor
  · intro hlaw node hfinds htype
    obtain ⟨n, w', -, -, hwrite⟩ := @writeTo_skip sha256 _ _ _ _ _ _ hready hfinds
    by_cases hdirectory : node.kind = .directory
    · obtain ⟨_, hrefuse, -⟩ := hlaw.refuses node hfinds
        (iff_of_false htype (not_not.mpr hdirectory))
      rw [hwrite, hdirectory, if_neg (by simp [htype, FileKind.isRegular])] at hrefuse
      cases hrefuse
    · obtain ⟨_, _, hskip, -⟩ := hlaw.skips node hfinds htype hdirectory
      refine ⟨?_, hdirectory⟩
      rw [← Bool.not_eq_true]
      intro hregular
      rw [hwrite, if_pos (.inr ⟨htype, hregular⟩)] at hskip
      cases hskip
  · intro hcond
    constructor
    · intro node hfinds htype hkind
      obtain ⟨n, w', hfs, -, hwrite⟩ := @writeTo_skip sha256 _ _ _ _ _ _ hready hfinds
      refine ⟨n, w', ?_, hfs⟩
      rw [hwrite, if_neg]
      simp [htype, (hcond node hfinds htype).1]
    · intro node hfinds hmismatch
      obtain ⟨n, w', hfs, -, hwrite⟩ := @writeTo_skip sha256 _ _ _ _ _ _ hready hfinds
      refine ⟨w', ?_, hfs⟩
      rw [hwrite, if_pos]
      by_cases htype : entry.type = .directory
      · exact .inl ⟨htype, hmismatch.mp htype⟩
      · exact absurd ((hcond node hfinds htype).2) fun hne => htype (hmismatch.mpr hne)

/-- The other law holds unless an entry meets an object that is not a directory for a
directory. -/
theorem noOverwriteLaw_iff (hready : entry.Ready maxSize) :
    NoOverwriteLaw sha256 faults targetDir w entry maxSize ↔
      ∀ node, Finds faults targetDir w entry.path node →
        entry.type = .directory ∧ node.kind = .directory := by
  constructor
  · intro hlaw node hfinds
    by_contra hkind
    obtain ⟨n, w', -, hsteps, hwrite⟩ := @writeTo_skip sha256 _ _ _ _ _ _ hready hfinds
    have hsame := hlaw.same fun node' hfinds' => by
      unfold Finds at hfinds hfinds'
      rw [hfinds] at hfinds'
      cases hfinds'
      exact hkind
    have hle := @writeTo_none_steps sha256 _ _ _ _ _ _ hready hfinds hkind
    rw [← hsame] at hle
    have hwrite' : (entry.writeTo sha256 faults targetDir maxSize
        ExtractOption.noOverwriteDirectories w).2 = w' := congrArg Prod.snd hwrite
    rw [hwrite', hsteps] at hle
    omega
  · intro hcond
    constructor
    · intro node hfinds htype hkind
      obtain ⟨n, w', hfs, -, hwrite⟩ := @writeTo_skip sha256 _ _ _ _ _ _ hready hfinds
      refine ⟨n, w', ?_, hfs⟩
      rw [if_neg (by simp [htype, hkind])] at hwrite
      exact hwrite
    · intro hnot
      exact writeTo_of_not_finds hready
        (fun node hfinds => hnot node hfinds (hcond node hfinds)) _ _

/-! ## Sequences of entries -/

theorem check_skip_fs (w : World) :
    (entry.check faults targetDir ExtractOption.skipExistingFiles w).2.fs = w.fs := by
  rcases stat_cases faults targetDir entry.path w with
    ⟨errno, w', hcall, hfs, -⟩ | ⟨node, _, w', hcall, -⟩
  · unfold EntryImpl.check checkExtraction
    rw [bind_apply, hcall]
    dsimp only
    split
    · exact hfs
    · exact hfs
  · obtain ⟨w'', hfs, -, hcheck⟩ := check_skip (congrArg Prod.fst hcall)
    rw [hcheck]
    exact hfs

/-- An entry whose own checks fail does nothing. -/
theorem writeTo_of_not_ready (hready : ¬ entry.Ready maxSize)
    (options : ExtractOptions) (w : World) :
    (entry.writeTo sha256 faults targetDir maxSize options w).2 = w := by
  cases entry with
  | erofs image => exact absurd trivial hready
  | archive entry state =>
    obtain ⟨path, kind, size, perms, modTime⟩ := entry
    cases kind with
    | directory => exact absurd trivial hready
    | symlink target =>
      have hlength : target.length > maxSize := Nat.not_le.mp hready
      show (writeSymlink faults targetDir _ target maxSize options w).2 = w
      unfold writeSymlink
      rw [if_pos hlength]
      rfl
    | file digest index =>
      show (writeFile sha256 faults targetDir _ digest index maxSize options state w).2 = w
      unfold writeFile
      cases hstate : checkReadState index state with
      | ok a => exact absurd hstate hready
      | error error => rfl

theorem writeTo_skip_preserves (entry : EntryImpl) (maxSize : Nat) (w : World) :
    Preserves w.fs
      (entry.writeTo sha256 faults targetDir maxSize ExtractOption.skipExistingFiles w).2.fs := by
  by_cases hready : entry.Ready maxSize
  · obtain ⟨skipped, place, hadds, hwrite⟩ :=
      @writeTo_guarded sha256 faults targetDir entry maxSize hready
    have hfs := @check_skip_fs faults targetDir entry w
    rw [hwrite]
    unfold guarded
    rw [bind_apply]
    generalize entry.check faults targetDir ExtractOption.skipExistingFiles w = checked at hfs
    obtain ⟨result, w'⟩ := checked
    rw [← hfs]
    rcases result with error | operation
    · exact Preserves.refl _
    · cases operation with
      | skip => exact Preserves.refl _
      | extract => exact hadds.preserves w'
  · rw [writeTo_of_not_ready hready]
    exact Preserves.refl _

section
variable (sha256 : Bytes → Bytes) (faults : Nat → Option Errno) (targetDir : Location)
  (maxBytes maxEntries : Nat) (options : ExtractOptions)

/-- `extractTo` comes to an entry in a world: those before it were written, and its size is within
the limit. -/
def Meets (entries : List EntryImpl) (w : World) (entry : EntryImpl) (w' : World) : Prop :=
  ∃ before after dirs written, entries = before ++ entry :: after ∧
    extractLoop sha256 faults targetDir maxBytes maxEntries options before 0 0 [] [] w =
      (⟨.ok dirs, written⟩, w') ∧
    wrap64 ((written.map Prod.snd).sum + entry.size) ≤ maxBytes

/-- Each entry that `extractTo` comes to, and whose own checks pass, satisfies `P` in the world that
it meets. -/
def Along (P : World → EntryImpl → Nat → Prop) (entries : List EntryImpl) (w : World) : Prop :=
  ∀ entry w', Meets sha256 faults targetDir maxBytes maxEntries options entries w entry w' →
    entry.Ready entry.size → P w' entry entry.size

/-- An entry that is not a directory meets neither a regular file nor a directory. -/
def MeetsNoFile (w : World) (entry : EntryImpl) (_ : Nat) : Prop :=
  ∀ node, Finds faults targetDir w entry.path node → entry.type ≠ .directory →
    node.kind.isRegular = false ∧ node.kind ≠ .directory

/-- An entry meets nothing, or is a directory that meets a directory. -/
def MeetsOnlyDirectories (w : World) (entry : EntryImpl) (_ : Nat) : Prop :=
  ∀ node, Finds faults targetDir w entry.path node →
    entry.type = .directory ∧ node.kind = .directory

/-- The objects of a kind are as they were. -/
def Keeps (P : Node → Prop) (fs fs' : FileSystem) : Prop :=
  ∀ loc node, fs.lookup loc = some node → P node → fs'.lookup loc = some node

/-- An object of a kind whose time is set at the end, which is after all entries were written, has
that time before. -/
def TimesKept (P : Node → Prop) (reader : PackageReaderImpl) (w : World) : Prop :=
  ∀ dirs written w', extractLoop sha256 faults targetDir maxBytes maxEntries options reader.entries
      0 0 [] [] w = (⟨.ok dirs, written⟩, w') → reader.error = none →
    ∀ loc node time, w.fs.lookup loc = some node → P node →
      lastTime faults targetDir (directoryTimes reader.entries) w' loc = some time →
        time = node.mtime

end

section
variable {maxBytes maxEntries : Nat} {options : ExtractOptions} {P Q : World → EntryImpl → Nat → Prop}
  {entries : List EntryImpl}

theorem Along.congr
    (h : ∀ w entry maxSize, entry.Ready maxSize → (P w entry maxSize ↔ Q w entry maxSize)) :
    Along sha256 faults targetDir maxBytes maxEntries options P entries w ↔
      Along sha256 faults targetDir maxBytes maxEntries options Q entries w := by
  constructor
  · exact fun hP entry w' hmeets hready => (h w' entry _ hready).mp (hP entry w' hmeets hready)
  · exact fun hQ entry w' hmeets hready => (h w' entry _ hready).mpr (hQ entry w' hmeets hready)

theorem extractLoop_skip_preserves (totalExtracted totalEntries : Nat)
    (dirs : List (FilePath × Int)) (written : List (EntryImpl × Nat)) (w : World) :
    Preserves w.fs (extractLoop sha256 faults targetDir maxBytes maxEntries
      ExtractOption.skipExistingFiles entries totalExtracted totalEntries dirs written w).2.fs := by
  induction entries generalizing totalExtracted totalEntries dirs written w with
  | nil => exact Preserves.refl _
  | cons entry rest ih =>
    unfold extractLoop
    dsimp only
    split
    · exact Preserves.refl _
    rw [bind_apply]
    have hwrite := @writeTo_skip_preserves sha256 faults targetDir entry entry.size w
    generalize entry.writeTo sha256 faults targetDir entry.size ExtractOption.skipExistingFiles w =
      result at hwrite
    obtain ⟨error | amount, w₁⟩ := result
    · exact hwrite
    · dsimp only
      split
      · exact hwrite
      · exact hwrite.trans (ih _ _ _ _ _)

/-- What was there is as it was, but for the times that are set at the end. -/
theorem extractTo_skip_keeps_iff (P : Node → Prop) (reader : PackageReaderImpl) (w : World) :
    Keeps P w.fs (extractTo sha256 faults targetDir maxBytes maxEntries (.ok reader)
        ExtractOption.skipExistingFiles w).2.fs ↔
      TimesKept sha256 faults targetDir maxBytes maxEntries ExtractOption.skipExistingFiles P reader
        w := by
  have hloop := @extractLoop_skip_preserves sha256 faults targetDir maxBytes maxEntries
    reader.entries 0 0 [] [] w
  unfold extractTo TimesKept
  dsimp only
  rw [bind_apply]
  rcases hend : extractLoop sha256 faults targetDir maxBytes maxEntries
    ExtractOption.skipExistingFiles reader.entries 0 0 [] [] w with ⟨⟨error | dirs, written⟩, w₁⟩
  · rw [hend] at hloop
    exact iff_of_true (fun loc node hnode _ => hloop loc node hnode)
      fun _ _ _ heq => nomatch heq
  rw [hend] at hloop
  dsimp only
  cases herror : reader.error with
  | some error =>
    exact iff_of_true (fun loc node hnode _ => hloop loc node hnode) fun _ _ _ _ hnone => nomatch hnone
  | none =>
    dsimp only
    rw [bind_apply]
    have hdirs := extractLoop_directoryTimes hend
    rw [List.nil_append] at hdirs
    subst hdirs
    have hnode : ∀ loc node, w.fs.lookup loc = some node →
        ((setDirectoryTimes faults targetDir (directoryTimes reader.entries) w₁).2.fs.lookup loc =
            some node ↔
          ∀ time, lastTime faults targetDir (directoryTimes reader.entries) w₁ loc = some time →
            time = node.mtime) := by
      intro loc node hlookup
      rw [setDirectoryTimes_lookup, hloop loc node hlookup, Option.map_some]
      cases lastTime faults targetDir (directoryTimes reader.entries) w₁ loc with
      | none => exact iff_of_true rfl fun _ hnone => nomatch hnone
      | some time =>
        constructor
        · intro hsame
          rintro _ ⟨⟩
          exact congrArg Node.mtime (Option.some.inj hsame)
        · intro hsame
          rw [Option.getD_some, hsame time rfl]
    constructor
    · rintro hkeeps _ _ _ ⟨⟩ - loc node time hlookup hP htime
      exact (hnode loc node hlookup).mp (hkeeps loc node hlookup hP) time htime
    · intro hkept loc node hlookup hP
      exact (hnode loc node hlookup).mpr
        (hkept _ _ _ rfl rfl loc node · hlookup hP)

end

/-- A file of an image that is empty. -/
def emptyFile : EntryImpl :=
  .erofs { path := .ofNames [[0x61]], type := .regular, permissions := 0o644, size := 0,
           modificationTime := 0, read := fun _ _ _ => (none, []) }

/-- A directory of an image, of the same path. -/
def laterDirectory : EntryImpl :=
  .erofs { path := .ofNames [[0x61]], type := .directory, permissions := 0o755, size := 0,
           modificationTime := 7, read := fun _ _ _ => (none, []) }

/-- A root directory with one object in it. -/
def oneObjectWorld (kind : FileKind) : World := ⟨⟨[([[0x61]], ⟨kind, 0o644, 0⟩)]⟩, [], 0⟩

end Package
