import Ralf.Core.Error
import Ralf.Lib.Posix

/-!
# Extracting entries

`verifyPackagePath` is the check on every path that a package names, and
`checkExtraction` makes room for an entry in the target directory: it removes what
is in the way, unless the options say to keep or skip it.
-/

open Posix

/-- The types of file system objects that an entry can have. -/
inductive FileType
  | regular
  | directory
  | symlink
  | character
  | block
  | fifo
  | socket
  | unknown
  deriving DecidableEq, Repr

/-- A path in a message. -/
def FilePath.cStr (path : FilePath) : String := Bytes.cString path.toBytes

/-- A path from a package is not empty, not absolute and without `..`. -/
def verifyPackagePath (path : FilePath) : Bool :=
  if path.isEmpty then false
  else if path.isAbsolute then false
  else path.components.all fun part => part ≠ FilePath.dotdot

theorem verifyPackagePath_iff {path : FilePath} : verifyPackagePath path = true ↔
    path.isEmpty = false ∧ path.rooted = false ∧ FilePath.dotdot ∉ path.components := by
  unfold verifyPackagePath FilePath.isAbsolute
  cases path.isEmpty <;> cases path.rooted <;> simp
  exact ⟨fun h hmem => h _ hmem rfl, fun h part hmem heq => h (heq ▸ hmem)⟩

/-- The names of a path that passes the check: it is `.`, or none of its names is
special. -/
theorem names_of_verifyPackagePath {s : Bytes}
    (h : verifyPackagePath (FilePath.parse s).lexicallyNormal = true) :
    (FilePath.parse s).lexicallyNormal = FilePath.ofNames [FilePath.dot] ∨
      Plain (FilePath.parse s).lexicallyNormal.names ∧
        ∀ name ∈ (FilePath.parse s).lexicallyNormal.names, name ≠ [] ∧
          name ≠ [FilePath.separator] := by
  obtain ⟨-, -, hdotdot⟩ := verifyPackagePath_iff.mp h
  refine (FilePath.lexicallyNormal_names (FilePath.parse s)).imp_right fun hnames => ?_
  have hne : ∀ name ∈ (FilePath.parse s).lexicallyNormal.names, name ≠ FilePath.dotdot := by
    rintro name hname rfl
    exact hdotdot (List.mem_append_left _ (List.mem_append_right _ hname))
  refine ⟨fun name hname => ⟨?_, hne name hname⟩, fun name hname => ?_⟩
  · exact ((hnames name hname).resolve_left (hne name hname)).2
  · obtain ⟨hnil, hsep⟩ :=
      FilePath.mem_parse_names ((hnames name hname).resolve_left (hne name hname)).1
    exact ⟨hnil, fun heq => hsep (heq ▸ List.mem_singleton.mpr rfl)⟩

/-! ## Options -/

/-- A set of options, one bit each. -/
abbrev ExtractOptions := Nat

namespace ExtractOption

def none : ExtractOptions := 0
def keepExistingFiles : ExtractOptions := 1
def skipExistingFiles : ExtractOptions := 2
def noOverwriteDirectories : ExtractOptions := 2

end ExtractOption

/-- Whether a set has all bits of an option. -/
def ExtractOptions.has (options option : ExtractOptions) : Bool := options &&& option = option

/-- What to do with an entry. -/
inductive ExtractOperation
  | skip
  | extract
  deriving DecidableEq, Repr

/-! ## The check -/

section
variable (faults : Nat → Option Errno) (targetDir : Location)

/-- Decides what to do with an entry, and removes what is in its place. -/
def checkExtraction (path : FilePath) (type : FileType) (perms : Nat) (options : ExtractOptions) :
    Script (Result ExtractOperation) := do
  match ← call faults targetDir fstatat path with
  | .error errno =>
    if errno = enoent then return .ok .extract
    else return .error (.system errno s!"Failed to stat '{path.cStr}'")
  | .ok st =>
    if ExtractOptions.has options ExtractOption.keepExistingFiles then
      return .error (.ralf .fileExists s!"File '{path.cStr}' already exists in output directory")
    else if ExtractOptions.has options ExtractOption.skipExistingFiles then
      if type = .directory ∧ st.kind ≠ .directory ∨ type ≠ .directory ∧
        st.kind.isRegular = true then
        return .error (.ralf .fileExists
          s!"Cannot skip existing '{path.cStr}' as mismatched types")
      else return .ok .skip
    else if st.kind = .directory then
      if type = .directory then
        if ExtractOptions.has options ExtractOption.noOverwriteDirectories then return .ok .skip
        else
          match ← call faults targetDir (fchmodat perms) path with
          | .error errno =>
            return .error (.system errno
              s!"Failed to update permissions of directory '{path.cStr}'")
          | .ok _ => return .ok .skip
      else
        match ← call faults targetDir rmdirat path with
        | .error _ =>
          return .error (.ralf .fileExists
            s!"Cannot overwrite directory '{path.cStr}' with a file")
        | .ok _ => return .ok .extract
    else
      match ← call faults targetDir unlinkat path with
      | .error errno => return .error (.system errno s!"Failed to unlink '{path.cStr}'")
      | .ok _ => return .ok .extract

end

variable {faults : Nat → Option Errno} {targetDir : Location} {names : List Bytes} {link : Prop}
  {target : Target}

/-- With an option to skip existing files anything may be there after a skip; without
options a skip leaves a directory for a directory. -/
def SkipOk (loc : Location) (type : FileType) (options : ExtractOptions) (fs : FileSystem) : Prop :=
  options = ExtractOption.none → type = .directory ∧
    ∃ node, fs.lookup loc = some node ∧ node.kind = .directory

theorem checkExtraction_spec (type : FileType) (perms : Nat) (options : ExtractOptions)
    (hleads : Leads targetDir names target) :
    Spec targetDir names target.loc link (fun _ => True)
      (checkExtraction faults targetDir (FilePath.ofNames names) type perms options)
      fun result fs => result = .ok .skip → SkipOk target.loc type options fs := by
  unfold checkExtraction
  refine Spec.bind hleads (Spec.call fstatat_local hleads) fun result => ?_
  cases result with
  | error errno =>
    dsimp only
    split
    · exact Spec.pure fun _ _ h => nomatch h
    · exact Spec.pure fun _ _ h => nomatch h
  | ok st =>
    dsimp only
    split
    · exact Spec.pure fun _ _ h => nomatch h
    split
    · next hskip =>
      -- nothing is skipped this way without options
      have hoptions : options ≠ ExtractOption.none := by
        rintro rfl
        exact absurd hskip (by decide)
      split
      · exact Spec.pure fun _ _ h => nomatch h
      · exact Spec.pure fun _ _ _ hnone => absurd hnone hoptions
    split
    · next hdirectory =>
      split
      · next htype =>
        split
        · refine Spec.pure fun fs hstat _ _ => ⟨htype, st, ?_, hdirectory⟩
          obtain ⟨before, -, hstat⟩ := hstat
          rw [(fstatat_ok hstat).1]
          exact (fstatat_ok hstat).2
        · refine Spec.bind hleads (Spec.call (changeat_local _) hleads) fun result => ?_
          cases result with
          | error errno => exact Spec.pure fun _ _ h => nomatch h
          | ok _ =>
            refine Spec.pure fun fs hchmod _ _ => ⟨htype, ?_⟩
            obtain ⟨before, ⟨_, -, hstat⟩, hchmod⟩ := hchmod
            obtain ⟨node, hnode, rfl⟩ := changeat_eq_set hchmod
            obtain ⟨rfl, hst⟩ := fstatat_ok hstat
            rw [hst] at hnode
            cases hnode
            exact ⟨_, FileSystem.lookup_set_self _, hdirectory⟩
      · refine Spec.bind hleads (Spec.call rmdirat_local hleads) fun result => ?_
        cases result with
        | error errno => exact Spec.pure fun _ _ h => nomatch h
        | ok _ => exact Spec.pure fun _ _ h => nomatch h
    · refine Spec.bind hleads (Spec.call unlinkat_local hleads) fun result => ?_
      cases result with
      | error errno => exact Spec.pure fun _ _ h => nomatch h
      | ok _ => exact Spec.pure fun _ _ h => nomatch h
