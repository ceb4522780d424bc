import Ralf.Core.Extraction

/-!
# Archives and the entries made from them

An archive is the sequence of members that the archive library reads; a
`LibarchiveReader` is at some place in it. `PackageEntry` is an entry that a package
reader returns: a directory, a symlink or a file. A file entry gets its contents from
the archive, and only as long as the archive is still at its member.
-/

namespace Archive

open Posix

/-! ## The archive library -/

/-- The file type of a member. -/
inductive EntryType
  | regular
  | symlink
  | directory
  | other (mode : Nat)
  deriving DecidableEq, Repr

/-- A block of a member's data. -/
structure DataBlock where
  bytes : Bytes
  offset : Int
  deriving DecidableEq, Repr

/-- How the data of a member ends. -/
inductive DataEnd
  | eof
  | failed
  deriving DecidableEq, Repr

/-- A header of the archive with the data that follows it. -/
structure Member where
  pathname : Option Bytes
  type : EntryType
  perm : Nat
  mtime : Int
  size : Int
  symlink : Option Bytes
  blocks : List DataBlock
  dataEnd : DataEnd
  deriving DecidableEq, Repr

/-- What the library makes of the next header. -/
inductive Header
  | entry (member : Member)
  | failure
  deriving DecidableEq, Repr

/-- The headers that are left, and the data that is left of the current member. -/
structure LibarchiveReader where
  headers : List Header
  blocks : List DataBlock
  dataEnd : DataEnd
  deriving DecidableEq, Repr

/-- An archive that was just opened. -/
def LibarchiveReader.new (headers : List Header) : LibarchiveReader := ⟨headers, [], .eof⟩

/-! ## Package entries -/

/-- The part of an archive reader that its file entries share. -/
structure SharedReadState where
  archive : LibarchiveReader
  error : Option Error
  endOfArchive : Bool
  entryIndex : Nat
  deriving DecidableEq, Repr

/-- What distinguishes the three classes of entries. -/
inductive EntryKind
  | directory
  | symlink (target : Bytes)
  | file (digest : Option Bytes) (index : Nat)
  deriving DecidableEq, Repr

structure PackageEntry where
  path : FilePath
  kind : EntryKind
  size : Nat
  perms : Nat
  modTime : Int
  deriving DecidableEq, Repr

def PackageEntry.isSymlink (entry : PackageEntry) : Bool :=
  match entry.kind with
  | .symlink _ => true
  | _ => false

/-- `MAX_PACKAGE_ENTRY_SIZE`: 128 MiB. -/
def maxPackageEntrySize : Nat := 128 * 1024 * 1024

def kDefaultDirectoryPerms : Nat := 0o755
def kDefaultSymLinkPerms : Nat := 0o644
def kDefaultExecutableFilePerms : Nat := 0o755
def kDefaultFilePerms : Nat := 0o644

/-- `ArchiveDirectoryEntry::create` with the components up to the directory. -/
def createDirectoryEntry (components : List Bytes) (modTime : Int) : PackageEntry :=
  { path := components.foldl FilePath.append FilePath.empty
    kind := .directory
    size := 0
    perms := kDefaultDirectoryPerms
    modTime := modTime }

/-- `ArchiveSymlinkEntry::create`. -/
def createSymlinkEntry (sha256 : Bytes → Bytes) (path : FilePath)
    (target : Option Bytes) (modTime : Int)
    (digest : Option Bytes) : Result PackageEntry :=
  match target with
  | none | some [] =>
    .error (.ralf .packageInvalidEntry s!"Null symlink target for '{path.cStr}' in archive entry")
  | some target =>
    if digest.isSome && digest ≠ some (sha256 target) then
      .error (.ralf .packageSignatureInvalid s!"Symlink '{path.cStr}' in archive failed to verify")
    else
      .ok { path := path, kind := .symlink target, size := target.length,
            perms := kDefaultSymLinkPerms, modTime := modTime }

/-- `ArchiveFileEntry::create`. A negative size counts as 0. -/
def createFileEntry (entryIndex : Nat) (path : FilePath) (size : Int)
    (executable : Bool) (modTime : Int)
    (digest : Option Bytes) : Result PackageEntry :=
  if size.toNat > maxPackageEntrySize then
    .error (.ralf .packageContentsInvalid s!"'{path.cStr}' file in archive is too large")
  else
    .ok { path := path, kind := .file digest entryIndex, size := size.toNat,
          perms := if executable then kDefaultExecutableFilePerms else kDefaultFilePerms,
          modTime := modTime }

/-! ## Writing entries -/

/-- `checkReadState`: the archive is readable and still at the member. -/
def checkReadState (index : Nat) (state : SharedReadState) : Result Unit :=
  match state.error with
  | some error => .error error
  | none =>
    if state.endOfArchive ∨ state.entryIndex ≠ index then
      .error (.ralf .internalError "Archive reader has moved to next entry")
    else .ok ()

/-- A file's contents after a `pwrite`. Without data the file stays as it is. -/
def pwrite (contents data : Bytes) (offset : Nat) : Bytes :=
  if data = [] then contents
  else Bytes.overwrite (contents ++ List.replicate (offset - contents.length) 0) offset data

theorem pwrite_of_length_le {contents data : Bytes} {offset : Nat} (hdata : data ≠ [])
    (h : contents.length ≤ offset) :
    pwrite contents data offset =
      contents ++ List.replicate (offset - contents.length) 0 ++ data := by
  have hlength : (contents ++ List.replicate (offset - contents.length)
    (0 : UInt8)).length = offset := by
    rw [List.length_append, List.length_replicate]
    omega
  rw [pwrite, if_neg hdata, Bytes.overwrite, List.take_of_length_le hlength.le,
    List.drop_of_length_le (by omega), List.append_nil]

/-- A change of a regular file's contents. -/
def writeContents (f : Bytes → Bytes) (node : Node) : Node :=
  match node.kind with
  | .regular contents => { node with kind := .regular (f contents) }
  | _ => node

section
variable (sha256 : Bytes → Bytes) (faults : Nat → Option Errno) (targetDir : Location)

/-- The loop of `doFileWrite` over the data blocks, with the bytes that the digest
covers so far. It gives the end offset and those bytes. -/
def writeBlocks (path : FilePath) (loc : Location) (maxSize : Nat) :
    List DataBlock → Nat → Bytes → Script (Result (Nat × Bytes))
  | [], currentOffset, digested => return .ok (currentOffset, digested)
  | block :: rest, currentOffset, digested => do
    let blockSize := block.bytes.length
    let blockEnd := ((block.offset + blockSize) % 2 ^ 64).toNat
    if blockSize > maxPackageEntrySize ∨ blockEnd > maxPackageEntrySize then
      return .error (.ralf .packageContentsInvalid "Invalid size of entry in archive")
    else if block.offset < currentOffset then
      return .error (.ralf .packageContentsInvalid "Invalid block offset in archive")
    else if blockEnd > maxSize then
      return .error (.ralf .packageContentsInvalid
        s!"File '{path.cStr}' in archive exceeds maximum allowed size")
    else
      let offset := block.offset.toNat
      -- a gap counts as zeros in the digest
      let digested := digested ++ List.replicate (offset - currentOffset) 0 ++ block.bytes
      match ← fileCall faults loc
        (writeContents fun contents => pwrite contents block.bytes offset) with
      | .error _ => return .error (.ralf .packageContentsInvalid "Invalid block offset in archive")
      | .ok _ => writeBlocks path loc maxSize rest (offset + blockSize) digested

/-- Writes the member's data to an open file and checks its digest. -/
def doFileWrite (path : FilePath) (perms : Nat) (digest : Option Bytes)
    (loc : Location) (maxSize : Nat)
    (archive : LibarchiveReader) : Script (Result Nat) := do
  match ← writeBlocks faults path loc maxSize archive.blocks 0 [] with
  | .error error => return .error error
  | .ok (currentOffset, digested) =>
    if archive.dataEnd ≠ .eof then
      return .error (.ralf .packageContentsInvalid "Failed to read an entry in the archive")
    else if digest.isSome && digest ≠ some (sha256 digested) then
      return .error (.ralf .packageContentsInvalid
        "Digest of entry in archive does not match signed digest")
    else
      let mode := if perms &&& 0o100 ≠ 0 then 0o755 else 0o644
      match ← fileCall faults loc fun node => { node with mode := mode } with
      | .error errno =>
        return .error (.system errno s!"Failed to set file mode for file '{path.cStr}'")
      | .ok _ => return .ok currentOffset

/-- `ArchiveDirectoryEntry::writeTo`. -/
def writeDirectory (entry : PackageEntry) (options : ExtractOptions) : Script (Result Nat) := do
  match ← checkExtraction faults targetDir entry.path .directory entry.perms options with
  | .error error => return .error error
  | .ok .skip => return .ok 0
  | .ok .extract =>
    match ← call faults targetDir (mkdirat 0o755) entry.path with
    | .error errno =>
      return .error (.system errno s!"Failed to create directory '{entry.path.cStr}'")
    | .ok _ =>
      let _ ← call faults targetDir (utimensat entry.modTime) entry.path
      return .ok 0

/-- `ArchiveSymlinkEntry::writeTo`. -/
def writeSymlink (entry : PackageEntry) (target : Bytes) (maxSize : Nat)
    (options : ExtractOptions) :
    Script (Result Nat) := do
  if target.length > maxSize then
    return .error (.ralf .packageInvalidEntry
      s!"Symlink target for '{entry.path.cStr}' is too long")
  else
    match ← checkExtraction faults targetDir entry.path .symlink entry.perms options with
    | .error error => return .error error
    | .ok .skip => return .ok target.length
    | .ok .extract =>
      match ← call faults targetDir (symlinkat target) entry.path with
      | .error errno =>
        return .error (.system errno s!"Failed to create symlink '{entry.path.cStr}'")
      | .ok _ =>
        let _ ← call faults targetDir (utimensat entry.modTime) entry.path
        return .ok target.length

/-- `ArchiveFileEntry::writeTo`. A file that could not be written is removed. -/
def writeFile (entry : PackageEntry) (digest : Option Bytes) (index maxSize : Nat)
    (options : ExtractOptions) (state : SharedReadState) : Script (Result Nat) := do
  match checkReadState index state with
  | .error error => return .error error
  | .ok _ =>
    match ← checkExtraction faults targetDir entry.path .regular entry.perms options with
    | .error error => return .error error
    | .ok .skip => return .ok 0
    | .ok .extract =>
      match ← call faults targetDir (openat 0o644) entry.path with
      | .error errno =>
        return .error (.system errno s!"Failed to create file '{entry.path.cStr}'")
      | .ok loc =>
        match ← doFileWrite sha256 faults entry.path entry.perms digest loc maxSize
          state.archive with
        | .error error =>
          let _ ← call faults targetDir unlinkat entry.path
          return .error error
        | .ok size =>
          match ← fileCall faults loc fun node => { node with mode := entry.perms } with
          | .error errno =>
            let _ ← fileCall faults loc fun node => { node with mtime := entry.modTime }
            let _ ← call faults targetDir unlinkat entry.path
            return .error (.system errno s!"Failed to set file mode for file '{entry.path.cStr}'")
          | .ok _ =>
            let _ ← fileCall faults loc fun node => { node with mtime := entry.modTime }
            return .ok size

/-- `writeTo` of any entry. -/
def PackageEntry.writeTo (entry : PackageEntry) (maxSize : Nat) (options : ExtractOptions)
    (state : SharedReadState) : Script (Result Nat) :=
  match entry.kind with
  | .directory => writeDirectory faults targetDir entry options
  | .symlink target => writeSymlink faults targetDir entry target maxSize options
  | .file digest index => writeFile sha256 faults targetDir entry digest index maxSize options state

end

/-! ## What writing changes -/

section
variable {sha256 : Bytes → Bytes} {faults : Nat → Option Errno} {targetDir : Location}
  {names : List Bytes} {target : Target} {link : Prop}

theorem writeContents_keepsKind {f : Bytes → Bytes} : KeepsKind (writeContents f) := by
  intro node
  unfold writeContents
  cases hkind : node.kind with
  | directory => exact .inl hkind
  | regular contents => exact .inr ⟨contents, f contents, rfl, rfl⟩
  | symlink path => exact .inl hkind

theorem writeBlocks_onFile (path : FilePath) (loc : Location) (maxSize : Nat)
    (blocks : List DataBlock) (currentOffset : Nat) (digested : Bytes) :
    OnFile faults loc (writeBlocks faults path loc maxSize blocks currentOffset digested) := by
  induction blocks generalizing currentOffset digested with
  | nil => exact OnFile.pure _
  | cons block rest ih =>
    unfold writeBlocks
    dsimp only
    split
    · exact OnFile.pure _
    split
    · exact OnFile.pure _
    split
    · exact OnFile.pure _
    refine OnFile.bind (OnFile.fileCall writeContents_keepsKind) fun result => ?_
    cases result with
    | error errno => exact OnFile.pure _
    | ok _ => exact ih _ _

theorem doFileWrite_onFile (path : FilePath) (perms : Nat) (digest : Option Bytes) (loc : Location)
    (maxSize : Nat) (archive : LibarchiveReader) :
    OnFile faults loc (doFileWrite sha256 faults path perms digest loc maxSize archive) := by
  unfold doFileWrite
  refine OnFile.bind (writeBlocks_onFile path loc maxSize _ _ _) fun result => ?_
  rcases result with error | ⟨currentOffset, digested⟩
  · exact OnFile.pure _
  · dsimp only
    split
    · exact OnFile.pure _
    split
    · exact OnFile.pure _
    refine OnFile.bind (OnFile.fileCall fun _ => .inl rfl) fun result => ?_
    cases result with
    | error errno => exact OnFile.pure _
    | ok _ => exact OnFile.pure _

theorem writeDirectory_keeps {entry : PackageEntry} (hpath : entry.path = FilePath.ofNames names)
    (options : ExtractOptions) (hleads : Leads targetDir names target) :
    Keeps targetDir names target.loc link (writeDirectory faults targetDir entry options) := by
  unfold writeDirectory
  rw [hpath]
  refine Keeps.bind hleads (checkExtraction_spec _ _ _ hleads).keeps fun result => ?_
  rcases result with error | _ | _
  · exact Keeps.pure _
  · exact Keeps.pure _
  · refine Keeps.bind hleads
      (Keeps.call (createat_local fun h => nomatch h) hleads) fun result => ?_
    cases result with
    | error errno => exact Keeps.pure _
    | ok _ =>
      exact Keeps.bind hleads (Keeps.call (changeat_local _) hleads) fun _ => Keeps.pure _

theorem writeSymlink_keeps {entry : PackageEntry} (hpath : entry.path = FilePath.ofNames names)
    (linkTarget : Bytes) (maxSize : Nat) (options : ExtractOptions)
    (hleads : Leads targetDir names target) (hlink : link) :
    Keeps targetDir names target.loc link
      (writeSymlink faults targetDir entry linkTarget maxSize options) := by
  unfold writeSymlink
  rw [hpath]
  split
  · exact Keeps.pure _
  refine Keeps.bind hleads (checkExtraction_spec _ _ _ hleads).keeps fun result => ?_
  rcases result with error | _ | _
  · exact Keeps.pure _
  · exact Keeps.pure _
  · refine Keeps.bind hleads (Keeps.call (createat_local fun _ => hlink) hleads) fun result => ?_
    cases result with
    | error errno => exact Keeps.pure _
    | ok _ =>
      exact Keeps.bind hleads (Keeps.call (changeat_local _) hleads) fun _ => Keeps.pure _

theorem writeFile_keeps {entry : PackageEntry} (hpath : entry.path = FilePath.ofNames names)
    (digest : Option Bytes) (index maxSize : Nat) (options : ExtractOptions)
    (state : SharedReadState)
    (hleads : Leads targetDir names target) :
    Keeps targetDir names target.loc link
      (writeFile sha256 faults targetDir entry digest index maxSize options state) := by
  unfold writeFile
  rw [hpath]
  split
  · exact Keeps.pure _
  refine Keeps.bind hleads (checkExtraction_spec _ _ _ hleads).keeps fun result => ?_
  rcases result with error | _ | _
  · exact Keeps.pure _
  · exact Keeps.pure _
  refine Spec.bind hleads (Spec.call (createat_local fun h => nomatch h) hleads) fun result => ?_
  cases result with
  | error errno => exact Spec.pure fun _ _ => trivial
  | ok loc =>
    -- the descriptor is for the file that was made at the path
    have hopened : ∀ fs, (∃ before, True ∧ openat 0o644 before target = .ok (loc, fs)) →
        loc = target.loc := fun fs ⟨before, _, hopen⟩ => (createat_eq_set hopen).1
    refine Spec.assume hopened fun hloc => ?_
    subst hloc
    refine Spec.pre ?_ fun _ _ => trivial
    refine Keeps.bind hleads ((doFileWrite_onFile _ _ _ _ _ _).keeps hleads) fun result => ?_
    cases result with
    | error error =>
      exact Keeps.bind hleads (Keeps.call unlinkat_local hleads) fun _ => Keeps.pure _
    | ok size =>
      refine Keeps.bind hleads (Keeps.fileCall fun _ => id) fun result => ?_
      cases result with
      | error errno =>
        refine Keeps.bind hleads (Keeps.fileCall fun _ => id) fun _ => ?_
        exact Keeps.bind hleads (Keeps.call unlinkat_local hleads) fun _ => Keeps.pure _
      | ok _ =>
        exact Keeps.bind hleads (Keeps.fileCall fun _ => id) fun _ => Keeps.pure _

/-- Writing an entry changes at most the object at its path, and makes a symlink there
only for a symlink entry. -/
theorem writeTo_keeps {entry : PackageEntry}
    (hpath : entry.path = FilePath.ofNames names) (maxSize : Nat)
    (options : ExtractOptions) (state : SharedReadState) (hleads : Leads targetDir names target) :
    Keeps targetDir names target.loc (entry.isSymlink = true)
      (entry.writeTo sha256 faults targetDir maxSize options state) := by
  unfold PackageEntry.writeTo PackageEntry.isSymlink
  cases entry.kind with
  | directory => exact writeDirectory_keeps hpath options hleads
  | symlink linkTarget => exact writeSymlink_keeps hpath linkTarget maxSize options hleads rfl
  | file digest index => exact writeFile_keeps hpath digest index maxSize options state hleads

end

end Archive
