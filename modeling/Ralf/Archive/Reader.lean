import Ralf.Archive.Entries

/-!
# The archive reader

`ArchiveReader.next` returns the entries of an archive one at a time. A directory is
returned before what is in it: when a member is in directories that were not
returned yet, these are queued in front of it. Paths inside a symlink of the archive
are refused.

The tree of directories that the reader keeps is represented by the names that lead to
its nodes.
-/

namespace Archive

/-- The signed files: each path has one digest. -/
structure FileDigestMap where
  entries : List (FilePath × Bytes)
  nodup : (entries.map Prod.fst).Nodup

namespace FileDigestMap

def find (digests : FileDigestMap) (path : FilePath) : Option Bytes := digests.entries.lookup path

def size (digests : FileDigestMap) : Nat := digests.entries.length

/-- The paths of the map. -/
def paths (digests : FileDigestMap) : List FilePath := digests.entries.map Prod.fst

theorem find_isSome_iff {digests : FileDigestMap} {path : FilePath} :
    (digests.find path).isSome = true ↔ path ∈ digests.paths := by
  unfold find paths
  induction digests.entries with
  | nil => simp
  | cons entry rest ih =>
    rw [List.lookup_cons, List.map_cons, List.mem_cons, ← ih]
    by_cases heq : path = entry.1
    · simp [heq]
    · rw [beq_false_of_ne heq]
      exact (or_iff_right heq).symm

/-- The map without files. -/
def empty : FileDigestMap := ⟨[], List.nodup_nil⟩

theorem nodup_concat (digests : FileDigestMap) (path : FilePath) (digest : Bytes)
    (h : path ∉ digests.paths) : ((digests.entries ++ [(path, digest)]).map Prod.fst).Nodup := by
  rw [List.map_append, List.map_singleton]
  exact (List.perm_append_singleton path _).nodup_iff.mpr (List.nodup_cons.mpr ⟨h, digests.nodup⟩)

/-- Adds a file, unless the map has its path. -/
def emplace (digests : FileDigestMap) (path : FilePath) (digest : Bytes) : FileDigestMap :=
  if h : path ∈ digests.paths then digests
  else ⟨digests.entries ++ [(path, digest)], nodup_concat digests path digest h⟩

theorem find_emplace (digests : FileDigestMap) (path other : FilePath) (digest : Bytes) :
    (digests.emplace path digest).find other =
      (digests.find other).or (if other = path then some digest else none) := by
  unfold emplace
  split
  · next hmem =>
    obtain ⟨found, hfound⟩ := Option.isSome_iff_exists.mp (find_isSome_iff.mpr hmem)
    by_cases hother : other = path
    · rw [hother, hfound, Option.some_or]
    · rw [if_neg hother, Option.or_none]
  · unfold find
    rw [List.lookup_append, List.lookup_cons, List.lookup_nil]
    by_cases hother : other = path
    · rw [hother, beq_self_eq_true, if_pos rfl]
    · rw [beq_false_of_ne hother, if_neg hother]

end FileDigestMap

/-- `MAX_DIRECTORY_COUNT`. -/
def maxDirectoryCount : Nat := 8192

/-- `MAX_SYMLINK_COUNT`. -/
def maxSymlinkCount : Nat := 8192

structure ArchiveReader where
  digests : Option FileDigestMap
  fstree : List (List Bytes) := []
  fstreeSize : Nat := 0
  maxArchiveDirectories : Nat := maxDirectoryCount
  entryStack : List PackageEntry := []
  symlinks : List FilePath := []
  readState : SharedReadState
  verifiedEntries : Nat := 0

namespace ArchiveReader

/-- A reader for an archive that was just opened. -/
def new (headers : List Header) (digests : Option FileDigestMap) : ArchiveReader :=
  { digests := digests, readState := ⟨.new headers, none, false, 0⟩ }

def setError (reader : ArchiveReader) (code : ErrorCode) (what : String) : ArchiveReader :=
  { reader with readState := { reader.readState with error := some (.ralf code what) } }

def hasError (reader : ArchiveReader) : Bool := reader.readState.error.isSome

/-- The loop of `updateParentEntryStack`. `before` is the part of the parent path that
was iterated, `current` the node of the tree that it leads to. -/
def updateParentLoop (dirModTime : Int) :
    List Bytes → List Bytes → List Bytes → ArchiveReader → ArchiveReader
  | _, _, [], reader => reader
  | before, current, component :: rest, reader =>
    if component = FilePath.dot ∨ component = [] then
      updateParentLoop dirModTime (before ++ [component]) current rest reader
    else if component = FilePath.dotdot then
      reader.setError .packageInvalidEntry "Invalid path in archive entry"
    else if current ++ [component] ∈ reader.fstree then
      updateParentLoop dirModTime (before ++ [component]) (current ++ [component]) rest reader
    else
      let count := reader.fstreeSize
      let reader := { reader with
        fstree := (current ++ [component]) :: reader.fstree, fstreeSize := count + 1 }
      if count > reader.maxArchiveDirectories then
        reader.setError .packageContentsInvalid "Archive contains too many directories"
      else
        updateParentLoop dirModTime (before ++ [component]) (current ++ [component]) rest
          { reader with entryStack :=
              reader.entryStack ++ [createDirectoryEntry (before ++ [component]) dirModTime] }

/-- Queues the directories of a path that were not returned before. -/
def updateParentEntryStack (reader : ArchiveReader) (parentPath : FilePath) (dirModTime : Int) :
    ArchiveReader :=
  updateParentLoop dirModTime [] [] parentPath.components reader

/-- The octal digits of a file type, as in a message. -/
def octal (n : Nat) : String := String.ofList (Nat.toDigits 8 n)

/-- The bits of a file type. -/
def typeBits : EntryType → Nat
  | .regular => 0o100000
  | .symlink => 0o120000
  | .directory => 0o040000
  | .other mode => mode

section
variable (sha256 : Bytes → Bytes)

/-- The digest that a member has to match: none without a map, and an error for a
file or symlink that the map does not have. -/
def lookupDigest (reader : ArchiveReader) (path : FilePath) (type : EntryType) :
    Result (Option Bytes) × ArchiveReader :=
  match reader.digests with
  | none => (.ok none, reader)
  | some digests =>
    if type = .regular ∨ type = .symlink then
      match digests.find path with
      | none =>
        (.error (.ralf .packageSignatureInvalid s!"File '{path.cStr}' in package not signed"),
          reader)
      | some digest =>
        (.ok (some digest), { reader with verifiedEntries := reader.verifiedEntries + 1 })
    else (.ok none, reader)

/-- Makes the entry of a file or a symlink. -/
def makeEntry (path : FilePath) (member : Member) (entryIndex : Nat) (digest : Option Bytes) :
    Result PackageEntry :=
  match member.type with
  | .symlink => createSymlinkEntry sha256 path member.symlink member.mtime digest
  | .regular =>
    createFileEntry entryIndex path member.size (member.perm &&& 0o111 ≠ 0) member.mtime digest
  | type =>
    .error (.ralf .packageInvalidEntry
      s!"Entry '{path.cStr}' in archive is not a support type (0{octal (typeBits type)})")

/-- Records an error in the shared state. -/
def fail (reader : ArchiveReader) (error : Error) : ArchiveReader :=
  { reader with readState := { reader.readState with error := some error } }

/-- `createEntry`: the entry, unless an error was set here or before. -/
def createEntry (reader : ArchiveReader) (path : FilePath) (member : Member) :
    Option PackageEntry × ArchiveReader :=
  match reader.lookupDigest path member.type with
  | (.error error, reader) => (none, reader.fail error)
  | (.ok digest, reader) =>
    match makeEntry sha256 path member reader.readState.entryIndex digest with
    | .error error => (none, reader.fail error)
    | .ok entry => if reader.hasError then (none, reader) else (some entry, reader)

/-- Whether a path starts with a symlink of the archive. -/
def withinSymLink (reader : ArchiveReader) (path : FilePath) : Bool :=
  reader.symlinks.any fun symlink => (FilePath.mismatch path.components symlink.components).2 = []

/-- Takes the first queued entry. -/
def popFront (reader : ArchiveReader) : Option PackageEntry × ArchiveReader :=
  match reader.entryStack with
  | [] => (none, reader)
  | entry :: rest => (some entry, { reader with entryStack := rest })

/-- One turn of the loop of `next`, for a member with a directory's type: the entry
to return, or `none` when the directory was returned before. -/
def processDirectory (reader : ArchiveReader) (path : FilePath) (member : Member) :
    Option (Option PackageEntry) × ArchiveReader :=
  let reader := reader.updateParentEntryStack path member.mtime
  if reader.entryStack.isEmpty then (none, reader)
  else
    let (entry, reader) := reader.popFront
    (some entry, reader)

/-- One turn of the loop of `next`, for any other member. -/
def processFile (reader : ArchiveReader) (path : FilePath) (member : Member) :
    Option PackageEntry × ArchiveReader :=
  if ¬path.hasFilename then
    (none, reader.setError .packageInvalidEntry
      s!"Invalid path '{path.cStr}' in archive entry, non-directory entry must have a filename")
  else
    let reader :=
      if path.hasParentPath then reader.updateParentEntryStack path.parentPath
        member.mtime else reader
    if member.type = .symlink ∧ reader.symlinks.length ≥ maxSymlinkCount then
      (none, reader.setError .packageContentsInvalid "Archive contains too many symlinks")
    else
      let reader :=
        if member.type = .symlink then { reader with symlinks := reader.symlinks ++ [path] }
        else reader
      match reader.createEntry sha256 path member with
      | (none, reader) => (none, reader)
      | (some entry, reader) =>
        if reader.entryStack.isEmpty then (some entry, reader)
        else popFront { reader with entryStack := reader.entryStack ++ [entry] }

/-- One turn of the loop of `next`: what to return, or `none` to go on. -/
def processMember (reader : ArchiveReader) (member : Member) :
    Option (Option PackageEntry) × ArchiveReader :=
  match member.pathname with
  | none => (some none, reader.setError .packageInvalidEntry "Null path in archive entry")
  | some archivePath =>
    let path := (FilePath.parse archivePath).lexicallyNormal
    if ¬verifyPackagePath path then
      (some none, reader.setError .packageInvalidEntry
        s!"Invalid path '{path.cStr}' in archive entry")
    else if reader.withinSymLink path then
      (some none, reader.setError .packageInvalidEntry
        s!"Path '{path.cStr}' in archive entry is within a symlink")
    else if member.type = .directory then reader.processDirectory path member
    else
      let (entry, reader) := reader.processFile sha256 path member
      (some entry, reader)

/-- The reader at a member. -/
def atMember (reader : ArchiveReader) (rest : List Header) (member : Member) : ArchiveReader :=
  { reader with readState := { reader.readState with
      archive := ⟨rest, member.blocks, member.dataEnd⟩
      entryIndex := reader.readState.entryIndex + 1 } }

/-- The loop of `next`. -/
def nextLoop : List Header → ArchiveReader → Option PackageEntry × ArchiveReader
  | [], reader =>
    let reader := { reader with readState := { reader.readState with endOfArchive := true } }
    if reader.digests.any fun digests => digests.size ≠ reader.verifiedEntries then
      (none, reader.setError .packageSignatureInvalid "Archive missing signed file(s)")
    else (none, reader)
  | .failure :: _, reader =>
    (none, reader.setError .packageContentsInvalid "Failure processing archive entry")
  | .entry member :: rest, reader =>
    match (reader.atMember rest member).processMember sha256 member with
    | (some entry, reader) => (entry, reader)
    | (none, reader) => if reader.hasError then (none, reader) else nextLoop rest reader

/-- The next entry, or none at the end of the archive or after an error. -/
def next (reader : ArchiveReader) : Option PackageEntry × ArchiveReader :=
  if reader.hasError ∨ reader.readState.endOfArchive then (none, reader)
  else if ¬reader.entryStack.isEmpty then reader.popFront
  else nextLoop sha256 reader.readState.archive.headers reader

end

end ArchiveReader

end Archive
