import Mathlib.Data.List.Dedup
import Ralf.Archive.Order

/-!
# The limits on directories and symlinks

A reader keeps a tree of the directories of the archive, named by members or on the way to
them, and a list of its symlinks. Both are to have at most 8192 elements, and an archive
with more ends in an error.

The check of the tree comes after a directory was added to it, and it compares the count
from before the insertion with `>`: the tree has 8193 directories without an error, and
8194 with it. `keepsLimits_iff` tells the archives for which the limits are kept: those
with at most 8192 directories in front of the place where reading stops for another reason.
-/

namespace Archive

/-! ## The directories of an archive -/

/-- The directories that some components lead through, below a directory. -/
def directoriesBelow : List Bytes → List Bytes → List (List Bytes)
  | _, [] => []
  | current, component :: rest =>
    if component = FilePath.dot ∨ component = [] then directoriesBelow current rest
    else (current ++ [component]) :: directoriesBelow (current ++ [component]) rest

/-- The directories that a member names: itself and those that it is in. -/
def Member.directories (member : Member) : List (List Bytes) :=
  match member.path with
  | none => []
  | some path =>
    directoriesBelow []
      (if member.type = .directory then path.components else path.parentPath.components)

/-- The directories that members name. -/
def directories (members : List Member) : List (List Bytes) := members.flatMap Member.directories

/-- How many directories members name. -/
def directoryCount (members : List Member) : Nat := (directories members).dedup.length

/-- The paths of the symlinks among members. -/
def symlinkPaths (members : List Member) : List FilePath :=
  (members.filter fun member => member.type = .symlink).filterMap Member.path

/-- How many symlinks there are among members. -/
def symlinkCount (members : List Member) : Nat :=
  (members.filter fun member => member.type = .symlink).length

/-! ## The members that are read -/

/-- The digest that a member is to match: none without a map, and nothing for a file or a symlink
that the map does not have. -/
def signedDigest (digests : Option FileDigestMap) (path : FilePath) (type : EntryType) :
    Option (Option Bytes) :=
  match digests with
  | none => some none
  | some digests =>
    if type = .regular ∨ type = .symlink then (digests.find path).map some else some none

instance (symlink path : FilePath) : Decidable (symlink.IsPrefix path) :=
  inferInstanceAs (Decidable (symlink.components <+: path.components))

/-- The path of a member, if it is accepted after the members `before`. -/
def acceptedPath (before : List Member) (member : Member) : Option FilePath :=
  member.path.filter fun path =>
    verifyPackagePath path ∧ (∀ symlink ∈ symlinkPaths before, ¬ symlink.IsPrefix path) ∧
      (member.type = .directory ∨ path.hasFilename)

/-- A member with an accepted path is not refused. -/
def admitted (sha256 : Bytes → Bytes) (digests : Option FileDigestMap) (before : List Member)
    (member : Member) (path : FilePath) : Bool :=
  member.type = .directory ||
    (decide (member.type = .symlink → (symlinkPaths before).length < maxSymlinkCount) &&
      match signedDigest digests path member.type with
      | none => false
      | some digest =>
        (ArchiveReader.makeEntry sha256 path member (before.length + 1) digest).isOk)

/-- The members whose directories are looked at: up to the first one that is refused, and with it
unless it is refused for its path. -/
def lookedAt (sha256 : Bytes → Bytes) (digests : Option FileDigestMap) :
    List Member → List Member → List Member
  | _, [] => []
  | before, member :: rest =>
    match acceptedPath before member with
    | none => []
    | some path =>
      member ::
        if admitted sha256 digests before member path then
          lookedAt sha256 digests (before ++ [member]) rest
        else []

/-! ## Lists of directories -/

section
variable {members : List Member}

theorem directories_append (members members' : List Member) :
    directories (members ++ members') = directories members ++ directories members' :=
  List.flatMap_append

theorem directories_singleton (member : Member) : directories [member] = member.directories := by
  simp [directories]

/-- Directories without duplicates that are all named by members. -/
theorem length_le_directoryCount {known : List (List Bytes)} (hnodup : known.Nodup)
    (hsubset : known ⊆ directories members) : known.length ≤ directoryCount members := by
  refine (List.subperm_of_subset hnodup fun names hnames => ?_).length_le
  exact List.mem_dedup.mpr (hsubset hnames)

theorem directoryCount_le_length {known : List (List Bytes)}
    (hsubset : directories members ⊆ known) : directoryCount members ≤ known.length := by
  refine (List.subperm_of_subset (List.nodup_dedup _) fun names hnames => ?_).length_le
  exact hsubset (List.mem_dedup.mp hnames)

theorem symlinkPaths_append (members members' : List Member) :
    symlinkPaths (members ++ members') = symlinkPaths members ++ symlinkPaths members' := by
  simp [symlinkPaths]

end

namespace ArchiveReader

variable {sha256 : Bytes → Bytes} {reader : ArchiveReader} {member : Member} {path : FilePath}
  {digests : Option FileDigestMap} {before : List Member} {headers : List Header}

/-! ## The tree of the reader -/

/-- The tree has some of the known directories, and the counter is right. -/
structure Counted (known : List (List Bytes)) (reader : ArchiveReader) : Prop where
  nodup : reader.fstree.Nodup
  size : reader.fstreeSize = reader.fstree.length
  maximum : reader.maxArchiveDirectories = maxDirectoryCount
  named : reader.fstree ⊆ known

/-- A tree to which the directories `below` were added. Without an error they are all there, and
with one there are more than the limit. -/
structure Grown (known below : List (List Bytes)) (reader reader' : ArchiveReader) : Prop extends
    Counted known reader' where
  kept : reader.fstree ⊆ reader'.fstree
  all : reader'.hasError = false → below ⊆ reader'.fstree
  length_le : reader'.hasError = false → reader'.fstree.length ≤ maxDirectoryCount + 1
  lt_length : reader'.hasError = true → maxDirectoryCount < reader'.fstree.length

theorem updateParentLoop_grown {known : List (List Bytes)} (dirModTime : Int)
    {before current rest : List Bytes} (hdotdot : FilePath.dotdot ∉ rest)
    (hclean : reader.hasError = false) (hcounted : Counted known reader)
    (hbelow : directoriesBelow current rest ⊆ known)
    (hle : reader.fstree.length ≤ maxDirectoryCount + 1) :
    Grown known (directoriesBelow current rest) reader
      (updateParentLoop dirModTime before current rest reader) := by
  induction rest generalizing before current reader with
  | nil =>
    refine ⟨hcounted, List.Subset.refl _, fun _ => List.nil_subset _, fun _ => hle, fun herror => ?_⟩
    exact absurd (herror.symm.trans hclean) (by decide)
  | cons component rest ih =>
    have hrest : FilePath.dotdot ∉ rest := fun h => hdotdot (List.mem_cons_of_mem _ h)
    have hcomponent : component ≠ FilePath.dotdot := fun h =>
      hdotdot (h ▸ List.mem_cons_self)
    unfold updateParentLoop
    unfold directoriesBelow at hbelow ⊢
    by_cases hskip : component = FilePath.dot ∨ component = []
    · rw [if_pos hskip] at hbelow ⊢
      rw [if_pos hskip]
      exact ih hrest hclean hcounted hbelow hle
    rw [if_neg hskip] at hbelow ⊢
    rw [if_neg hskip, if_neg hcomponent]
    obtain ⟨hself, hbelow⟩ := List.cons_subset.mp hbelow
    by_cases hknown : current ++ [component] ∈ reader.fstree
    · rw [if_pos hknown]
      have hgrown := @ih reader (before ++ [component]) (current ++ [component]) hrest hclean
        hcounted hbelow hle
      exact { hgrown with
        all := fun hclean' => List.cons_subset.mpr ⟨hgrown.kept hknown, hgrown.all hclean'⟩ }
    · rw [if_neg hknown]
      have hcounted' : ∀ entryStack : List PackageEntry, Counted known { reader with
          fstree := (current ++ [component]) :: reader.fstree
          fstreeSize := reader.fstreeSize + 1
          entryStack := entryStack } := fun _ =>
        ⟨List.nodup_cons.mpr ⟨hknown, hcounted.nodup⟩, congrArg (· + 1) hcounted.size,
          hcounted.maximum, List.cons_subset.mpr ⟨hself, hcounted.named⟩⟩
      dsimp only
      -- the count is compared after the insertion, but without what was inserted
      by_cases hmany : reader.fstreeSize > reader.maxArchiveDirectories
      · rw [if_pos hmany]
        rw [hcounted.size, hcounted.maximum] at hmany
        have hnow := hcounted' reader.entryStack
        refine ⟨⟨hnow.nodup, hnow.size, hnow.maximum, hnow.named⟩, List.subset_cons_self _ _,
          fun hclean' => ?_, fun hclean' => ?_, fun _ => Nat.lt_succ_of_lt hmany⟩
        · cases hclean'
        · cases hclean'
      · rw [if_neg hmany]
        rw [hcounted.size, hcounted.maximum] at hmany
        have hgrown := @ih
          { reader with
            fstree := (current ++ [component]) :: reader.fstree
            fstreeSize := reader.fstreeSize + 1
            entryStack := reader.entryStack ++
              [createDirectoryEntry (before ++ [component]) dirModTime] }
          (before ++ [component]) (current ++ [component]) hrest hclean (hcounted' _) hbelow
          (Nat.succ_le_succ (Nat.not_lt.mp hmany))
        obtain ⟨hself', hkept⟩ := List.cons_subset.mp hgrown.kept
        exact { hgrown with
          kept := hkept
          all := fun hclean' => List.cons_subset.mpr ⟨hself', hgrown.all hclean'⟩ }

/-! ## Members that are accepted -/

theorem acceptedPath_eq_some_iff : acceptedPath before member = some path ↔
    member.path = some path ∧ verifyPackagePath path = true ∧
      (∀ symlink ∈ symlinkPaths before, ¬ symlink.IsPrefix path) ∧
      (member.type = .directory ∨ path.hasFilename = true) := by
  unfold acceptedPath
  rw [Option.filter_eq_some_iff, decide_eq_true_eq]

theorem acceptedPath_eq_none (hpath : member.path = some path)
    (h : ¬ (verifyPackagePath path = true ∧
      (∀ symlink ∈ symlinkPaths before, ¬ symlink.IsPrefix path) ∧
      (member.type = .directory ∨ path.hasFilename = true))) :
    acceptedPath before member = none := by
  refine Option.eq_none_iff_forall_ne_some.mpr fun other hother => h ?_
  obtain ⟨hother, haccepted⟩ := acceptedPath_eq_some_iff.mp hother
  cases hpath.symm.trans hother
  exact haccepted

theorem admitted_of_directory (htype : member.type = .directory) :
    admitted sha256 digests before member path = true := by
  simp [admitted, htype]

theorem lookupDigest_eq (reader : ArchiveReader) (path : FilePath) (type : EntryType) :
    (∃ error, reader.lookupDigest path type = (.error error, reader) ∧
        signedDigest reader.digests path type = none) ∨
      ∃ digest verifiedEntries, reader.lookupDigest path type =
          (.ok digest, { reader with verifiedEntries := verifiedEntries }) ∧
        signedDigest reader.digests path type = some digest := by
  obtain ⟨digests⟩ := reader
  unfold lookupDigest signedDigest
  cases digests with
  | none => exact .inr ⟨_, _, rfl, rfl⟩
  | some map =>
    dsimp only
    by_cases htype : type = .regular ∨ type = .symlink
    · rw [if_pos htype, if_pos htype]
      cases map.find path with
      | none => exact .inl ⟨_, rfl, rfl⟩
      | some digest => exact .inr ⟨_, _, rfl, rfl⟩
    · rw [if_neg htype, if_neg htype]
      exact .inr ⟨_, _, rfl, rfl⟩

/-- An entry can be made for a member, and its reader has no error. -/
def makes (sha256 : Bytes → Bytes) (reader : ArchiveReader) (path : FilePath) (member : Member) :
    Bool :=
  !reader.hasError &&
    match signedDigest reader.digests path member.type with
    | none => false
    | some digest => (makeEntry sha256 path member reader.readState.entryIndex digest).isOk

/-- What `createEntry` makes of a member, and what it leaves as it was. -/
theorem createEntry_spec (reader : ArchiveReader) (path : FilePath) (member : Member) :
    let out := reader.createEntry sha256 path member
    out.1.isSome = reader.makes sha256 path member ∧ ∃ verifiedEntries readState,
      out.2 = { reader with verifiedEntries := verifiedEntries, readState := readState } ∧
        match out.1 with
        | some _ => readState = reader.readState
        | none => readState.error.isSome = true := by
  unfold createEntry makes
  rcases reader.lookupDigest_eq path member.type with
    ⟨error, hlookup, hsigned⟩ | ⟨digest, verifiedEntries, hlookup, hsigned⟩
  · rw [hlookup, hsigned, Bool.and_false]
    exact ⟨rfl, _, _, rfl, rfl⟩
  · rw [hlookup, hsigned]
    dsimp only
    cases makeEntry sha256 path member reader.readState.entryIndex digest with
    | error error =>
      rw [show (Except.error error : Result PackageEntry).isOk = false from rfl, Bool.and_false]
      exact ⟨rfl, _, _, rfl, rfl⟩
    | ok entry =>
      have hsame : ({ reader with verifiedEntries := verifiedEntries } :
          ArchiveReader).hasError = reader.hasError := rfl
      simp only [hsame]
      cases herror : reader.hasError with
      | false => exact ⟨rfl, _, _, rfl, rfl⟩
      | true => exact ⟨rfl, _, _, rfl, herror⟩

/-- The last part of `processFile`: the entry is made and waits behind its directories. -/
theorem queueEntry_spec (reader : ArchiveReader) (path : FilePath) (member : Member) :
    ∃ verifiedEntries readState entryStack,
      (match reader.createEntry sha256 path member with
        | (none, reader) => (none, reader)
        | (some entry, reader) =>
          if reader.entryStack.isEmpty then (some entry, reader)
          else popFront { reader with entryStack := reader.entryStack ++ [entry] }).2 =
        { reader with
          verifiedEntries := verifiedEntries, readState := readState, entryStack := entryStack } ∧
      (reader.makes sha256 path member = true → readState = reader.readState) ∧
      (reader.makes sha256 path member = false → readState.error.isSome = true) := by
  obtain ⟨hmade, verifiedEntries, readState, hout, hstate⟩ :=
    @createEntry_spec sha256 reader path member
  rw [← hmade]
  generalize reader.createEntry sha256 path member = created at *
  obtain ⟨entry, reader'⟩ := created
  cases hout
  cases entry with
  | none => exact ⟨_, _, _, rfl, fun h => absurd h (by simp), fun _ => hstate⟩
  | some entry =>
    refine ⟨verifiedEntries, readState, if reader.entryStack.isEmpty then reader.entryStack
      else (reader.entryStack ++ [entry]).tail, ?_, fun _ => hstate, fun h => absurd h (by simp)⟩
    unfold popFront
    dsimp only
    cases reader.entryStack with
    | nil => rfl
    | cons first rest => rfl

/-! ## The run -/

/-- A reader without an error, that has read the members `before`. -/
structure Reading (sha256 : Bytes → Bytes) (digests : Option FileDigestMap)
    (headers : List Header) (before : List Member) (rest : List Header) (reader : ArchiveReader) :
    Prop where
  clean : reader.hasError = false
  headers_eq : reader.readState.archive.headers = rest
  ended : reader.readState.endOfArchive = true → rest = []
  members_eq : members headers = before ++ members rest
  lookedAt_eq : lookedAt sha256 digests [] (members headers) =
    before ++ lookedAt sha256 digests before (members rest)
  digests_eq : reader.digests = digests
  index_eq : reader.readState.entryIndex = before.length
  symlinks_eq : reader.symlinks = symlinkPaths before
  symlinkCount_eq : symlinkCount before = reader.symlinks.length
  symlinks_le : reader.symlinks.length ≤ maxSymlinkCount
  counted : Counted (directories (lookedAt sha256 digests [] (members headers))) reader
  all : directories before ⊆ reader.fstree
  length_le : reader.fstree.length ≤ maxDirectoryCount + 1

/-- A reader with an error: its tree has all directories that were looked at, or too many. -/
structure Stopped (sha256 : Bytes → Bytes) (digests : Option FileDigestMap)
    (headers : List Header) (reader : ArchiveReader) : Prop where
  error : reader.hasError = true
  counted : Counted (directories (lookedAt sha256 digests [] (members headers))) reader
  full : directories (lookedAt sha256 digests [] (members headers)) ⊆ reader.fstree ∨
    maxDirectoryCount < reader.fstree.length
  symlinks_le : reader.symlinks.length ≤ maxSymlinkCount

section
variable {rest : List Header} {reader' : ArchiveReader}

theorem Counted.congr {known : List (List Bytes)} (h : Counted known reader)
    (hfstree : reader'.fstree = reader.fstree) (hsize : reader'.fstreeSize = reader.fstreeSize)
    (hmax : reader'.maxArchiveDirectories = reader.maxArchiveDirectories) :
    Counted known reader' := by
  obtain ⟨hnodup, hlength, hmaximum, hnamed⟩ := h
  rw [← hfstree] at hnodup hnamed hlength
  exact ⟨hnodup, hsize.trans hlength, hmax.trans hmaximum, hnamed⟩

/-- Reading ends with an error where no further member is looked at. -/
theorem Reading.stop (h : Reading sha256 digests headers before rest reader)
    (hlast : lookedAt sha256 digests before (members rest) = [])
    (herror : reader'.hasError = true) (hfstree : reader'.fstree = reader.fstree)
    (hsize : reader'.fstreeSize = reader.fstreeSize)
    (hmax : reader'.maxArchiveDirectories = reader.maxArchiveDirectories)
    (hsymlinks : reader'.symlinks = reader.symlinks) :
    Stopped sha256 digests headers reader' where
  error := herror
  counted := h.counted.congr hfstree hsize hmax
  full := by
    rw [h.lookedAt_eq, hlast, List.append_nil, hfstree]
    exact .inl h.all
  symlinks_le := by
    rw [hsymlinks]
    exact h.symlinks_le

/-- The directories of a member with an accepted path are added to the tree. -/
structure Queued (sha256 : Bytes → Bytes) (digests : Option FileDigestMap) (headers : List Header)
    (before : List Member) (member : Member) (rest : List Header) (path : FilePath)
    (reader queued : ArchiveReader) : Prop where
  reading : Reading sha256 digests headers before (.entry member :: rest) reader
  accepted : acceptedPath before member = some path
  grown : Grown (directories (lookedAt sha256 digests [] (members headers))) member.directories
    (reader.atMember rest member) queued
  digests_eq : queued.digests = digests
  symlinks_eq : queued.symlinks = reader.symlinks
  archive_eq : queued.readState.archive = (reader.atMember rest member).readState.archive
  ended_eq : queued.readState.endOfArchive = reader.readState.endOfArchive
  clean_eq : queued.hasError = false →
    queued.readState = (reader.atMember rest member).readState

theorem lookedAt_cons (haccepted : acceptedPath before member = some path) :
    lookedAt sha256 digests before (members (.entry member :: rest)) =
      member :: if admitted sha256 digests before member path then
        lookedAt sha256 digests (before ++ [member]) (members rest) else [] := by
  rw [members, lookedAt, haccepted]

theorem Reading.queued {place : FilePath} (h : Reading sha256 digests headers before
      (.entry member :: rest) reader)
    (haccepted : acceptedPath before member = some path)
    (hplace : Checked (reader.atMember rest member) place)
    (hdotdot : FilePath.dotdot ∉ place.components)
    (hdirectories : member.directories = directoriesBelow [] place.components) :
    Queued sha256 digests headers before member rest path reader
      ((reader.atMember rest member).updateParentEntryStack place member.mtime) := by
  obtain ⟨-, hsymlinks, hdigests, -, harchive, hend⟩ :=
    updateParentEntryStack_queues member.mtime hplace.rooted hplace.names_ok
      (reader.atMember rest member)
  have hstate := updateParentLoop_readState member.mtime [] [] place.components
    (reader.atMember rest member)
  have hmember : member.directories ⊆
      directories (lookedAt sha256 digests [] (members headers)) := by
    rw [h.lookedAt_eq, lookedAt_cons haccepted, directories_append]
    refine List.subset_append_of_subset_right _ fun names hnames => ?_
    exact List.mem_flatMap.mpr ⟨member, List.mem_cons_self, hnames⟩
  have hcounted : Counted (directories (lookedAt sha256 digests [] (members headers)))
      (reader.atMember rest member) := h.counted.congr rfl rfl rfl
  rw [hdirectories] at hmember
  refine ⟨h, haccepted, ?_, hdigests.trans h.digests_eq, hsymlinks, harchive, hend, fun hclean => ?_⟩
  · rw [hdirectories]
    exact updateParentLoop_grown member.mtime hdotdot h.clean hcounted hmember h.length_le
  · exact hstate.kept hclean

section
variable {queued : ArchiveReader}

/-- A member that is refused after its directories were added. -/
theorem Queued.stop (h : Queued sha256 digests headers before member rest path reader queued)
    (hrefused : queued.hasError = true ∨ admitted sha256 digests before member path = false)
    (herror : reader'.hasError = true) (hfstree : reader'.fstree = queued.fstree)
    (hsize : reader'.fstreeSize = queued.fstreeSize)
    (hmax : reader'.maxArchiveDirectories = queued.maxArchiveDirectories)
    (hsymlinks : reader'.symlinks.length ≤ maxSymlinkCount) :
    Stopped sha256 digests headers reader' where
  error := herror
  counted := h.grown.toCounted.congr hfstree hsize hmax
  symlinks_le := hsymlinks
  full := by
    rw [hfstree]
    by_cases hclean : queued.hasError = false
    · refine .inl ?_
      have hlast := hrefused.resolve_left (Bool.eq_false_iff.mp hclean)
      rw [h.reading.lookedAt_eq, lookedAt_cons h.accepted, if_neg (by simp [hlast]),
        directories_append, directories_singleton]
      exact List.append_subset.mpr
        ⟨List.Subset.trans h.reading.all h.grown.kept, h.grown.all hclean⟩
    · exact .inr (h.grown.lt_length (by simpa using hclean))

/-- A member that is admitted. -/
theorem Queued.reading_next
    (h : Queued sha256 digests headers before member rest path reader queued)
    (hclean : queued.hasError = false)
    (hadmitted : admitted sha256 digests before member path = true)
    (hstate : reader'.readState = queued.readState) (hdigests : reader'.digests = queued.digests)
    (hfstree : reader'.fstree = queued.fstree) (hsize : reader'.fstreeSize = queued.fstreeSize)
    (hmax : reader'.maxArchiveDirectories = queued.maxArchiveDirectories)
    (hsymlinks : reader'.symlinks =
      if member.type = .symlink then queued.symlinks ++ [path] else queued.symlinks)
    (hle : reader'.symlinks.length ≤ maxSymlinkCount) :
    Reading sha256 digests headers (before ++ [member]) rest reader' := by
  have hstate' := hstate.trans (h.clean_eq hclean)
  have hpath := (acceptedPath_eq_some_iff.mp h.accepted).1
  have hpaths : symlinkPaths [member] = if member.type = .symlink then [path] else [] := by
    by_cases htype : member.type = .symlink <;> simp [symlinkPaths, htype, hpath]
  have hcount : symlinkCount (before ++ [member]) =
      symlinkCount before + if member.type = .symlink then 1 else 0 := by
    by_cases htype : member.type = .symlink <;> simp [symlinkCount, htype]
  constructor
  · rw [hasError, hstate']
    exact h.reading.clean
  · rw [hstate']
    rfl
  · intro hend
    rw [hstate'] at hend
    exact absurd (h.reading.ended hend) (List.cons_ne_nil _ _)
  · rw [h.reading.members_eq, members, List.append_assoc]
    rfl
  · rw [h.reading.lookedAt_eq, lookedAt_cons h.accepted, if_pos hadmitted, List.append_assoc]
    rfl
  · exact hdigests.trans h.digests_eq
  · rw [hstate', List.length_append, ← h.reading.index_eq]
    rfl
  · rw [hsymlinks, h.symlinks_eq, h.reading.symlinks_eq, symlinkPaths_append, hpaths]
    split
    · rfl
    · rw [List.append_nil]
  · rw [hsymlinks, hcount, h.reading.symlinkCount_eq, h.symlinks_eq]
    split
    · rw [List.length_append, List.length_singleton]
    · rfl
  · exact hle
  · exact h.grown.toCounted.congr hfstree hsize hmax
  · rw [hfstree, directories_append, directories_singleton]
    exact List.append_subset.mpr
      ⟨List.Subset.trans h.reading.all h.grown.kept, h.grown.all hclean⟩
  · rw [hfstree]
    exact h.grown.length_le hclean

/-- What one turn of the loop of `next` does. -/
def Steps (sha256 : Bytes → Bytes) (digests : Option FileDigestMap) (headers : List Header)
    (before : List Member) (member : Member) (rest : List Header) (reader' : ArchiveReader) :
    Prop :=
  Stopped sha256 digests headers reader' ∨
    Reading sha256 digests headers (before ++ [member]) rest reader'

theorem Queued.processDirectory
    (h : Queued sha256 digests headers before member rest path reader
      ((reader.atMember rest member).updateParentEntryStack path member.mtime))
    (htype : member.type = .directory) :
    Steps sha256 digests headers before member rest
      ((reader.atMember rest member).processDirectory path member).2 := by
  obtain ⟨entryStack, hout⟩ : ∃ entryStack,
      ((reader.atMember rest member).processDirectory path member).2 =
        { (reader.atMember rest member).updateParentEntryStack path member.mtime with
          entryStack := entryStack } := by
    unfold ArchiveReader.processDirectory ArchiveReader.popFront
    dsimp only
    split
    · exact ⟨_, rfl⟩
    · split
      · exact ⟨_, rfl⟩
      · exact ⟨_, rfl⟩
  rw [hout]
  generalize (reader.atMember rest member).updateParentEntryStack path member.mtime = queued at h
  have hle : queued.symlinks.length ≤ maxSymlinkCount := by
    rw [h.symlinks_eq]
    exact h.reading.symlinks_le
  cases hclean : queued.hasError with
  | true => exact .inl (h.stop (.inl hclean) hclean rfl rfl rfl hle)
  | false =>
    refine .inr (h.reading_next hclean (admitted_of_directory htype) rfl rfl rfl rfl rfl ?_ hle)
    rw [htype, if_neg (by decide)]

theorem Queued.processFile
    (h : Queued sha256 digests headers before member rest path reader
      ((reader.atMember rest member).updateParentEntryStack path.parentPath member.mtime))
    (htype : member.type ≠ .directory) (hfilename : path.hasFilename = true) :
    Steps sha256 digests headers before member rest
      ((reader.atMember rest member).processFile sha256 path member).2 := by
  unfold ArchiveReader.processFile
  rw [if_neg (not_not.mpr hfilename)]
  dsimp only
  rw [updateParentEntryStack_parentPath member.mtime hfilename]
  generalize (reader.atMember rest member).updateParentEntryStack path.parentPath member.mtime =
    queued at h
  have hsymlinks := h.symlinks_eq.trans h.reading.symlinks_eq
  have hle : queued.symlinks.length ≤ maxSymlinkCount := by
    rw [h.symlinks_eq]
    exact h.reading.symlinks_le
  by_cases hmany : member.type = .symlink ∧ queued.symlinks.length ≥ maxSymlinkCount
  · rw [if_pos hmany]
    refine .inl (h.stop (.inr ?_) rfl rfl rfl rfl hle)
    rw [hsymlinks] at hmany
    simp [admitted, hmany.1, Nat.not_lt.mpr hmany.2]
  rw [if_neg hmany]
  obtain ⟨symlinks, hpaths, hstored⟩ : ∃ symlinks,
      symlinks = (if member.type = .symlink then queued.symlinks ++ [path] else queued.symlinks) ∧
      (if member.type = .symlink then { queued with symlinks := queued.symlinks ++ [path] }
        else queued) = { queued with symlinks := symlinks } := by
    split
    · exact ⟨_, rfl, rfl⟩
    · exact ⟨_, rfl, rfl⟩
  have hpathsLe : symlinks.length ≤ maxSymlinkCount := by
    rw [hpaths]
    split
    · next hsymlink =>
      rw [List.length_append, List.length_singleton]
      exact Nat.lt_of_not_le fun hge => hmany ⟨hsymlink, hge⟩
    · exact hle
  rw [hstored]
  obtain ⟨verifiedEntries, readState, entryStack, hout, hmade, hnone⟩ :=
    @queueEntry_spec sha256 { queued with symlinks := symlinks } path member
  refine (congrArg (Steps sha256 digests headers before member rest) hout).mpr ?_
  -- an entry is made just when the member is admitted
  have hadmits : queued.hasError = false → admitted sha256 digests before member path =
      ({ queued with symlinks := symlinks } : ArchiveReader).makes sha256 path member := by
    intro hclean
    have hindex : queued.readState.entryIndex = before.length + 1 := by
      rw [h.clean_eq hclean, ← h.reading.index_eq]
      rfl
    have hroom : member.type = .symlink → (symlinkPaths before).length < maxSymlinkCount := by
      intro hsymlink
      rw [← hsymlinks]
      exact Nat.lt_of_not_le fun hge => hmany ⟨hsymlink, hge⟩
    unfold admitted makes
    rw [hasError] at hclean ⊢
    rw [hclean, hindex, h.digests_eq, decide_eq_false htype, decide_eq_true hroom]
    simp
  cases hmakes : ({ queued with symlinks := symlinks } : ArchiveReader).makes sha256 path member with
  | false =>
    refine .inl (h.stop ?_ (hnone hmakes) rfl rfl rfl hpathsLe)
    by_cases hclean : queued.hasError = true
    · exact .inl hclean
    · exact .inr ((hadmits (by simpa using hclean)).trans hmakes)
  | true =>
    have hclean : queued.hasError = false := by
      rw [makes, Bool.and_eq_true, Bool.not_eq_true'] at hmakes
      exact hmakes.1
    exact .inr (h.reading_next hclean ((hadmits hclean).trans hmakes) (hmade hmakes) rfl rfl rfl
      rfl hpaths hpathsLe)

end

/-- A member whose path is refused. -/
theorem Reading.refused (h : Reading sha256 digests headers before (.entry member :: rest) reader)
    (hnone : acceptedPath before member = none) (code : ErrorCode) (what : String) :
    Steps sha256 digests headers before member rest
      ((reader.atMember rest member).setError code what) := by
  refine .inl (h.stop ?_ rfl rfl rfl rfl rfl)
  rw [members, lookedAt, hnone]

theorem Reading.processMember
    (h : Reading sha256 digests headers before (.entry member :: rest) reader) :
    Steps sha256 digests headers before member rest
      ((reader.atMember rest member).processMember sha256 member).2 := by
  unfold ArchiveReader.processMember
  cases hname : member.pathname with
  | none =>
    refine h.refused ?_ _ _
    rw [acceptedPath, Member.path, hname]
    rfl
  | some archivePath =>
    have hpath : member.path = some (FilePath.parse archivePath).lexicallyNormal := by
      rw [Member.path, hname]
      rfl
    generalize hnormal : (FilePath.parse archivePath).lexicallyNormal = path at hpath
    dsimp only
    rw [hnormal]
    by_cases hverify : verifyPackagePath path = true
    swap
    · rw [if_pos hverify]
      exact h.refused (acceptedPath_eq_none hpath fun haccepted => hverify haccepted.1) _ _
    rw [if_neg (not_not.mpr hverify)]
    have hwithin_iff : (reader.atMember rest member).withinSymLink path = false ↔
        ∀ symlink ∈ symlinkPaths before, ¬ symlink.IsPrefix path := by
      rw [not_withinSymLink_iff, ← h.symlinks_eq]
      rfl
    cases hwithin : (reader.atMember rest member).withinSymLink path with
    | true =>
      rw [if_pos rfl]
      refine h.refused (acceptedPath_eq_none hpath fun haccepted => ?_) _ _
      exact absurd (hwithin.symm.trans (hwithin_iff.mpr haccepted.2.1)) (by decide)
    | false =>
    rw [if_neg Bool.false_ne_true]
    have hchecked : Checked (reader.atMember rest member) path := by
      rw [← hnormal] at hverify hwithin ⊢
      exact checked_of_verifyPackagePath hverify hwithin
    have hdotdot : FilePath.dotdot ∉ path.components := (verifyPackagePath_iff.mp hverify).2.2
    by_cases htype : member.type = .directory
    · rw [if_pos htype]
      have haccepted := acceptedPath_eq_some_iff.mpr
        ⟨hpath, hverify, hwithin_iff.mp hwithin, .inl htype⟩
      refine (h.queued haccepted hchecked hdotdot ?_).processDirectory htype
      rw [Member.directories, hpath]
      dsimp only
      rw [if_pos htype]
    rw [if_neg htype]
    dsimp only
    by_cases hfilename : path.hasFilename = true
    · have haccepted := acceptedPath_eq_some_iff.mpr
        ⟨hpath, hverify, hwithin_iff.mp hwithin, .inr hfilename⟩
      refine (h.queued haccepted hchecked.parent ?_ ?_).processFile htype hfilename
      · intro hmem
        obtain ⟨hnames, htrailing⟩ := FilePath.parentPath_of_hasFilename hfilename
        rw [FilePath.components, hchecked.parent.rooted, hnames, htrailing] at hmem
        have hname : FilePath.dotdot ∈ path.names := List.dropLast_subset _ (by simpa using hmem)
        exact hdotdot (List.mem_append_left _ (List.mem_append_right _ hname))
      · rw [Member.directories, hpath]
        dsimp only
        rw [if_neg htype]
    · unfold ArchiveReader.processFile
      rw [if_pos hfilename]
      refine h.refused (acceptedPath_eq_none hpath fun haccepted => ?_) _ _
      exact haccepted.2.2.elim htype hfilename

/-- Reading goes on with fewer headers, or it is over. -/
theorem Reading.nextLoop (h : Reading sha256 digests headers before rest reader) :
    let out := (reader.nextLoop sha256 rest).2
    Stopped sha256 digests headers out ∨ ∃ before' rest',
      Reading sha256 digests headers before' rest' out ∧
        (rest'.length < rest.length ∨ out.readState.endOfArchive = true) := by
  induction rest generalizing before reader with
  | nil =>
    have hnothing : lookedAt sha256 digests before (members []) = [] := rfl
    unfold ArchiveReader.nextLoop
    dsimp only
    split
    · exact .inl (h.stop hnothing rfl rfl rfl rfl rfl)
    · exact .inr ⟨before, [], { h with
        ended := fun _ => rfl
        counted := h.counted.congr rfl rfl rfl }, .inr rfl⟩
  | cons header rest ih =>
    cases header with
    | failure => exact .inl (h.stop rfl rfl rfl rfl rfl rfl)
    | entry member =>
      have hstep := h.processMember
      unfold ArchiveReader.nextLoop
      generalize (reader.atMember rest member).processMember sha256 member = turn at hstep
      obtain ⟨_ | entry, processed⟩ := turn
      · dsimp only at hstep ⊢
        rcases hstep with hstopped | hreading
        · rw [if_pos hstopped.error]
          exact .inl hstopped
        · rw [hreading.clean, if_neg Bool.false_ne_true]
          rcases ih hreading with hstopped | ⟨before', rest', hnext, hless⟩
          · exact .inl hstopped
          · exact .inr ⟨before', rest', hnext, hless.imp_left Nat.lt_succ_of_lt⟩
      · exact hstep.imp_right fun hreading => ⟨_, rest, hreading, .inl (Nat.lt_succ_self _)⟩

theorem Reading.next (h : Reading sha256 digests headers before rest reader) :
    let out := (reader.next sha256).2
    Stopped sha256 digests headers out ∨ ∃ before' rest',
      Reading sha256 digests headers before' rest' out ∧
        (out.readState.endOfArchive = true ∨ rest'.length < rest.length ∨
          rest' = rest ∧ out.entryStack.length < reader.entryStack.length) := by
  unfold ArchiveReader.next
  by_cases hstop : reader.hasError = true ∨ reader.readState.endOfArchive = true
  · rw [if_pos hstop]
    have hend := hstop.resolve_left (by simp [h.clean])
    exact .inr ⟨before, rest, h, .inl hend⟩
  rw [if_neg hstop]
  cases hstack : reader.entryStack with
  | cons first queue =>
    rw [if_pos (by simp), popFront_cons hstack]
    refine .inr ⟨before, rest, { h with counted := h.counted.congr rfl rfl rfl }, .inr (.inr ?_)⟩
    exact ⟨rfl, Nat.lt_succ_self _⟩
  | nil =>
    rw [if_neg (by simp), h.headers_eq]
    rcases h.nextLoop with hstopped | ⟨before', rest', hreading, hless⟩
    · exact .inl hstopped
    · exact .inr ⟨before', rest', hreading, hless.elim (fun hless => .inr (.inl hless)) .inl⟩

theorem Stopped.next (h : Stopped sha256 digests headers reader) :
    Stopped sha256 digests headers (reader.next sha256).2 := by
  unfold ArchiveReader.next
  rw [if_pos (.inl h.error)]
  exact h

theorem reading_new (sha256 : Bytes → Bytes) (digests : Option FileDigestMap)
    (headers : List Header) :
    Reading sha256 digests headers [] headers (ArchiveReader.new headers digests) where
  clean := rfl
  headers_eq := rfl
  ended h := absurd h Bool.false_ne_true
  members_eq := rfl
  lookedAt_eq := rfl
  digests_eq := rfl
  index_eq := rfl
  symlinks_eq := rfl
  symlinkCount_eq := rfl
  symlinks_le := Nat.zero_le _
  counted := ⟨List.nodup_nil, rfl, rfl, List.nil_subset _⟩
  all := List.nil_subset _
  length_le := Nat.zero_le _

end

/-! ## Calling `next` again and again -/

/-- The reader after some calls of `next`. -/
def after (sha256 : Bytes → Bytes) (digests : Option FileDigestMap) (headers : List Header)
    (calls : Nat) : ArchiveReader :=
  (fun reader : ArchiveReader => (reader.next sha256).2)^[calls] (.new headers digests)

theorem after_succ (calls : Nat) : after sha256 digests headers (calls + 1) =
    ((after sha256 digests headers calls).next sha256).2 :=
  Function.iterate_succ_apply' _ _ _

theorem after_cases (calls : Nat) :
    Stopped sha256 digests headers (after sha256 digests headers calls) ∨
      ∃ before rest,
        Reading sha256 digests headers before rest (after sha256 digests headers calls) := by
  induction calls with
  | zero => exact .inr ⟨[], headers, reading_new sha256 digests headers⟩
  | succ calls ih =>
    rw [after_succ]
    rcases ih with hstopped | ⟨before, rest, hreading⟩
    · exact .inl hstopped.next
    · exact hreading.next.imp_right fun ⟨before', rest', hnext, _⟩ => ⟨before', rest', hnext⟩

/-- Enough calls come to the end of the archive, or to an error. -/
theorem exists_over (sha256 : Bytes → Bytes) (digests : Option FileDigestMap)
    (headers : List Header) : ∃ calls,
      Stopped sha256 digests headers (after sha256 digests headers calls) ∨
        ∃ before, Reading sha256 digests headers before [] (after sha256 digests headers calls) ∧
          (after sha256 digests headers calls).readState.endOfArchive = true := by
  suffices hover : ∀ (m n calls : Nat) (before : List Member) (rest : List Header),
      Reading sha256 digests headers before rest (after sha256 digests headers calls) →
      rest.length = m → (after sha256 digests headers calls).entryStack.length = n →
      ∃ calls, Stopped sha256 digests headers (after sha256 digests headers calls) ∨
        ∃ before, Reading sha256 digests headers before [] (after sha256 digests headers calls) ∧
          (after sha256 digests headers calls).readState.endOfArchive = true from
    hover _ _ 0 [] headers (reading_new sha256 digests headers) rfl rfl
  intro m
  induction m using Nat.strongRecOn with
  | ind m ihHeaders =>
    intro n
    induction n using Nat.strongRecOn with
    | ind n ihStack =>
      intro calls before rest hreading hrest hstack
      have hnext := hreading.next
      rw [← after_succ] at hnext
      rcases hnext with hstopped | ⟨before', rest', hreading', hend | hless | ⟨rfl, hless⟩⟩
      · exact ⟨_, .inl hstopped⟩
      · have hover := hreading'.ended hend
        subst hover
        exact ⟨_, .inr ⟨before', hreading', hend⟩⟩
      · exact ihHeaders _ (hrest ▸ hless) _ _ _ _ hreading' rfl rfl
      · exact ihStack _ (hstack ▸ hless) _ _ _ hreading' hrest rfl

/-- The limits on directories and symlinks are kept: after any number of calls, and an archive
with more of them ends in an error. -/
structure KeepsLimits (sha256 : Bytes → Bytes) (digests : Option FileDigestMap)
    (headers : List Header) : Prop where
  directories : ∀ calls,
    (after sha256 digests headers calls).fstree.length ≤ maxDirectoryCount
  symlinks : ∀ calls, (after sha256 digests headers calls).symlinks.length ≤ maxSymlinkCount
  exceeded : maxDirectoryCount < directoryCount (members headers) ∨
      maxSymlinkCount < symlinkCount (members headers) →
    ∃ calls, (after sha256 digests headers calls).hasError = true

/-- Where the limits are kept, no more directories were looked at than fit in the tree. -/
theorem KeepsLimits.directoryCount_le (h : KeepsLimits sha256 digests headers) :
    directoryCount (lookedAt sha256 digests [] (members headers)) ≤ maxDirectoryCount := by
  obtain ⟨last, hover⟩ := exists_over sha256 digests headers
  have hle := h.directories last
  rcases hover with hstopped | ⟨before, hreading, -⟩
  · rcases hstopped.full with hall | hmany
    · exact Nat.le_trans (directoryCount_le_length hall) hle
    · exact absurd hle (Nat.not_le.mpr hmany)
  · rw [hreading.lookedAt_eq]
    refine Nat.le_trans (directoryCount_le_length ?_) hle
    rw [show lookedAt sha256 digests before (members []) = [] from rfl, List.append_nil]
    exact hreading.all

/-- The limits are kept exactly if the members up to the first one that is refused name at most as
many directories as the limit. -/
theorem keepsLimits_iff (sha256 : Bytes → Bytes) (digests : Option FileDigestMap)
    (headers : List Header) : KeepsLimits sha256 digests headers ↔
      directoryCount (lookedAt sha256 digests [] (members headers)) ≤ maxDirectoryCount := by
  obtain ⟨last, hover⟩ := exists_over sha256 digests headers
  constructor
  · exact KeepsLimits.directoryCount_le
  · intro hfits
    have hcases (calls : Nat) :
        Stopped sha256 digests headers (after sha256 digests headers calls) ∨ ∃ before rest,
          Reading sha256 digests headers before rest (after sha256 digests headers calls) :=
      after_cases calls
    refine ⟨fun calls => ?_, fun calls => ?_, fun hexceeds => ⟨last, ?_⟩⟩
    · have hcounted : Counted (Archive.directories (lookedAt sha256 digests [] (members headers)))
          (after sha256 digests headers calls) := by
        rcases hcases calls with hstopped | ⟨before, rest, hreading⟩
        · exact hstopped.counted
        · exact hreading.counted
      exact Nat.le_trans (length_le_directoryCount hcounted.nodup hcounted.named) hfits
    · rcases hcases calls with hstopped | ⟨before, rest, hreading⟩
      · exact hstopped.symlinks_le
      · exact hreading.symlinks_le
    · rcases hover with hstopped | ⟨before, hreading, -⟩
      · exact hstopped.error
      -- all members were read without an error
      have hmembers : members headers = before := by
        rw [hreading.members_eq]
        exact List.append_nil before
      have hlookedAt : lookedAt sha256 digests [] (members headers) = before := by
        rw [hreading.lookedAt_eq]
        exact List.append_nil before
      rw [hlookedAt] at hfits
      rw [hmembers, hreading.symlinkCount_eq] at hexceeds
      rcases hexceeds with hmany | hmany
      · exact absurd hfits (Nat.not_le.mpr hmany)
      · exact absurd hreading.symlinks_le (Nat.not_le.mpr hmany)

/-! ## A deep directory -/

/-- The path `a/a/…/a/` of some number of names. -/
def deepPath (depth : Nat) : Bytes := (List.replicate depth [97, 47]).flatten

theorem splitOnP_deepPath (depth : Nat) :
    (deepPath depth).splitOnP (· = FilePath.separator) = List.replicate depth [97] ++ [[]] := by
  induction depth with
  | zero => rfl
  | succ depth ih =>
    have hcons : deepPath (depth + 1) = 97 :: 47 :: deepPath depth := by
      simp [deepPath, List.replicate_succ]
    rw [hcons, List.splitOnP_cons_eq_if_modifyHead, List.splitOnP_cons_eq_if_modifyHead, ih]
    simp [FilePath.separator, List.replicate_succ]

theorem foldl_normalStep_replicate (names : List Bytes) (depth : Nat) :
    (List.replicate depth [97]).foldl (FilePath.normalStep false) names =
      names ++ List.replicate depth [97] := by
  induction depth generalizing names with
  | zero => simp
  | succ depth ih =>
    have hstep : FilePath.normalStep false names [97] = names ++ [[97]] := by
      simp [FilePath.normalStep, FilePath.dot, FilePath.dotdot]
    rw [List.replicate_succ, List.foldl_cons, hstep, ih, List.append_assoc]
    rfl

/-- A directory that is many directories deep. -/
def deepDirectory (depth : Nat) : Member :=
  { pathname := some (deepPath depth), type := .directory, perm := 0o755, mtime := 0, size := 0
    symlink := none, blocks := [], dataEnd := .eof }

theorem parse_deepPath (depth : Nat) :
    FilePath.parse (deepPath (depth + 1)) = ⟨false, List.replicate (depth + 1) [97], true⟩ := by
  have hnames : (List.replicate (depth + 1) ([97] : Bytes) ++ [[]]).filter (· ≠ []) =
      List.replicate (depth + 1) [97] := by
    rw [List.filter_append, List.filter_replicate]
    simp
  have hlast : (deepPath (depth + 1)).getLast? = some FilePath.separator := by
    rw [deepPath, List.replicate_succ', List.flatten_append]
    simp [FilePath.separator]
  have hhead : (deepPath (depth + 1)).head? = some 97 := by
    simp [deepPath, List.replicate_succ]
  unfold FilePath.parse
  rw [splitOnP_deepPath, hnames, hlast, hhead]
  simp [List.replicate_succ, FilePath.separator]

theorem deepDirectory_path (depth : Nat) : (deepDirectory (depth + 1)).path =
    some ⟨false, List.replicate (depth + 1) [97], true⟩ := by
  have hne : List.replicate (depth + 1) ([97] : Bytes) ≠ [] := by simp
  have hlast : (List.replicate (depth + 1) ([97] : Bytes)).getLast? = some [97] := by
    rw [List.getLast?_replicate, if_neg (Nat.succ_ne_zero depth)]
  show some (FilePath.parse (deepPath (depth + 1))).lexicallyNormal = _
  rw [parse_deepPath, FilePath.lexicallyNormal, if_neg (by simp [FilePath.isEmpty])]
  dsimp only
  rw [foldl_normalStep_replicate, List.nil_append, if_neg hne, hlast]
  simp [FilePath.dotdot]

/-- The directories on the way to a deep directory have different lengths. -/
theorem directoriesBelow_replicate (current : List Bytes) (depth : Nat) :
    (directoriesBelow current (List.replicate depth [97] ++ [[]])).map List.length =
      List.range' (current.length + 1) depth := by
  induction depth generalizing current with
  | zero => simp [directoriesBelow]
  | succ depth ih =>
    rw [List.replicate_succ, List.cons_append, directoriesBelow,
      if_neg (by simp [FilePath.dot]), List.map_cons, ih, List.range'_succ]
    simp

theorem directoryCount_deepDirectory (depth : Nat) :
    directoryCount [deepDirectory (depth + 1)] = depth + 1 := by
  have hdirectories : (deepDirectory (depth + 1)).directories =
      directoriesBelow [] (List.replicate (depth + 1) [97] ++ [[]]) := by
    rw [Member.directories, deepDirectory_path]
    rfl
  have hlengths := directoriesBelow_replicate [] (depth + 1)
  have hnodup : (directoriesBelow [] (List.replicate (depth + 1) [97] ++ [[]])).Nodup :=
    List.Nodup.of_map List.length (hlengths ▸ List.nodup_range')
  rw [directoryCount, directories_singleton, hdirectories, hnodup.dedup,
    ← List.length_map (f := List.length), hlengths, List.length_range']

theorem lookedAt_deepDirectory (depth : Nat) :
    lookedAt id none [] (members [.entry (deepDirectory (depth + 1))]) =
      [deepDirectory (depth + 1)] := by
  have haccepted : acceptedPath [] (deepDirectory (depth + 1)) =
      some ⟨false, List.replicate (depth + 1) [97], true⟩ := by
    refine acceptedPath_eq_some_iff.mpr ⟨deepDirectory_path depth, ?_, ?_, .inl rfl⟩
    · refine verifyPackagePath_iff.mpr ⟨?_, rfl, ?_⟩
      · simp [FilePath.isEmpty]
      · simp [FilePath.components, FilePath.dotdot]
    · simp [symlinkPaths]
  rw [lookedAt_cons haccepted, if_pos (admitted_of_directory rfl)]
  rfl

/-- The archive with one directory that is 8193 directories deep is read without an error. -/
theorem not_keepsLimits : ¬ ∀ (sha256 : Bytes → Bytes) (digests : Option FileDigestMap)
    (headers : List Header), KeepsLimits sha256 digests headers := by
  intro h
  have hle := (h id none [.entry (deepDirectory (8192 + 1))]).directoryCount_le
  rw [lookedAt_deepDirectory, directoryCount_deepDirectory] at hle
  exact absurd hle (by decide)

end ArchiveReader

end Archive
