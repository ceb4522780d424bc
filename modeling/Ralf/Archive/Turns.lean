import Ralf.Archive.Completeness

/-!
# What a call of `next` does

`Turn` says what the loop of `next` can do with one member, and `Advances` what a call can
do, with one constructor for each way through the source. A fact about all calls is an
induction on `Advances`, which never looks at the functions again.

A member is refused with an error, or it is a directory that was returned before, or entries
are queued for it and the first of the queue is returned.
-/

namespace Archive

/-- A symlink or file entry that was made for the member at an index. -/
inductive MadeFor (member : Member) (index : Nat) (entry : PackageEntry) : Prop
  | symlink {target : Bytes} (hkind : entry.kind = .symlink target) (htype : member.type = .symlink)
      (htarget : member.symlink = some target) (hpath : member.path = some entry.path) :
    MadeFor member index entry
  | file {digest : Option Bytes} (hkind : entry.kind = .file digest index)
      (htype : member.type = .regular) (hpath : member.path = some entry.path) :
    MadeFor member index entry

namespace ArchiveReader

variable {sha256 : Bytes → Bytes} {reader : ArchiveReader} {member : Member} {path : FilePath}

/-- Without directories in front of it nothing is queued for a path. -/
theorem updateParentEntryStack_parentPath (dirModTime : Int)
    (hfilename : path.hasFilename = true) :
    (if path.hasParentPath then reader.updateParentEntryStack path.parentPath dirModTime
      else reader) = reader.updateParentEntryStack path.parentPath dirModTime := by
  split
  · rfl
  next hparent =>
  have hempty : path.parentPath.isEmpty = true := by
    simpa [FilePath.hasParentPath] using hparent
  have hparts := Bool.and_eq_true_iff.mp hempty
  have hrooted : path.parentPath.rooted = false := by simpa using hparts.1
  have hnames : path.parentPath.names = [] := by simpa using hparts.2
  have hend := (FilePath.parentPath_of_hasFilename hfilename).2
  unfold updateParentEntryStack FilePath.components
  rw [hrooted, hnames, hend]
  rfl

/-- The error that `next` sets when the archive cannot be read at a header. -/
def headerError : Error := .ralf .packageContentsInvalid "Failure processing archive entry"

/-- An error was set at a member: it is not the one of a header that cannot be read. -/
structure FailedAtMember (state state' : SharedReadState) : Prop where
  hasError : state'.error.isSome = true
  error_ne : state'.error ≠ some headerError
  entryIndex : state'.entryIndex = state.entryIndex
  endOfArchive : state'.endOfArchive = state.endOfArchive

theorem FailedAtMember.of_error {error : Error} (state : SharedReadState)
    (h : error ≠ headerError) : FailedAtMember state { state with error := some error } :=
  ⟨rfl, fun heq => h (Option.some.inj heq), rfl, rfl⟩

/-- A state is kept but for an error that was set at a member. -/
def KeptOrFailed (state state' : SharedReadState) : Prop :=
  FailedAtMember state state' ∨ state' = state

theorem KeptOrFailed.of_error {state state' : SharedReadState} {error : Error}
    (h : KeptOrFailed state state') (hne : error ≠ headerError) :
    FailedAtMember state { state' with error := some error } := by
  rcases h with hfailed | rfl
  · exact ⟨rfl, fun heq => hne (Option.some.inj heq), hfailed.entryIndex, hfailed.endOfArchive⟩
  · exact .of_error _ hne

theorem KeptOrFailed.failed {state state' : SharedReadState} (h : KeptOrFailed state state')
    (hclean : state.error.isSome = false) (herror : state'.error.isSome = true) :
    FailedAtMember state state' :=
  h.resolve_right fun heq => absurd (herror.symm.trans (heq ▸ hclean)) (by decide)

theorem KeptOrFailed.kept {state state' : SharedReadState} (h : KeptOrFailed state state')
    (hclean : state'.error.isSome = false) : state' = state :=
  h.resolve_left fun hfailed => absurd (hfailed.hasError.symm.trans hclean) (by decide)

/-- Queueing directories changes the shared state at most by an error. -/
theorem updateParentLoop_readState (dirModTime : Int) (before current rest : List Bytes)
    (reader : ArchiveReader) :
    KeptOrFailed reader.readState
      (updateParentLoop dirModTime before current rest reader).readState := by
  induction rest generalizing before current reader with
  | nil => exact .inr rfl
  | cons component rest ih =>
    unfold updateParentLoop
    split
    · exact ih _ _ reader
    split
    · exact .inl (.of_error _ (by decide))
    split
    · exact ih _ _ reader
    dsimp only
    split
    · exact .inl (.of_error _ (by decide))
    · exact ih _ _ { reader with
        fstree := (current ++ [component]) :: reader.fstree
        fstreeSize := reader.fstreeSize + 1
        entryStack :=
          reader.entryStack ++ [createDirectoryEntry (before ++ [component]) dirModTime] }

/-- The text of the error of a large file is another one. -/
theorem tooLarge_ne (path : String) :
    s!"'{path}' file in archive is too large" ≠ "Failure processing archive entry" := by
  intro h
  have hhead : ("'" ++ path ++ "' file in archive is too large").toList.head? = some 'F' :=
    congrArg (fun text : String => text.toList.head?) h
  simp at hhead

theorem makeEntry_error_ne {index : Nat} {digest : Option Bytes} {error : Error}
    (h : makeEntry sha256 path member index digest = .error error) : error ≠ headerError := by
  unfold makeEntry at h
  split at h
  · unfold createSymlinkEntry at h
    split at h
    · cases h
      simp [Error.ralf, headerError]
    · cases h
      simp [Error.ralf, headerError]
    · split at h
      · cases h
        simp [Error.ralf, headerError]
      · cases h
  · unfold createFileEntry at h
    split at h
    · cases h
      exact fun h => tooLarge_ne _ (congrArg Error.what h)
    · cases h
  · cases h
    simp [Error.ralf, headerError]

/-- Without an entry there is an error. -/
theorem createEntry_failed {state : SharedReadState} {reader' : ArchiveReader}
    (hstate : KeptOrFailed state reader.readState) (hclean : state.error.isSome = false)
    (h : reader.createEntry sha256 path member = (none, reader')) :
    FailedAtMember state reader'.readState := by
  have hlookup : (reader.lookupDigest path member.type).2.readState = reader.readState ∧
      ∀ error, (reader.lookupDigest path member.type).1 = .error error → error ≠ headerError := by
    unfold lookupDigest
    split
    · exact ⟨rfl, nofun⟩
    split
    · split
      · refine ⟨rfl, fun error herror => ?_⟩
        cases herror
        simp [Error.ralf, headerError]
      · exact ⟨rfl, nofun⟩
    · exact ⟨rfl, nofun⟩
  unfold createEntry at h
  split at h
  · next error found heq =>
    rw [heq] at hlookup
    cases h
    rw [← hlookup.1] at hstate
    exact hstate.of_error (hlookup.2 error rfl)
  next digest found heq =>
  rw [heq] at hlookup
  rw [← hlookup.1] at hstate
  split at h
  · next error hmake =>
    cases h
    exact hstate.of_error (makeEntry_error_ne hmake)
  split at h
  · next herror =>
    cases h
    exact hstate.failed hclean herror
  · cases h

theorem makeEntry_madeFor {path : FilePath} {index : Nat} {digest : Option Bytes}
    (hpath : member.path = some path)
    (h : makeEntry sha256 path member index digest = .ok entry) : MadeFor member index entry := by
  unfold makeEntry at h
  split at h
  · next htype =>
    unfold createSymlinkEntry at h
    rcases htarget : member.symlink with _ | _ | ⟨b, target⟩
    · rw [htarget] at h
      cases h
    · rw [htarget] at h
      cases h
    · rw [htarget] at h
      dsimp only at h
      split at h
      · cases h
      · cases h
        exact .symlink rfl htype htarget hpath
  · next htype =>
    unfold createFileEntry at h
    split at h
    · cases h
    · cases h
      exact .file rfl htype hpath
  · cases h

/-- The path of a member as `next` uses it: in normal form, and accepted. -/
structure Accepted (reader : ArchiveReader) (member : Member) (path : FilePath) : Prop where
  member_path : member.path = some path
  verified : verifyPackagePath path = true
  checked : Checked reader path

/-- The digest for an entry is the one that the map has, if there is a map. -/
def Looked (reader : ArchiveReader) (path : FilePath) (digest : Option Bytes) : Prop :=
  ∀ digests, reader.digests = some digests → digest.isSome = true ∧ digests.find path = digest

/-- What one turn of the loop of `next` does with a member. -/
inductive Turn (sha256 : Bytes → Bytes) (reader : ArchiveReader) (member : Member) :
    Option (Option PackageEntry) × ArchiveReader → Prop
  | refused {reader' : ArchiveReader}
      (hfailed : FailedAtMember reader.readState reader'.readState) :
    Turn sha256 reader member (some none, reader')
  | known {path : FilePath} {queued : ArchiveReader} (hpath : Accepted reader member path)
      (htype : member.type = .directory)
      (hqueued : reader.updateParentEntryStack path member.mtime = queued)
      (hempty : queued.entryStack = []) :
    Turn sha256 reader member (none, queued)
  | directory {path : FilePath} {queued : ArchiveReader} {first : PackageEntry}
      {rest : List PackageEntry} (hpath : Accepted reader member path)
      (htype : member.type = .directory)
      (hqueued : reader.updateParentEntryStack path member.mtime = queued)
      (hstack : queued.entryStack = first :: rest) :
    Turn sha256 reader member (some (some first), { queued with entryStack := rest })
  | file {path : FilePath} {queued : ArchiveReader} {digest : Option Bytes}
      {entry first : PackageEntry} {rest : List PackageEntry} {symlinks : List FilePath}
      {verifiedEntries : Nat} (hpath : Accepted reader member path)
      (htype : member.type ≠ .directory) (hfilename : path.hasFilename = true)
      (hqueued : reader.updateParentEntryStack path.parentPath member.mtime = queued)
      (hclean : queued.hasError = false)
      (hmake : makeEntry sha256 path member queued.readState.entryIndex digest = .ok entry)
      (hdigest : Looked queued path digest)
      (hstack : queued.entryStack ++ [entry] = first :: rest) :
    Turn sha256 reader member
      (some (some first),
        { queued with
          symlinks := symlinks
          verifiedEntries := verifiedEntries
          entryStack := rest })

/-- The directories that are queued for a member, and the state of the reader then. -/
theorem queued_for {path : FilePath} {queued : ArchiveReader} {mtime : Int}
    (hchecked : Checked reader path) (hstack : reader.entryStack = [])
    (hqueued : reader.updateParentEntryStack path mtime = queued) :
    (∀ entry ∈ queued.entryStack, entry.kind = .directory) ∧
      queued.readState.endOfArchive = reader.readState.endOfArchive ∧
      queued.readState.archive = reader.readState.archive ∧
      KeptOrFailed reader.readState queued.readState := by
  obtain ⟨⟨entries, hentries, hway⟩, -, -, -, harchive, hend⟩ :=
    updateParentEntryStack_queues mtime hchecked.rooted hchecked.names_ok reader
  rw [hqueued] at hentries harchive hend
  rw [hstack, List.nil_append] at hentries
  have hstate := updateParentLoop_readState mtime [] [] path.components reader
  rw [show updateParentLoop mtime [] [] path.components reader = queued from hqueued] at hstate
  exact ⟨fun entry hentry => (hway entry (hentries ▸ hentry)).1, hend, harchive, hstate⟩

theorem processDirectory_turn (hpath : Accepted reader member path)
    (htype : member.type = .directory) :
    Turn sha256 reader member (reader.processDirectory path member) := by
  unfold processDirectory
  dsimp only
  cases hstack : (reader.updateParentEntryStack path member.mtime).entryStack with
  | nil => exact .known hpath htype rfl hstack
  | cons first rest =>
    rw [popFront_cons hstack]
    exact .directory hpath htype rfl hstack

/-- What `createEntry` changes, when it makes an entry. -/
theorem createEntry_made {entry : PackageEntry} {reader' : ArchiveReader}
    (h : reader.createEntry sha256 path member = (some entry, reader')) :
    reader.hasError = false ∧
      (∃ digest, Looked reader path digest ∧
        makeEntry sha256 path member reader.readState.entryIndex digest = .ok entry) ∧
      ∃ verifiedEntries, reader' = { reader with verifiedEntries := verifiedEntries } := by
  unfold createEntry at h
  split at h
  · cases h
  next digest found hlookup =>
  have hfound : (∃ verifiedEntries,
      found = { reader with verifiedEntries := verifiedEntries }) ∧
      (member.type = .regular ∨ member.type = .symlink → Looked reader path digest) := by
    unfold lookupDigest at hlookup
    split at hlookup
    · next hnone =>
      cases hlookup
      refine ⟨⟨_, rfl⟩, fun _ digests hdigests => ?_⟩
      cases hnone.symm.trans hdigests
    next map hmap =>
    split at hlookup
    · split at hlookup
      · cases hlookup
      next found hfind =>
      cases hlookup
      refine ⟨⟨_, rfl⟩, fun _ digests hdigests => ?_⟩
      cases hmap.symm.trans hdigests
      exact ⟨rfl, hfind⟩
    · next htype =>
      cases hlookup
      exact ⟨⟨_, rfl⟩, fun hfile => absurd hfile htype⟩
  obtain ⟨⟨verifiedEntries, rfl⟩, hlooked⟩ := hfound
  split at h
  · cases h
  next made hmake =>
  split at h
  · cases h
  next hclean =>
  cases h
  exact ⟨Bool.eq_false_iff.mpr hclean, ⟨digest, hlooked (makeEntry_type hmake), hmake⟩,
    verifiedEntries, rfl⟩

theorem processFile_turn (hpath : Accepted reader member path) (hclean : reader.hasError = false)
    (htype : member.type ≠ .directory) :
    Turn sha256 reader member
      (some (reader.processFile sha256 path member).1,
        (reader.processFile sha256 path member).2) := by
  unfold processFile
  split
  · exact .refused (.of_error _ (by simp [Error.ralf, headerError]))
  next hfilename =>
  have hfilename : path.hasFilename = true := not_not.mp hfilename
  dsimp only
  rw [updateParentEntryStack_parentPath member.mtime hfilename]
  generalize hqueued : reader.updateParentEntryStack path.parentPath member.mtime = queued
  have hstate := updateParentLoop_readState member.mtime [] [] path.parentPath.components reader
  rw [show updateParentLoop member.mtime [] [] path.parentPath.components reader = queued from
    hqueued] at hstate
  split
  · exact .refused (hstate.of_error (by decide))
  obtain ⟨symlinks, hstore⟩ := storeSymlink_eq queued path member
  rw [hstore]
  cases hcreate : createEntry sha256 { queued with symlinks := symlinks } path member with
  | mk entry created =>
    cases entry with
    | none => exact .refused (createEntry_failed (by exact hstate) hclean hcreate)
    | some entry =>
      obtain ⟨hclean, ⟨digest, hdigest, hmake⟩, verifiedEntries, rfl⟩ := createEntry_made hcreate
      have hfile := fun first rest => @Turn.file sha256 reader member path queued digest entry
        first rest symlinks verifiedEntries hpath htype hfilename hqueued hclean hmake hdigest
      cases hqueue : queued.entryStack with
      | nil => exact hfile entry [] (by rw [hqueue]; rfl)
      | cons first rest =>
        exact hfile first (rest ++ [entry]) (by rw [hqueue]; rfl)

theorem processMember_turn (hclean : reader.hasError = false) (member : Member) :
    Turn sha256 reader member (reader.processMember sha256 member) := by
  unfold processMember
  cases hname : member.pathname with
  | none => exact .refused (.of_error _ (by decide))
  | some archivePath =>
    dsimp only
    split
    · exact .refused (.of_error _ (by simp [Error.ralf, headerError]))
    next hverify =>
    split
    · exact .refused (.of_error _ (by simp [Error.ralf, headerError]))
    next hwithin =>
    have hpath : Accepted reader member (FilePath.parse archivePath).lexicallyNormal := by
      refine ⟨?_, not_not.mp hverify, ?_⟩
      · rw [Member.path, hname]
        rfl
      · exact checked_of_verifyPackagePath (not_not.mp hverify) (Bool.eq_false_iff.mpr hwithin)
    split
    · next htype => exact processDirectory_turn hpath htype
    · next htype => exact processFile_turn hpath hclean htype

/-- What a call of `next` does. -/
inductive Advances (sha256 : Bytes → Bytes) :
    ArchiveReader → Option PackageEntry × ArchiveReader → Prop
  | stopped {reader : ArchiveReader}
      (hstop : reader.hasError = true ∨ reader.readState.endOfArchive = true) :
    Advances sha256 reader (none, reader)
  | queued {reader : ArchiveReader} {first : PackageEntry} {rest : List PackageEntry}
      (hclean : reader.hasError = false) (hopen : reader.readState.endOfArchive = false)
      (hstack : reader.entryStack = first :: rest) :
    Advances sha256 reader (some first, { reader with entryStack := rest })
  | atEnd {reader : ArchiveReader} (hclean : reader.hasError = false)
      (hopen : reader.readState.endOfArchive = false) (hstack : reader.entryStack = [])
      (hheaders : reader.readState.archive.headers = []) :
    Advances sha256 reader
      (none, { reader with readState := { reader.readState with endOfArchive := true } })
  | missing {reader reader' : ArchiveReader} (hclean : reader.hasError = false)
      (hopen : reader.readState.endOfArchive = false) (hstack : reader.entryStack = [])
      (hheaders : reader.readState.archive.headers = [])
      (hindex : reader'.readState.entryIndex = reader.readState.entryIndex)
      (herror : reader'.hasError = true) (hend : reader'.readState.endOfArchive = true) :
    Advances sha256 reader (none, reader')
  | failed {reader reader' : ArchiveReader} {rest : List Header}
      (hclean : reader.hasError = false) (hopen : reader.readState.endOfArchive = false)
      (hstack : reader.entryStack = [])
      (hheaders : reader.readState.archive.headers = .failure :: rest)
      (hindex : reader'.readState.entryIndex = reader.readState.entryIndex)
      (herror : reader'.readState.error = some headerError) :
    Advances sha256 reader (none, reader')
  | member {reader : ArchiveReader} {member : Member} {rest : List Header}
      {entry : Option PackageEntry} {reader' : ArchiveReader} (hclean : reader.hasError = false)
      (hopen : reader.readState.endOfArchive = false) (hstack : reader.entryStack = [])
      (hheaders : reader.readState.archive.headers = .entry member :: rest)
      (hturn : Turn sha256 (reader.atMember rest member) member (some entry, reader')) :
    Advances sha256 reader (entry, reader')
  | known {reader : ArchiveReader} {member : Member} {rest : List Header}
      {processed : ArchiveReader} {result : Option PackageEntry × ArchiveReader}
      (hclean : reader.hasError = false) (hopen : reader.readState.endOfArchive = false)
      (hstack : reader.entryStack = [])
      (hheaders : reader.readState.archive.headers = .entry member :: rest)
      (hturn : Turn sha256 (reader.atMember rest member) member (none, processed))
      (hnext : Advances sha256 processed result) :
    Advances sha256 reader result

theorem nextLoop_advances {headers : List Header} (hclean : reader.hasError = false)
    (hopen : reader.readState.endOfArchive = false) (hstack : reader.entryStack = [])
    (hheaders : reader.readState.archive.headers = headers) :
    Advances sha256 reader (reader.nextLoop sha256 headers) := by
  induction headers generalizing reader with
  | nil =>
    unfold nextLoop
    dsimp only
    split
    · exact .missing hclean hopen hstack hheaders rfl rfl rfl
    · exact .atEnd hclean hopen hstack hheaders
  | cons header rest ih =>
    cases header with
    | failure => exact .failed hclean hopen hstack hheaders rfl rfl
    | entry member =>
      have hturn := @processMember_turn sha256 (reader.atMember rest member) hclean member
      unfold nextLoop
      generalize (reader.atMember rest member).processMember sha256 member = turn at hturn ⊢
      obtain ⟨_ | entry, processed⟩ := turn
      · refine .known hclean hopen hstack hheaders hturn ?_
        dsimp only
        split
        · next herror => exact .stopped (.inl herror)
        · next herror =>
          cases hturn with
          | @known path _ hpath htype hqueued hempty =>
            obtain ⟨-, -, -, -, harchive, hend⟩ := updateParentEntryStack_queues member.mtime
              hpath.checked.rooted hpath.checked.names_ok (reader.atMember rest member)
            rw [hqueued] at harchive hend
            exact ih (Bool.eq_false_iff.mpr herror) (hend.trans hopen) hempty
              (congrArg LibarchiveReader.headers harchive)
      · exact .member hclean hopen hstack hheaders hturn

theorem next_advances (reader : ArchiveReader) : Advances sha256 reader (reader.next sha256) := by
  unfold next
  split
  · next hstop => exact .stopped hstop
  next hstop =>
  have hclean : reader.hasError = false := Bool.eq_false_iff.mpr fun h => hstop (.inl h)
  have hopen : reader.readState.endOfArchive = false :=
    Bool.eq_false_iff.mpr fun h => hstop (.inr h)
  cases hstack : reader.entryStack with
  | nil => exact nextLoop_advances hclean hopen hstack rfl
  | cons first rest =>
    rw [popFront_cons hstack]
    exact .queued hclean hopen hstack

/-- A call that gives nothing found the end, or an error. -/
theorem Advances.none_stops {result : Option PackageEntry × ArchiveReader}
    (h : Advances sha256 reader result) (hnone : result.1 = none) :
    result.2.hasError = true ∨ result.2.readState.endOfArchive = true := by
  induction h with
  | stopped hstop => exact hstop
  | queued => cases hnone
  | atEnd => exact .inr rfl
  | missing _ _ _ _ _ herror => exact .inl herror
  | failed _ _ _ _ _ herror => exact .inl (by rw [hasError, herror]; rfl)
  | member _ _ _ _ hturn =>
    cases hturn with
    | refused hfailed => exact .inl hfailed.hasError
    | directory => cases hnone
    | file => cases hnone
  | known _ _ _ _ _ _ ih => exact ih hnone

end ArchiveReader

end Archive
