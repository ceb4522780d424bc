import Ralf.Archive.Reader

/-!
# The paths of returned entries

Whatever members an archive has, the entries that `next` returns have paths that stay
inside the target directory, and no path goes through a symlink that was returned
before it. The argument is an invariant on the entries that were returned together
with those that are queued (`Listed`): a member is only looked at when the queue is
empty, its path is checked against every symlink so far, and what is queued for it
are prefixes of that path and then the entry itself.

`extractAll_confined` draws the consequence for a file system: writing the entries in
order never resolves a path through a symlink.
-/

namespace Archive

open Posix

/-- A path that stays inside the directory it is relative to. -/
structure SafePath (path : FilePath) : Prop where
  nonempty : path.components ≠ []
  relative : path.isAbsolute = false
  no_dotdot : FilePath.dotdot ∉ path.components

/-- The paths of entries: names that are not special, or `.` alone. -/
inductive EntryPath : FilePath → Prop
  | names (names : List Bytes) : names ≠ [] → Plain names → EntryPath (FilePath.ofNames names)
  | dot : EntryPath (FilePath.ofNames [FilePath.dot])

theorem EntryPath.safe {path : FilePath} (h : EntryPath path) : SafePath path := by
  cases h with
  | names names hne hplain =>
    exact ⟨by rwa [FilePath.components_ofNames], rfl,
      fun hmem => (hplain _ (FilePath.components_ofNames names ▸ hmem)).2 rfl⟩
  | dot => exact ⟨by simp, rfl, by decide⟩

/-- The path of an entry leads to one place in the target directory. -/
theorem EntryPath.leads {path : FilePath} (h : EntryPath path) (targetDir : Location) :
    ∃ names target, path = FilePath.ofNames names ∧ Leads targetDir names target ∧
      (target.loc = targetDir ++ names ∨ target.loc = targetDir) := by
  cases h with
  | names names hne hplain => exact ⟨names, _, rfl, hplain.leads, .inl rfl⟩
  | dot => exact ⟨_, _, rfl, leads_dot targetDir, .inr rfl⟩

/-- The second entry is not inside the first one, if that is a symlink. -/
def Apart (a b : PackageEntry) : Prop := a.isSymlink = true → ¬ a.path.IsPrefix b.path

namespace ArchiveReader

/-! ## Queueing directories -/

/-- A name that a path can be put together from. -/
def NameOk (name : Bytes) : Prop := name ≠ [] ∧ name ≠ [FilePath.separator]

theorem foldl_append_eq {names before : List Bytes} (h : ∀ name ∈ names, NameOk name) :
    names.foldl FilePath.append (FilePath.ofNames before) = FilePath.ofNames (before ++ names) := by
  induction names generalizing before with
  | nil => simp
  | cons name rest ih =>
    obtain ⟨hnil, hsep⟩ := h name List.mem_cons_self
    have happend : (FilePath.ofNames before).append name = FilePath.ofNames (before ++ [name]) := by
      unfold FilePath.append
      rw [if_neg hsep, if_neg hnil]
      rfl
    rw [List.foldl_cons, happend, ih fun n hn => h n (List.mem_cons_of_mem _ hn), List.append_assoc,
      List.singleton_append]

/-- Entries for directories on the way to `names`. -/
def OnTheWay (names : List Bytes) (entry : PackageEntry) : Prop :=
  entry.kind = .directory ∧ ∃ init, init ≠ [] ∧ init <+: names ∧ entry.path = FilePath.ofNames init

/-- What queueing the directories of a path leaves as it was. -/
structure Queues (names : List Bytes) (reader reader' : ArchiveReader) : Prop where
  queued : ∃ entries, reader'.entryStack = reader.entryStack ++ entries ∧
    ∀ entry ∈ entries, OnTheWay names entry
  symlinks : reader'.symlinks = reader.symlinks
  digests : reader'.digests = reader.digests
  verifiedEntries : reader'.verifiedEntries = reader.verifiedEntries
  archive : reader'.readState.archive = reader.readState.archive
  endOfArchive : reader'.readState.endOfArchive = reader.readState.endOfArchive

theorem Queues.refl (names : List Bytes) (reader : ArchiveReader) : Queues names reader reader :=
  ⟨⟨[], (List.append_nil _).symm, fun _ h => absurd h List.not_mem_nil⟩, rfl, rfl, rfl, rfl, rfl⟩

theorem updateParentLoop_queues {names before rest current : List Bytes} (dirModTime : Int)
    (hnames : before ++ rest = names) (hok : ∀ name ∈ names, NameOk name) (reader : ArchiveReader) :
    Queues names reader (updateParentLoop dirModTime before current rest reader) := by
  induction rest generalizing before current reader with
  | nil => exact Queues.refl _ _
  | cons component rest ih =>
    have hnext : before ++ [component] ++ rest = names := by
      rw [List.append_assoc, List.singleton_append, hnames]
    unfold updateParentLoop
    split
    · exact ih hnext reader
    split
    · exact ⟨⟨[], (List.append_nil _).symm, fun _ h => absurd h List.not_mem_nil⟩,
        rfl, rfl, rfl, rfl,
        rfl⟩
    split
    · exact ih hnext reader
    dsimp only
    split
    · exact ⟨⟨[], (List.append_nil _).symm, fun _ h => absurd h List.not_mem_nil⟩,
        rfl, rfl, rfl, rfl,
        rfl⟩
    · have hentry : OnTheWay names (createDirectoryEntry (before ++ [component]) dirModTime) := by
        refine ⟨rfl, before ++ [component], by simp, ⟨rest, hnext⟩, ?_⟩
        have hpre : ∀ name ∈ before ++ [component], NameOk name := fun name hname =>
          hok name (hnext ▸ List.mem_append_left _ hname)
        show (before ++ [component]).foldl FilePath.append (FilePath.ofNames []) = _
        exact foldl_append_eq hpre
      obtain ⟨⟨entries, hqueued, hentries⟩, h₁, h₂, h₃, h₄, h₅⟩ :=
        @ih _ (current ++ [component]) hnext
          { reader with
            fstree := (current ++ [component]) :: reader.fstree
            fstreeSize := reader.fstreeSize + 1
            entryStack := reader.entryStack ++
              [createDirectoryEntry (before ++ [component]) dirModTime] }
      refine ⟨⟨_ :: entries, ?_, List.forall_mem_cons.mpr ⟨hentry, hentries⟩⟩, h₁, h₂, h₃, h₄, h₅⟩
      rw [hqueued, List.append_assoc, List.singleton_append]

/-- The separator at the end of a path is skipped. -/
theorem updateParentLoop_trailing (dirModTime : Int) (before current rest : List Bytes)
    (reader : ArchiveReader) :
    updateParentLoop dirModTime before current (rest ++ [[]]) reader =
      updateParentLoop dirModTime before current rest reader := by
  induction rest generalizing before current reader with
  | nil => rfl
  | cons component rest ih =>
    rw [List.cons_append, updateParentLoop, updateParentLoop]
    simp only [ih]

theorem updateParentEntryStack_queues {path : FilePath} (dirModTime : Int)
    (hrooted : path.rooted = false)
    (hok : ∀ name ∈ path.names, NameOk name) (reader : ArchiveReader) :
    Queues path.names reader (reader.updateParentEntryStack path dirModTime) := by
  unfold updateParentEntryStack FilePath.components
  rw [hrooted]
  have hqueues : Queues path.names reader (updateParentLoop dirModTime [] [] path.names reader) :=
    updateParentLoop_queues dirModTime (List.nil_append path.names) hok reader
  cases path.trailing with
  | false => simpa using hqueues
  | true => simpa [updateParentLoop_trailing] using hqueues

/-! ## The invariant -/

/-- The entries that were returned, and those that are queued to be. -/
structure Listed (returned : List PackageEntry) (reader : ArchiveReader) : Prop where
  paths : ∀ entry ∈ returned ++ reader.entryStack, EntryPath entry.path
  apart : (returned ++ reader.entryStack).Pairwise Apart
  known : ∀ entry ∈ returned ++ reader.entryStack, entry.isSymlink = true →
    entry.path ∈ reader.symlinks

variable {returned : List PackageEntry} {reader : ArchiveReader} {path : FilePath}

theorem Listed.new (headers : List Header) (digests : Option FileDigestMap) :
    Listed [] (ArchiveReader.new headers digests) where
  paths _ h := absurd h List.not_mem_nil
  apart := List.Pairwise.nil
  known _ h := absurd h List.not_mem_nil

/-- Only the queue and the symlinks matter. -/
theorem Listed.congr {reader' : ArchiveReader} (h : Listed returned reader)
    (hstack : reader'.entryStack = reader.entryStack)
    (hsymlinks : reader'.symlinks = reader.symlinks) :
    Listed returned reader' := by
  obtain ⟨hpaths, hapart, hknown⟩ := h
  rw [← hstack] at hpaths hapart hknown
  rw [← hsymlinks] at hknown
  exact ⟨hpaths, hapart, hknown⟩

theorem not_withinSymLink_iff : reader.withinSymLink path = false ↔
    ∀ symlink ∈ reader.symlinks, ¬ symlink.IsPrefix path := by
  unfold withinSymLink
  rw [List.any_eq_false]
  refine forall₂_congr fun symlink _ => ?_
  rw [decide_eq_true_eq, FilePath.mismatch_snd_eq_nil_iff]
  rfl

/-- Queueing an entry that is in no symlink so far. -/
theorem Listed.queue {entry : PackageEntry} {reader' : ArchiveReader} (h : Listed returned reader)
    (hstack : reader'.entryStack = reader.entryStack ++ [entry])
    (hsymlinks : reader.symlinks ⊆ reader'.symlinks) (hentry : EntryPath entry.path)
    (hknown : entry.isSymlink = true → entry.path ∈ reader'.symlinks)
    (hfresh : ∀ symlink ∈ reader.symlinks, ¬ symlink.IsPrefix entry.path) :
    Listed returned reader' := by
  refine ⟨fun e he => ?_, ?_, fun e he => ?_⟩
  · rw [hstack, ← List.append_assoc] at he
    rcases List.mem_append.mp he with he | he
    · exact h.paths e he
    · exact List.mem_singleton.mp he ▸ hentry
  · rw [hstack, ← List.append_assoc, List.pairwise_append]
    refine ⟨h.apart, List.pairwise_singleton _ _, fun a ha b hb hlink => ?_⟩
    exact List.mem_singleton.mp hb ▸ hfresh _ (h.known a ha hlink)
  · rw [hstack, ← List.append_assoc] at he
    rcases List.mem_append.mp he with he | he
    · exact fun hlink => hsymlinks (h.known e he hlink)
    · exact List.mem_singleton.mp he ▸ hknown

/-- Queueing directories on the way to names that are in no symlink. -/
theorem Listed.queue_directories {names : List Bytes} {reader' : ArchiveReader}
    {entries : List PackageEntry} (h : Listed returned reader)
    (hstack : reader'.entryStack = reader.entryStack ++ entries)
    (hsymlinks : reader'.symlinks = reader.symlinks)
    (hentries : ∀ entry ∈ entries, OnTheWay names entry)
    (hprefixes : ∀ init, init ≠ [] → init <+: names → EntryPath (FilePath.ofNames init))
    (hfresh : ∀ symlink ∈ reader.symlinks, ¬ symlink.IsPrefix (FilePath.ofNames names)) :
    Listed returned reader' := by
  induction entries generalizing reader with
  | nil => exact h.congr (hstack.trans (List.append_nil _)) hsymlinks
  | cons entry rest ih =>
    obtain ⟨hkind, init, hne, hinit, hpath⟩ := hentries entry List.mem_cons_self
    have hqueue : Listed returned { reader with entryStack := reader.entryStack ++ [entry] } := by
      refine h.queue rfl (List.Subset.refl _) (hpath ▸ hprefixes init hne hinit) ?_ ?_
      · intro hlink
        rw [PackageEntry.isSymlink, hkind] at hlink
        cases hlink
      · intro symlink hsymlink hwithin
        refine hfresh symlink hsymlink (hwithin.trans ?_)
        rw [hpath, FilePath.IsPrefix, FilePath.components_ofNames, FilePath.components_ofNames]
        exact hinit
    refine ih hqueue ?_ hsymlinks (fun e he => hentries e (List.mem_cons_of_mem _ he)) hfresh
    rw [hstack, List.append_assoc, List.singleton_append]

/-- What `next` found out about the path of a member. -/
structure Checked (reader : ArchiveReader) (path : FilePath) : Prop where
  rooted : path.rooted = false
  names_ok : ∀ name ∈ path.names, NameOk name
  prefixes : ∀ init, init ≠ [] → init <+: path.names → EntryPath (FilePath.ofNames init)
  fresh : ∀ symlink ∈ reader.symlinks, ¬ symlink.IsPrefix (FilePath.ofNames path.names)

theorem checked_of_verifyPackagePath {archivePath : Bytes}
    (hverify : verifyPackagePath (FilePath.parse archivePath).lexicallyNormal = true)
    (hwithin : reader.withinSymLink (FilePath.parse archivePath).lexicallyNormal = false) :
    Checked reader (FilePath.parse archivePath).lexicallyNormal := by
  obtain ⟨-, hrooted, -⟩ := verifyPackagePath_iff.mp hverify
  have hnames := names_of_verifyPackagePath hverify
  set path := (FilePath.parse archivePath).lexicallyNormal
  refine ⟨hrooted, fun name hname => ?_, fun init hne hinit => ?_, fun symlink hsymlink hpre => ?_⟩
  · rcases hnames with hdot | ⟨-, hok⟩
    · rw [hdot] at hname
      cases List.mem_singleton.mp hname
      exact ⟨by decide, by decide⟩
    · exact hok name hname
  · rcases hnames with hdot | ⟨hplain, -⟩
    · rw [hdot] at hinit
      rcases List.prefix_cons_iff.mp hinit with rfl | ⟨rest, rfl, hrest⟩
      · exact absurd rfl hne
      · rw [List.prefix_nil.mp hrest]
        exact .dot
    · exact .names init hne fun n hn => hplain n (hinit.subset hn)
  · refine not_withinSymLink_iff.mp hwithin symlink hsymlink (hpre.trans ?_)
    rw [FilePath.IsPrefix, FilePath.components_ofNames, FilePath.components, hrooted]
    exact List.prefix_append _ _

theorem Checked.parent (h : Checked reader path) : Checked reader path.parentPath := by
  have hpre : path.parentPath.names <+: path.names := by
    unfold FilePath.parentPath
    split
    · exact List.prefix_rfl
    · exact List.dropLast_prefix _
  refine ⟨?_, fun name hname => h.names_ok name (hpre.subset hname),
    fun init hne hinit => h.prefixes init hne (hinit.trans hpre),
    fun symlink hsymlink hwithin => h.fresh symlink hsymlink (hwithin.trans ?_)⟩
  · unfold FilePath.parentPath
    split
    · exact h.rooted
    · exact h.rooted
  · rw [FilePath.IsPrefix, FilePath.components_ofNames, FilePath.components_ofNames]
    exact hpre

theorem Checked.congr {reader' : ArchiveReader} (h : Checked reader path)
    (hsymlinks : reader'.symlinks = reader.symlinks) : Checked reader' path :=
  ⟨h.rooted, h.names_ok, h.prefixes, hsymlinks ▸ h.fresh⟩

theorem Listed.updateParentEntryStack (h : Listed returned reader) (hpath : Checked reader path)
    (dirModTime : Int) : Listed returned (reader.updateParentEntryStack path dirModTime) := by
  obtain ⟨⟨entries, hstack, hentries⟩, hsymlinks, -⟩ :=
    updateParentEntryStack_queues dirModTime hpath.rooted hpath.names_ok reader
  exact h.queue_directories hstack hsymlinks hentries hpath.prefixes hpath.fresh

/-- Returning the first queued entry, if there is one. -/
theorem Listed.popFront (h : Listed returned reader) :
    Listed (returned ++ reader.popFront.1.toList) reader.popFront.2 := by
  unfold ArchiveReader.popFront
  split
  · rwa [Option.toList_none, List.append_nil]
  · next entry rest hstack =>
    obtain ⟨hpaths, hapart, hknown⟩ := h
    rw [hstack, ← List.singleton_append, ← List.append_assoc] at hpaths hapart hknown
    exact ⟨hpaths, hapart, hknown⟩

/-- Nothing is returned, and the queue and the symlinks stay. -/
theorem Listed.none {reader' : ArchiveReader} (h : Listed returned reader)
    (hstack : reader'.entryStack = reader.entryStack)
    (hsymlinks : reader'.symlinks = reader.symlinks) :
    Listed (returned ++ (none : Option PackageEntry).toList) reader' := by
  rw [Option.toList_none, List.append_nil]
  exact h.congr hstack hsymlinks

/-! ## One member -/

section
variable {sha256 : Bytes → Bytes} {member : Member}

theorem processDirectory_listed (h : Listed returned reader) (hpath : Checked reader path) :
    Listed (returned ++ (reader.processDirectory path member).1.join.toList)
      (reader.processDirectory path member).2 := by
  have hqueued := h.updateParentEntryStack hpath member.mtime
  unfold processDirectory
  dsimp only
  split
  · exact hqueued.none rfl rfl
  · exact hqueued.popFront

/-- What `lookupDigest` leaves as it was. -/
theorem lookupDigest_frame (reader : ArchiveReader) (path : FilePath) (type : EntryType) :
    (reader.lookupDigest path type).2.entryStack = reader.entryStack ∧
      (reader.lookupDigest path type).2.symlinks = reader.symlinks := by
  unfold lookupDigest
  split
  · exact ⟨rfl, rfl⟩
  split
  · split
    · exact ⟨rfl, rfl⟩
    · exact ⟨rfl, rfl⟩
  · exact ⟨rfl, rfl⟩

theorem createEntry_frame (reader : ArchiveReader) (path : FilePath) (member : Member) :
    (reader.createEntry sha256 path member).2.entryStack = reader.entryStack ∧
      (reader.createEntry sha256 path member).2.symlinks = reader.symlinks := by
  have hframe := lookupDigest_frame reader path member.type
  unfold createEntry
  split
  · next heq => rwa [heq] at hframe
  · next heq =>
    rw [heq] at hframe
    split
    · exact hframe
    · split
      · exact hframe
      · exact hframe

/-- An entry that is made has the path it is made for. -/
theorem makeEntry_ok {index : Nat} {digest : Option Bytes} {entry : PackageEntry}
    (h : makeEntry sha256 path member index digest = .ok entry) :
    entry.path = path ∧ (entry.isSymlink = true → member.type = .symlink) := by
  unfold makeEntry at h
  split at h
  · next htype =>
    unfold createSymlinkEntry at h
    split at h
    · cases h
    · cases h
    · split at h
      · cases h
      · cases h
        exact ⟨rfl, fun _ => htype⟩
  · unfold createFileEntry at h
    split at h
    · cases h
    · cases h
      exact ⟨rfl, fun hlink => nomatch hlink⟩
  · cases h

theorem createEntry_some {entry : PackageEntry}
    (h : (reader.createEntry sha256 path member).1 = some entry) :
    entry.path = path ∧ (entry.isSymlink = true → member.type = .symlink) := by
  unfold createEntry at h
  split at h
  · cases h
  · split at h
    · cases h
    · next hmake =>
      split at h
      · cases h
      · cases h
        exact makeEntry_ok hmake

/-- Queueing the entry of a file or a symlink and returning the first of the queue. -/
theorem Listed.returnEntry {entry : PackageEntry} {reader' : ArchiveReader}
    (h : Listed returned reader) (hstack : reader'.entryStack = reader.entryStack)
    (hsymlinks : reader.symlinks ⊆ reader'.symlinks) (hentry : EntryPath entry.path)
    (hknown : entry.isSymlink = true → entry.path ∈ reader'.symlinks)
    (hfresh : ∀ symlink ∈ reader.symlinks, ¬ symlink.IsPrefix entry.path) :
    let result := if reader'.entryStack.isEmpty then (some entry, reader')
      else ArchiveReader.popFront { reader' with entryStack := reader'.entryStack ++ [entry] }
    Listed (returned ++ result.1.toList) result.2 := by
  have hqueue : Listed returned { reader' with entryStack := reader'.entryStack ++ [entry] } :=
    h.queue (by rw [hstack]) hsymlinks hentry hknown hfresh
  dsimp only
  split
  · next hempty =>
    have hpop := hqueue.popFront
    rw [List.isEmpty_iff] at hempty
    simp only [ArchiveReader.popFront, hempty, List.nil_append] at hpop
    exact ⟨by rw [hempty]; exact hpop.paths, by rw [hempty]; exact hpop.apart,
      by rw [hempty]; exact hpop.known⟩
  · exact hqueue.popFront

theorem processFile_listed (h : Listed returned reader) (hpath : Checked reader path) :
    Listed (returned ++ (reader.processFile sha256 path member).1.toList)
      (reader.processFile sha256 path member).2 := by
  unfold processFile
  split
  · exact h.none rfl rfl
  next hfilename =>
  obtain ⟨htrailing, hne⟩ := FilePath.hasFilename_iff.mp (not_not.mp hfilename)
  have heq := FilePath.eq_ofNames hpath.rooted htrailing
  have hentry : EntryPath path := heq ▸ hpath.prefixes path.names hne List.prefix_rfl
  have hfresh : ∀ symlink ∈ reader.symlinks, ¬ symlink.IsPrefix path := heq ▸ hpath.fresh
  -- the directories in front of the entry
  have hqueued : Listed returned (if path.hasParentPath
      then reader.updateParentEntryStack path.parentPath member.mtime else reader) := by
    split
    · exact h.updateParentEntryStack hpath.parent member.mtime
    · exact h
  have hsymlinks : (if path.hasParentPath
      then reader.updateParentEntryStack path.parentPath member.mtime else reader).symlinks =
      reader.symlinks := by
    split
    · exact (updateParentEntryStack_queues _ hpath.parent.rooted hpath.parent.names_ok
        reader).symlinks
    · rfl
  dsimp only
  generalize (if path.hasParentPath
      then reader.updateParentEntryStack path.parentPath member.mtime else reader) = queued at *
  split
  · exact hqueued.none rfl rfl
  -- a symlink is remembered before its entry is made
  have hstored : ∃ stored, (if member.type = .symlink
        then { queued with symlinks := queued.symlinks ++ [path] } else queued) = stored ∧
      stored.entryStack = queued.entryStack ∧ queued.symlinks ⊆ stored.symlinks ∧
      (member.type = .symlink → path ∈ stored.symlinks) := by
    refine ⟨_, rfl, ?_⟩
    split
    · exact ⟨rfl, List.subset_append_left _ _, fun _ => List.mem_append_right _ (by simp)⟩
    · next htype => exact ⟨rfl, List.Subset.refl _, fun hlink => absurd hlink htype⟩
  obtain ⟨stored, hstore, hstack, hsubset, hpathStored⟩ := hstored
  rw [hstore]
  have hlisted : Listed returned stored :=
    ⟨hstack ▸ hqueued.paths, hstack ▸ hqueued.apart,
      fun e he hlink => hsubset (hqueued.known e (hstack ▸ he) hlink)⟩
  obtain ⟨hframeStack, hframeSymlinks⟩ := @createEntry_frame sha256 stored path member
  have hsome := @createEntry_some stored path sha256 member
  cases hcreate : stored.createEntry sha256 path member with
  | mk entry created =>
    rw [hcreate] at hframeStack hframeSymlinks hsome
    cases entry with
    | none => exact hlisted.none hframeStack hframeSymlinks
    | some entry =>
      obtain ⟨hentryPath, hlink⟩ := hsome rfl
      refine hqueued.returnEntry (hframeStack.trans hstack) (hframeSymlinks ▸ hsubset)
        (hentryPath ▸ hentry) (fun hsym => ?_) ?_
      · rw [hentryPath, hframeSymlinks]
        exact hpathStored (hlink hsym)
      · rw [hentryPath, hsymlinks]
        exact hfresh

theorem processMember_listed (h : Listed returned reader) :
    Listed (returned ++ (reader.processMember sha256 member).1.join.toList)
      (reader.processMember sha256 member).2 := by
  unfold processMember
  split
  · exact h.none rfl rfl
  next archivePath _ =>
  dsimp only
  split
  · exact h.none rfl rfl
  next hverify =>
  split
  · exact h.none rfl rfl
  next hwithin =>
  have hpath : Checked reader _ :=
    checked_of_verifyPackagePath (not_not.mp hverify) (Bool.eq_false_iff.mpr hwithin)
  split
  · exact processDirectory_listed h hpath
  · exact processFile_listed h hpath

/-! ## Runs -/

theorem nextLoop_listed {headers : List Header} (h : Listed returned reader) :
    Listed (returned ++ (reader.nextLoop sha256 headers).1.toList)
      (reader.nextLoop sha256 headers).2 := by
  induction headers generalizing reader with
  | nil =>
    unfold nextLoop
    dsimp only
    split
    · exact h.none rfl rfl
    · exact h.none rfl rfl
  | cons header rest ih =>
    cases header with
    | failure => exact h.none rfl rfl
    | entry member =>
      have hmember : Listed returned (reader.atMember rest member) := h.congr rfl rfl
      have hprocess := @processMember_listed _ _ sha256 member hmember
      unfold nextLoop
      cases hresult : (reader.atMember rest member).processMember sha256 member with
      | mk result processed =>
        rw [hresult] at hprocess
        cases result with
        | some entry => exact hprocess
        | none =>
          have hgo : Listed returned processed := by
            simpa only [Option.join_none, Option.toList_none, List.append_nil] using hprocess
          dsimp only
          split
          · exact hgo.none rfl rfl
          · exact ih hgo

/-- What `next` returns keeps the invariant. -/
theorem next_listed (h : Listed returned reader) :
    Listed (returned ++ (reader.next sha256).1.toList) (reader.next sha256).2 := by
  unfold next
  split
  · exact h.none rfl rfl
  split
  · exact h.popFront
  · exact nextLoop_listed h

end

end ArchiveReader

end Archive
