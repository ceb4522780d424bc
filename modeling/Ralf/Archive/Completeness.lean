import Mathlib.Data.List.Nodup
import Mathlib.Data.List.Perm.Subperm
import Ralf.Archive.Confinement

/-!
# Signed files against members

A digest map and an archive agree when each path of the map is a member and each
member that is not a directory has a path of the map and contents with its digest
(`Complete`). An `ArchiveReader` decides this by counting: it accepts an archive in
which each such member is signed when there are as many of them as the map has
paths. `complete_iff_nodup` says what that count is worth: the paths of the map are
all there exactly when no member has the path of another.
-/

/-- Of two lists of one length, one without duplicates that has all elements of the
other, the other has all elements of the one just when it has no duplicates. -/
theorem List.subset_iff_nodup_of_length_eq {α : Type} {xs ys : List α} (hys : ys.Nodup)
    (hsubset : xs ⊆ ys) (hlength : xs.length = ys.length) : ys ⊆ xs ↔ xs.Nodup := by
  refine ⟨fun h => ?_, fun hxs => ?_⟩
  · have hperm := (List.subperm_of_subset hys h).perm_of_length_le hlength.le
    exact hperm.nodup_iff.mp hys
  · exact ((List.subperm_of_subset hxs hsubset).perm_of_length_le hlength.ge).symm.subset

namespace Archive

/-! ## The law -/

/-- The path of a member in normal form. -/
def Member.path (member : Member) : Option FilePath :=
  member.pathname.map fun name => (FilePath.parse name).lexicallyNormal

/-- The bytes that a signature covers: a symlink's target, or the file that the data
blocks make. -/
def Member.contents (member : Member) : Bytes :=
  match member.type with
  | .symlink => member.symlink.getD []
  | _ => member.blocks.foldl
      (fun contents block => pwrite contents block.bytes block.offset.toNat) []

/-- The members that the library gives: those in front of a header that fails. -/
def members : List Header → List Member
  | .entry member :: rest => member :: members rest
  | _ => []

/-- The members that are not directories. -/
def fileMembers (headers : List Header) : List Member :=
  (members headers).filter fun member => member.type ≠ .directory

/-- No two members that are not directories have the same path. -/
def DistinctPaths (headers : List Header) : Prop := ((fileMembers headers).map Member.path).Nodup

/-- The paths of the map are members, and all members are signed. -/
structure Complete (sha256 : Bytes → Bytes) (digests : FileDigestMap)
    (headers : List Header) : Prop where
  present : ∀ path ∈ digests.paths, ∃ member ∈ fileMembers headers, member.path = some path
  signed : ∀ member ∈ fileMembers headers, ∃ path digest, member.path = some path ∧
    digests.find path = some digest ∧ sha256 member.contents = digest

theorem members_append (done : List Member) (rest : List Header) :
    members (done.map .entry ++ rest) = done ++ members rest := by
  induction done with
  | nil => rfl
  | cons member done ih => exact congrArg (member :: ·) ih

/-- What the count of signed members is worth. -/
theorem present_iff_nodup {digests : FileDigestMap} {files : List Member}
    (hsigned : ∀ member ∈ files, ∃ path digest, member.path = some path ∧
      digests.find path = some digest)
    (hcount : files.length = digests.size) :
    (∀ path ∈ digests.paths, ∃ member ∈ files, member.path = some path) ↔
      (files.map Member.path).Nodup := by
  have hkeys : (digests.paths.map some).Nodup :=
    List.Nodup.map (Option.some_injective _) digests.nodup
  have hsubset : files.map Member.path ⊆ digests.paths.map some := by
    intro path hpath
    obtain ⟨member, hmember, rfl⟩ := List.mem_map.mp hpath
    obtain ⟨path, digest, hpath, hfind⟩ := hsigned member hmember
    rw [hpath]
    exact List.mem_map_of_mem (FileDigestMap.find_isSome_iff.mp (by rw [hfind]; rfl))
  have hlength : (files.map Member.path).length = (digests.paths.map some).length := by
    rw [List.length_map, hcount, List.length_map, FileDigestMap.paths, List.length_map]
    rfl
  rw [← List.subset_iff_nodup_of_length_eq hkeys hsubset hlength]
  refine ⟨fun h path hpath => ?_, fun h path hpath => ?_⟩
  · obtain ⟨path, hmem, rfl⟩ := List.mem_map.mp hpath
    obtain ⟨member, hmember, heq⟩ := h path hmem
    exact heq ▸ List.mem_map_of_mem hmember
  · exact List.mem_map.mp (h (List.mem_map_of_mem hpath))

/-- When as many members are signed as the map has paths, the law holds exactly if
their paths are distinct. -/
theorem complete_iff_nodup {sha256 : Bytes → Bytes} {digests : FileDigestMap}
    {headers : List Header}
    (hsigned : ∀ member ∈ fileMembers headers, ∃ path digest, member.path = some path ∧
      digests.find path = some digest ∧ sha256 member.contents = digest)
    (hcount : (fileMembers headers).length = digests.size) :
    Complete sha256 digests headers ↔ DistinctPaths headers := by
  have hpaths : ∀ member ∈ fileMembers headers, ∃ path digest, member.path = some path ∧
      digests.find path = some digest := by
    intro member hmember
    obtain ⟨path, digest, hpath, hfind, -⟩ := hsigned member hmember
    exact ⟨path, digest, hpath, hfind⟩
  rw [DistinctPaths, ← present_iff_nodup hpaths hcount]
  exact ⟨fun h => h.present, fun h => ⟨h, hsigned⟩⟩

/-! ## What the archive reader checks -/

namespace ArchiveReader

/-- What the reader has established of a member that is not a directory: it is signed,
a symlink has its digest, and the entry of a file carries the digest that its
contents are to be checked with. -/
def Delivered (sha256 : Bytes → Bytes) (digests : FileDigestMap) (listed : List PackageEntry)
    (member : Member) : Prop :=
  ∃ path digest, member.path = some path ∧ digests.find path = some digest ∧
    (member.type = .symlink ∧ sha256 member.contents = digest ∨
      member.type = .regular ∧ ∃ entry ∈ listed, entry.path = path ∧
        ∃ index, entry.kind = .file (some digest) index)

variable {sha256 : Bytes → Bytes} {digests : FileDigestMap} {listed : List PackageEntry}
  {member : Member} {reader : ArchiveReader} {path : FilePath}

theorem Delivered.mono {listed' : List PackageEntry} (h : Delivered sha256 digests listed member)
    (hsubset : listed ⊆ listed') : Delivered sha256 digests listed' member := by
  obtain ⟨path, digest, hpath, hfind, hsymlink | ⟨htype, entry, hentry, hcarries⟩⟩ := h
  · exact ⟨path, digest, hpath, hfind, .inl hsymlink⟩
  · exact ⟨path, digest, hpath, hfind, .inr ⟨htype, entry, hsubset hentry, hcarries⟩⟩

theorem makeEntry_type {index : Nat} {digest : Option Bytes} {entry : PackageEntry}
    (h : makeEntry sha256 path member index digest = .ok entry) :
    member.type = .regular ∨ member.type = .symlink := by
  unfold makeEntry at h
  split at h
  · next htype => exact .inr htype
  · next htype => exact .inl htype
  · cases h

/-- A symlink is checked when its entry is made, a file carries its digest. -/
theorem makeEntry_signed {index : Nat} {digest : Bytes} {entry : PackageEntry}
    (h : makeEntry sha256 path member index (some digest) = .ok entry) :
    member.type = .symlink ∧ sha256 member.contents = digest ∨
      member.type = .regular ∧ entry.path = path ∧
        ∃ index, entry.kind = .file (some digest) index := by
  unfold makeEntry at h
  split at h
  · next htype =>
    refine .inl ⟨htype, ?_⟩
    unfold createSymlinkEntry at h
    split at h
    · cases h
    · cases h
    · next target _ htarget =>
      split at h
      · cases h
      · next hverify =>
        have hdigest : digest = sha256 target := by simpa using hverify
        rw [Member.contents, htype]
        show sha256 (member.symlink.getD []) = digest
        rw [htarget, hdigest]
        rfl
  · next htype =>
    refine .inr ⟨htype, ?_⟩
    unfold createFileEntry at h
    split at h
    · cases h
    · cases h
      exact ⟨rfl, _, rfl⟩
  · cases h

/-- An entry that is made is for a signed member. -/
theorem createEntry_signed {entry : PackageEntry} {reader' : ArchiveReader}
    (hdigests : reader.digests = some digests) (hpath : member.path = some path)
    (h : reader.createEntry sha256 path member = (some entry, reader')) :
    reader' = { reader with verifiedEntries := reader.verifiedEntries + 1 } ∧
      Delivered sha256 digests [entry] member := by
  unfold createEntry at h
  split at h
  · cases h
  next digest found hlookup =>
  split at h
  · cases h
  next made hmake =>
  split at h
  · cases h
  cases h
  unfold lookupDigest at hlookup
  rw [hdigests] at hlookup
  dsimp only at hlookup
  rw [if_pos (makeEntry_type hmake)] at hlookup
  split at hlookup
  · cases hlookup
  next digest hfind =>
  cases hlookup
  refine ⟨by rw [hdigests], path, digest, hpath, hfind, (makeEntry_signed hmake).imp_right ?_⟩
  rintro ⟨htype, hentryPath, hkind⟩
  exact ⟨htype, entry, List.mem_singleton.mpr rfl, hentryPath, hkind⟩

/-- At most the symlinks change when one is remembered. -/
theorem storeSymlink_eq (queued : ArchiveReader) (path : FilePath) (member : Member) :
    ∃ symlinks, (if member.type = .symlink
      then { queued with symlinks := queued.symlinks ++ [path] } else queued) =
      { queued with symlinks := symlinks } := by
  split
  · exact ⟨_, rfl⟩
  · exact ⟨_, rfl⟩

theorem createEntry_none {reader' : ArchiveReader}
    (h : reader.createEntry sha256 path member = (none, reader')) : reader'.hasError = true := by
  unfold createEntry at h
  split at h
  · cases h
    rfl
  split at h
  · cases h
    rfl
  split at h
  · next herror =>
    cases h
    exact herror
  · cases h

/-- What one turn of the loop of `next` does when it leaves no error. -/
structure Processed (sha256 : Bytes → Bytes) (digests : FileDigestMap) (member : Member)
    (reader : ArchiveReader) (result : Option (Option PackageEntry))
    (reader' : ArchiveReader) : Prop where
  map : reader'.digests = reader.digests
  archive : reader'.readState.archive = reader.readState.archive
  endOfArchive : reader'.readState.endOfArchive = reader.readState.endOfArchive
  kept : reader.entryStack ⊆ result.join.toList ++ reader'.entryStack
  counted : member.type = .directory ∧ reader'.verifiedEntries = reader.verifiedEntries ∨
    member.type ≠ .directory ∧ reader'.verifiedEntries = reader.verifiedEntries + 1 ∧
      Delivered sha256 digests (result.join.toList ++ reader'.entryStack) member
  waiting : result = none → reader'.entryStack = []
  returned : result ≠ some none

theorem popFront_cons {entry : PackageEntry} {rest : List PackageEntry}
    (h : reader.entryStack = entry :: rest) :
    reader.popFront = (some entry, { reader with entryStack := rest }) := by
  unfold popFront
  rw [h]

theorem processDirectory_processed (hchecked : Checked reader path)
    (htype : member.type = .directory) :
    Processed sha256 digests member reader (reader.processDirectory path member).1
      (reader.processDirectory path member).2 := by
  obtain ⟨⟨entries, hstack, -⟩, -, hdigests, hverified, harchive, hend⟩ :=
    updateParentEntryStack_queues member.mtime hchecked.rooted hchecked.names_ok reader
  have hkept : reader.entryStack ⊆ (reader.updateParentEntryStack path member.mtime).entryStack :=
    hstack ▸ List.subset_append_left _ _
  unfold processDirectory
  dsimp only
  generalize reader.updateParentEntryStack path member.mtime = queued at *
  cases hqueue : queued.entryStack with
  | nil =>
    rw [hqueue] at hkept
    exact ⟨hdigests, harchive, hend, by simpa [hqueue] using hkept, .inl ⟨htype, hverified⟩,
      fun _ => hqueue, nofun⟩
  | cons entry rest =>
    rw [hqueue] at hkept
    rw [popFront_cons hqueue]
    exact ⟨hdigests, harchive, hend, hkept, .inl ⟨htype, hverified⟩, nofun, nofun⟩

theorem processFile_processed (hdigests : reader.digests = some digests)
    (hchecked : Checked reader path)
    (hpath : member.path = some path) (htype : member.type ≠ .directory)
    (herror : (reader.processFile sha256 path member).2.hasError = false) :
    Processed sha256 digests member reader (some (reader.processFile sha256 path member).1)
      (reader.processFile sha256 path member).2 := by
  unfold processFile at herror ⊢
  split
  · next h =>
    rw [if_pos h] at herror
    cases herror
  next h =>
  rw [if_neg h] at herror
  dsimp only at herror ⊢
  -- directories in front of the entry
  have hqueued : Queues path.parentPath.names reader (if path.hasParentPath
      then reader.updateParentEntryStack path.parentPath member.mtime else reader) := by
    split
    · exact updateParentEntryStack_queues _ hchecked.parent.rooted hchecked.parent.names_ok reader
    · exact Queues.refl _ _
  generalize (if path.hasParentPath
      then reader.updateParentEntryStack path.parentPath member.mtime else reader) = queued at *
  obtain ⟨⟨entries, hstack, -⟩, -, hqdigests, hqverified, hqarchive, hqend⟩ := hqueued
  split
  · next hmany =>
    rw [if_pos hmany] at herror
    cases herror
  next hmany =>
  rw [if_neg hmany] at herror
  -- the symlink that is remembered
  obtain ⟨symlinks, hstore⟩ := storeSymlink_eq queued path member
  rw [hstore] at herror ⊢
  cases hcreate : createEntry sha256 { queued with symlinks := symlinks } path member with
  | mk entry created =>
    rw [hcreate] at herror
    cases entry with
    | none => exact absurd (createEntry_none hcreate) (Bool.eq_false_iff.mp herror)
    | some entry =>
      have hmap : ({ queued with symlinks := symlinks } : ArchiveReader).digests = some digests :=
        hqdigests.trans hdigests
      obtain ⟨rfl, hdelivered⟩ := createEntry_signed hmap hpath hcreate
      have hkept : reader.entryStack ⊆ queued.entryStack := hstack ▸ List.subset_append_left _ _
      cases hqueue : queued.entryStack with
      | nil =>
        rw [hqueue] at hkept
        refine ⟨hqdigests, hqarchive, hqend, fun e he => absurd (hkept he) List.not_mem_nil,
          .inr ⟨htype, congrArg (· + 1) hqverified, hdelivered.mono ?_⟩, nofun, nofun⟩
        exact List.subset_append_left _ _
      | cons first rest =>
        rw [hqueue] at hkept
        refine ⟨hqdigests, hqarchive, hqend, ?_,
          .inr ⟨htype, congrArg (· + 1) hqverified, hdelivered.mono ?_⟩, nofun, nofun⟩
        · show reader.entryStack ⊆ first :: (rest ++ [entry])
          exact List.Subset.trans hkept (List.subset_append_left (first :: rest) [entry])
        · show [entry] ⊆ first :: (rest ++ [entry])
          exact List.subset_append_right (first :: rest) [entry]

theorem processMember_processed (hdigests : reader.digests = some digests)
    (herror : (reader.processMember sha256 member).2.hasError = false) :
    Processed sha256 digests member reader (reader.processMember sha256 member).1
      (reader.processMember sha256 member).2 := by
  unfold processMember at herror ⊢
  cases hname : member.pathname with
  | none =>
    rw [hname] at herror
    cases herror
  | some archivePath =>
    rw [hname] at herror
    dsimp only at herror ⊢
    split
    · next h =>
      rw [if_pos h] at herror
      cases herror
    next hverify =>
    rw [if_neg hverify] at herror
    split
    · next h =>
      rw [if_pos h] at herror
      cases herror
    next hwithin =>
    rw [if_neg hwithin] at herror
    have hchecked : Checked reader _ :=
      checked_of_verifyPackagePath (not_not.mp hverify) (Bool.eq_false_iff.mpr hwithin)
    have hpath : member.path = some (FilePath.parse archivePath).lexicallyNormal := by
      rw [Member.path, hname]
      rfl
    split
    · next htype => exact processDirectory_processed hchecked htype
    · next htype =>
      rw [if_neg htype] at herror
      exact processFile_processed hdigests hchecked hpath htype herror

/-! ## Runs of the reader -/

/-- The members that were read so far are accounted for, and at the end of the archive
as many were signed as the map has paths. -/
structure Accounted (sha256 : Bytes → Bytes) (digests : FileDigestMap) (headers : List Header)
    (returned : List PackageEntry) (reader : ArchiveReader) : Prop where
  map : reader.digests = some digests
  progress : ∃ done : List Member, headers = done.map .entry ++ reader.readState.archive.headers ∧
    (∀ member ∈ done, member.type ≠ .directory →
      Delivered sha256 digests (returned ++ reader.entryStack) member) ∧
    reader.verifiedEntries = (done.filter fun member => member.type ≠ .directory).length
  finished : reader.readState.endOfArchive = true → reader.readState.archive.headers = [] ∧
    reader.entryStack = [] ∧ digests.size = reader.verifiedEntries

variable {headers : List Header} {returned : List PackageEntry}

theorem Accounted.popFront (h : Accounted sha256 digests headers returned reader) :
    Accounted sha256 digests headers (returned ++ reader.popFront.1.toList) reader.popFront.2 := by
  cases hstack : reader.entryStack with
  | nil =>
    rw [ArchiveReader.popFront, hstack]
    simpa using h
  | cons entry rest =>
    rw [popFront_cons hstack]
    obtain ⟨done, hheaders, hdelivered, hcount⟩ := h.progress
    refine ⟨h.map, ⟨done, hheaders, fun member hmember htype => ?_, hcount⟩, fun hend => ?_⟩
    · refine (hdelivered member hmember htype).mono ?_
      rw [hstack]
      simp
    · rw [(h.finished hend).2.1] at hstack
      cases hstack

/-- A turn of the loop accounts for one more member. -/
theorem Accounted.processMember {rest : List Header}
    (h : Accounted sha256 digests headers returned reader)
    (hheaders : reader.readState.archive.headers = .entry member :: rest)
    (hopen : reader.readState.endOfArchive = false)
    (herror : ((reader.atMember rest member).processMember sha256 member).2.hasError = false) :
    Accounted sha256 digests headers
      (returned ++ ((reader.atMember rest member).processMember sha256 member).1.join.toList)
      ((reader.atMember rest member).processMember sha256 member).2 := by
  have hmap : (reader.atMember rest member).digests = some digests := h.map
  have hprocessed := processMember_processed hmap herror
  obtain ⟨done, hsplit, hdelivered, hcount⟩ := h.progress
  refine ⟨hprocessed.map.trans h.map, ⟨done ++ [member], ?_, fun m hm htype => ?_, ?_⟩,
    fun hend => ?_⟩
  · rw [hsplit, hprocessed.archive, hheaders]
    simp [atMember]
  · rcases List.mem_append.mp hm with hm | hm
    · refine (hdelivered m hm htype).mono (List.append_subset.mpr ⟨?_, ?_⟩)
      · exact List.subset_append_of_subset_left _ (List.subset_append_left _ _)
      · rw [List.append_assoc]
        exact List.subset_append_of_subset_right _ hprocessed.kept
    · cases List.mem_singleton.mp hm
      rcases hprocessed.counted with ⟨hdirectory, -⟩ | ⟨-, -, hmember⟩
      · exact absurd hdirectory htype
      · rw [List.append_assoc]
        exact hmember.mono (List.subset_append_right _ _)
  · rw [List.filter_append, List.length_append, ← hcount]
    rcases hprocessed.counted with ⟨hdirectory, hverified⟩ | ⟨hfile, hverified, -⟩
    · rw [hverified, List.filter_cons_of_neg (by simpa using hdirectory)]
      rfl
    · rw [hverified, List.filter_cons_of_pos (by simpa using hfile)]
      rfl
  · rw [hprocessed.endOfArchive] at hend
    exact absurd (hopen.symm.trans hend) Bool.false_ne_true

theorem nextLoop_accounted {rest : List Header}
    (h : Accounted sha256 digests headers returned reader)
    (hheaders : reader.readState.archive.headers = rest) (hstack : reader.entryStack = [])
    (hopen : reader.readState.endOfArchive = false)
    (herror : (reader.nextLoop sha256 rest).2.hasError = false) :
    Accounted sha256 digests headers (returned ++ (reader.nextLoop sha256 rest).1.toList)
        (reader.nextLoop sha256 rest).2 ∧
      ((reader.nextLoop sha256 rest).1 = none →
        (reader.nextLoop sha256 rest).2.readState.endOfArchive = true) := by
  induction rest generalizing reader with
  | nil =>
    unfold nextLoop at herror ⊢
    dsimp only at herror ⊢
    split
    · next hmissing =>
      rw [if_pos hmissing] at herror
      cases herror
    · next hmissing =>
      have hsize : digests.size = reader.verifiedEntries := by
        rw [h.map] at hmissing
        simpa using hmissing
      refine ⟨⟨h.map, ?_, fun _ => ⟨hheaders, hstack, hsize⟩⟩, fun _ => rfl⟩
      rw [Option.toList_none, List.append_nil]
      exact h.progress
  | cons header rest ih =>
    cases header with
    | failure => cases herror
    | entry member =>
      unfold nextLoop at herror ⊢
      have hmember := fun herror => h.processMember hheaders hopen herror
      have hprocessed := fun herror => @processMember_processed sha256 digests member
        (reader.atMember rest member) h.map herror
      generalize (reader.atMember rest member).processMember sha256 member = turn at *
      obtain ⟨_ | entry, processed⟩ := turn
      · dsimp only at herror ⊢
        split
        · next hfailed =>
          rw [if_pos hfailed] at herror
          exact absurd hfailed (Bool.eq_false_iff.mp herror)
        next hfailed =>
        rw [if_neg hfailed] at herror
        have hclean := Bool.eq_false_iff.mpr hfailed
        have hgo : Accounted sha256 digests headers returned processed := by
          simpa using hmember hclean
        refine ih hgo ?_ ((hprocessed hclean).waiting rfl) ?_ herror
        · rw [(hprocessed hclean).archive]
          rfl
        · rw [(hprocessed hclean).endOfArchive]
          exact hopen
      · refine ⟨hmember herror, fun hnone => ?_⟩
        exact absurd (congrArg some hnone) (hprocessed herror).returned

theorem next_accounted (h : Accounted sha256 digests headers returned reader)
    (hclean : reader.hasError = false) (herror : (reader.next sha256).2.hasError = false) :
    Accounted sha256 digests headers (returned ++ (reader.next sha256).1.toList)
      (reader.next sha256).2 ∧
      ((reader.next sha256).1 = none → (reader.next sha256).2.readState.endOfArchive = true) := by
  unfold next at herror ⊢
  split
  · next hstop =>
    have hend : reader.readState.endOfArchive = true :=
      hstop.resolve_left (Bool.eq_false_iff.mp hclean)
    refine ⟨?_, fun _ => hend⟩
    rwa [Option.toList_none, List.append_nil]
  next hstop =>
  rw [if_neg hstop] at herror
  split
  · next hqueued =>
    refine ⟨h.popFront, fun hnone => ?_⟩
    cases hstack : reader.entryStack with
    | nil => exact absurd (by rw [hstack]; rfl) hqueued
    | cons entry rest =>
      rw [popFront_cons hstack] at hnone
      cases hnone
  · next hqueued =>
    rw [if_neg hqueued] at herror
    exact nextLoop_accounted h rfl (by simpa using hqueued)
      (Bool.eq_false_iff.mpr fun hend => hstop (.inr hend)) herror

/-- An error stays. -/
theorem hasError_of_next (h : (reader.next sha256).2.hasError = false) :
    reader.hasError = false := by
  rw [Bool.eq_false_iff]
  intro herror
  rw [next, if_pos (.inl herror)] at h
  exact absurd herror (Bool.eq_false_iff.mp h)

end ArchiveReader

/-! ## The law for readers -/

section
variable {sha256 : Bytes → Bytes} {faults : Nat → Option Posix.Errno} {targetDir : Posix.Location}
  {digests : FileDigestMap} {headers : List Header} {before : Posix.FileSystem} {s s' : Session}

theorem step_accounted (h : Session.Step sha256 faults targetDir s s')
    (hs : s.reader.hasError = false →
      ArchiveReader.Accounted sha256 digests headers s.returned s.reader)
    (herror : s'.reader.hasError = false) :
    ArchiveReader.Accounted sha256 digests headers s'.returned s'.reader := by
  cases h with
  | next =>
    have hclean := ArchiveReader.hasError_of_next herror
    exact (ArchiveReader.next_accounted (hs hclean) hclean herror).1
  | read blocks dataEnd error hkept =>
    have hclean : s.reader.hasError = false := by
      rw [Bool.eq_false_iff]
      intro hset
      rw [hkept hset] at herror
      exact absurd hset (Bool.eq_false_iff.mp herror)
    obtain ⟨hmap, hprogress, hfinished⟩ := hs hclean
    exact ⟨hmap, hprogress, hfinished⟩
  | write => exact hs herror

theorem run_accounted
    (h : Relation.ReflTransGen (Session.Step sha256 faults targetDir)
      (.new headers (some digests) before) s)
    (herror : s.reader.hasError = false) :
    ArchiveReader.Accounted sha256 digests headers s.returned s.reader := by
  induction h with
  | refl =>
    exact ⟨rfl, ⟨[], rfl, fun _ h => absurd h List.not_mem_nil, rfl⟩, fun hend => nomatch hend⟩
  | tail _ hstep ih => exact step_accounted hstep ih herror

/-- A client that went through the whole archive: the next entry is none, without an
error. -/
structure Exhausted (sha256 : Bytes → Bytes) (s : Session) : Prop where
  none : (s.reader.next sha256).1 = none
  clean : (s.reader.next sha256).2.hasError = false

/-- In an archive that was gone through, all members are signed, and there are as many
as the map has paths. -/
theorem Exhausted.accounted
    (h : Relation.ReflTransGen (Session.Step sha256 faults targetDir)
      (.new headers (some digests) before) s)
    (hexhausted : Exhausted sha256 s) :
    (∀ member ∈ fileMembers headers, ArchiveReader.Delivered sha256 digests s.returned member) ∧
      (fileMembers headers).length = digests.size := by
  have hclean := ArchiveReader.hasError_of_next hexhausted.clean
  obtain ⟨haccounted, hend⟩ :=
    ArchiveReader.next_accounted (run_accounted h hclean) hclean hexhausted.clean
  obtain ⟨hrest, hstack, hsize⟩ := haccounted.finished (hend hexhausted.none)
  obtain ⟨done, hheaders, hdelivered, hcount⟩ := haccounted.progress
  have hfiles : fileMembers headers = done.filter fun member => member.type ≠ .directory := by
    rw [fileMembers, hheaders, hrest, members_append]
    exact congrArg _ (List.append_nil done)
  rw [hexhausted.none, hstack, Option.toList_none, List.append_nil, List.append_nil] at hdelivered
  rw [hfiles, hsize, hcount]
  refine ⟨fun member hmember => ?_, rfl⟩
  obtain ⟨hmember, htype⟩ := List.mem_filter.mp hmember
  exact hdelivered member hmember (of_decide_eq_true htype)

/-- The law as far as it does not need the contents of files: their entries carry the
digests. -/
structure Delivers (sha256 : Bytes → Bytes) (digests : FileDigestMap) (headers : List Header)
    (returned : List PackageEntry) : Prop where
  present : ∀ path ∈ digests.paths, ∃ member ∈ fileMembers headers, member.path = some path
  signed : ∀ member ∈ fileMembers headers, ArchiveReader.Delivered sha256 digests returned member

/-- The contents of files have the digests of their paths. -/
def FilesMatch (sha256 : Bytes → Bytes) (digests : FileDigestMap) (headers : List Header) : Prop :=
  ∀ member ∈ fileMembers headers, member.type = .regular → ∀ path digest,
    member.path = some path → digests.find path = some digest → sha256 member.contents = digest

theorem Exhausted.delivers_iff
    (h : Relation.ReflTransGen (Session.Step sha256 faults targetDir)
      (.new headers (some digests) before) s)
    (hexhausted : Exhausted sha256 s) :
    Delivers sha256 digests headers s.returned ↔ DistinctPaths headers := by
  obtain ⟨hdelivered, hcount⟩ := hexhausted.accounted h
  rw [DistinctPaths, ← present_iff_nodup ?_ hcount]
  · exact ⟨fun hdelivers => hdelivers.present, fun hpresent => ⟨hpresent, hdelivered⟩⟩
  · intro member hmember
    obtain ⟨path, digest, hpath, hfind, -⟩ := hdelivered member hmember
    exact ⟨path, digest, hpath, hfind⟩

/-- What was delivered is complete once the contents of the files match. -/
theorem complete_iff_of_delivered {returned : List PackageEntry}
    (h : ∀ member ∈ fileMembers headers, ArchiveReader.Delivered sha256 digests returned member) :
    Complete sha256 digests headers ↔
      Delivers sha256 digests headers returned ∧ FilesMatch sha256 digests headers := by
  constructor
  · intro hcomplete
    refine ⟨⟨hcomplete.present, h⟩, fun member hmember _ path digest hpath hfind => ?_⟩
    obtain ⟨path', digest', hpath', hfind', hmatch⟩ := hcomplete.signed member hmember
    cases hpath.symm.trans hpath'
    cases hfind.symm.trans hfind'
    exact hmatch
  · rintro ⟨hdelivers, hmatch⟩
    refine ⟨hdelivers.present, fun member hmember => ?_⟩
    obtain ⟨path, digest, hpath, hfind, ⟨-, hsymlink⟩ | ⟨htype, -⟩⟩ := h member hmember
    · exact ⟨path, digest, hpath, hfind, hsymlink⟩
    · exact ⟨path, digest, hpath, hfind, hmatch member hmember htype path digest hpath hfind⟩

end

end Archive
