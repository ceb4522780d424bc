import Ralf.W3c.Package

/-!
# What a verified package contains

`W3CPackage.verify` and the archive reader decide whether all signed files are there by
comparing a count with the size of the digest map. For an accepted archive
`accepted_complete_iff` says exactly when that is enough: when no two members that are
not directories have the same path in normal form. `not_complete_of_accepted` is an
archive where a second copy of one file stands in for another.
-/

namespace W3c

open Archive

variable {sha256 : Bytes → Bytes} {digests : FileDigestMap} {headers : List Header}

/-! ## Contents -/

/-- The bytes that were digested are the file that the blocks make. -/
theorem verifyBlocks_ok {expectedSize currentOffset : Nat} {blocks : List DataBlock}
    {digested result : Bytes} (hlength : digested.length = currentOffset)
    (h : verifyBlocks expectedSize blocks currentOffset digested = .ok result) :
    blocks.foldl (fun contents block => pwrite contents block.bytes block.offset.toNat) digested =
      result := by
  induction blocks generalizing currentOffset digested with
  | nil =>
    cases h
    rfl
  | cons block rest ih =>
    unfold verifyBlocks at h
    dsimp only at h
    rw [List.foldl_cons]
    split at h
    · next hempty =>
      rw [pwrite, if_pos (List.length_eq_zero_iff.mp hempty)]
      exact ih hlength h
    next hne =>
    split at h
    · cases h
    split at h
    · cases h
    next hoffset =>
    split at h
    · cases h
    have hle : digested.length ≤ block.offset.toNat := by omega
    rw [pwrite_of_length_le (fun hnil => hne (by rw [hnil]; rfl)) hle]
    rw [← hlength] at h
    refine ih ?_ h
    simp only [List.length_append, List.length_replicate]
    omega

theorem verifyArchiveFileEntry_ok {member : Member} {expectedSize : Nat} {digest : Bytes}
    (htype : member.type = .regular)
    (h : verifyArchiveFileEntry sha256 member expectedSize digest = .ok ()) :
    sha256 member.contents = digest := by
  unfold verifyArchiveFileEntry at h
  split at h
  · cases h
  next digested hblocks =>
  split at h
  · cases h
  split at h
  · cases h
  next hdigest =>
  rw [Member.contents, htype]
  show sha256 (member.blocks.foldl _ []) = digest
  rw [verifyBlocks_ok rfl hblocks]
  exact (not_not.mp hdigest).symm

namespace W3CPackage

variable {package : W3CPackage}

theorem verifyContents_ok {entryPath : Bytes} {path : FilePath} {member : Member} {digest : Bytes}
    {totalSize total : Nat}
    (h : package.verifyContents sha256 entryPath path member digest totalSize = .ok total) :
    sha256 member.contents = digest := by
  unfold verifyContents at h
  split at h
  · next htype =>
    split at h
    · cases h
    dsimp only at h
    split at h
    · cases h
    split at h
    · cases h
    · next hverify => exact verifyArchiveFileEntry_ok htype hverify
  · next htype =>
    split at h
    · cases h
    next target htarget =>
    split at h
    · cases h
    next hdigest =>
    rw [Member.contents, htype]
    show sha256 (member.symlink.getD []) = digest
    rw [htarget]
    exact not_not.mp hdigest
  · cases h

/-! ## The count -/

/-- The loop verifies all members that are not directories, and counts them. -/
theorem verifyLoop_ok {totalSize entriesVerified result : Nat}
    (h : package.verifyLoop sha256 digests headers totalSize entriesVerified = .ok result) :
    (∀ member ∈ fileMembers headers, ∃ path digest, member.path = some path ∧
        digests.find path = some digest ∧ sha256 member.contents = digest) ∧
      result = entriesVerified + (fileMembers headers).length := by
  induction headers generalizing totalSize entriesVerified with
  | nil =>
    cases h
    exact ⟨fun _ hmember => absurd hmember List.not_mem_nil, rfl⟩
  | cons header rest ih =>
    cases header with
    | failure =>
      cases h
      exact ⟨fun _ hmember => absurd hmember List.not_mem_nil, rfl⟩
    | entry member =>
      unfold verifyLoop at h
      cases hname : member.pathname with
      | none =>
        rw [hname] at h
        cases h
      | some entryPath =>
        rw [hname] at h
        dsimp only at h
        split at h
        · cases h
        split at h
        · next htype =>
          have hfiles : fileMembers (.entry member :: rest) = fileMembers rest :=
            List.filter_cons_of_neg (by simpa using htype)
          rw [hfiles]
          exact ih h
        next htype =>
        have hfiles : fileMembers (.entry member :: rest) = member :: fileMembers rest :=
          List.filter_cons_of_pos (by simpa using htype)
        split at h
        · cases h
        next digest hfind =>
        split at h
        · cases h
        next total hcontents =>
        obtain ⟨hsigned, hcount⟩ := ih h
        rw [hfiles]
        refine ⟨List.forall_mem_cons.mpr ⟨⟨_, digest, ?_, hfind, verifyContents_ok hcontents⟩,
          hsigned⟩, ?_⟩
        · rw [Member.path, hname]
          rfl
        · rw [hcount, List.length_cons]
          omega

/-- A package that verifies has as many signed members as the map has paths. -/
theorem verify_ok (hdigests : package.digests = some digests)
    (h : package.verify sha256 (.ok headers) = .ok ()) :
    (∀ member ∈ fileMembers headers, ∃ path digest, member.path = some path ∧
        digests.find path = some digest ∧ sha256 member.contents = digest) ∧
      (fileMembers headers).length = digests.size := by
  unfold verify at h
  rw [hdigests] at h
  dsimp only at h
  split at h
  · cases h
  split at h
  · cases h
  next result hloop =>
  split at h
  · cases h
  next hsize =>
  obtain ⟨hsigned, hresult⟩ := verifyLoop_ok hloop
  rw [Nat.zero_add] at hresult
  exact ⟨hsigned, hresult ▸ not_not.mp hsize⟩

end W3CPackage

/-! ## Both implementations -/

/-- An accepted archive is complete exactly if the paths of its members that are not
directories are distinct. The archive reader leaves the contents of files to be checked
with the digests that their entries carry. -/
theorem accepted_complete_iff (sha256 : Bytes → Bytes) (digests : FileDigestMap)
    (headers : List Header) :
    (∀ package : W3CPackage, package.digests = some digests →
        package.verify sha256 (.ok headers) = .ok () →
        (Complete sha256 digests headers ↔ DistinctPaths headers)) ∧
      ∀ faults targetDir before s,
        Relation.ReflTransGen (Session.Step sha256 faults targetDir)
          (.new headers (some digests) before) s →
        Exhausted sha256 s →
        (Delivers sha256 digests headers s.returned ↔ DistinctPaths headers) ∧
          (Complete sha256 digests headers ↔
            DistinctPaths headers ∧ FilesMatch sha256 digests headers) := by
  constructor
  · intro package hdigests hverify
    obtain ⟨hsigned, hcount⟩ := W3CPackage.verify_ok hdigests hverify
    exact complete_iff_nodup hsigned hcount
  · intro faults targetDir before s hrun hexhausted
    have hdelivers := hexhausted.delivers_iff hrun
    refine ⟨hdelivers, ?_⟩
    rw [complete_iff_of_delivered (hexhausted.accounted hrun).1, hdelivers]

/-- The header of a regular file with one block. -/
def fileHeader (pathname contents : Bytes) : Header :=
  .entry { pathname := some pathname, type := .regular, perm := 0o644, mtime := 0,
           size := contents.length, symlink := none, blocks := [⟨contents, 0⟩], dataEnd := .eof }

/-- Digests for the files `a` and `b`; the digest of a file is the file. -/
def twoDigests : FileDigestMap where
  entries := [(FilePath.ofNames [[0x61]], [0x78]), (FilePath.ofNames [[0x62]], [0x79])]
  nodup := by decide

def twoDigestsPackage : W3CPackage := { digests := some twoDigests }

/-- A client that took two entries from an archive with these digests. -/
def twoDigestsSession (headers : List Header) : Session :=
  let advance := Session.advance id (fun _ => none) [] 1 ExtractOption.none
  advance (advance (.new headers (some twoDigests) ⟨[]⟩))

theorem twoDigestsSession_run (headers : List Header) :
    Relation.ReflTransGen (Session.Step id (fun _ => none) [])
      (.new headers (some twoDigests) ⟨[]⟩) (twoDigestsSession headers) :=
  (advance_steps 1 ExtractOption.none _).trans (advance_steps 1 ExtractOption.none _)

/-- The files `a` and `b`. -/
def bothFiles : List Header := [fileHeader [0x61] [0x78], fileHeader [0x62] [0x79]]

/-- The file `a` and, as `./a`, the file `a` again. -/
def oneFileTwice : List Header := [fileHeader [0x61] [0x78], fileHeader [0x2e, 0x2f, 0x61] [0x78]]

theorem accepted_complete_bothFiles :
    Complete id twoDigests bothFiles ∧
      Delivers id twoDigests bothFiles (twoDigestsSession bothFiles).returned := by
  have hverify : twoDigestsPackage.verify id (.ok bothFiles) = .ok () := by decide +kernel
  have hexhausted : Exhausted id (twoDigestsSession bothFiles) :=
    ⟨by decide +kernel, by decide +kernel⟩
  have hdistinct : DistinctPaths bothFiles := by
    unfold DistinctPaths
    decide +kernel
  obtain ⟨hpackage, hreader⟩ := accepted_complete_iff id twoDigests bothFiles
  exact ⟨(hpackage twoDigestsPackage rfl hverify).mpr hdistinct,
    (hreader _ _ _ _ (twoDigestsSession_run bothFiles) hexhausted).1.mpr hdistinct⟩

/-- Both implementations accept an archive without the signed file `b`. -/
theorem not_complete_of_accepted :
    twoDigestsPackage.verify id (.ok oneFileTwice) = .ok () ∧
      Exhausted id (twoDigestsSession oneFileTwice) ∧
      FilePath.ofNames [[0x62]] ∈ twoDigests.paths ∧
      (∀ member ∈ fileMembers oneFileTwice, member.path ≠ some (FilePath.ofNames [[0x62]])) ∧
      ¬ Complete id twoDigests oneFileTwice ∧
      ¬ Delivers id twoDigests oneFileTwice (twoDigestsSession oneFileTwice).returned := by
  have hpath : FilePath.ofNames [[0x62]] ∈ twoDigests.paths := by decide
  have hmissing : ∀ member ∈ fileMembers oneFileTwice,
      member.path ≠ some (FilePath.ofNames [[0x62]]) := by decide +kernel
  refine ⟨by decide +kernel, ⟨by decide +kernel, by decide +kernel⟩, hpath, hmissing, fun h => ?_,
    fun h => ?_⟩
  · obtain ⟨member, hmember, heq⟩ := h.present _ hpath
    exact hmissing member hmember heq
  · obtain ⟨member, hmember, heq⟩ := h.present _ hpath
    exact hmissing member hmember heq

end W3c
