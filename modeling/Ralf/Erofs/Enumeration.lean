import Ralf.Erofs.Listing

/-!
# The entries of an image

The tree of an image has the entries that the data of the directories hold which can be
reached from the root; an entry leads to a directory when its inode is one. When the data of
these directories can be read, a reader that comes to the end without an error gives the
entries of the tree exactly if the size of the blocks is supported and the entries that name
a directory with contents have the type of a directory.
-/

namespace Erofs

open Walk

namespace ErofsReader

section
variable {σ : Type} (file : IErofsImageFile σ) (lz4 : Lz4) (superBlock : ErofsSuperBlock)

open Classical in
/-- The directories of an image, as their data and the inodes say it. -/
noncomputable def imageTree : Tree Directory DirEntry where
  lists dir entries := Lists file lz4 superBlock dir.inode entries
  sub dir entry :=
    if IsDirectory file superBlock
      entry.inode then some ⟨dir.path.append entry.fileName, entry.inode⟩
    else none
  given _ := True

/-- A directory that can be reached from the root, by the inodes. -/
def DirAt (route : List Nat) (dir : Directory) : Prop :=
  At (imageTree file lz4 superBlock) (rootPlace superBlock).node route dir

/-- An entry of a directory that can be reached. -/
def DirEntryAt (spot : Spot Directory DirEntry) : Prop :=
  EntryAt (imageTree file lz4 superBlock) (rootPlace superBlock).node spot

/-- The data of all directories that can be reached can be read. -/
def AllRead : Prop :=
  ∀ route dir, DirAt file lz4 superBlock route dir → IsDirectory file superBlock dir.inode →
    ∃ entries, Lists file lz4 superBlock dir.inode entries

/-- The inode has no entries: it is an empty directory or none. -/
def NoEntries (n : Nat) : Prop := ∀ entries, Lists file lz4 superBlock n entries → entries = []

/-- An entry that has not the type of a directory names an inode without entries. -/
def TypesAgree : Prop :=
  ∀ spot, DirEntryAt file lz4 superBlock spot → spot.entry.fileType ≠ .directory →
    NoEntries file lz4 superBlock spot.entry.inode

/-- Paths and inode numbers are those of all entries that can be reached, each way to an entry
once, and the entry of a directory before those in it. -/
def Enumerates (pairs : List (FilePath × Nat)) : Prop :=
  ∃ spots : List (Spot Directory DirEntry), (spots.map Spot.route).Nodup ∧
    (∀ spot, spot ∈ spots ↔ DirEntryAt file lz4 superBlock spot) ∧ ParentsFirst [[]] spots ∧
    pairs = spots.map fun spot => (spot.parent.path.append spot.entry.fileName, spot.entry.inode)

/-- An image is opened, and `next` gives entries up to the end, without an error. -/
def ReadToEnd (advice : Bool) (s : σ) (entries : List ErofsEntry) : Prop :=
  ∃ reader s₁ final s₂, ErofsReader.new file lz4 s = .ok (reader, s₁) ∧ reader.error = none ∧
    takeNext file lz4 (entries.length + 1) { reader with readAllOnce := advice } s₁ =
      .ok (entries.map some ++ [none], final, s₂) ∧ final.error = none

end

section
variable {σ : Type} {file : IErofsImageFile σ} {lz4 : Lz4} {superBlock : ErofsSuperBlock}
  {out : List (Spot Directory DirEntry)} {spot : Spot Directory DirEntry}

theorem imageTree_sub {dir : Directory} {entry : DirEntry} {dir' : Directory} :
    (imageTree file lz4 superBlock).sub dir entry = some dir' ↔
      IsDirectory file superBlock entry.inode ∧
        dir' = ⟨dir.path.append entry.fileName, entry.inode⟩ := by
  unfold imageTree
  dsimp only
  rw [Option.ite_none_right_eq_some, Option.some_inj]
  exact and_congr_right' eq_comm

/-- A walk to the end, from the root. -/
def Walked (file : IErofsImageFile σ) (lz4 : Lz4) (superBlock : ErofsSuperBlock)
    (out : List (Spot Directory DirEntry)) : Prop :=
  Run (walkTree file lz4 superBlock) ⟨[], [rootPlace superBlock]⟩ out ⟨[], []⟩

theorem Walked.sound (h : Walked file lz4 superBlock out) (hspot : spot ∈ out) :
    EntryAt (walkTree file lz4 superBlock) (rootPlace superBlock).node spot := by
  refine (Run.sound h ⟨fun _ hmem => (nomatch hmem), fun place hplace => ?_⟩).2 spot hspot
  obtain rfl := List.mem_singleton.mp hplace
  exact .root

theorem Walked.served_root (h : Walked file lz4 superBlock out) :
    Served (walkTree file lz4 superBlock) out (rootPlace superBlock) :=
  (Run.closed h).2.1 _ List.mem_cons_self

theorem Walked.served (h : Walked file lz4 superBlock out) (hspot : spot ∈ out)
    (htype : spot.entry.fileType = .directory) :
    Served (walkTree file lz4 superBlock) out
      ⟨spot.route, ⟨spot.parent.path.append spot.entry.fileName, spot.entry.inode⟩⟩ :=
  (Run.closed h).2.2 spot hspot _ (mem_enter.mpr ⟨_, walkTree_sub.mpr ⟨htype, rfl⟩, rfl⟩)

theorem Walked.nodup (h : Walked file lz4 superBlock out) : (out.map Spot.route).Nodup :=
  Run.nodup h (List.pairwise_singleton _ _)

theorem Walked.parentsFirst (h : Walked file lz4 superBlock out) : ParentsFirst [[]] out := by
  refine Run.parentsFirst h _ (fun _ hmem => (nomatch hmem)) fun place hplace => ?_
  obtain rfl := List.mem_singleton.mp hplace
  exact List.mem_cons_self

section
variable (hfile : file.Unchanging) (hread : AllRead file lz4 superBlock)
  (hsize : superBlock.blockSize = 4096)
include hfile hread hsize

/-- What a directory that can be reached gives is what it has. -/
theorem lists_of_gives {route : List Nat} {dir : Directory}
    (hat : DirAt file lz4 superBlock route dir) {entries : List DirEntry}
    (hgives : Gives file lz4 superBlock dir.inode entries) :
    Lists file lz4 superBlock dir.inode entries := by
  obtain ⟨entries', hlists⟩ := hread _ _ hat hgives.isDirectory
  rw [hlists.gives hfile (by omega) (by omega) hgives]
  exact hlists

/-- What a walk goes through is in the image. -/
theorem Walked.at_image (h : Walked file lz4 superBlock out) {route : List Nat} {dir : Directory}
    (hat : At (walkTree file lz4 superBlock) (rootPlace superBlock).node route dir) :
    DirAt file lz4 superBlock route dir ∧ ∀ entries, Gives file lz4 superBlock dir.inode entries →
      ∀ spot ∈ Place.spots ⟨route, dir⟩ entries, spot ∈ out := by
  -- a directory gives the same each time, and it was gone through once
  have hserved : ∀ route dir, DirAt file lz4 superBlock route dir →
      Served (walkTree file lz4 superBlock) out ⟨route, dir⟩ → ∀ entries,
      Gives file lz4 superBlock dir.inode entries →
        ∀ spot ∈ Place.spots ⟨route, dir⟩ entries, spot ∈ out := by
    rintro route dir hat ⟨entries', hlists, hspots⟩ entries hgives
    have hlists₁ := lists_of_gives hfile hread hsize hat hgives
    have hlists₂ := lists_of_gives hfile hread hsize hat hlists
    obtain rfl := hlists₁.eq hfile hlists₂
    exact hspots
  induction hat with
  | root => exact ⟨.root, hserved _ _ .root h.served_root⟩
  | @sub route dir dir' entries i entry _ hlists hentry hsub ih =>
    obtain ⟨hat, hspots⟩ := ih
    obtain ⟨htype, rfl⟩ := walkTree_sub.mp hsub
    have hsub' := h.served (hspots _ hlists _ (mem_spots.mpr ⟨i, entry, hentry, rfl⟩)) htype
    have hdirectory : IsDirectory file superBlock entry.inode :=
      hsub'.elim fun _ hgiven => Gives.isDirectory hgiven.1
    have hat' : DirAt file lz4 superBlock _ _ :=
      At.sub hat (lists_of_gives hfile hread hsize hat hlists) hentry
        (imageTree_sub.mpr ⟨hdirectory, rfl⟩)
    exact ⟨hat', hserved _ _ hat' hsub'⟩

theorem Walked.entry_image (h : Walked file lz4 superBlock out)
    (hentry : EntryAt (walkTree file lz4 superBlock) (rootPlace superBlock).node spot) :
    DirEntryAt file lz4 superBlock spot := by
  cases hentry with
  | intro hat hlists hentry =>
    obtain ⟨hat, -⟩ := h.at_image hfile hread hsize hat
    exact .intro hat (lists_of_gives hfile hread hsize hat hlists) hentry

omit hread in
/-- A walk gives all entries of an image, when the types of the entries are right. -/
theorem Walked.complete (h : Walked file lz4 superBlock out)
    (htypes : TypesAgree file lz4 superBlock) {route : List Nat} {dir : Directory}
    (hat : DirAt file lz4 superBlock route dir) {entries : List DirEntry}
    (hentries : Lists file lz4 superBlock dir.inode entries) :
    ∀ spot ∈ Place.spots ⟨route, dir⟩ entries, spot ∈ out := by
  have hserved : ∀ route dir entries, Lists file lz4 superBlock dir.inode entries →
      Served (walkTree file lz4 superBlock) out ⟨route, dir⟩ →
        ∀ spot ∈ Place.spots ⟨route, dir⟩ entries, spot ∈ out := by
    rintro route dir entries hentries ⟨entries', hlists, hspots⟩
    have hpos : 0 < superBlock.blockSize := by omega
    have hsmall : superBlock.blockSize < 2 ^ 64 := by omega
    obtain rfl := hentries.gives hfile hpos hsmall hlists
    exact hspots
  induction hat generalizing entries with
  | root => exact hserved _ _ _ hentries h.served_root
  | @sub route dir dir' entries₁ i entry hat hlists hentry hsub ih =>
    obtain ⟨-, rfl⟩ := imageTree_sub.mp hsub
    have hspot := ih hlists _ (mem_spots.mpr ⟨i, entry, hentry, rfl⟩)
    by_cases htype : entry.fileType = .directory
    · have hbelow := h.served hspot htype
      exact hserved _ _ _ hentries hbelow
    · obtain rfl := htypes _ (.intro hat hlists hentry) htype _ hentries
      exact fun _ hmem => nomatch hmem

/-- A walk to the end enumerates the image if and only if the types of the entries are right. -/
theorem Walked.enumerates (h : Walked file lz4 superBlock out) :
    Enumerates file lz4 superBlock
        (out.map fun spot => (spot.parent.path.append spot.entry.fileName, spot.entry.inode)) ↔
      TypesAgree file lz4 superBlock := by
  constructor
  · rintro ⟨spots, hnodup, hspots, -, hpairs⟩ spot hspot htype entries' hlists'
    have hsub : ∀ spot ∈ out, spot ∈ spots := fun spot hspot =>
      (hspots spot).mpr (h.entry_image hfile hread hsize (h.sound hspot))
    have hlength : spots.length = out.length := by
      have heq := congrArg List.length hpairs
      rw [List.length_map, List.length_map] at heq
      exact heq.symm
    -- no entry is given twice, so that the walk has given all of them
    have hperm := (h.nodup.of_map.subperm hsub).perm_of_length_le hlength.le
    cases hspot with
    | @intro route dir entries i entry hat hlists hentry =>
    have hat' := At.sub hat hlists hentry (imageTree_sub.mpr ⟨hlists'.isDirectory, rfl⟩)
    rcases entries' with _ | ⟨first, rest⟩
    · rfl
    · have hbelow :=
        h.sound (hperm.mem_iff.mpr ((hspots _).mpr (.intro hat' hlists' (i := 0) rfl)))
      generalize hroute : route ++ [i] ++ [0] = deep at hbelow
      cases hbelow with
      | @intro route' dir' entries₁ j entry' hat₁ _ _ =>
      obtain rfl := (List.append_inj' hroute rfl).1
      generalize hroute' : route ++ [i] = above at hat₁
      generalize (⟨dir.path.append entry.fileName, entry.inode⟩ : Directory) = dir₁ at hat₁
      cases hat₁ with
      | root => exact absurd hroute' (List.append_ne_nil_of_right_ne_nil _ (List.cons_ne_nil _ _))
      | @sub route₂ dir₂ _ entries₂ k entry₂ hat₂ hlists₂ hentry₂ hsub₂ =>
      -- the entry that leads there has the same route, and so is the same
      have hmem₁ := (hspots _).mpr (.intro hat hlists hentry)
      have hmem₂ :=
        (hspots _).mpr (h.entry_image hfile hread hsize (.intro hat₂ hlists₂ hentry₂))
      have heq := List.inj_on_of_nodup_map hnodup hmem₁ hmem₂ hroute'
      injection heq with _ _ hentry'
      rw [hentry'] at htype
      exact absurd (walkTree_sub.mp hsub₂).1 htype
  · intro htypes
    refine ⟨out, h.nodup, fun spot => ⟨fun hspot => ?_, fun hspot => ?_⟩, h.parentsFirst, rfl⟩
    · exact h.entry_image hfile hread hsize (h.sound hspot)
    · cases hspot with
      | @intro route dir entries i entry hat hlists hentry =>
        exact h.complete hfile hsize htypes hat hlists _ (mem_spots.mpr ⟨i, entry, hentry, rfl⟩)

end

/-- An image without entries. -/
theorem enumerates_nil_iff :
    Enumerates file lz4 superBlock [] ↔
      NoEntries file lz4 superBlock superBlock.rootInode ∧ TypesAgree file lz4 superBlock := by
  constructor
  · rintro ⟨spots, -, hspots, -, hpairs⟩
    obtain rfl : spots = [] := List.map_eq_nil_iff.mp hpairs.symm
    refine ⟨fun entries hroot => ?_, fun spot hspot => nomatch (hspots spot).mpr hspot⟩
    rcases entries with _ | ⟨first, rest⟩
    · rfl
    · exact nomatch (hspots _).mpr (.intro .root hroot (i := 0) rfl)
  · rintro ⟨hroot, -⟩
    refine ⟨[], List.nodup_nil, fun spot =>
      ⟨fun hmem => (nomatch hmem), fun hspot => ?_⟩, trivial, rfl⟩
    have honly : ∀ route dir, DirAt file lz4 superBlock route dir →
      dir = (rootPlace superBlock).node := by
      intro route dir hat
      induction hat with
      | root => rfl
      | sub _ hlists hentry _ ih =>
        subst ih
        obtain rfl := hroot _ hlists
        cases hentry
    cases hspot with
    | intro hat hlists hentry =>
      obtain rfl := honly _ _ hat
      obtain rfl := hroot _ hlists
      cases hentry

/-- What is given for the entries of a walk. -/
theorem renders_pairs {entries : List ErofsEntry}
    (h : List.Forall₂ (Renders file superBlock) out entries) :
    (entries.map fun entry => (entry.path, entry.inode.inodeNumber)) =
      out.map fun spot => (spot.parent.path.append spot.entry.fileName, spot.entry.inode) := by
  induction h with
  | nil => rfl
  | cons hentry _ ih =>
    obtain ⟨hints, s, s', hinode⟩ := hentry.inode
    rw [List.map_cons, List.map_cons, ih, hentry.path, ErofsInode.new_inodeNumber hinode]

section
variable {P : Nat → Prop} (hroot : P superBlock.rootInode)
  (hsub : ∀ n entries, P n → Lists file lz4 superBlock n entries → ∀ entry ∈ entries,
    IsDirectory file superBlock entry.inode → P entry.inode)
include hroot hsub

/-- What holds of the root and goes from a directory to those in it holds of all that can be
reached. -/
theorem DirAt.closed {route : List Nat} {dir : Directory}
    (hat : DirAt file lz4 superBlock route dir) : P dir.inode := by
  induction hat with
  | root => exact hroot
  | sub _ hlists hentry hdir ih =>
    obtain ⟨hdirectory, rfl⟩ := imageTree_sub.mp hdir
    exact hsub _ _ ih hlists _ (List.mem_of_getElem? hentry) hdirectory

theorem allRead_of_closed (hread : ∀ n, P n → ∃ entries, Lists file lz4 superBlock n entries) :
    AllRead file lz4 superBlock :=
  fun _ _ hat _ => hread _ (hat.closed hroot hsub)

theorem typesAgree_of_closed
    (htypes : ∀ n entries, P n → Lists file lz4 superBlock n entries → ∀ entry ∈ entries,
      entry.fileType ≠ .directory → NoEntries file lz4 superBlock entry.inode) :
    TypesAgree file lz4 superBlock := by
  rintro spot ⟨hat, hlists, hentry⟩ htype
  exact htypes _ _ (DirAt.closed hroot hsub hat) hlists _ (List.mem_of_getElem? hentry) htype

end

/-- An inode of another type is no directory. -/
theorem not_isDirectory_of_type (hfile : file.Unchanging) {n : Nat} (s : σ)
    (h : (ErofsInode.new file superBlock n 0 s).1.type ≠ .directory) :
    ¬IsDirectory file superBlock n :=
  fun hdirectory => h (hdirectory.eq hfile s)

theorem noEntries_of_not_isDirectory {n : Nat} (h : ¬IsDirectory file superBlock n) :
    NoEntries file lz4 superBlock n :=
  fun _ hlists => absurd hlists.isDirectory h

end

/-- The paths and inode numbers of what the first calls of `next` give, and the errors of the reader
before and after them. -/
def pairsOf (file : IErofsImageFile Unit) (calls : Nat) :
    Option (List (Option (FilePath × Nat)) × Option Error × Option Error) :=
  match ErofsReader.new file noLz4 () with
  | .error _ => none
  | .ok (reader, _) =>
    match takeNext file noLz4 calls { reader with readAllOnce := false } () with
    | .error _ => none
    | .ok (entries, final, _) =>
      some (entries.map fun entry => entry.map fun entry => (entry.path, entry.inode.inodeNumber),
        reader.error, final.error)

theorem readToEnd_of_pairsOf {file : IErofsImageFile Unit} {pairs : List (FilePath × Nat)}
    (h : pairsOf file (pairs.length + 1) = some (pairs.map some ++ [none], none, none)) :
    ∃ entries, ReadToEnd file noLz4 false () entries ∧
      (entries.map fun entry => (entry.path, entry.inode.inodeNumber)) = pairs := by
  unfold pairsOf at h
  split at h
  · cases h
  next reader s₁ hnew =>
  split at h
  · cases h
  next answers final s₂ htake =>
  obtain ⟨hanswers, herrors⟩ := Prod.mk.inj (Option.some.inj h)
  obtain ⟨herror, hend⟩ := Prod.mk.inj herrors
  obtain ⟨given, last, rfl, hgiven, hlast⟩ := List.map_eq_append_iff.mp hanswers
  obtain ⟨answer, rfl, hanswer⟩ := List.map_eq_singleton_iff.mp hlast
  obtain rfl := Option.map_eq_none_iff.mp hanswer
  have hentries : ∃ entries : List ErofsEntry, given = entries.map some ∧
      (entries.map fun entry => (entry.path, entry.inode.inodeNumber)) = pairs := by
    clear htake hanswers h
    induction pairs generalizing given with
    | nil =>
      obtain rfl := List.map_eq_nil_iff.mp hgiven
      exact ⟨[], rfl, rfl⟩
    | cons pair pairs ih =>
      obtain ⟨first, rest, rfl, hfirst, hrest⟩ := List.map_eq_cons_iff.mp hgiven
      obtain ⟨entry, rfl, rfl⟩ := Option.map_eq_some_iff.mp hfirst
      obtain ⟨entries, rfl, rfl⟩ := ih rest hrest
      exact ⟨entry :: entries, rfl, rfl⟩
  obtain ⟨entries, rfl, rfl⟩ := hentries
  rw [List.length_map] at htake
  exact ⟨entries, ⟨reader, s₁, final, s₂, hnew, herror, htake, hend⟩, rfl⟩

/-- The bytes of an image whose root directory, the inode 64, has one entry `a`, in the block at
8192. The inode 65 is an empty file. -/
def entryByte (blockSizeBits block nid fileType : UInt8) (offset : Nat) : UInt8 :=
  if offset < 8192 then
    if offset = 1036 then blockSizeBits
    else if offset = 2064 then block
    else if offset = 2084 then 0xa4
    else if offset = 2085 then 0x81
    else rootByte offset
  else [nid, 0, 0, 0, 0, 0, 0, 0, 12, 0, fileType, 0, 97].getD (offset - 8192) 0

theorem entryImage_size_lt : 16384 < 2 ^ 64 := by decide

def entryImage (blockSizeBits block nid fileType : UInt8) : IErofsImageFile Unit :=
  imageOf 16384 entryImage_size_lt (entryByte blockSizeBits block nid fileType)

/-- The superblock of the image. -/
def entrySuperBlock (blockSizeBits : Nat) : ErofsSuperBlock :=
  ⟨⟨0xe0f5e1e2, 0, 0, blockSizeBits, 0, 64, 0, 0, 0, 0⟩, 2 ^ blockSizeBits⟩

end ErofsReader

end Erofs
