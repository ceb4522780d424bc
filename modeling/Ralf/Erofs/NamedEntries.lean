import Ralf.Erofs.EntryPaths
import Ralf.Erofs.Listing

/-!
# The paths of an image

The entries that a reader gives are entries of the image: those that the data of its directories
holds, from the root on. Nothing keeps a directory from having two entries of one name, so that an
entry can lie below the path of a symlink; when the names in each directory are unique, none does.
-/

namespace Erofs

open Posix Walk

namespace ErofsReader

section
variable {σ : Type} (file : IErofsImageFile σ) (lz4 : Lz4) (superBlock : ErofsSuperBlock)

/-- The directories of an image by their data, as far as their entries are well formed. An entry of
the type of a directory leads on. -/
def dataTree : Tree Directory DirEntry where
  lists dir entries :=
    Lists file lz4 superBlock dir.inode entries ∧ ∀ entry ∈ entries, entry.WellFormed
  sub := (walkTree file lz4 superBlock).sub
  given _ := True

/-- A directory of the image. -/
def HasDirectory (route : List Nat) (dir : Directory) : Prop :=
  At (dataTree file lz4 superBlock) (rootPlace superBlock).node route dir

/-- An entry of the image. -/
def HasEntry (spot : Spot Directory DirEntry) : Prop :=
  EntryAt (dataTree file lz4 superBlock) (rootPlace superBlock).node spot

/-- The path of an entry. -/
def pathOf (spot : Spot Directory DirEntry) : FilePath :=
  spot.parent.path.append spot.entry.fileName

/-- The inode is a symlink. -/
def IsSymlink (n : Nat) : Prop := ∃ s, (ErofsInode.new file superBlock n 0 s).1.type = .symlink

/-- No entry lies below the path of a symlink. -/
def NoneBelowLinks : Prop :=
  ∀ link spot, HasEntry file lz4 superBlock link → HasEntry file lz4 superBlock spot →
    IsSymlink file superBlock link.entry.inode → (pathOf link).names <+: (pathOf spot).names →
      (pathOf link).names = (pathOf spot).names

/-- No directory has two entries of one name. -/
def UniqueNames : Prop :=
  ∀ route dir entries, HasDirectory file lz4 superBlock route dir →
    Lists file lz4 superBlock dir.inode entries → (entries.map DirEntry.fileName).Nodup

/-- The data of the directories of the image can be read. -/
def DirectoriesReadable : Prop :=
  ∀ route dir, HasDirectory file lz4 superBlock route dir →
    IsDirectory file superBlock dir.inode → ∃ entries, Lists file lz4 superBlock dir.inode entries

end

section
variable {σ : Type} {file : IErofsImageFile σ} {lz4 : Lz4} {superBlock : ErofsSuperBlock}
  {route : List Nat} {dir : Directory}

theorem dataTree_sub {entry : DirEntry} {dir' : Directory} :
    (dataTree file lz4 superBlock).sub dir entry = some dir' ↔
      entry.fileType = .directory ∧ dir' = ⟨dir.path.append entry.fileName, entry.inode⟩ :=
  @walkTree_sub _ file lz4 superBlock _ _ _

/-- What holds of the root and goes from a directory to those in it holds of all directories. -/
theorem HasDirectory.closed {P : Nat → Prop} (hroot : P superBlock.rootInode)
    (hsub : ∀ n entries, P n → Lists file lz4 superBlock n entries → ∀ entry ∈ entries,
      entry.fileType = .directory → P entry.inode)
    (h : HasDirectory file lz4 superBlock route dir) : P dir.inode := by
  induction h with
  | root => exact hroot
  | sub _ hlists hentry hdir ih =>
    obtain ⟨htype, rfl⟩ := dataTree_sub.mp hdir
    exact hsub _ _ ih hlists.1 _ (List.mem_of_getElem? hentry) htype

/-! ## Names that are unique -/

/-- The path of an entry has the names of its directory and its own. -/
theorem names_append {path : FilePath} {entry : DirEntry} (hpath : PlainPath path)
    (hentry : entry.WellFormed) : (path.append entry.fileName).names =
      path.names ++ [entry.fileName] := by
  obtain ⟨names, rfl, -⟩ := hpath
  rw [append_eq_ofNames hentry.fileName]
  rfl

theorem HasDirectory.plainPath (h : HasDirectory file lz4 superBlock route dir) :
    PlainPath dir.path := by
  induction h with
  | root => exact ⟨[], rfl, fun _ hmem => nomatch hmem⟩
  | sub _ hlists hentry hsub ih =>
    obtain ⟨-, rfl⟩ := dataTree_sub.mp hsub
    exact ih.append (hlists.2 _ (List.mem_of_getElem? hentry))

theorem pathOf_names {entries : List DirEntry} {i : Nat} {entry : DirEntry}
    (h : HasDirectory file lz4 superBlock route dir)
    (hlists : (dataTree file lz4 superBlock).lists dir entries) (hentry : entries[i]? = some entry) :
    (dir.path.append entry.fileName).names = dir.path.names ++ [entry.fileName] :=
  names_append h.plainPath (hlists.2 _ (List.mem_of_getElem? hentry))

section
variable (hfile : file.Unchanging) (hunique : UniqueNames file lz4 superBlock)
include hfile hunique

/-- The names lead to one entry of a directory. -/
theorem entry_unique {entries entries' : List DirEntry} {i j : Nat} {entry entry' : DirEntry}
    (h : HasDirectory file lz4 superBlock route dir)
    (hlists : (dataTree file lz4 superBlock).lists dir entries) (hentry : entries[i]? = some entry)
    (hlists' : (dataTree file lz4 superBlock).lists dir entries')
    (hentry' : entries'[j]? = some entry') (hname : entry.fileName = entry'.fileName) :
    entry = entry' := by
  obtain rfl := hlists.1.eq hfile hlists'.1
  exact List.inj_on_of_nodup_map (hunique _ _ _ h hlists.1) (List.mem_of_getElem? hentry)
    (List.mem_of_getElem? hentry') hname

/-- The names lead to one directory. -/
theorem directory_unique (h : HasDirectory file lz4 superBlock route dir) {route' : List Nat}
    {dir' : Directory} (h' : HasDirectory file lz4 superBlock route' dir')
    (hnames : dir.path.names = dir'.path.names) : dir = dir' := by
  induction h generalizing route' dir' with
  | root =>
    cases h' with
    | root => rfl
    | sub hat hlists hentry hsub =>
      obtain ⟨-, rfl⟩ := dataTree_sub.mp hsub
      rw [pathOf_names hat hlists hentry] at hnames
      exact absurd hnames.symm (List.append_ne_nil_of_right_ne_nil _ (List.cons_ne_nil _ _))
  | sub hat hlists hentry hsub ih =>
    obtain ⟨-, rfl⟩ := dataTree_sub.mp hsub
    rw [pathOf_names hat hlists hentry] at hnames
    cases h' with
    | root => exact absurd hnames (List.append_ne_nil_of_right_ne_nil _ (List.cons_ne_nil _ _))
    | sub hat' hlists' hentry' hsub' =>
      obtain ⟨-, rfl⟩ := dataTree_sub.mp hsub'
      rw [pathOf_names hat' hlists' hentry'] at hnames
      obtain ⟨habove, hname⟩ := List.append_inj' hnames rfl
      obtain rfl := ih hat' habove
      obtain rfl := entry_unique hfile hunique hat hlists hentry hlists' hentry'
        (List.cons.inj hname).1
      rfl

end

/-- Each path above an entry is that of a directory. -/
theorem HasDirectory.above (h : HasDirectory file lz4 superBlock route dir)
    (hdirectory : IsDirectory file superBlock dir.inode) {names : List Bytes}
    (hnames : names <+: dir.path.names) :
    ∃ route' dir', HasDirectory file lz4 superBlock route' dir' ∧ dir'.path.names = names ∧
      IsDirectory file superBlock dir'.inode := by
  induction h with
  | root =>
    obtain rfl : names = [] := List.prefix_nil.mp hnames
    exact ⟨_, _, .root, rfl, hdirectory⟩
  | sub hat hlists hentry hsub ih =>
    have hbelow := At.sub hat hlists hentry hsub
    obtain ⟨-, rfl⟩ := dataTree_sub.mp hsub
    have hwhole := pathOf_names hat hlists hentry
    rw [hwhole] at hnames
    rcases List.prefix_concat_iff.mp hnames with rfl | hnames
    · exact ⟨_, _, hbelow, hwhole, hdirectory⟩
    · exact ih hlists.1.isDirectory hnames

/-- When the names in each directory are unique, no entry lies below a symlink. -/
theorem noneBelowLinks_of_uniqueNames (hfile : file.Unchanging)
    (hunique : UniqueNames file lz4 superBlock) : NoneBelowLinks file lz4 superBlock := by
  rintro link spot ⟨hat, hlists, hentry⟩ ⟨hat', hlists', hentry'⟩ ⟨s, hlink⟩ hbelow
  unfold pathOf at hbelow ⊢
  dsimp only at hlink hbelow ⊢
  rw [pathOf_names hat' hlists' hentry'] at hbelow ⊢
  rcases List.prefix_concat_iff.mp hbelow with heq | hbelow
  · exact heq
  -- the path of the symlink is also that of a directory
  exfalso
  obtain ⟨_, dir, habove, hnames, hdirectory⟩ :=
    HasDirectory.above hat' hlists'.1.isDirectory hbelow
  rw [pathOf_names hat hlists hentry] at hnames
  cases habove with
  | root => exact absurd hnames.symm (List.append_ne_nil_of_right_ne_nil _ (List.cons_ne_nil _ _))
  | sub hat₁ hlists₁ hentry₁ hsub₁ =>
    obtain ⟨-, rfl⟩ := dataTree_sub.mp hsub₁
    rw [pathOf_names hat₁ hlists₁ hentry₁] at hnames
    obtain ⟨hparent, hname⟩ := List.append_inj' hnames rfl
    obtain rfl := directory_unique hfile hunique hat₁ hat hparent
    obtain rfl := entry_unique hfile hunique hat hlists₁ hentry₁ hlists hentry
      (List.cons.inj hname).1
    have htype := hdirectory.eq hfile s
    dsimp only at htype
    rw [hlink] at htype
    cases htype

/-! ## What a reader gives -/

/-- A reader that has no error goes through entries of the image, or is at its end. -/
def InImage (file : IErofsImageFile σ) (lz4 : Lz4) (superBlock : ErofsSuperBlock)
    (reader : ErofsReader) : Prop :=
  reader.error = none → reader.dirStack = [] ∨
    superBlock.blockSize = 4096 ∧ ∃ a, Shows superBlock reader a ∧
      Sound (walkTree file lz4 superBlock) (rootPlace superBlock).node a

theorem new_inImage {reader : ErofsReader} {s s' : σ}
    (h : ErofsReader.new file lz4 s = .ok (reader, s'))
    (hsuper : superBlockOf file s = some superBlock) : InImage file lz4 superBlock reader := by
  intro herror
  obtain ⟨superBlock', hsuper', hcases⟩ := new_shows h herror
  obtain rfl : superBlock = superBlock' := Option.some.inj (hsuper.symm.trans hsuper')
  rcases hcases with ⟨-, rfl⟩ | ⟨hsize, a, hshows, hrun⟩
  · exact .inl rfl
  · refine .inr ⟨hsize, a, hshows, (hrun.sound ⟨fun _ hmem => (nomatch hmem), ?_⟩).1⟩
    intro place hplace
    obtain rfl := List.mem_singleton.mp hplace
    exact .root

/-- What a reader goes through is in the image, when the directories can be read. -/
theorem hasDirectory_of_at (hfile : file.Unchanging) (hsize : superBlock.blockSize = 4096)
    (hread : DirectoriesReadable file lz4 superBlock)
    (hat : At (walkTree file lz4 superBlock) (rootPlace superBlock).node route dir) :
    HasDirectory file lz4 superBlock route dir ∧ ∀ entries,
      Gives file lz4 superBlock dir.inode entries →
        (dataTree file lz4 superBlock).lists dir entries := by
  have hlists : ∀ route dir, HasDirectory file lz4 superBlock route dir → ∀ entries,
      Gives file lz4 superBlock dir.inode entries →
        (dataTree file lz4 superBlock).lists dir entries := by
    intro route dir hdir entries hgives
    obtain ⟨entries', hlists⟩ := hread _ _ hdir hgives.isDirectory
    have hpos : 0 < superBlock.blockSize := by omega
    have hsmall : superBlock.blockSize < 2 ^ 64 := by omega
    obtain rfl := hlists.gives hfile hpos hsmall hgives
    exact ⟨hlists, hgives.wellFormed⟩
  induction hat with
  | root => exact ⟨.root, hlists _ _ .root⟩
  | sub _ hgives hentry hsub ih =>
    have hdir := At.sub ih.1 (ih.2 _ hgives) hentry hsub
    exact ⟨hdir, hlists _ _ hdir⟩

/-- An entry that is given is one of the image. -/
theorem next_inImage (hfile : file.Unchanging) (hread : DirectoriesReadable file lz4 superBlock)
    {reader reader' : ErofsReader} {entry : Option ErofsEntry} {s s' : σ}
    (himage : InImage file lz4 superBlock reader)
    (h : reader.next file lz4 s = .ok (entry, reader', s')) :
    InImage file lz4 superBlock reader' ∧ ∀ given ∈ entry, ∃ spot,
      HasEntry file lz4 superBlock spot ∧ Renders file superBlock spot given := by
  by_cases herror : reader.error = none
  swap
  · cases next_cases h with
    | idle => exact ⟨himage, fun _ hgiven => nomatch hgiven⟩
    | invalid hat => exact absurd hat.error herror
    | within hat => exact absurd hat.error herror
    | across hat => exact absurd hat.error herror
  rcases himage herror with hstack | ⟨hsize, a, hshows, hsound⟩
  · rw [next_idle (.inl hstack)] at h
    cases h
    exact ⟨himage, fun _ hgiven => nomatch hgiven⟩
  cases next_shows h hshows with
  | finished ha hshows' => exact ⟨fun _ => .inr ⟨hsize, a, hshows', hsound⟩, fun _ hgiven => nomatch hgiven⟩
  | @given b spot entry reader' hrun hentry hshows' =>
    obtain ⟨hsound', hspots⟩ := hrun.sound hsound
    refine ⟨fun _ => .inr ⟨hsize, b, hshows', hsound'⟩, ?_⟩
    rintro _ ⟨⟩
    refine ⟨spot, ?_, hentry⟩
    cases hspots spot List.mem_cons_self with
    | intro hat hlists hget =>
      obtain ⟨hdir, hgiven⟩ := hasDirectory_of_at hfile hsize hread hat
      exact .intro hdir (hgiven _ hlists) hget
  | unusable _ _ hfailed => exact ⟨fun hnone => absurd hnone hfailed, fun _ hgiven => nomatch hgiven⟩
  | refused _ _ hfailed => exact ⟨fun hnone => absurd hnone hfailed, fun _ hgiven => nomatch hgiven⟩

/-- The type of an entry that is given is that of its inode. -/
theorem Renders.isSymlink {spot : Spot Directory DirEntry} {entry : ErofsEntry}
    (h : Renders file superBlock spot entry) (htype : entry.inode.type = .symlink) :
    IsSymlink file superBlock spot.entry.inode := by
  obtain ⟨hints, s, s', hinode⟩ := h.inode
  rw [ErofsInode.new_hints] at hinode
  refine ⟨s, ?_⟩
  have heq := congrArg (fun result => result.1.type) hinode
  exact heq.trans htype

end

end ErofsReader

end Erofs
