import Ralf.Erofs.DirectoryBlocks
import Ralf.Lib.Walk

/-!
# The walk over the directories of an image

What `next` does between two entries is a breadth-first walk: a reader that has no error
shows a state of it. The tree of the walk is that of the directories as the types of the
directory entries say it, and what a directory gives may depend on what an earlier one left
in the buffer, as long as a block of it cannot be read.
-/

namespace Erofs

open Walk

variable {σ : Type}

/-- What a file gives does not depend on its state. -/
def IErofsImageFile.Unchanging (file : IErofsImageFile σ) : Prop :=
  Agree (fun _ _ => True) file file

theorem imageOf_unchanging (size : Nat) (h : size < 2 ^ 64) (byte : Nat → UInt8) :
    (imageOf size h byte).Unchanging where
  size := rfl
  read s t buffer buffer' offset := by
    rintro - hlength
    unfold imageOf
    dsimp only
    rw [hlength]
    split
    · trivial
    · exact ⟨rfl, trivial⟩

/-! ## Inodes -/

namespace ErofsInode

/-- The hints are only stored. -/
theorem new_hints (file : IErofsImageFile σ) (superBlock : ErofsSuperBlock)
    (n hints : Nat) (s : σ) :
    ErofsInode.new file superBlock n hints s =
      ({ (ErofsInode.new file superBlock n 0 s).1 with inodeReaderHints := hints },
        (ErofsInode.new file superBlock n 0 s).2) := by
  unfold ErofsInode.new
  dsimp only
  rcases file.readBytes 32 (superBlock.inodeOffset n) s with ⟨_ | buf, s⟩
  · rfl
  dsimp only
  split
  · unfold processCompactInode
    dsimp only
    split
    · rfl
    · rfl
  · rcases file.readBytes 32 (wrap64 (superBlock.inodeOffset n + 32)) s with ⟨_ | rest, s⟩
    · rfl
    dsimp only
    unfold processExtendedInode
    split
    · rfl
    split
    · rfl
    · rfl

theorem new_inodeNumber {file : IErofsImageFile σ} {superBlock : ErofsSuperBlock} {n hints : Nat}
    {s s' : σ} {inode : ErofsInode} (h : ErofsInode.new file superBlock n hints s = (inode, s')) :
    inode.inodeNumber = n := by
  unfold ErofsInode.new at h
  dsimp only at h
  split at h
  · cases h
    rfl
  split at h
  · cases h
    unfold processCompactInode
    split
    · rfl
    · rfl
  split at h
  · cases h
    rfl
  · cases h
    unfold processExtendedInode
    split
    · rfl
    split
    · rfl
    · rfl

end ErofsInode

/-! ## What a directory gives -/

namespace ErofsReader

section
variable (file : IErofsImageFile σ) (lz4 : Lz4) (superBlock : ErofsSuperBlock)

/-- What `readDirectory` can answer for a directory. -/
def Answers (n : Nat) (entries : Option (List DirEntry)) : Prop :=
  ∃ buffer s reader' s', buffer.length = superBlock.blockSize ∧
    readDirectory file lz4 superBlock n { dirBlockBuffer := buffer } s = .ok (entries, reader', s')

/-- The entries that a directory can give. -/
def Gives (n : Nat) (entries : List DirEntry) : Prop := Answers file lz4 superBlock n (some entries)

/-- The entries that a directory has, by its data. -/
def Lists (n : Nat) (entries : List DirEntry) : Prop :=
  ∃ s, DirectoryEntries file lz4 superBlock s n entries

/-- The entries that a directory gives whose data can be read. -/
def Listed (n : Nat) (entries : List DirEntry) : Prop :=
  Gives file lz4 superBlock n entries ∧ ∃ s blocks, DirectoryData file lz4 superBlock s n blocks

/-- The inode is a directory. -/
def IsDirectory (n : Nat) : Prop := ∃ s, (ErofsInode.new file superBlock n 0 s).1.type = .directory

/-- The inode has a type that is supported. -/
def Usable (n : Nat) : Prop := ∃ s, (ErofsInode.new file superBlock n 0 s).1.isValid = true

/-- The place where a walk starts. -/
def rootPlace : Place Directory := ⟨[], ⟨FilePath.empty, superBlock.rootInode⟩⟩

/-- The directories as the reader goes through them. -/
def walkTree : Tree Directory DirEntry where
  lists dir entries := Gives file lz4 superBlock dir.inode entries
  sub dir entry :=
    if entry.fileType = .directory then some ⟨dir.path.append entry.fileName, entry.inode⟩ else none
  given entry := Usable file superBlock entry.inode

end

section
variable {file : IErofsImageFile σ} {lz4 : Lz4} {superBlock : ErofsSuperBlock} {n : Nat}
  {entries entries' : List DirEntry}

/-- An entry of the type of a directory leads to its inode. -/
theorem walkTree_sub {dir : Directory} {entry : DirEntry} {dir' : Directory} :
    (walkTree file lz4 superBlock).sub dir entry = some dir' ↔
      entry.fileType = .directory ∧ dir' = ⟨dir.path.append entry.fileName, entry.inode⟩ := by
  unfold walkTree
  dsimp only
  rw [Option.ite_none_right_eq_some, Option.some_inj]
  exact and_congr_right' eq_comm

theorem Listed.gives (h : Listed file lz4 superBlock n entries) :
    Gives file lz4 superBlock n entries := h.1

theorem Listed.readable (h : Listed file lz4 superBlock n entries) (hfile : file.Unchanging)
    (s : σ) : DataReadable file lz4 superBlock s n := by
  obtain ⟨-, t, blocks, hdata⟩ := h
  exact fun _ => ⟨blocks, hdata.alike hfile trivial⟩

/-- A directory whose data can be read gives the same, whatever the buffer holds. -/
theorem Listed.answer (h : Listed file lz4 superBlock n entries) (hfile : file.Unchanging)
    {answer : Option (List DirEntry)} (hanswer : Answers file lz4 superBlock n answer) :
    answer = some entries := by
  obtain ⟨buffer, s, reader₁, s₁, hbuffer, hread⟩ := h.gives
  obtain ⟨buffer', t, reader₂, t₁, hbuffer', hread'⟩ := hanswer
  obtain ⟨_, -, -, heq, -⟩ := @readDirectory_lockstep _ _ file file lz4 _ s t hfile trivial
    superBlock n (h.readable hfile s) { dirBlockBuffer := buffer } buffer' hbuffer.ge
    (hbuffer'.trans hbuffer.symm) _ _ hread hread'
  exact heq.symm

theorem Listed.eq (h : Listed file lz4 superBlock n entries) (hfile : file.Unchanging)
    (h' : Gives file lz4 superBlock n entries') : entries' = entries :=
  Option.some.inj (h.answer hfile h')

theorem Lists.eq (h : Lists file lz4 superBlock n entries) (hfile : file.Unchanging)
    (h' : Lists file lz4 superBlock n entries') : entries = entries' := by
  obtain ⟨s, hentries⟩ := h
  obtain ⟨t, hentries'⟩ := h'
  exact hentries.eq hfile trivial hentries'

/-- What a directory gives is what it has. -/
theorem Lists.gives (h : Lists file lz4 superBlock n entries) (hfile : file.Unchanging)
    (hpos : 0 < superBlock.blockSize) (hsize : superBlock.blockSize < 2 ^ 64)
    (h' : Gives file lz4 superBlock n entries') : entries' = entries := by
  obtain ⟨s, blocks, hdata, rfl⟩ := h
  obtain ⟨buffer, t, reader', t', hbuffer, hread⟩ := h'
  obtain ⟨-, hentries⟩ := readDirectory_dirents hfile (s := t) (t := s) trivial hdata hbuffer.ge hread
  obtain ⟨blocks', hdata', rfl⟩ := hentries hpos hsize
  rw [hdata'.eq hfile trivial hdata]

/-- Only a directory gives entries. -/
theorem Gives.isDirectory (h : Gives file lz4 superBlock n entries) :
    IsDirectory file superBlock n := by
  obtain ⟨buffer, s, reader', s', -, hread⟩ := h
  exact ⟨s, readDirectory_type hread⟩

theorem Lists.isDirectory (h : Lists file lz4 superBlock n entries) :
    IsDirectory file superBlock n := by
  obtain ⟨s, blocks, ⟨htype, -⟩, -⟩ := h
  exact ⟨s, htype⟩

theorem IsDirectory.eq (h : IsDirectory file superBlock n) (hfile : file.Unchanging) (s : σ) :
    (ErofsInode.new file superBlock n 0 s).1.type = .directory := by
  obtain ⟨t, ht⟩ := h
  rw [(ErofsInode.new_alike hfile (s := s) (t := t) trivial superBlock n 0).1]
  exact ht

theorem Usable.eq (h : Usable file superBlock n) (hfile : file.Unchanging) (s : σ) :
    (ErofsInode.new file superBlock n 0 s).1.isValid = true := by
  obtain ⟨t, ht⟩ := h
  rw [(ErofsInode.new_alike hfile (s := s) (t := t) trivial superBlock n 0).1]
  exact ht

/-- What a directory gives depends on the buffer of the reader only. -/
theorem readDirectoryLoop_answers {blockSize blocks offset : Nat} {results : List DirEntry}
    {inode : ErofsInode} {reader reader' : ErofsReader} {answer : Option (List DirEntry)} {s s' : σ}
    (h : readDirectoryLoop file lz4 blockSize blocks offset results inode reader s =
      .ok (answer, reader', s')) (other : ErofsReader) :
    ∃ buffer',
      reader' = { reader with dirBlockBuffer := buffer' } ∧
      buffer'.length = reader.dirBlockBuffer.length ∧
      readDirectoryLoop file lz4 blockSize blocks offset results inode
          { other with dirBlockBuffer := reader.dirBlockBuffer } s =
        .ok (answer, { other with dirBlockBuffer := buffer' }, s') := by
  induction blocks generalizing offset results inode reader other s with
  | zero =>
    cases h
    exact ⟨_, rfl, rfl, rfl⟩
  | succ blocks ih =>
    rw [readDirectoryLoop_succ] at h ⊢
    split at h
    · next hlt =>
      rw [if_pos hlt]
      dsimp only at h ⊢
      split at h
      · next hsmall =>
        cases h
        exact ⟨_, rfl, rfl, by rw [if_pos hsmall]⟩
      next hsmall =>
      rw [if_neg hsmall]
      split at h
      · cases h
      next rd data inode' s₁ hread =>
      have hlength : (data ++ reader.dirBlockBuffer.drop
        (min blockSize (inode.size - offset))).length =
          reader.dirBlockBuffer.length :=
        length_take_append_drop _ (ErofsInode.read_length hread)
      split at h
      · next hzero =>
        cases h
        exact ⟨_, rfl, hlength, by rw [if_pos hzero]⟩
      next hzero =>
      rw [if_neg hzero]
      split at h
      · cases h
      · cases h
        exact ⟨_, rfl, hlength, rfl⟩
      · obtain ⟨buffer', rfl, hbuffer', hrest⟩ := ih h other
        exact ⟨buffer', rfl, hbuffer'.trans hlength, hrest⟩
    · next hge =>
      cases h
      exact ⟨_, rfl, rfl, by rw [if_neg hge]⟩

theorem readDirectory_other {reader reader' : ErofsReader}
    {answer : Option (List DirEntry)} {s s' : σ}
    (h : reader.readDirectory file lz4 superBlock n s = .ok (answer, reader', s'))
    (other : ErofsReader) :
    ∃ buffer',
      reader' = { reader with dirBlockBuffer := buffer' } ∧
      buffer'.length = reader.dirBlockBuffer.length ∧
      readDirectory file lz4 superBlock n { other with dirBlockBuffer := reader.dirBlockBuffer } s =
        .ok (answer, { other with dirBlockBuffer := buffer' }, s') := by
  unfold readDirectory at h ⊢
  dsimp only at h ⊢
  split at h
  · next htype =>
    cases h
    exact ⟨_, rfl, rfl, by rw [if_pos htype]⟩
  · next htype =>
    rw [if_neg htype]
    exact readDirectoryLoop_answers h other

/-- A call of `readDirectory` is one of its answers. -/
theorem readDirectory_answers {reader reader' : ErofsReader}
    {answer : Option (List DirEntry)} {s s' : σ}
    (h : reader.readDirectory file lz4 superBlock n s = .ok (answer, reader', s'))
    (hbuffer : reader.dirBlockBuffer.length = superBlock.blockSize) :
    ∃ buffer', reader' = { reader with dirBlockBuffer := buffer' } ∧
      buffer'.length = superBlock.blockSize ∧ Answers file lz4 superBlock n answer := by
  obtain ⟨buffer', hreader, hbuffer', hrest⟩ := readDirectory_other h {}
  exact ⟨buffer', hreader, hbuffer'.trans hbuffer, _, s, _, s', hbuffer, hrest⟩

/-- A directory whose data can be read is read without a fault. -/
theorem Listed.total (h : Listed file lz4 superBlock n entries) (hfile : file.Unchanging)
    {reader : ErofsReader} (hbuffer : reader.dirBlockBuffer.length = superBlock.blockSize) (s : σ) :
    ∃ reader' s', reader.readDirectory file lz4 superBlock n s = .ok
      (some entries, reader', s') := by
  obtain ⟨buffer, t, reader₁, t₁, hlength, hread⟩ := h.gives
  obtain ⟨final, s', hgiven⟩ := @readDirectory_given _ _ file file lz4 _ hfile t t₁ s trivial
    superBlock n (h.readable hfile t) entries { dirBlockBuffer := buffer } reader₁
    reader.dirBlockBuffer hlength.ge (hbuffer.trans hlength.symm) hread
  obtain ⟨buffer', -, -, hother⟩ := readDirectory_other hgiven reader
  exact ⟨_, s', hother⟩

/-- The entries of a directory are well formed. -/
theorem Gives.wellFormed (h : Gives file lz4 superBlock n entries) :
    ∀ entry ∈ entries, entry.WellFormed := by
  obtain ⟨buffer, s, reader', s', -, hread⟩ := h
  exact readDirectory_wellFormed hread

/-! ## The reader shows the walk -/

/-- A reader without an error shows a state of the walk. -/
structure Shows (superBlock : ErofsSuperBlock) (reader : ErofsReader)
    (a : State Directory DirEntry) :
    Prop where
  parsed : reader.superBlock = some superBlock
  buffer : reader.dirBlockBuffer.length = superBlock.blockSize
  error : reader.error = none
  stack : reader.dirStack = [] ∧ a = ⟨[], []⟩ ∨
    ∃ place : Place Directory, reader.dirStack = place.node :: a.queue.map Place.node ∧
      a.pending = (place.spots reader.currentDir).drop reader.currentDirIndex ∧
      reader.currentDirIndex < reader.currentDir.length

/-- The place at the front of the queue cannot be read. -/
def Refused (file : IErofsImageFile σ) (lz4 : Lz4) (superBlock : ErofsSuperBlock)
    (a : State Directory DirEntry) : Prop :=
  ∃ place queue, a = ⟨[], place :: queue⟩ ∧
    Answers file lz4 superBlock place.node.inode none

/-- The next directory is found by expanding places, up to one that gives entries. -/
theorem nextDirectory_shows {queue : List (Place Directory)}
    {reader reader' : ErofsReader} {found : Bool}
    {s s' : σ}
    (h : nextDirectory file lz4 superBlock (queue.map Place.node) reader s = .ok
    (found, reader', s'))
    (hsuper : reader.superBlock = some superBlock)
    (hbuffer : reader.dirBlockBuffer.length = superBlock.blockSize) (herror : reader.error = none)
    (hindex : reader.currentDirIndex = 0) :
    ∃ a, Run (walkTree file lz4 superBlock) ⟨[], queue⟩ [] a ∧
      if found then Shows superBlock reader' a else reader'.error ≠ none ∧
        Refused file lz4 superBlock a := by
  induction queue generalizing reader s with
  | nil =>
    cases h
    exact ⟨_, .refl _, hsuper, hbuffer, herror, .inl ⟨rfl, rfl⟩⟩
  | cons place queue ih =>
    rw [List.map_cons] at h
    unfold nextDirectory at h
    split at h
    · cases h
    · next hread =>
      obtain ⟨buffer', rfl, hbuffer', hanswer⟩ := readDirectory_answers hread hbuffer
      cases h
      exact ⟨_, .refl _, fun hnone => (nomatch hnone), place, queue, rfl, hanswer⟩
    · next hread =>
      obtain ⟨buffer', rfl, hbuffer', hanswer⟩ := readDirectory_answers hread hbuffer
      have hlists : (walkTree file lz4 superBlock).lists place.node [] := hanswer
      obtain ⟨a, hrun, ha⟩ := ih h hsuper hbuffer' herror hindex
      exact ⟨a, .head (.expand hlists) hrun, ha⟩
    · next entry others reader₁ s₁ hread =>
      obtain ⟨buffer', rfl, hbuffer', hanswer⟩ := readDirectory_answers hread hbuffer
      have hlists : (walkTree file lz4 superBlock).lists place.node (entry :: others) :=
        hanswer
      cases h
      refine ⟨_, .head (.expand hlists) (.refl _), hsuper, hbuffer', herror,
        .inr ⟨place, rfl, ?_, ?_⟩⟩
      · show _ = List.drop reader.currentDirIndex _
        rw [hindex]
        rfl
      · show reader.currentDirIndex < _
        rw [hindex]
        exact Nat.succ_pos _

/-- The entry that is given for an entry of a directory. -/
structure Renders (file : IErofsImageFile σ) (superBlock : ErofsSuperBlock)
    (spot : Spot Directory DirEntry)
    (entry : ErofsEntry) : Prop where
  path : entry.path = spot.parent.path.append spot.entry.fileName
  inode : ∃ hints s s', ErofsInode.new file superBlock spot.entry.inode hints s = (entry.inode, s')

/-- What a call of `next` does to the walk. -/
inductive Answered (file : IErofsImageFile σ) (lz4 : Lz4) (superBlock : ErofsSuperBlock)
    (a : State Directory DirEntry) : Option ErofsEntry → ErofsReader → Prop
  | finished {reader : ErofsReader} (ha : a = ⟨[], []⟩) (hshows : Shows superBlock reader a) :
      Answered file lz4 superBlock a none reader
  | given {b : State Directory DirEntry} {spot : Spot Directory DirEntry} {entry : ErofsEntry}
      {reader : ErofsReader} (hrun : Run (walkTree file lz4 superBlock) a [spot] b)
      (hentry : Renders file superBlock spot entry) (hshows : Shows superBlock reader b) :
      Answered file lz4 superBlock a (some entry) reader
  | unusable {spot : Spot Directory DirEntry} {reader : ErofsReader} (hspot : spot ∈ a.pending)
      {hints : Nat} {s : σ}
      (hinvalid : ¬ (ErofsInode.new file superBlock spot.entry.inode hints s).1.isValid = true)
      (herror : reader.error ≠ none) : Answered file lz4 superBlock a none reader
  | refused {b : State Directory DirEntry} {spot : Spot Directory DirEntry} {reader : ErofsReader}
      (hrun : Run (walkTree file lz4 superBlock) a [spot] b)
        (hrefused : Refused file lz4 superBlock b)
      (herror : reader.error ≠ none) : Answered file lz4 superBlock a none reader

theorem Renders.usable {spot : Spot Directory DirEntry} {entry : ErofsEntry}
    (h : Renders file superBlock spot entry) (hvalid : entry.inode.isValid = true) :
    Usable file superBlock spot.entry.inode := by
  obtain ⟨hints, s, s', hinode⟩ := h.inode
  refine ⟨s, ?_⟩
  rw [ErofsInode.new_hints] at hinode
  have heq : _ = entry.inode := congrArg Prod.fst hinode
  rw [← heq] at hvalid
  exact hvalid

/-- The entry that the reader is at is the first that is pending. -/
theorem Shows.pending {reader : ErofsReader} {a : State Directory DirEntry}
    {superBlock' : ErofsSuperBlock}
    {front : Directory} {dirEntry : DirEntry} (h : Shows superBlock reader a)
    (hat : reader.AtEntry superBlock' front dirEntry) :
    superBlock' = superBlock ∧ ∃ place : Place Directory, front = place.node ∧
      reader.dirStack = front :: a.queue.map Place.node ∧
      a.pending = ⟨place.route ++ [reader.currentDirIndex], front, dirEntry⟩ ::
        (place.spots reader.currentDir).drop (reader.currentDirIndex + 1) := by
  refine ⟨Option.some.inj (hat.superBlock.symm.trans h.parsed), ?_⟩
  rcases h.stack with ⟨hstack, -⟩ | ⟨place, hstack, hpending, hlt⟩
  · have hfront := hat.front
    rw [hstack] at hfront
    cases hfront
  · have hfront := hat.front
    rw [hstack] at hfront
    cases hfront
    have hspot : (place.spots reader.currentDir)[reader.currentDirIndex]? =
        some ⟨place.route ++ [reader.currentDirIndex], place.node, dirEntry⟩ := by
      unfold Place.spots
      rw [List.getElem?_mapIdx, hat.dirEntry]
      rfl
    obtain ⟨hlt', hspot⟩ := List.getElem?_eq_some_iff.mp hspot
    refine ⟨place, rfl, hstack, ?_⟩
    rw [hpending, List.drop_eq_getElem_cons hlt', hspot]

/-- The queue after an entry was taken. -/
theorem advance_stack {reader : ErofsReader} {place : Place Directory} {dirEntry : DirEntry}
    {queue : List (Place Directory)} (route : List Nat)
    (hstack : reader.dirStack = place.node :: queue.map Place.node) :
    (reader.advance place.node dirEntry).dirStack = place.node ::
      (queue ++ (walkTree file lz4 superBlock).enter ⟨route, place.node, dirEntry⟩).map
        Place.node := by
  unfold advance Tree.enter walkTree
  dsimp only
  rw [hstack, List.map_append]
  split
  · rfl
  · rw [Option.map_none, Option.toList_none, List.map_nil, List.append_nil]

theorem next_shows {reader reader' : ErofsReader} {a : State Directory DirEntry}
    {entry : Option ErofsEntry}
    {s s' : σ} (h : reader.next file lz4 s = .ok (entry, reader', s'))
    (hshows : Shows superBlock reader a) :
    Answered file lz4 superBlock a entry reader' := by
  cases next_cases h with
  | idle hidle =>
    rcases hidle with hstack | ⟨-, herror⟩
    · rcases hshows.stack with ⟨-, ha⟩ | ⟨place, hstack', -⟩
      · exact .finished ha hshows
      · rw [hstack] at hstack'
        cases hstack'
    · rw [hshows.error] at herror
      cases herror
  | @invalid superBlock' front dirEntry inode s₁ hat hinode hinvalid =>
    obtain ⟨rfl, place, rfl, -, hpending⟩ := hshows.pending hat
    refine @Answered.unusable _ file lz4 superBlock' a
      ⟨place.route ++ [reader.currentDirIndex], place.node,
      dirEntry⟩ _ ?_ (reader.hintsFor dirEntry) s ?_ ?_
    · rw [hpending]
      exact List.mem_cons_self
    · rw [hinode]
      exact hinvalid
    · exact fun hnone => nomatch hnone
  | @within superBlock' front dirEntry inode s₁ hat hinode hvalid hmore =>
    obtain ⟨rfl, place, rfl, hstack, hpending⟩ := hshows.pending hat
    obtain ⟨pending, queue⟩ := a
    obtain rfl := hpending
    have hentry : Renders file superBlock'
      ⟨place.route ++ [reader.currentDirIndex], place.node, dirEntry⟩
        ⟨place.node.path.append dirEntry.fileName, inode⟩ := ⟨rfl, _, s, _, hinode⟩
    refine .given (.head (.give (hentry.usable hvalid)) (.refl _)) hentry
      ⟨hshows.parsed, hshows.buffer, hshows.error, .inr ⟨place, ?_, rfl, hmore⟩⟩
    exact advance_stack _ hstack
  | @across superBlock' front dirEntry inode s₁ s₂ reader₁ found hat hinode hvalid hlast hnext =>
    obtain ⟨rfl, place, rfl, hstack, hpending⟩ := hshows.pending hat
    have hnone : (place.spots reader.currentDir).drop (reader.currentDirIndex + 1) = [] := by
      refine List.drop_of_length_le ?_
      unfold Place.spots
      rw [List.length_mapIdx]
      exact hlast
    rw [hnone] at hpending
    obtain ⟨pending, queue⟩ := a
    obtain rfl := hpending
    have hentry : Renders file superBlock'
      ⟨place.route ++ [reader.currentDirIndex], place.node, dirEntry⟩
        ⟨place.node.path.append dirEntry.fileName, inode⟩ := ⟨rfl, _, s, s₁, hinode⟩
    rw [@advance_stack _ file lz4 superBlock' _ _ _ _
      (place.route ++ [reader.currentDirIndex]) hstack,
      List.tail_cons] at hnext
    obtain ⟨b, hrun, hb⟩ := nextDirectory_shows hnext hshows.parsed hshows.buffer hshows.error rfl
    have hgive := Run.head (.give (hentry.usable hvalid)) hrun
    cases found with
    | true => exact .given hgive hentry hb
    | false => exact .refused hgive hb.2 hb.1

/-- The advice is for the inodes of regular files. -/
theorem Shows.advise {reader : ErofsReader} {a : State Directory DirEntry}
    (h : Shows superBlock reader a)
    (advice : Bool) : Shows superBlock { reader with readAllOnce := advice } a :=
  ⟨h.parsed, h.buffer, h.error, h.stack⟩

/-- A reader that was made has a superblock, and is at the start of a walk when the size of the
blocks is supported. -/
theorem new_shows {reader : ErofsReader} {s s' : σ}
    (h : ErofsReader.new file lz4 s = .ok (reader, s'))
    (herror : reader.error = none) :
    ∃ superBlock, superBlockOf file s = some superBlock ∧
      (superBlock.blockSize ≠ 4096 ∧ reader = {} ∨
        superBlock.blockSize = 4096 ∧ ∃ a, Shows superBlock reader a ∧
          Run (walkTree file lz4 superBlock) ⟨[], [rootPlace superBlock]⟩ [] a) := by
  unfold ErofsReader.new at h
  unfold superBlockOf
  dsimp only at h
  rcases hx : file.readBytes firstBlockSize 0 s with ⟨_ | buf, s₁⟩
  · rw [hx] at h
    cases h
    cases herror
  rw [hx] at h
  dsimp only at h ⊢
  cases hparse : ErofsSuperBlock.parse buf with
  | error fault =>
    rw [hparse] at h
    cases h
  | ok parsed =>
    rw [hparse] at h
    cases parsed with
    | error error =>
      cases h
      cases herror
    | ok superBlock =>
      refine ⟨superBlock, rfl, ?_⟩
      dsimp only at h
      split at h
      · next hsize =>
        cases h
        exact .inl ⟨hsize, rfl⟩
      next hsize =>
      refine .inr ⟨not_not.mp hsize, ?_⟩
      split at h
      · cases h
      · cases h
        cases herror
      · next hread =>
        obtain ⟨buffer', rfl, hbuffer', hanswer⟩ :=
          readDirectory_answers hread List.length_replicate
        have hlists : (walkTree file lz4 superBlock).lists (rootPlace superBlock).node [] :=
          hanswer
        cases h
        exact ⟨_, ⟨rfl, hbuffer', rfl, .inl ⟨rfl, rfl⟩⟩, .head (.expand hlists) (.refl _)⟩
      · next entry rest reader₁ s₂ hread =>
        obtain ⟨buffer', rfl, hbuffer', hanswer⟩ :=
          readDirectory_answers hread List.length_replicate
        have hlists : (walkTree file lz4 superBlock).lists (rootPlace superBlock).node
          (entry :: rest) :=
          hanswer
        cases h
        exact ⟨_, ⟨rfl, hbuffer', rfl, .inr ⟨rootPlace superBlock, rfl, rfl, Nat.succ_pos _⟩⟩,
          .head (.expand hlists) (.refl _)⟩

/-- What the calls of `next` give, up to one that gives none without an error, is a walk to its
end. -/
theorem takeNext_shows {entries : List ErofsEntry} {reader final : ErofsReader}
    {a : State Directory DirEntry} {s s' : σ}
    (h : takeNext file lz4 (entries.length + 1) reader s = .ok
    (entries.map some ++ [none], final, s'))
    (hshows : Shows superBlock reader a) (herror : final.error = none) :
    ∃ out, Run (walkTree file lz4 superBlock) a out ⟨[], []⟩ ∧
      List.Forall₂ (Renders file superBlock) out entries := by
  induction entries generalizing reader a s with
  | nil =>
    unfold takeNext at h
    split at h
    · cases h
    next hnext =>
    cases h
    cases next_shows hnext hshows with
    | finished ha =>
      subst ha
      exact ⟨[], .refl _, .nil⟩
    | unusable _ _ hfailed => exact absurd herror hfailed
    | refused _ _ hfailed => exact absurd herror hfailed
  | cons entry entries ih =>
    unfold takeNext at h
    split at h
    · cases h
    next hnext =>
    split at h
    · cases h
    next hrest =>
    cases h
    cases next_shows hnext hshows with
    | given hrun hentry hshows' =>
      obtain ⟨out, hrun', hentries⟩ := ih hrest hshows'
      exact ⟨_, hrun.trans hrun', .cons hentry hentries⟩

end

end ErofsReader

end Erofs
