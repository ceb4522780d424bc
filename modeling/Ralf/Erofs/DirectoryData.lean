import Ralf.Erofs.ReadFailures

/-!
# The data of directories

What a directory holds, apart from the loop that reads it: the data of its inode, block after
block, and the directory entries that are stored in each block.

`readDirectory_dirents` connects the two: a directory that is given has the entries of all its
blocks, however many there are.
-/

namespace Erofs

variable {σ τ : Type}

/-! ## The data of an inode -/

/-- The data of an inode from an offset on, in blocks: every read fills its buffer. What the
buffers held before is left open. -/
inductive ReadsBlocks (file : IErofsImageFile σ) (lz4 : Lz4) (blockSize : Nat) :
    ErofsInode → Nat → σ → List Bytes → Prop
  | done {inode : ErofsInode} {offset : Nat} {s : σ} (hend : inode.size ≤ offset) :
      ReadsBlocks file lz4 blockSize inode offset s []
  | block {inode inode' : ErofsInode} {offset : Nat} {s s' : σ} {buffer block : Bytes}
      {blocks : List Bytes} (hoffset : offset < inode.size)
      (hbuffer : buffer.length = min blockSize (inode.size - offset))
      (hread : inode.read file lz4 buffer offset s = .ok (buffer.length, block, inode', s'))
      (hrest : ReadsBlocks file lz4 blockSize inode' (offset + buffer.length) s' blocks) :
      ReadsBlocks file lz4 blockSize inode offset s (block :: blocks)

/-- The data of a directory, with the image file in a state. -/
def DirectoryData (file : IErofsImageFile σ) (lz4 : Lz4) (superBlock : ErofsSuperBlock) (s : σ)
    (n : Nat) (blocks : List Bytes) : Prop :=
  (ErofsInode.new file superBlock n 0 s).1.type = .directory ∧
    ReadsBlocks file lz4 superBlock.blockSize (ErofsInode.new file superBlock n 0 s).1 0
      (ErofsInode.new file superBlock n 0 s).2 blocks

section
variable {file : IErofsImageFile σ} {file' : IErofsImageFile τ} {lz4 : Lz4} {S : σ → τ → Prop}
  {s : σ} {t : τ} {blockSize offset : Nat} {inode : ErofsInode} {blocks blocks' : List Bytes}

/-- A read that fills its buffer fills one of the same size alike, with a file that agrees. -/
theorem read_alike_ok (h : Agree S file file') (hs : S s t) {inode' : ErofsInode}
    {buffer buffer' block : Bytes} {s' : σ}
    (hread : inode.read file lz4 buffer offset s = .ok (buffer.length, block, inode', s'))
    (hlength : buffer'.length = buffer.length) :
    ∃ t', inode.read file' lz4 buffer' offset t = .ok (buffer.length, block, inode', t') ∧
      S s' t' := by
  obtain ⟨block', t', hread', hs', hsame⟩ :=
    @ErofsInode.read_covered _ _ S file file' lz4 _ _ _ _ _ _ _ _ _ h.covers hs hlength.symm _ hread
      (by omega)
  have hblock := ErofsInode.read_length hread
  have hblock' := ErofsInode.read_length hread'
  rw [Int.toNat_natCast, List.take_of_length_le hblock.le,
    List.take_of_length_le (hblock'.trans hlength).le] at hsame
  exact ⟨t', hsame ▸ hread', hs'⟩

/-- The data is the same with every file that agrees. -/
theorem ReadsBlocks.alike (hdata : ReadsBlocks file lz4 blockSize inode offset s blocks)
    (h : Agree S file file') (hs : S s t) :
    ReadsBlocks file' lz4 blockSize inode offset t blocks := by
  induction hdata generalizing t with
  | done hend => exact .done hend
  | @block inode inode' offset s s' buffer block rest hoffset hbuffer hread _ ih =>
    obtain ⟨t', hread', hs'⟩ := read_alike_ok h hs hread rfl
    exact .block hoffset hbuffer hread' (ih hs')

/-- Reads of the next block give that block, with both files and whatever the buffers held. -/
theorem ReadsBlocks.next (hdata : ReadsBlocks file' lz4 blockSize inode offset t blocks)
    (h : Agree S file file') (hs : S s t) (hoffset : offset < inode.size)
    {buffer buffer' : Bytes} (hbuffer : buffer.length = min blockSize (inode.size - offset))
    (hbuffer' : buffer'.length = buffer.length) :
    ∃ block rest inode' s' t', blocks = block :: rest ∧ S s' t' ∧
      inode.read file lz4 buffer offset s = .ok (buffer.length, block, inode', s') ∧
      inode.read file' lz4 buffer' offset t = .ok (buffer.length, block, inode', t') ∧
      ReadsBlocks file' lz4 blockSize inode' (offset + buffer.length) t' rest := by
  cases hdata with
  | done hend => exact absurd hoffset (Nat.not_lt.mpr hend)
  | @block _ inode' _ _ t₁ _ block rest _ hsize hread hrest =>
    obtain ⟨s', hread', hs'⟩ := read_alike_ok h.symm hs hread (hbuffer.trans hsize.symm)
    rw [hsize, ← hbuffer] at hread' hrest
    obtain ⟨t', hread'', ht'⟩ := read_alike_ok h hs hread' hbuffer'
    exact ⟨block, rest, inode', s', t', rfl, ht', hread', hread'', (hrest.alike h.symm hs').alike h ht'⟩

theorem ReadsBlocks.eq (hdata : ReadsBlocks file lz4 blockSize inode offset s blocks)
    (h : Agree S file file') (hs : S s t)
    (hdata' : ReadsBlocks file' lz4 blockSize inode offset t blocks') : blocks = blocks' := by
  induction hdata generalizing t blocks' with
  | done hend =>
    cases hdata' with
    | done => rfl
    | block hoffset => exact absurd hoffset (Nat.not_lt.mpr hend)
  | @block inode inode' offset s s' buffer block rest hoffset hbuffer hread _ ih =>
    obtain ⟨block', rest', inode₁, s₁, t₁, rfl, hs₁, hread', -, hrest'⟩ :=
      hdata'.next h hs hoffset hbuffer rfl
    rw [hread] at hread'
    cases hread'
    rw [ih hs₁ hrest']

theorem DirectoryData.alike {superBlock : ErofsSuperBlock} {n : Nat}
    (hdata : DirectoryData file lz4 superBlock s n blocks) (h : Agree S file file')
    (hs : S s t) : DirectoryData file' lz4 superBlock t n blocks := by
  obtain ⟨htype, hblocks⟩ := hdata
  obtain ⟨hinode, hstate⟩ := ErofsInode.new_alike h hs superBlock n 0
  unfold DirectoryData
  rw [← hinode]
  refine ⟨htype, hblocks.alike h (hstate fun hunknown => ?_)⟩
  rw [hunknown] at htype
  cases htype

theorem DirectoryData.eq {superBlock : ErofsSuperBlock} {n : Nat}
    (hdata : DirectoryData file lz4 superBlock s n blocks) (h : Agree S file file')
    (hs : S s t) (hdata' : DirectoryData file' lz4 superBlock t n blocks') : blocks = blocks' := by
  obtain ⟨htype, hblocks⟩ := hdata
  obtain ⟨-, hblocks'⟩ := hdata'
  obtain ⟨hinode, hstate⟩ := ErofsInode.new_alike h hs superBlock n 0
  rw [← hinode] at hblocks'
  refine hblocks.eq h (hstate fun hunknown => ?_) hblocks'
  rw [hunknown] at htype
  cases htype

end

/-- The blocks of the data, read into zeroed buffers, with a bound on their number. -/
def readBlocks (file : IErofsImageFile σ) (lz4 : Lz4) (blockSize : Nat) :
    Nat → ErofsInode → Nat → σ → Option (List Bytes)
  | 0, _, _, _ => none
  | count + 1, inode, offset, s =>
    if inode.size ≤ offset then some []
    else
      let amount := min blockSize (inode.size - offset)
      match inode.read file lz4 (List.replicate amount 0) offset s with
      | .error _ => none
      | .ok (rd, block, inode, s) =>
        if rd = amount then
          (readBlocks file lz4 blockSize count inode (offset + amount) s).map (block :: ·)
        else none

/-- The blocks of a directory, if it can be read. -/
def directoryBlocks (file : IErofsImageFile σ) (lz4 : Lz4) (superBlock : ErofsSuperBlock)
    (count : Nat) (s : σ) (n : Nat) : Option (List Bytes) :=
  let (inode, s) := ErofsInode.new file superBlock n 0 s
  if inode.type = .directory then readBlocks file lz4 superBlock.blockSize count inode 0 s else none

section
variable {file : IErofsImageFile σ} {lz4 : Lz4} {blocks : List Bytes}

theorem readsBlocks_of_readBlocks {blockSize count offset : Nat} {inode : ErofsInode} {s : σ}
    (h : readBlocks file lz4 blockSize count inode offset s = some blocks) :
    ReadsBlocks file lz4 blockSize inode offset s blocks := by
  induction count generalizing inode offset s blocks with
  | zero => cases h
  | succ count ih =>
    unfold readBlocks at h
    split at h
    · next hend =>
      cases h
      exact .done hend
    next hoffset =>
    dsimp only at h
    split at h
    · cases h
    next hread =>
    split at h
    swap
    · cases h
    next hrd =>
    subst hrd
    obtain ⟨rest, hrest, rfl⟩ := Option.map_eq_some_iff.mp h
    have hlength : (List.replicate (min blockSize (inode.size - offset)) (0 : UInt8)).length =
        min blockSize (inode.size - offset) := List.length_replicate
    rw [← hlength] at hrest
    refine .block (Nat.lt_of_not_le hoffset) hlength ?_ (ih hrest)
    rw [hlength]
    exact hread

theorem directoryData_of_directoryBlocks {superBlock : ErofsSuperBlock} {count n : Nat} {s : σ}
    (h : directoryBlocks file lz4 superBlock count s n = some blocks) :
    DirectoryData file lz4 superBlock s n blocks := by
  unfold directoryBlocks at h
  dsimp only at h
  split at h
  · next htype => exact ⟨htype, readsBlocks_of_readBlocks h⟩
  · cases h

end

/-! ## The entries of a block -/

/-- The name of an entry of a block: up to the name of the next entry, or for the last one up to a
NUL byte or the end of the block. -/
def nameIn (block : Bytes) (nEntries i : Nat) : Bytes :=
  let nameOffset := (ErofsDirEntry.ofBlock block i).nameOffset
  if i + 1 = nEntries then (block.drop nameOffset).takeWhile (· ≠ 0)
  else block.slice nameOffset ((ErofsDirEntry.ofBlock block (i + 1)).nameOffset - nameOffset)

/-- An entry of a block. -/
def direntIn (block : Bytes) (nEntries i : Nat) : DirEntry :=
  { inode := (ErofsDirEntry.ofBlock block i).nid
    fileName := nameIn block nEntries i
    fileType := fileTypeOf (ErofsDirEntry.ofBlock block i).fileType }

/-- The entry is not that for the directory itself or for the one above it. -/
def DirEntry.IsProper (entry : DirEntry) : Prop :=
  entry.fileName ≠ FilePath.dot ∧ entry.fileName ≠ FilePath.dotdot

instance (entry : DirEntry) : Decidable entry.IsProper := inferInstanceAs (Decidable (_ ∧ _))

/-- The entries that a directory block holds. The first name follows the entries. -/
def direntsOf (block : Bytes) : List DirEntry :=
  let nEntries := (ErofsDirEntry.ofBlock block 0).nameOffset / dirEntrySize
  ((List.range nEntries).map (direntIn block nEntries)).filter fun entry => entry.IsProper

/-- The entries of a directory, with the image file in a state. -/
def DirectoryEntries (file : IErofsImageFile σ) (lz4 : Lz4) (superBlock : ErofsSuperBlock) (s : σ)
    (n : Nat) (entries : List DirEntry) : Prop :=
  ∃ blocks, DirectoryData file lz4 superBlock s n blocks ∧ entries = blocks.flatMap direntsOf

section
variable {file : IErofsImageFile σ} {file' : IErofsImageFile τ} {lz4 : Lz4} {S : σ → τ → Prop}
  {s : σ} {t : τ} {superBlock : ErofsSuperBlock} {n : Nat} {entries entries' : List DirEntry}

theorem DirectoryEntries.eq (hentries : DirectoryEntries file lz4 superBlock s n entries)
    (h : Agree S file file') (hs : S s t)
    (hentries' : DirectoryEntries file' lz4 superBlock t n entries') : entries = entries' := by
  obtain ⟨blocks, hdata, rfl⟩ := hentries
  obtain ⟨blocks', hdata', rfl⟩ := hentries'
  rw [hdata.eq h hs hdata']

theorem directoryEntries_of_directoryBlocks {count : Nat}
    (h : (directoryBlocks file lz4 superBlock count s n).map (·.flatMap direntsOf) =
      some entries) : DirectoryEntries file lz4 superBlock s n entries := by
  obtain ⟨blocks, hblocks, rfl⟩ := Option.map_eq_some_iff.mp h
  exact ⟨blocks, directoryData_of_directoryBlocks hblocks, rfl⟩

end

/-! ## Blocks that are accepted -/

section
variable {data data' : Bytes} {dataSize nEntries i : Nat} {entries results : List DirEntry}

theorem ofBlock_congr (h : data.take dataSize = data'.take dataSize)
    (hi : (i + 1) * dirEntrySize ≤ dataSize) :
    ErofsDirEntry.ofBlock data i = ErofsDirEntry.ofBlock data' i := by
  unfold ErofsDirEntry.ofBlock
  rw [Bytes.slice_congr h]
  rw [Nat.add_mul, Nat.one_mul] at hi
  exact hi

/-- A length that is found is that of the first bytes up to a NUL byte. -/
theorem strnlen_ok {offset maxLength n : Nat} (h : strnlen data offset maxLength = .ok n) :
    n = (((data.drop offset).take maxLength).takeWhile (· ≠ 0)).length := by
  rw [← List.take_takeWhile, List.length_take]
  unfold strnlen at h
  dsimp only at h
  split at h
  · next hle =>
    cases h
    exact (Nat.min_eq_left hle).symm
  · next hlt =>
    split at h
    · cases h
      exact (Nat.min_eq_right (Nat.le_of_not_le hlt)).symm
    · cases h

theorem take_length_takeWhile {α : Type} (p : α → Bool) (l : List α) :
    l.take (l.takeWhile p).length = l.takeWhile p :=
  List.prefix_iff_eq_take.mp (List.takeWhile_prefix p) |>.symm

/-- The name that is taken from a block is the one that the block holds. -/
theorem nameIn_of_nameLength {n : Nat} (hentries : nEntries * dirEntrySize ≤ dataSize)
    (hi : i < nEntries) (hsize : dataSize < 2 ^ 64)
    (h : nameLength data dataSize nEntries i (ErofsDirEntry.ofBlock data i) = .ok n)
    (hfits : (ErofsDirEntry.ofBlock data i).nameOffset + n ≤ dataSize) :
    nameIn (data.take dataSize) nEntries i =
      data.slice (ErofsDirEntry.ofBlock data i).nameOffset n := by
  have htake : (data.take dataSize).take dataSize = data.take dataSize := by
    rw [List.take_take, Nat.min_self]
  have hsame : ∀ j < nEntries,
      ErofsDirEntry.ofBlock (data.take dataSize) j = ErofsDirEntry.ofBlock data j := fun j hj =>
    ofBlock_congr htake ((Nat.mul_le_mul_right _ hj).trans hentries)
  have hoffset : (ErofsDirEntry.ofBlock data i).nameOffset < 2 ^ 16 := Bytes.uint_lt _ 8 2
  unfold nameIn
  rw [hsame i hi]
  unfold nameLength at h
  dsimp only
  split
  · next hlast =>
    rw [if_pos hlast, wrapSub64_of_le (by omega) hsize] at h
    rw [List.drop_take, strnlen_ok h]
    unfold Bytes.slice
    exact (take_length_takeWhile _ _).symm.trans (by
      rw [List.take_take, Nat.min_eq_left]
      exact (List.takeWhile_prefix _).length_le.trans (List.length_take_le _ _))
  · next hlast =>
    rw [if_neg hlast] at h
    have hnext : (ErofsDirEntry.ofBlock data (i + 1)).nameOffset < 2 ^ 16 := Bytes.uint_lt _ 8 2
    rw [hsame (i + 1) (by omega)]
    have hle : (ErofsDirEntry.ofBlock data i).nameOffset ≤
        (ErofsDirEntry.ofBlock data (i + 1)).nameOffset := by
      by_contra hlt
      have hwrap := add_wrapSub64_of_lt (Nat.lt_of_not_le hlt) (by omega)
      rw [Except.ok.inj h] at hwrap
      omega
    rw [← wrapSub64_of_le hle (by omega), Except.ok.inj h]
    exact Bytes.slice_congr htake hfits

theorem processDirent_dirent {entry : Option DirEntry}
    (hentries : nEntries * dirEntrySize ≤ dataSize) (hi : i < nEntries) (hsize : dataSize < 2 ^ 64)
    (h : processDirent data dataSize nEntries i = .ok (some entry)) :
    entry.toList = [direntIn (data.take dataSize) nEntries i].filter fun entry => entry.IsProper := by
  have htake : (data.take dataSize).take dataSize = data.take dataSize := by
    rw [List.take_take, Nat.min_self]
  unfold processDirent at h
  dsimp only at h
  split at h
  · cases h
  split at h
  · cases h
  next n hname =>
  split at h
  · cases h
  next hfits =>
  have hdirent : direntIn (data.take dataSize) nEntries i =
      ⟨(ErofsDirEntry.ofBlock data i).nid,
        data.slice (ErofsDirEntry.ofBlock data i).nameOffset n,
        fileTypeOf (ErofsDirEntry.ofBlock data i).fileType⟩ := by
    unfold direntIn
    rw [nameIn_of_nameLength hentries hi hsize hname (by omega),
      ofBlock_congr htake ((Nat.mul_le_mul_right _ hi).trans hentries)]
  rw [hdirent, List.filter_singleton]
  split at h
  · next hdots =>
    cases h
    rw [decide_eq_false (fun hproper => hdots.elim hproper.1 hproper.2)]
    rfl
  next hdots =>
  split at h
  · cases h
  · cases h
    have hproper : DirEntry.IsProper ⟨(ErofsDirEntry.ofBlock data i).nid,
        data.slice (ErofsDirEntry.ofBlock data i).nameOffset n,
        fileTypeOf (ErofsDirEntry.ofBlock data i).fileType⟩ := not_or.mp hdots
    rw [decide_eq_true hproper]
    rfl

theorem processDirents_dirents {count : Nat} (hentries : nEntries * dirEntrySize ≤ dataSize)
    (hi : i + count = nEntries) (hsize : dataSize < 2 ^ 64)
    (h : processDirents data dataSize nEntries count i entries = .ok (some results)) :
    results = entries ++ ((List.range' i count).map
      (direntIn (data.take dataSize) nEntries)).filter fun entry => entry.IsProper := by
  induction count generalizing i entries with
  | zero =>
    cases h
    exact (List.append_nil _).symm
  | succ count ih =>
    obtain ⟨entry, hentry, hrest⟩ := Attempt.andThen_eq_ok h
    rw [ih (by omega) hrest, processDirent_dirent hentries (by omega) hsize hentry,
      List.append_assoc, ← List.filter_append, List.range'_succ]
    rfl

/-- A block that is accepted adds the entries that it holds. -/
theorem processDirectoryBlock_dirents (hsmall : dirEntrySize ≤ dataSize) (hsize : dataSize < 2 ^ 64)
    (h : processDirectoryBlock data dataSize entries = .ok (some results)) :
    results = entries ++ direntsOf (data.take dataSize) := by
  have htake : (data.take dataSize).take dataSize = data.take dataSize := by
    rw [List.take_take, Nat.min_self]
  unfold processDirectoryBlock at h
  dsimp only at h
  split at h
  · cases h
  next hoffset =>
  have hentries := Nat.div_mul_le_self (ErofsDirEntry.ofBlock data 0).nameOffset dirEntrySize
  unfold direntsOf
  dsimp only
  rw [ofBlock_congr htake (by rw [Nat.zero_add, Nat.one_mul]; exact hsmall), List.range_eq_range']
  exact processDirents_dirents (by omega) (Nat.zero_add _) hsize h

end

/-! ## Directories that are given -/

namespace ErofsReader

variable {file : IErofsImageFile σ} {file' : IErofsImageFile τ} {lz4 : Lz4} {S : σ → τ → Prop}

/-- As many turns of the loop as there are blocks give the entries of all of them. -/
theorem readDirectoryLoop_dirents (h : Agree S file file') {s s' : σ} {t : τ} (hs : S s t)
    {blockSize count offset : Nat} {inode : ErofsInode} {blocks : List Bytes}
    (hdata : ReadsBlocks file' lz4 blockSize inode offset t blocks)
    {results entries : List DirEntry} {reader reader' : ErofsReader}
    (hbuffer : blockSize ≤ reader.dirBlockBuffer.length)
    (hread : readDirectoryLoop file lz4 blockSize count offset results inode reader s =
      .ok (some entries, reader', s')) :
    (∃ t', S s' t') ∧ (blockSize < 2 ^ 64 → inode.size ≤ offset + count * blockSize →
      entries = results ++ blocks.flatMap direntsOf) := by
  induction count generalizing offset results inode reader s t blocks with
  | zero =>
    cases hread
    refine ⟨⟨t, hs⟩, fun _ hend => ?_⟩
    cases hdata with
    | done => exact (List.append_nil _).symm
    | block hoffset => omega
  | succ count ih =>
    rw [readDirectoryLoop_succ] at hread
    split at hread
    swap
    · next hend =>
      cases hread
      cases hdata with
      | done => exact ⟨⟨t, hs⟩, fun _ _ => (List.append_nil _).symm⟩
      | block hoffset => exact absurd hoffset hend
    next hoffset =>
    dsimp only at hread
    split at hread
    · cases hread
    next hsmall =>
    generalize hamount : min blockSize (inode.size - offset) = amount at hread hsmall
    have hlength : (reader.dirBlockBuffer.take amount).length = amount := by
      rw [List.length_take]
      omega
    obtain ⟨block, rest, inode', s₁, t₁, rfl, hs₁, hturn, -, hrest⟩ :=
      hdata.next h hs hoffset (hlength.trans hamount.symm) rfl
    rw [hturn] at hread
    dsimp only at hread
    have hblock := ErofsInode.read_length hturn
    split at hread
    · cases hread
    split at hread
    · cases hread
    · cases hread
    next results' hprocess =>
    have hbuffer' : blockSize ≤ (block ++ reader.dirBlockBuffer.drop amount).length := by
      rw [length_take_append_drop amount hblock]
      exact hbuffer
    rw [hlength] at hrest
    obtain ⟨ht, hentries⟩ := ih hs₁ hrest hbuffer' hread
    refine ⟨ht, fun hsize hcount => ?_⟩
    have hresults :=
      processDirectoryBlock_dirents (Nat.not_lt.mp hsmall) (by omega) hprocess
    rw [List.take_append_of_le_length (by omega), List.take_of_length_le (by omega)] at hresults
    have hleft : inode'.size ≤ offset + amount + count * blockSize := by
      rw [ErofsInode.read_size hturn]
      rw [Nat.succ_mul] at hcount
      omega
    rw [hentries hsize hleft, hresults, List.append_assoc, List.flatMap_cons]

/-- A directory that is given has the entries of all its blocks. -/
theorem readDirectory_dirents (h : Agree S file file') {s s' : σ} {t : τ} (hs : S s t)
    {superBlock : ErofsSuperBlock} {n : Nat} {blocks : List Bytes}
    (hdata : DirectoryData file' lz4 superBlock t n blocks)
    {entries : List DirEntry} {reader reader' : ErofsReader}
    (hbuffer : superBlock.blockSize ≤ reader.dirBlockBuffer.length)
    (hread : reader.readDirectory file lz4 superBlock n s = .ok (some entries, reader', s')) :
    (∃ t', S s' t') ∧ (0 < superBlock.blockSize → superBlock.blockSize < 2 ^ 64 →
      DirectoryEntries file' lz4 superBlock t n entries) := by
  have hdirectory := hdata
  obtain ⟨htype, hblocks⟩ := hdata
  obtain ⟨hinode, hstate⟩ := ErofsInode.new_alike h hs superBlock n 0
  rw [← hinode] at htype hblocks
  unfold readDirectory at hread
  dsimp only at hread
  rw [if_neg (not_not.mpr htype)] at hread
  obtain ⟨ht, hentries⟩ := readDirectoryLoop_dirents h (hstate fun hunknown => by
    rw [hunknown] at htype
    cases htype) hblocks hbuffer hread
  refine ⟨ht, fun hpos hsize => ⟨blocks, hdirectory, hentries hsize ?_⟩⟩
  have hlt := @Nat.lt_div_mul_add (ErofsInode.new file superBlock n 0 s).1.size _ hpos
  rw [Nat.succ_mul]
  omega

end ErofsReader

end Erofs
