import Ralf.Erofs.Reader

/-!
# Runs that end well

Two files over the same states answer alike as long as the states are good, and no read leads back
from a bad state to a good one. A run that ends in a good state is then the same run with both
files, failed reads and their buffers included. That the states in between were good follows from
the end, so each lemma takes a run from its last read to its first.
-/

namespace Erofs

variable {σ : Type}

/-- A file that repeats what another one answers when the answer leaves a state with `Q`. Only
states with `Q` lead there. -/
structure Repeats (Q : σ → Prop) (file file' : IErofsImageFile σ) : Prop where
  size : file'.size = file.size
  read : ∀ {s s' : σ} {buffer data : Bytes} {offset : Nat} {success : Bool},
    file.read s buffer offset = (success, data, s') → Q s' →
      file'.read s buffer offset = (success, data, s') ∧ Q s

section
variable {Q : σ → Prop} {file file' : IErofsImageFile σ} {lz4 : Lz4} {s s' : σ}
  {out data : Bytes} {offset : Nat} {success : Bool}

theorem Repeats.readBytes (h : Repeats Q file file') {size : Nat} {bytes : Option Bytes}
    (hread : file.readBytes size offset s = (bytes, s')) (hend : Q s') :
    file'.readBytes size offset s = (bytes, s') ∧ Q s := by
  unfold IErofsImageFile.readBytes at hread ⊢
  rcases hfilled : file.read s (List.replicate size 0) offset with ⟨_ | _, data, s₁⟩
  · rw [hfilled] at hread
    cases hread
    obtain ⟨hsame, hbegin⟩ := h.read hfilled hend
    rw [hsame]
    exact ⟨rfl, hbegin⟩
  · rw [hfilled] at hread
    cases hread
    obtain ⟨hsame, hbegin⟩ := h.read hfilled hend
    rw [hsame]
    exact ⟨rfl, hbegin⟩

/-! ## Extent maps -/

namespace ErofsExtentMap

variable {extentsOffset compressedBlocks blockSize uncompressedSize : Nat}
  {map : Option ErofsExtentMap}

theorem readLegacyIndexes_repeated (h : Repeats Q file file') {indexes : Option LegacyIndexes}
    (hread : readLegacyIndexes file extentsOffset compressedBlocks blockSize uncompressedSize s =
      .ok (indexes, s')) (hend : Q s') :
    readLegacyIndexes file' extentsOffset compressedBlocks blockSize uncompressedSize s =
      .ok (indexes, s') ∧ Q s := by
  unfold readLegacyIndexes at hread ⊢
  rw [h.size]
  split_ifs at hread ⊢
  · cases hread
    exact ⟨rfl, hend⟩
  · cases hread
    exact ⟨rfl, hend⟩
  rcases hheader : file.readBytes 8 extentsOffset s with ⟨_ | header, s₁⟩
  · rw [hheader] at hread
    cases hread
    obtain ⟨hheader', hbegin⟩ := h.readBytes hheader hend
    rw [hheader']
    exact ⟨rfl, hbegin⟩
  rw [hheader] at hread
  dsimp only at hread
  split at hread
  · next halgorithms =>
    cases hread
    obtain ⟨hheader', hbegin⟩ := h.readBytes hheader hend
    rw [hheader']
    exact ⟨if_pos halgorithms, hbegin⟩
  next halgorithms =>
  split at hread
  · cases hread
  next hcluster =>
  split at hread
  · next hbytes =>
    cases hread
    obtain ⟨hbytes', hbetween⟩ := h.readBytes hbytes hend
    obtain ⟨hheader', hbegin⟩ := h.readBytes hheader hbetween
    rw [hheader']
    dsimp only
    rw [if_neg halgorithms, if_neg hcluster, hbytes']
    exact ⟨rfl, hbegin⟩
  · next hbytes =>
    cases hread
    obtain ⟨hbytes', hbetween⟩ := h.readBytes hbytes hend
    obtain ⟨hheader', hbegin⟩ := h.readBytes hheader hbetween
    rw [hheader']
    dsimp only
    rw [if_neg halgorithms, if_neg hcluster, hbytes']
    exact ⟨rfl, hbegin⟩

theorem readCompactIndexes_repeated (h : Repeats Q file file') {table : Option CompactIndexes}
    (hread : readCompactIndexes file extentsOffset compressedBlocks blockSize uncompressedSize s =
      .ok (table, s')) (hend : Q s') :
    readCompactIndexes file' extentsOffset compressedBlocks blockSize uncompressedSize s =
      .ok (table, s') ∧ Q s := by
  unfold readCompactIndexes at hread ⊢
  rw [h.size]
  split_ifs at hread ⊢
  · cases hread
    exact ⟨rfl, hend⟩
  · cases hread
    exact ⟨rfl, hend⟩
  · cases hread
    exact ⟨rfl, hend⟩
  rcases hheader : file.readBytes 8 extentsOffset s with ⟨_ | header, s₁⟩
  · rw [hheader] at hread
    cases hread
    obtain ⟨hheader', hbegin⟩ := h.readBytes hheader hend
    rw [hheader']
    exact ⟨rfl, hbegin⟩
  rw [hheader] at hread
  dsimp only at hread
  split at hread
  · next halgorithms =>
    cases hread
    obtain ⟨hheader', hbegin⟩ := h.readBytes hheader hend
    rw [hheader']
    exact ⟨if_pos halgorithms, hbegin⟩
  next halgorithms =>
  split at hread
  · next hadvise =>
    cases hread
    obtain ⟨hheader', hbegin⟩ := h.readBytes hheader hend
    rw [hheader']
    dsimp only
    rw [if_neg halgorithms]
    exact ⟨if_pos hadvise, hbegin⟩
  next hadvise =>
  split at hread
  · next hcluster =>
    cases hread
    obtain ⟨hheader', hbegin⟩ := h.readBytes hheader hend
    rw [hheader']
    dsimp only
    rw [if_neg halgorithms, if_neg hadvise]
    exact ⟨if_pos hcluster, hbegin⟩
  next hcluster =>
  split at hread
  · next hbytes =>
    cases hread
    obtain ⟨hbytes', hbetween⟩ := h.readBytes hbytes hend
    obtain ⟨hheader', hbegin⟩ := h.readBytes hheader hbetween
    rw [hheader']
    dsimp only
    rw [if_neg halgorithms, if_neg hadvise, if_neg hcluster, hbytes']
    exact ⟨rfl, hbegin⟩
  · next hbytes =>
    cases hread
    obtain ⟨hbytes', hbetween⟩ := h.readBytes hbytes hend
    obtain ⟨hheader', hbegin⟩ := h.readBytes hheader hbetween
    rw [hheader']
    dsimp only
    rw [if_neg halgorithms, if_neg hadvise, if_neg hcluster, hbytes']
    exact ⟨rfl, hbegin⟩

/-- The end of a build reads nothing. -/
theorem finishMap_state {built : Attempt ErofsExtentMap}
    (hmap : finishMap compressedBlocks s built = .ok (map, s')) : s = s' := by
  unfold finishMap at hmap
  split at hmap
  · cases hmap
  · cases hmap
    rfl
  · split at hmap
    · cases hmap
      rfl
    · cases hmap
      rfl

theorem fromLegacyIndexes_repeated (h : Repeats Q file file')
    (hmap : fromLegacyIndexes file extentsOffset compressedBlocks blockSize uncompressedSize s =
      .ok (map, s')) (hend : Q s') :
    fromLegacyIndexes file' extentsOffset compressedBlocks blockSize uncompressedSize s =
      .ok (map, s') ∧ Q s := by
  unfold fromLegacyIndexes at hmap ⊢
  split at hmap
  · cases hmap
  · next hread =>
    cases hmap
    obtain ⟨hread', hbegin⟩ := readLegacyIndexes_repeated h hread hend
    rw [hread']
    exact ⟨rfl, hbegin⟩
  · next hread =>
    obtain rfl := finishMap_state hmap
    obtain ⟨hread', hbegin⟩ := readLegacyIndexes_repeated h hread hend
    rw [hread']
    exact ⟨hmap, hbegin⟩

theorem fromCompactIndexes_repeated (h : Repeats Q file file')
    (hmap : fromCompactIndexes file extentsOffset compressedBlocks blockSize uncompressedSize s =
      .ok (map, s')) (hend : Q s') :
    fromCompactIndexes file' extentsOffset compressedBlocks blockSize uncompressedSize s =
      .ok (map, s') ∧ Q s := by
  unfold fromCompactIndexes at hmap ⊢
  split at hmap
  · cases hmap
  · next hread =>
    cases hmap
    obtain ⟨hread', hbegin⟩ := readCompactIndexes_repeated h hread hend
    rw [hread']
    exact ⟨rfl, hbegin⟩
  · next hread =>
    obtain rfl := finishMap_state hmap
    obtain ⟨hread', hbegin⟩ := readCompactIndexes_repeated h hread hend
    rw [hread']
    exact ⟨hmap, hbegin⟩

end ErofsExtentMap

/-! ## Data readers -/

theorem ErofsInodeFlatPlainDataReader.read_repeated (h : Repeats Q file file')
    {reader : ErofsInodeFlatPlainDataReader}
    (hread : reader.read file out offset s = (success, data, s')) (hend : Q s') :
    reader.read file' out offset s = (success, data, s') ∧ Q s := by
  unfold read at hread ⊢
  split_ifs at hread ⊢
  · cases hread
    exact ⟨rfl, hend⟩
  · exact h.read hread hend

theorem ErofsInodeFlatInlineDataReader.read_repeated (h : Repeats Q file file')
    {reader : ErofsInodeFlatInlineDataReader}
    (hread : reader.read file out offset s = (success, data, s')) (hend : Q s') :
    reader.read file' out offset s = (success, data, s') ∧ Q s := by
  unfold read at hread ⊢
  split_ifs at hread ⊢
  · cases hread
    exact ⟨rfl, hend⟩
  · exact h.read hread hend
  · dsimp only at hread ⊢
    rcases hfirst : file.read s (out.take (reader.contigBlocksSize - offset))
      (wrap64 (reader.contigBlocksAddress + offset)) with ⟨_ | _, first, s₁⟩
    · rw [hfirst] at hread
      cases hread
      obtain ⟨hfirst', hbegin⟩ := h.read hfirst hend
      rw [hfirst']
      exact ⟨rfl, hbegin⟩
    · rcases hrest : file.read s₁ (out.drop (reader.contigBlocksSize - offset))
        reader.tailBlockAddress with ⟨complete, rest, s₂⟩
      simp only [hfirst, hrest] at hread
      cases hread
      obtain ⟨hrest', hbetween⟩ := h.read hrest hend
      obtain ⟨hfirst', hbegin⟩ := h.read hfirst hbetween
      exact ⟨by simp only [hfirst', hrest'], hbegin⟩
  · exact h.read hread hend

namespace ErofsInodeCompressedDataReader

variable {reader reader' : ErofsInodeCompressedDataReader} {extent : Extent}

theorem readLz4Compressed_repeated (h : Repeats Q file file')
    (hread : reader.readLz4Compressed file lz4 extent out offset s =
      .ok (success, data, reader', s')) (hend : Q s') :
    reader.readLz4Compressed file' lz4 extent out offset s = .ok (success, data, reader', s') ∧
      Q s := by
  unfold readLz4Compressed at hread ⊢
  split at hread
  · next hhit =>
    rw [if_pos hhit]
    split at hread
    · cases hread
    · cases hread
      exact ⟨rfl, hend⟩
  next hmiss =>
  rw [if_neg hmiss]
  rcases hblock : file.read s (if reader.blockBuffer.length ≠ reader.blockSize then
      resize reader.blockBuffer reader.blockSize else reader.blockBuffer) extent.comprBlockAddr with
    ⟨filled, block, s₁⟩
  -- nothing is read after the block
  have hstate : s₁ = s' := by
    simp only [hblock] at hread
    split at hread
    · cases hread
      rfl
    split at hread
    · cases hread
      rfl
    split at hread
    · cases hread
    · cases hread
      rfl
    · split at hread
      · cases hread
      · cases hread
        rfl
  subst hstate
  obtain ⟨hblock', hbegin⟩ := h.read hblock hend
  simp only [hblock] at hread
  simp only [hblock']
  exact ⟨hread, hbegin⟩

theorem readExtent_repeated (h : Repeats Q file file')
    (hread : reader.readExtent file lz4 extent out offset s = .ok (success, data, reader', s'))
    (hend : Q s') :
    reader.readExtent file' lz4 extent out offset s = .ok (success, data, reader', s') ∧ Q s := by
  unfold readExtent at hread ⊢
  split at hread
  · rcases hplain : file.read s out (wrap64 (extent.comprBlockAddr + offset)) with
      ⟨filled, bytes, s₁⟩
    simp only [hplain] at hread
    cases hread
    obtain ⟨hplain', hbegin⟩ := h.read hplain hend
    exact ⟨by simp only [hplain'], hbegin⟩
  · exact readLz4Compressed_repeated h hread hend
  · cases hread
    exact ⟨rfl, hend⟩

theorem readExtents_repeated (h : Repeats Q file file') {extents : List Extent}
    {clusterOffset : Nat}
    (hread : readExtents file lz4 extents clusterOffset out reader s =
      .ok (success, data, reader', s')) (hend : Q s') :
    readExtents file' lz4 extents clusterOffset out reader s = .ok (success, data, reader', s') ∧
      Q s := by
  induction extents generalizing clusterOffset out reader s success data with
  | nil =>
    cases out with
    | nil =>
      cases hread
      exact ⟨rfl, hend⟩
    | cons b out => cases hread
  | cons extent rest ih =>
    cases out with
    | nil =>
      cases hread
      exact ⟨rfl, hend⟩
    | cons b out =>
      unfold readExtents at hread ⊢
      dsimp only at hread ⊢
      split at hread
      · cases hread
      · next hfirst =>
        cases hread
        obtain ⟨hfirst', hbegin⟩ := readExtent_repeated h hfirst hend
        rw [hfirst']
        exact ⟨rfl, hbegin⟩
      next hfirst =>
      split at hread
      · cases hread
      next hrest =>
      cases hread
      obtain ⟨hrest', hbetween⟩ := ih hrest
      obtain ⟨hfirst', hbegin⟩ := readExtent_repeated h hfirst hbetween
      rw [hfirst']
      dsimp only
      rw [hrest']
      exact ⟨rfl, hbegin⟩

theorem read_repeated (h : Repeats Q file file')
    (hread : reader.read file lz4 out offset s = .ok (success, data, reader', s')) (hend : Q s') :
    reader.read file' lz4 out offset s = .ok (success, data, reader', s') ∧ Q s := by
  unfold read at hread ⊢
  split_ifs at hread ⊢
  · cases hread
    exact ⟨rfl, hend⟩
  split at hread
  · cases hread
  split at hread
  · cases hread
    exact ⟨rfl, hend⟩
  · exact readExtents_repeated h hread hend

end ErofsInodeCompressedDataReader

theorem IErofsInodeDataReader.read_repeated (h : Repeats Q file file')
    {reader reader' : IErofsInodeDataReader}
    (hread : reader.read file lz4 out offset s = .ok (success, data, reader', s')) (hend : Q s') :
    reader.read file' lz4 out offset s = .ok (success, data, reader', s') ∧ Q s := by
  cases reader with
  | flatPlain flat =>
    unfold read at hread ⊢
    rcases hflat : flat.read file out offset s with ⟨filled, bytes, s₁⟩
    simp only [hflat] at hread
    cases hread
    obtain ⟨hflat', hbegin⟩ := flat.read_repeated h hflat hend
    exact ⟨by simp only [hflat'], hbegin⟩
  | flatInline flat =>
    unfold read at hread ⊢
    rcases hflat : flat.read file out offset s with ⟨filled, bytes, s₁⟩
    simp only [hflat] at hread
    cases hread
    obtain ⟨hflat', hbegin⟩ := flat.read_repeated h hflat hend
    exact ⟨by simp only [hflat'], hbegin⟩
  | compressed compr =>
    unfold read at hread ⊢
    dsimp only at hread ⊢
    split at hread
    · cases hread
    next hcompr =>
    cases hread
    obtain ⟨hcompr', hbegin⟩ := ErofsInodeCompressedDataReader.read_repeated h hcompr hend
    rw [hcompr']
    exact ⟨rfl, hbegin⟩

/-! ## Inodes -/

namespace ErofsInode

variable {inode inode' : ErofsInode}

theorem new_repeated (h : Repeats Q file file') {superBlock : ErofsSuperBlock}
    {inodeNumber hints : Nat} (hnew : ErofsInode.new file superBlock inodeNumber hints s = (inode, s'))
    (hend : Q s') :
    ErofsInode.new file' superBlock inodeNumber hints s = (inode, s') ∧ Q s := by
  unfold ErofsInode.new at hnew ⊢
  dsimp only at hnew ⊢
  split at hnew
  · next hbuf =>
    cases hnew
    obtain ⟨hbuf', hbegin⟩ := h.readBytes hbuf hend
    rw [hbuf']
    exact ⟨rfl, hbegin⟩
  next hbuf =>
  split at hnew
  · next hcompact =>
    cases hnew
    obtain ⟨hbuf', hbegin⟩ := h.readBytes hbuf hend
    rw [hbuf']
    exact ⟨if_pos hcompact, hbegin⟩
  next hextended =>
  split at hnew
  · next hrest =>
    cases hnew
    obtain ⟨hrest', hbetween⟩ := h.readBytes hrest hend
    obtain ⟨hbuf', hbegin⟩ := h.readBytes hbuf hbetween
    rw [hbuf']
    dsimp only
    rw [if_neg hextended, hrest']
    exact ⟨rfl, hbegin⟩
  · next hrest =>
    cases hnew
    obtain ⟨hrest', hbetween⟩ := h.readBytes hrest hend
    obtain ⟨hbuf', hbegin⟩ := h.readBytes hbuf hbetween
    rw [hbuf']
    dsimp only
    rw [if_neg hextended, hrest']
    exact ⟨rfl, hbegin⟩

/-- A reader is made from an extent map without reading. -/
theorem createCompressed_made {made : Except Fault (Option ErofsExtentMap × σ)}
    {reader : Option IErofsInodeDataReader}
    (hcreate : inode.createCompressed made = .ok (reader, s')) : ∃ map, made = .ok (map, s') := by
  unfold createCompressed at hcreate
  split at hcreate
  · cases hcreate
  · cases hcreate
    exact ⟨none, rfl⟩
  · next map s₁ =>
    split at hcreate
    · cases hcreate
    · cases hcreate
      exact ⟨some map, rfl⟩

theorem dataReader_repeated (h : Repeats Q file file') {reader : Option IErofsInodeDataReader}
    (hreader : inode.dataReader file s = .ok (reader, s')) (hend : Q s') :
    inode.dataReader file' s = .ok (reader, s') ∧ Q s := by
  unfold dataReader at hreader ⊢
  split at hreader
  · cases hreader
    exact ⟨rfl, hend⟩
  unfold createReader at hreader ⊢
  dsimp only at hreader ⊢
  split at hreader
  · cases hreader
    exact ⟨rfl, hend⟩
  · cases hreader
    exact ⟨rfl, hend⟩
  · obtain ⟨map, hmap⟩ := createCompressed_made hreader
    obtain ⟨hmap', hbegin⟩ := ErofsExtentMap.fromLegacyIndexes_repeated h hmap hend
    rw [hmap'.trans hmap.symm]
    exact ⟨hreader, hbegin⟩
  · obtain ⟨map, hmap⟩ := createCompressed_made hreader
    obtain ⟨hmap', hbegin⟩ := ErofsExtentMap.fromCompactIndexes_repeated h hmap hend
    rw [hmap'.trans hmap.symm]
    exact ⟨hreader, hbegin⟩
  · cases hreader
    exact ⟨rfl, hend⟩
  · cases hreader
    exact ⟨rfl, hend⟩

/-- A read of the data, whether it fails or not. -/
theorem read_repeated (h : Repeats Q file file') {rd : Int}
    (hread : inode.read file lz4 out offset s = .ok (rd, data, inode', s')) (hend : Q s') :
    inode.read file' lz4 out offset s = .ok (rd, data, inode', s') ∧ Q s := by
  unfold read at hread ⊢
  split_ifs at hread ⊢
  · cases hread
    exact ⟨rfl, hend⟩
  dsimp only at hread ⊢
  split at hread
  · cases hread
  · next hreader =>
    cases hread
    obtain ⟨hreader', hbegin⟩ := dataReader_repeated h hreader hend
    rw [hreader']
    exact ⟨rfl, hbegin⟩
  next hreader =>
  split at hread
  · cases hread
  next hfilled =>
  cases hread
  obtain ⟨hfilled', hbetween⟩ := IErofsInodeDataReader.read_repeated h hfilled hend
  obtain ⟨hreader', hbegin⟩ := dataReader_repeated h hreader hbetween
  rw [hreader']
  dsimp only
  rw [hfilled']
  exact ⟨rfl, hbegin⟩

end ErofsInode

end

end Erofs
