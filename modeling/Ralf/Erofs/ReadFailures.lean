import Ralf.Erofs.Reader

/-!
# What failed reads can influence

Two runs are compared, over files that agree: a read fails in both or in neither, and gives the
same bytes when it succeeds. What a failed read leaves in a buffer, and what a buffer held before,
may differ.

Of files that agree each covers the other: what one gives the other gives too. Every layer is taken
this one way, from a run that succeeds, so that the lemmas also hold for a file of which any read may
fail at any time.
-/

namespace Erofs

variable {σ τ : Type}

/-! ## Agreement -/

/-- Two results of filling a buffer: both succeed with the same bytes, or both fail. -/
def FillAlike (S : σ → τ → Prop) : Bool × Bytes × σ → Bool × Bytes × τ → Prop
  | (true, data, s), (true, data', t) => data = data' ∧ S s t
  | (false, _, _), (false, _, _) => True
  | _, _ => False

/-- Two optional results: both have the same value, or neither has one. -/
def Alike {α : Type} (S : σ → τ → Prop) : Option α × σ → Option α × τ → Prop
  | (some a, s), (some b, t) => a = b ∧ S s t
  | (none, _), (none, _) => True
  | _, _ => False

/-- Two files that give the same bytes, as far as their reads succeed. -/
structure Agree (S : σ → τ → Prop) (file : IErofsImageFile σ) (file' : IErofsImageFile τ) :
    Prop where
  size : file.size = file'.size
  read : ∀ s t buffer buffer' offset, S s t → buffer.length = buffer'.length →
    FillAlike S (file.read s buffer offset) (file'.read t buffer' offset)

/-- What a file gives another one gives too. Any read of the first may fail. -/
structure Covers (S : σ → τ → Prop) (file : IErofsImageFile σ) (file' : IErofsImageFile τ) :
    Prop where
  size : file.size = file'.size
  read : ∀ {s t buffer buffer' offset data s'}, S s t → buffer.length = buffer'.length →
    file.read s buffer offset = (true, data, s') →
      ∃ t', file'.read t buffer' offset = (true, data, t') ∧ S s' t'

section
variable {S : σ → τ → Prop} {file : IErofsImageFile σ} {file' : IErofsImageFile τ}
  {lz4 : Lz4} {s s' : σ} {t : τ} {out out' data : Bytes} {offset : Nat}

/-- The cases of two results that are alike. -/
theorem Alike.cases {α : Type} {x : Option α × σ} {y : Option α × τ} (h : Alike S x y) :
    (∃ s t, x = (none, s) ∧ y = (none, t)) ∨
      ∃ a s t, x = (some a, s) ∧ y = (some a, t) ∧ S s t := by
  rcases x with ⟨_ | a, s⟩ <;> rcases y with ⟨_ | b, t⟩
  · exact .inl ⟨s, t, rfl, rfl⟩
  · exact h.elim
  · exact h.elim
  · obtain ⟨rfl, hs⟩ := h
    exact .inr ⟨a, s, t, rfl, rfl, hs⟩

theorem FillAlike.cases {x : Bool × Bytes × σ} {y : Bool × Bytes × τ} (h : FillAlike S x y) :
    (∃ data s data' t, x = (false, data, s) ∧ y = (false, data', t)) ∨
      ∃ data s t, x = (true, data, s) ∧ y = (true, data, t) ∧ S s t := by
  rcases x with ⟨_ | _, data, s⟩ <;> rcases y with ⟨_ | _, data', t⟩
  · exact .inl ⟨data, s, data', t, rfl, rfl⟩
  · exact h.elim
  · exact h.elim
  · obtain ⟨rfl, hs⟩ := h
    exact .inr ⟨data, s, t, rfl, rfl, hs⟩

theorem Agree.symm {S : σ → τ → Prop} (h : Agree S file file') :
    Agree (fun t s => S s t) file' file where
  size := h.size.symm
  read t s buffer buffer' offset hs hbuffer := by
    obtain ⟨_, _, _, _, hx, hy⟩ | ⟨_, _, _, hx, hy, hs'⟩ :=
      (h.read s t buffer' buffer offset hs hbuffer.symm).cases
    · rw [hx, hy]
      trivial
    · rw [hx, hy]
      exact ⟨rfl, hs'⟩

theorem Agree.readBytes (h : Agree S file file') (hs : S s t) (size offset : Nat) :
    Alike S (file.readBytes size offset s) (file'.readBytes size offset t) := by
  have hread := h.read s t (List.replicate size 0) _ offset hs rfl
  unfold IErofsImageFile.readBytes
  obtain ⟨_, _, _, _, hx, hy⟩ | ⟨_, _, _, hx, hy, hs'⟩ := hread.cases
  · rw [hx, hy]
    trivial
  · rw [hx, hy]
    exact ⟨rfl, hs'⟩

/-- Files that agree cover each other. -/
theorem Agree.covers (h : Agree S file file') : Covers S file file' where
  size := h.size
  read := by
    intro s t buffer buffer' offset data s' hs hbuffer hread
    obtain ⟨_, _, _, _, hx, -⟩ | ⟨_, _, t', hx, hy, hs'⟩ :=
      (h.read s t buffer buffer' offset hs hbuffer).cases
    · rw [hread] at hx
      cases hx
    · rw [hread] at hx
      cases hx
      exact ⟨t', hy, hs'⟩

theorem Covers.readBytes (h : Covers S file file') (hs : S s t) {size : Nat}
    (hread : file.readBytes size offset s = (some data, s')) :
    ∃ t', file'.readBytes size offset t = (some data, t') ∧ S s' t' := by
  unfold IErofsImageFile.readBytes at hread ⊢
  split at hread
  · next hfilled =>
    cases hread
    obtain ⟨t', hfilled', hs'⟩ := h.read hs rfl hfilled
    exact ⟨t', by rw [hfilled'], hs'⟩
  · cases hread

/-! ## Extent maps -/

namespace ErofsExtentMap

variable {extentsOffset compressedBlocks blockSize uncompressedSize : Nat} {map : ErofsExtentMap}

theorem readLegacyIndexes_covered (h : Covers S file file') (hs : S s t) {indexes : LegacyIndexes}
    (hread : readLegacyIndexes file extentsOffset compressedBlocks blockSize uncompressedSize s =
      .ok (some indexes, s')) :
    ∃ t', readLegacyIndexes file' extentsOffset compressedBlocks blockSize uncompressedSize t =
      .ok (some indexes, t') ∧ S s' t' := by
  unfold readLegacyIndexes at hread ⊢
  rw [← h.size]
  split at hread
  · cases hread
  next hblockSize =>
  split at hread
  · cases hread
  next hsizes =>
  split at hread
  · cases hread
  next haligned =>
  rw [if_neg hblockSize, if_neg hsizes, if_neg haligned]
  split at hread
  · cases hread
  next header s₁ hheader =>
  obtain ⟨t₁, hheader', hs₁⟩ := h.readBytes hs hheader
  rw [hheader']
  dsimp only at hread ⊢
  split at hread
  · cases hread
  next halgorithms =>
  split at hread
  · cases hread
  next hcluster =>
  rw [if_neg halgorithms, if_neg hcluster]
  split at hread
  · cases hread
  next bytes s₂ hbytes =>
  obtain ⟨t₂, hbytes', hs₂⟩ := h.readBytes hs₁ hbytes
  cases hread
  rw [hbytes']
  exact ⟨t₂, rfl, hs₂⟩

theorem readCompactIndexes_covered (h : Covers S file file') (hs : S s t) {table : CompactIndexes}
    (hread : readCompactIndexes file extentsOffset compressedBlocks blockSize uncompressedSize s =
      .ok (some table, s')) :
    ∃ t', readCompactIndexes file' extentsOffset compressedBlocks blockSize uncompressedSize t =
      .ok (some table, t') ∧ S s' t' := by
  unfold readCompactIndexes at hread ⊢
  rw [← h.size]
  split at hread
  · cases hread
  next hblockSize =>
  split at hread
  · cases hread
  next h4096 =>
  split at hread
  · cases hread
  next hsizes =>
  split at hread
  · cases hread
  next haligned =>
  rw [if_neg hblockSize, if_neg h4096, if_neg hsizes, if_neg haligned]
  split at hread
  · cases hread
  next header s₁ hheader =>
  obtain ⟨t₁, hheader', hs₁⟩ := h.readBytes hs hheader
  rw [hheader']
  dsimp only at hread ⊢
  split at hread
  · cases hread
  next halgorithms =>
  split at hread
  · cases hread
  next hadvise =>
  split at hread
  · cases hread
  next hcluster =>
  rw [if_neg halgorithms, if_neg hadvise, if_neg hcluster]
  split at hread
  · cases hread
  next bytes s₂ hbytes =>
  obtain ⟨t₂, hbytes', hs₂⟩ := h.readBytes hs₁ hbytes
  cases hread
  rw [hbytes']
  exact ⟨t₂, rfl, hs₂⟩

theorem finishMap_covered {built : Attempt ErofsExtentMap} (hs : S s t)
    (hmap : finishMap compressedBlocks s built = .ok (some map, s')) :
    ∃ t', finishMap compressedBlocks t built = .ok (some map, t') ∧ S s' t' := by
  unfold finishMap at hmap ⊢
  split at hmap
  · cases hmap
  · cases hmap
  · next hbuilt =>
    split at hmap
    · cases hmap
    · next hlast =>
      cases hmap
      exact ⟨t, by rw [if_neg hlast], hs⟩

theorem fromLegacyIndexes_covered (h : Covers S file file') (hs : S s t)
    (hmap : fromLegacyIndexes file extentsOffset compressedBlocks blockSize uncompressedSize s =
      .ok (some map, s')) :
    ∃ t', fromLegacyIndexes file' extentsOffset compressedBlocks blockSize uncompressedSize t =
      .ok (some map, t') ∧ S s' t' := by
  unfold fromLegacyIndexes at hmap ⊢
  split at hmap
  · cases hmap
  · cases hmap
  · next indexes s₁ hread =>
    obtain ⟨t₁, hread', hs₁⟩ := readLegacyIndexes_covered h hs hread
    rw [hread']
    exact finishMap_covered hs₁ hmap

theorem fromCompactIndexes_covered (h : Covers S file file') (hs : S s t)
    (hmap : fromCompactIndexes file extentsOffset compressedBlocks blockSize uncompressedSize s =
      .ok (some map, s')) :
    ∃ t', fromCompactIndexes file' extentsOffset compressedBlocks blockSize uncompressedSize t =
      .ok (some map, t') ∧ S s' t' := by
  unfold fromCompactIndexes at hmap ⊢
  split at hmap
  · cases hmap
  · cases hmap
  · next table s₁ hread =>
    obtain ⟨t₁, hread', hs₁⟩ := readCompactIndexes_covered h hs hread
    rw [hread']
    exact finishMap_covered hs₁ hmap

end ErofsExtentMap

/-! ## Data readers -/

theorem length_take_congr (h : out.length = out'.length) (n : Nat) :
    (out.take n).length = (out'.take n).length := by
  rw [List.length_take, List.length_take, h]

theorem length_drop_congr (h : out.length = out'.length) (n : Nat) :
    (out.drop n).length = (out'.drop n).length := by
  rw [List.length_drop, List.length_drop, h]

theorem ErofsInodeFlatPlainDataReader.read_covered (h : Covers S file file') (hs : S s t)
    (hout : out.length = out'.length) {reader : ErofsInodeFlatPlainDataReader}
    (hread : reader.read file out offset s = (true, data, s')) :
    ∃ t', reader.read file' out' offset t = (true, data, t') ∧ S s' t' := by
  unfold read at hread ⊢
  rw [← hout]
  split at hread
  · cases hread
  · next hfits =>
    rw [if_neg hfits]
    exact h.read hs hout hread

theorem ErofsInodeFlatInlineDataReader.read_covered (h : Covers S file file') (hs : S s t)
    (hout : out.length = out'.length) {reader : ErofsInodeFlatInlineDataReader}
    (hread : reader.read file out offset s = (true, data, s')) :
    ∃ t', reader.read file' out' offset t = (true, data, t') ∧ S s' t' := by
  unfold read at hread ⊢
  rw [← hout]
  split at hread
  · cases hread
  next hfits =>
  rw [if_neg hfits]
  split at hread
  · next hend =>
    rw [if_pos hend]
    split at hread
    · next htail =>
      rw [if_pos htail]
      exact h.read hs hout hread
    · next hblocks =>
      rw [if_neg hblocks]
      dsimp only at hread ⊢
      rcases hfirst : file.read s (out.take (reader.contigBlocksSize - offset))
        (wrap64 (reader.contigBlocksAddress + offset)) with ⟨_ | _, first, s₁⟩
      · rw [hfirst] at hread
        cases hread
      obtain ⟨t₁, hfirst', hs₁⟩ := h.read hs (length_take_congr hout _) hfirst
      rcases hrest : file.read s₁ (out.drop (reader.contigBlocksSize - offset))
        reader.tailBlockAddress with ⟨_ | _, rest, s₂⟩
      · simp only [hfirst, hrest] at hread
        cases hread
      obtain ⟨t₂, hrest', hs₂⟩ := h.read hs₁ (length_drop_congr hout _) hrest
      simp only [hfirst, hrest] at hread
      cases hread
      exact ⟨t₂, by simp only [hfirst', hrest'], hs₂⟩
  · next hbefore =>
    rw [if_neg hbefore]
    exact h.read hs hout hread

namespace ErofsInodeCompressedDataReader

variable {reader reader' : ErofsInodeCompressedDataReader} {extent : Extent}

theorem readLz4Compressed_covered (h : Covers S file file') (hs : S s t)
    (hout : out.length = out'.length)
    (hread : reader.readLz4Compressed file lz4 extent out offset s =
      .ok (true, data, reader', s')) :
    ∃ t', reader.readLz4Compressed file' lz4 extent out' offset t = .ok (true, data, reader', t') ∧
      S s' t' := by
  unfold readLz4Compressed at hread ⊢
  rw [← hout]
  split at hread
  · next hhit =>
    rw [if_pos hhit]
    split at hread
    · cases hread
    · next hcopy =>
      cases hread
      exact ⟨t, rfl, hs⟩
  next hmiss =>
  rw [if_neg hmiss]
  rcases hblock : file.read s (if reader.blockBuffer.length ≠ reader.blockSize then
      resize reader.blockBuffer reader.blockSize else reader.blockBuffer) extent.comprBlockAddr with
    ⟨_ | _, block, s₁⟩
  · simp only [hblock] at hread
    cases hread
  obtain ⟨t₁, hblock', hs₁⟩ := h.read hs rfl hblock
  simp only [hblock, not_true_eq_false, if_false] at hread
  simp only [hblock', not_true_eq_false, if_false]
  split at hread
  · next hdirect =>
    -- decompressed straight into the buffer
    rw [if_pos hdirect]
    obtain ⟨hsuccess, hdata⟩ := @decompressLz4_determined lz4
      { reader with blockBuffer := block } block out out' hout
    generalize decompressLz4 lz4 { reader with blockBuffer := block } block out =
      filled at hread hsuccess hdata
    generalize decompressLz4 lz4 { reader with blockBuffer := block } block out' =
      filled' at hsuccess hdata ⊢
    obtain ⟨success, filled⟩ := filled
    obtain ⟨success', filled'⟩ := filled'
    cases hread
    obtain rfl : true = success' := hsuccess
    obtain rfl : filled = filled' := hdata rfl
    exact ⟨t₁, rfl, hs₁⟩
  · next hdirect =>
    rw [if_neg hdirect]
    cases hdecompress : decompressBlock lz4 { reader with blockBuffer := block } extent with
    | error fault =>
      rw [hdecompress] at hread
      cases hread
    | ok decompressed =>
      obtain ⟨_ | _, reader₁⟩ := decompressed
      · rw [hdecompress] at hread
        cases hread
      · rw [hdecompress] at hread
        dsimp only at hread ⊢
        split at hread
        · cases hread
        · next hcopy =>
          cases hread
          exact ⟨t₁, rfl, hs₁⟩

theorem readExtent_covered (h : Covers S file file') (hs : S s t) (hout : out.length = out'.length)
    (hread : reader.readExtent file lz4 extent out offset s = .ok (true, data, reader', s')) :
    ∃ t', reader.readExtent file' lz4 extent out' offset t = .ok (true, data, reader', t') ∧
      S s' t' := by
  unfold readExtent at hread ⊢
  cases hcompression : extent.compression with
  | none =>
    rw [hcompression] at hread
    rcases hplain : file.read s out (wrap64 (extent.comprBlockAddr + offset)) with ⟨_ | _, bytes, s₁⟩
    · simp only [hplain] at hread
      cases hread
    obtain ⟨t₁, hplain', hs₁⟩ := h.read hs hout hplain
    simp only [hplain] at hread
    cases hread
    exact ⟨t₁, by simp only [hplain'], hs₁⟩
  | lz4 =>
    rw [hcompression] at hread
    exact readLz4Compressed_covered h hs hout hread
  | lzma => rw [hcompression] at hread; cases hread
  | zstd => rw [hcompression] at hread; cases hread
  | zip => rw [hcompression] at hread; cases hread
  | invalid => rw [hcompression] at hread; cases hread

theorem readExtents_covered (h : Covers S file file') (hs : S s t) (hout : out.length = out'.length)
    {extents : List Extent} {clusterOffset : Nat}
    (hread : readExtents file lz4 extents clusterOffset out reader s =
      .ok (true, data, reader', s')) :
    ∃ t', readExtents file' lz4 extents clusterOffset out' reader t = .ok (true, data, reader', t') ∧
      S s' t' := by
  induction extents generalizing clusterOffset out out' reader s t data with
  | nil =>
    cases out with
    | nil =>
      obtain rfl := List.eq_nil_of_length_eq_zero hout.symm
      cases hread
      exact ⟨t, rfl, hs⟩
    | cons b out => cases hread
  | cons extent rest ih =>
    cases out with
    | nil =>
      obtain rfl := List.eq_nil_of_length_eq_zero hout.symm
      cases hread
      exact ⟨t, rfl, hs⟩
    | cons b out =>
      obtain ⟨b', out', rfl⟩ := List.exists_cons_of_length_eq_add_one hout.symm
      unfold readExtents at hread ⊢
      rw [← hout]
      dsimp only at hread ⊢
      generalize min (wrapSub64 extent.uncomprSize clusterOffset) (b :: out).length = amount
        at hread ⊢
      split at hread
      · cases hread
      · cases hread
      next first reader₁ s₁ hfirst =>
      obtain ⟨t₁, hfirst', hs₁⟩ := readExtent_covered h hs (length_take_congr hout amount) hfirst
      rw [hfirst']
      dsimp only
      split at hread
      · cases hread
      next success tail reader₂ s₂ hrest =>
      cases hread
      obtain ⟨t₂, hrest', hs₂⟩ := ih hs₁ (length_drop_congr hout amount) hrest
      rw [hrest']
      exact ⟨t₂, rfl, hs₂⟩

theorem read_covered (h : Covers S file file') (hs : S s t) (hout : out.length = out'.length)
    (hread : reader.read file lz4 out offset s = .ok (true, data, reader', s')) :
    ∃ t', reader.read file' lz4 out' offset t = .ok (true, data, reader', t') ∧ S s' t' := by
  unfold read at hread ⊢
  rw [← hout]
  split at hread
  · cases hread
  next hfits =>
  rw [if_neg hfits]
  split at hread
  · cases hread
  split at hread
  · cases hread
  · exact readExtents_covered h hs hout hread

end ErofsInodeCompressedDataReader

theorem IErofsInodeDataReader.read_covered (h : Covers S file file') (hs : S s t)
    (hout : out.length = out'.length) {reader reader' : IErofsInodeDataReader}
    (hread : reader.read file lz4 out offset s = .ok (true, data, reader', s')) :
    ∃ t', reader.read file' lz4 out' offset t = .ok (true, data, reader', t') ∧ S s' t' := by
  cases reader with
  | flatPlain flat =>
    unfold read at hread ⊢
    rcases hflat : flat.read file out offset s with ⟨success, bytes, s₁⟩
    simp only [hflat] at hread
    cases hread
    obtain ⟨t', hflat', hs'⟩ := flat.read_covered h hs hout hflat
    exact ⟨t', by simp only [hflat'], hs'⟩
  | flatInline flat =>
    unfold read at hread ⊢
    rcases hflat : flat.read file out offset s with ⟨success, bytes, s₁⟩
    simp only [hflat] at hread
    cases hread
    obtain ⟨t', hflat', hs'⟩ := flat.read_covered h hs hout hflat
    exact ⟨t', by simp only [hflat'], hs'⟩
  | compressed compr =>
    unfold read at hread ⊢
    dsimp only at hread ⊢
    split at hread
    · cases hread
    next hcompr =>
    cases hread
    obtain ⟨t', hcompr', hs'⟩ := ErofsInodeCompressedDataReader.read_covered h hs hout hcompr
    exact ⟨t', by rw [hcompr'], hs'⟩

/-! ## Inodes -/

namespace ErofsInode

/-- An inode that can be read is the same in both runs. -/
theorem new_alike (h : Agree S file file') (hs : S s t) (superBlock : ErofsSuperBlock)
    (inodeNumber hints : Nat) :
    (ErofsInode.new file superBlock inodeNumber hints s).1 =
        (ErofsInode.new file' superBlock inodeNumber hints t).1 ∧
      ((ErofsInode.new file superBlock inodeNumber hints s).1.type ≠ .unknown →
        S (ErofsInode.new file superBlock inodeNumber hints s).2
          (ErofsInode.new file' superBlock inodeNumber hints t).2) := by
  unfold ErofsInode.new
  dsimp only
  obtain ⟨_, _, hx, hy⟩ | ⟨buf, s, t, hx, hy, hs⟩ :=
    (h.readBytes hs 32 (superBlock.inodeOffset inodeNumber)).cases
  · rw [hx, hy]
    exact ⟨rfl, fun hne => absurd rfl hne⟩
  rw [hx, hy]
  dsimp only
  split
  · exact ⟨rfl, fun _ => hs⟩
  obtain ⟨_, _, hx, hy⟩ | ⟨rest, s, t, hx, hy, hs⟩ :=
    (h.readBytes hs 32 (wrap64 (superBlock.inodeOffset inodeNumber + 32))).cases
  · rw [hx, hy]
    exact ⟨rfl, fun hne => absurd rfl hne⟩
  · rw [hx, hy]
    exact ⟨rfl, fun _ => hs⟩

theorem new_alike_of_eq (h : Agree S file file') (hs : S s t) {superBlock : ErofsSuperBlock}
    {inodeNumber hints : Nat} {inode : ErofsInode} {s₁ : σ}
    (hnew : ErofsInode.new file superBlock inodeNumber hints s = (inode, s₁)) : ∃ t₁,
    ErofsInode.new file' superBlock inodeNumber hints t = (inode, t₁) ∧
      (inode.isValid = true → S s₁ t₁) := by
  obtain ⟨hsame, hstate⟩ := new_alike h hs superBlock inodeNumber hints
  rcases hnew' : ErofsInode.new file' superBlock inodeNumber hints t with ⟨inode', t₁⟩
  rw [hnew, hnew'] at hsame hstate
  obtain rfl : inode = inode' := hsame
  exact ⟨t₁, rfl, fun hvalid => hstate (of_decide_eq_true hvalid)⟩

variable {inode inode' : ErofsInode}

/-- A valid inode that one file gives. -/
theorem new_covered (h : Covers S file file') (hs : S s t) {superBlock : ErofsSuperBlock}
    {inodeNumber hints : Nat} (hnew : ErofsInode.new file superBlock inodeNumber hints s = (inode, s'))
    (hvalid : inode.isValid = true) :
    ∃ t', ErofsInode.new file' superBlock inodeNumber hints t = (inode, t') ∧ S s' t' := by
  have htype : inode.type ≠ .unknown := of_decide_eq_true hvalid
  unfold ErofsInode.new at hnew ⊢
  dsimp only at hnew ⊢
  split at hnew
  · cases hnew
    exact absurd rfl htype
  next buf s₁ hbuf =>
  obtain ⟨t₁, hbuf', hs₁⟩ := h.readBytes hs hbuf
  rw [hbuf']
  dsimp only
  split at hnew
  · next hcompact =>
    cases hnew
    exact ⟨t₁, by rw [if_pos hcompact], hs₁⟩
  next hextended =>
  rw [if_neg hextended]
  split at hnew
  · cases hnew
    exact absurd rfl htype
  next rest s₂ hrest =>
  obtain ⟨t₂, hrest', hs₂⟩ := h.readBytes hs₁ hrest
  cases hnew
  exact ⟨t₂, by rw [hrest'], hs₂⟩

theorem createCompressed_covered {made : Except Fault (Option ErofsExtentMap × σ)}
    {made' : Except Fault (Option ErofsExtentMap × τ)} {reader : IErofsInodeDataReader}
    (hmade : ∀ map s', made = .ok (some map, s') → ∃ t', made' = .ok (some map, t') ∧ S s' t')
    (hcreate : inode.createCompressed made = .ok (some reader, s')) :
    ∃ t', inode.createCompressed made' = .ok (some reader, t') ∧ S s' t' := by
  unfold createCompressed at hcreate ⊢
  split at hcreate
  · cases hcreate
  · cases hcreate
  · next map s₁ =>
    obtain ⟨t₁, rfl, hs₁⟩ := hmade map s₁ rfl
    dsimp only
    split at hcreate
    · cases hcreate
    · next hreader =>
      cases hcreate
      exact ⟨t₁, rfl, hs₁⟩

theorem dataReader_covered (h : Covers S file file') (hs : S s t) {reader : IErofsInodeDataReader}
    (hreader : inode.dataReader file s = .ok (some reader, s')) :
    ∃ t', inode.dataReader file' t = .ok (some reader, t') ∧ S s' t' := by
  unfold dataReader at hreader ⊢
  split at hreader
  · cases hreader
    exact ⟨t, rfl, hs⟩
  unfold createReader at hreader ⊢
  dsimp only at hreader ⊢
  cases hformat : inode.dataFormat with
  | flatInline =>
    rw [hformat] at hreader
    cases hreader
    exact ⟨t, rfl, hs⟩
  | flatPlain =>
    rw [hformat] at hreader
    cases hreader
    exact ⟨t, rfl, hs⟩
  | compressedFull =>
    rw [hformat] at hreader
    exact createCompressed_covered
      (fun _ _ => ErofsExtentMap.fromLegacyIndexes_covered h hs) hreader
  | compressedCompact =>
    rw [hformat] at hreader
    exact createCompressed_covered
      (fun _ _ => ErofsExtentMap.fromCompactIndexes_covered h hs) hreader
  | chunkBased => rw [hformat] at hreader; cases hreader
  | invalid => rw [hformat] at hreader; cases hreader

/-- A read of the data that does not fail. -/
theorem read_covered (h : Covers S file file') (hs : S s t) (hout : out.length = out'.length)
    {rd : Int} (hread : inode.read file lz4 out offset s = .ok (rd, data, inode', s'))
    (hok : rd ≠ -1) :
    ∃ data' t', inode.read file' lz4 out' offset t = .ok (rd, data', inode', t') ∧ S s' t' ∧
      data.take rd.toNat = data'.take rd.toNat := by
  unfold read at hread ⊢
  rw [← hout]
  split at hread
  · next hend =>
    cases hread
    exact ⟨out', t, by rw [if_pos hend], hs, rfl⟩
  next hend =>
  rw [if_neg hend]
  dsimp only at hread ⊢
  split at hread
  · cases hread
  · cases hread
    exact absurd rfl hok
  next reader s₁ hreader =>
  obtain ⟨t₁, hreader', hs₁⟩ := dataReader_covered h hs hreader
  rw [hreader']
  dsimp only
  split at hread
  · cases hread
  next success bytes reader₁ s₂ hfilled =>
  cases success with
  | false =>
    cases hread
    exact absurd rfl hok
  | true =>
    obtain ⟨t₂, hfilled', hs₂⟩ :=
      IErofsInodeDataReader.read_covered h hs₁ (length_take_congr hout _) hfilled
    have hlength := IErofsInodeDataReader.read_length hfilled
    rw [List.length_take, Nat.min_eq_left (Nat.min_le_left _ _)] at hlength
    cases hread
    rw [hfilled']
    refine ⟨_, t₂, rfl, hs₂, ?_⟩
    simp only [if_true, Int.toNat_natCast]
    rw [List.take_left' hlength, List.take_left' hlength]

end ErofsInode

end

end Erofs
