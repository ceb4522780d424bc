import Ralf.Erofs.Reader

/-!
# Image files that stand for each other

A map of states carries one image file to another when both answer every read alike. Everything
that is read from an image then comes out the same, failed reads and their buffers included.

`Behaves` is the use of it: in the states `good` a file answers as a file without a state does, and
so does every reader of the image.
-/

namespace Erofs

variable {σ τ : Type} {α β : Type}

/-! ## Maps of states -/

/-- The state of a result is mapped. -/
def onState (φ : σ → τ) (result : α × σ) : α × τ := (result.1, φ result.2)

/-- The state of a result with two values is mapped. -/
def onState₂ (φ : σ → τ) (result : α × β × σ) : α × β × τ :=
  (result.1, result.2.1, φ result.2.2)

/-- The state of a result with three values is mapped. -/
def onState₃ {γ : Type} (φ : σ → τ) (result : α × β × γ × σ) : α × β × γ × τ :=
  (result.1, result.2.1, result.2.2.1, φ result.2.2.2)

/-- The file `file'` answers as `file` does, in the states that `φ` gives. -/
structure Carries (φ : σ → τ) (file : IErofsImageFile σ) (file' : IErofsImageFile τ) : Prop where
  size : file'.size = file.size
  read : ∀ s buffer offset, file'.read (φ s) buffer offset = onState₂ φ (file.read s buffer offset)

section
variable {φ : σ → τ} {file : IErofsImageFile σ} {file' : IErofsImageFile τ} {lz4 : Lz4}

theorem Carries.readBytes (h : Carries φ file file') (size offset : Nat) (s : σ) :
    file'.readBytes size offset (φ s) = onState φ (file.readBytes size offset s) := by
  unfold IErofsImageFile.readBytes
  rw [h.read]
  rcases file.read s (List.replicate size 0) offset with ⟨_ | _, data, s'⟩
  · rfl
  · rfl

/-! ## Extent maps -/

namespace ErofsExtentMap

theorem readLegacyIndexes_carried (h : Carries φ file file')
    (extentsOffset compressedBlocks blockSize uncompressedSize : Nat) (s : σ) :
    readLegacyIndexes file' extentsOffset compressedBlocks blockSize uncompressedSize (φ s) =
      (readLegacyIndexes file extentsOffset compressedBlocks blockSize uncompressedSize s).map
        (onState φ) := by
  unfold readLegacyIndexes
  rw [h.size, h.readBytes]
  split_ifs
  · rfl
  · rfl
  · rfl
  rcases file.readBytes 8 extentsOffset s with ⟨_ | data, s₁⟩
  · rfl
  dsimp only [onState]
  split_ifs
  · rfl
  · rfl
  rw [h.readBytes]
  rcases file.readBytes (divRoundUp uncompressedSize
      ((ErofsZMapHeader.ofBytes data).clusterSize blockSize) * 8)
    (wrap64 (extentsOffset + 16)) s₁ with ⟨_ | indexes, s₂⟩
  · rfl
  · rfl

theorem readCompactIndexes_carried (h : Carries φ file file')
    (extentsOffset compressedBlocks blockSize uncompressedSize : Nat) (s : σ) :
    readCompactIndexes file' extentsOffset compressedBlocks blockSize uncompressedSize (φ s) =
      (readCompactIndexes file extentsOffset compressedBlocks blockSize uncompressedSize s).map
        (onState φ) := by
  unfold readCompactIndexes
  rw [h.size, h.readBytes]
  split_ifs
  · rfl
  · rfl
  · rfl
  · rfl
  rcases file.readBytes 8 extentsOffset s with ⟨_ | data, s₁⟩
  · rfl
  dsimp only [onState]
  split_ifs
  · rfl
  · rfl
  · rfl
  rw [h.readBytes]
  generalize compactedCounts _ (wrap64 (extentsOffset + 8)) _ = counts
  rcases file.readBytes (counts.1 * 4 + counts.2.1 * 2 + (counts.2.2 + 1) / 2 * 2 * 4)
    (wrap64 (extentsOffset + 8)) s₁ with ⟨_ | indexes, s₂⟩
  · rfl
  · rfl

theorem finishMap_carried (compressedBlocks : Nat) (s : σ) (built : Attempt ErofsExtentMap) :
    finishMap compressedBlocks (φ s) built =
      (finishMap compressedBlocks s built).map (onState φ) := by
  unfold finishMap
  rcases built with fault | _ | map
  · rfl
  · rfl
  · dsimp only
    split_ifs
    · rfl
    · rfl

theorem fromLegacyIndexes_carried (h : Carries φ file file')
    (extentsOffset compressedBlocks blockSize uncompressedSize : Nat) (s : σ) :
    fromLegacyIndexes file' extentsOffset compressedBlocks blockSize uncompressedSize (φ s) =
      (fromLegacyIndexes file extentsOffset compressedBlocks blockSize uncompressedSize s).map
        (onState φ) := by
  unfold fromLegacyIndexes
  rw [readLegacyIndexes_carried h]
  rcases readLegacyIndexes file extentsOffset compressedBlocks blockSize uncompressedSize s with
    fault | ⟨_ | indexes, s₁⟩
  · rfl
  · rfl
  · exact finishMap_carried _ s₁ _

theorem fromCompactIndexes_carried (h : Carries φ file file')
    (extentsOffset compressedBlocks blockSize uncompressedSize : Nat) (s : σ) :
    fromCompactIndexes file' extentsOffset compressedBlocks blockSize uncompressedSize (φ s) =
      (fromCompactIndexes file extentsOffset compressedBlocks blockSize uncompressedSize s).map
        (onState φ) := by
  unfold fromCompactIndexes
  rw [readCompactIndexes_carried h]
  rcases readCompactIndexes file extentsOffset compressedBlocks blockSize uncompressedSize s with
    fault | ⟨_ | indexes, s₁⟩
  · rfl
  · rfl
  · exact finishMap_carried _ s₁ _

end ErofsExtentMap

/-! ## Data readers -/

theorem ErofsInodeFlatPlainDataReader.read_carried (h : Carries φ file file')
    (reader : ErofsInodeFlatPlainDataReader) (out : Bytes) (offset : Nat) (s : σ) :
    reader.read file' out offset (φ s) = onState₂ φ (reader.read file out offset s) := by
  unfold read
  split_ifs
  · rfl
  · exact h.read _ _ _

theorem ErofsInodeFlatInlineDataReader.read_carried (h : Carries φ file file')
    (reader : ErofsInodeFlatInlineDataReader) (out : Bytes) (offset : Nat) (s : σ) :
    reader.read file' out offset (φ s) = onState₂ φ (reader.read file out offset s) := by
  unfold read
  split_ifs
  · rfl
  · exact h.read _ _ _
  · dsimp only
    rw [h.read]
    rcases file.read s (out.take (reader.contigBlocksSize - offset))
      (wrap64 (reader.contigBlocksAddress + offset)) with ⟨_ | _, data, s₁⟩
    · rfl
    · have htail := h.read s₁ (out.drop (reader.contigBlocksSize - offset)) reader.tailBlockAddress
      simp only [onState₂, htail]
  · exact h.read _ _ _

namespace ErofsInodeCompressedDataReader

variable (reader : ErofsInodeCompressedDataReader)

theorem readLz4Compressed_carried (h : Carries φ file file') (extent : Extent) (out : Bytes)
    (offset : Nat) (s : σ) :
    reader.readLz4Compressed file' lz4 extent out offset (φ s) =
      (reader.readLz4Compressed file lz4 extent out offset s).map (onState₃ φ) := by
  unfold readLz4Compressed
  by_cases hlast : reader.lastDecompressedBlockAddr = extent.comprBlockAddr
  · rw [if_pos hlast, if_pos hlast]
    cases reader.copyDecompressed out.length offset with
    | error fault => rfl
    | ok data => rfl
  rw [if_neg hlast, if_neg hlast]
  have hread := h.read s (if reader.blockBuffer.length ≠ reader.blockSize then
    resize reader.blockBuffer reader.blockSize else reader.blockBuffer) extent.comprBlockAddr
  rcases hx : file.read s (if reader.blockBuffer.length ≠ reader.blockSize then
    resize reader.blockBuffer reader.blockSize else reader.blockBuffer) extent.comprBlockAddr with
    ⟨_ | _, block, s₁⟩
  · rw [hx] at hread
    simp only [hread, hx, onState₂]
    rfl
  rw [hx] at hread
  simp only [hread, hx, onState₂, not_true_eq_false, if_false]
  split_ifs
  · rfl
  cases decompressBlock lz4 { reader with blockBuffer := block } extent with
  | error fault => rfl
  | ok decompressed =>
    rcases decompressed with ⟨_ | _, reader₁⟩
    · rfl
    · dsimp only
      cases reader₁.copyDecompressed out.length offset with
      | error fault => rfl
      | ok data => rfl

theorem readExtent_carried (h : Carries φ file file') (extent : Extent) (out : Bytes)
    (offset : Nat) (s : σ) :
    reader.readExtent file' lz4 extent out offset (φ s) =
      (reader.readExtent file lz4 extent out offset s).map (onState₃ φ) := by
  unfold readExtent
  cases extent.compression with
  | none =>
    have hread := h.read s out (wrap64 (extent.comprBlockAddr + offset))
    simp only [hread]
    rfl
  | lz4 => exact readLz4Compressed_carried reader h extent out offset s
  | lzma => rfl
  | zstd => rfl
  | zip => rfl
  | invalid => rfl

theorem readExtents_carried (h : Carries φ file file') (extents : List Extent)
    (clusterOffset : Nat) (out : Bytes) (s : σ) :
    readExtents file' lz4 extents clusterOffset out reader (φ s) =
      (readExtents file lz4 extents clusterOffset out reader s).map (onState₃ φ) := by
  induction extents generalizing clusterOffset out reader s with
  | nil =>
    cases out with
    | nil => rfl
    | cons b out => rfl
  | cons extent rest ih =>
    cases out with
    | nil => rfl
    | cons b out =>
      unfold readExtents
      dsimp only
      rw [readExtent_carried reader h]
      rcases reader.readExtent file lz4 extent _ clusterOffset s with
        fault | ⟨_ | _, data, reader₁, s₁⟩
      · rfl
      · rfl
      dsimp only [Except.map, onState₃]
      rw [ih]
      rcases readExtents file lz4 rest 0 _ reader₁ s₁ with fault | ⟨success, tail, reader₂, s₂⟩
      · rfl
      · rfl

theorem read_carried (h : Carries φ file file') (out : Bytes) (offset : Nat) (s : σ) :
    reader.read file' lz4 out offset (φ s) =
      (reader.read file lz4 out offset s).map (onState₃ φ) := by
  unfold read
  split_ifs
  · rfl
  cases reader.extents.find offset with
  | error fault => rfl
  | ok i =>
    dsimp only
    cases reader.extents.entries[i]? with
    | none => rfl
    | some extent => exact readExtents_carried reader h _ _ _ _

end ErofsInodeCompressedDataReader

theorem IErofsInodeDataReader.read_carried (h : Carries φ file file')
    (reader : IErofsInodeDataReader) (out : Bytes) (offset : Nat) (s : σ) :
    reader.read file' lz4 out offset (φ s) =
      (reader.read file lz4 out offset s).map (onState₃ φ) := by
  cases reader with
  | flatPlain flat =>
    unfold read
    dsimp only
    rw [flat.read_carried h]
    rfl
  | flatInline flat =>
    unfold read
    dsimp only
    rw [flat.read_carried h]
    rfl
  | compressed compr =>
    unfold read
    dsimp only
    rw [compr.read_carried h]
    rcases compr.read file lz4 out offset s with fault | ⟨success, data, reader₁, s₁⟩
    · rfl
    · rfl

/-! ## Inodes -/

namespace ErofsInode

theorem new_carried (h : Carries φ file file') (superBlock : ErofsSuperBlock)
    (inodeNumber hints : Nat) (s : σ) :
    new file' superBlock inodeNumber hints (φ s) =
      onState φ (new file superBlock inodeNumber hints s) := by
  unfold new
  dsimp only
  rw [h.readBytes]
  rcases file.readBytes 32 (superBlock.inodeOffset inodeNumber) s with ⟨_ | buf, s₁⟩
  · rfl
  dsimp only [onState]
  split_ifs
  · rfl
  rw [h.readBytes]
  rcases file.readBytes 32 (wrap64 (superBlock.inodeOffset inodeNumber + 32)) s₁ with
    ⟨_ | rest, s₂⟩
  · rfl
  · rfl

theorem createCompressed_carried (inode : ErofsInode)
    (map : Except Fault (Option ErofsExtentMap × σ)) :
    inode.createCompressed (map.map (onState φ)) =
      (inode.createCompressed map).map (onState φ) := by
  rcases map with fault | ⟨_ | extents, s⟩
  · rfl
  · rfl
  · simp only [createCompressed, Except.map, onState]
    cases inode.newCompressedReader extents with
    | error fault => rfl
    | ok reader => rfl

theorem dataReader_carried (h : Carries φ file file') (inode : ErofsInode) (s : σ) :
    inode.dataReader file' (φ s) = (inode.dataReader file s).map (onState φ) := by
  unfold dataReader
  cases inode.inodeReader with
  | some reader => rfl
  | none =>
    unfold createReader
    dsimp only
    cases inode.dataFormat with
    | flatPlain => rfl
    | flatInline => rfl
    | compressedFull =>
      dsimp only
      rw [ErofsExtentMap.fromLegacyIndexes_carried h]
      exact createCompressed_carried inode _
    | compressedCompact =>
      dsimp only
      rw [ErofsExtentMap.fromCompactIndexes_carried h]
      exact createCompressed_carried inode _
    | chunkBased => rfl
    | invalid => rfl

theorem read_carried (h : Carries φ file file') (inode : ErofsInode) (buf : Bytes) (offset : Nat)
    (s : σ) :
    inode.read file' lz4 buf offset (φ s) =
      (inode.read file lz4 buf offset s).map (onState₃ φ) := by
  unfold read
  split_ifs
  · rfl
  dsimp only
  rw [dataReader_carried h]
  rcases inode.dataReader file s with fault | ⟨_ | reader, s₁⟩
  · rfl
  · rfl
  dsimp only [Except.map, onState]
  rw [reader.read_carried h]
  rcases reader.read file lz4 (buf.take (min buf.length (inode.size - offset))) offset s₁ with
    fault | ⟨success, data, reader₁, s₂⟩
  · rfl
  · rfl

end ErofsInode

/-! ## The reader of an image -/

namespace ErofsReader

theorem readDirectoryLoop_carried (h : Carries φ file file') (blockSize blocks offset : Nat)
    (results : List DirEntry) (inode : ErofsInode) (reader : ErofsReader) (s : σ) :
    readDirectoryLoop file' lz4 blockSize blocks offset results inode reader (φ s) =
      (readDirectoryLoop file lz4 blockSize blocks offset results inode reader s).map
        (onState₂ φ) := by
  induction blocks generalizing offset results inode reader s with
  | zero => rfl
  | succ blocks ih =>
    rw [readDirectoryLoop_succ, readDirectoryLoop_succ]
    dsimp only
    split_ifs
    · rfl
    · rw [inode.read_carried h]
      rcases inode.read file lz4 (reader.dirBlockBuffer.take (min blockSize (inode.size - offset)))
        offset s with fault | ⟨rd, data, inode₁, s₁⟩
      · rfl
      dsimp only [Except.map, onState₃]
      split_ifs
      · rfl
      rcases processDirectoryBlock (data ++ reader.dirBlockBuffer.drop
          (min blockSize (inode.size - offset))) (min blockSize (inode.size - offset)) results with
        fault | _ | entries
      · rfl
      · rfl
      · exact ih _ _ _ _ _
    · rfl

theorem readDirectory_carried (h : Carries φ file file') (superBlock : ErofsSuperBlock)
    (dirInode : Nat) (reader : ErofsReader) (s : σ) :
    reader.readDirectory file' lz4 superBlock dirInode (φ s) =
      (reader.readDirectory file lz4 superBlock dirInode s).map (onState₂ φ) := by
  unfold readDirectory
  rw [ErofsInode.new_carried h]
  dsimp only [onState]
  split_ifs
  · rfl
  · exact readDirectoryLoop_carried h _ _ _ _ _ _ _

theorem new_carried (h : Carries φ file file') (s : σ) :
    new file' lz4 (φ s) = (new file lz4 s).map (onState φ) := by
  unfold new
  dsimp only
  rw [h.readBytes]
  rcases file.readBytes firstBlockSize 0 s with ⟨_ | buf, s₁⟩
  · rfl
  dsimp only [onState]
  rcases ErofsSuperBlock.parse buf with fault | error | superBlock
  · rfl
  · rfl
  dsimp only
  split_ifs
  · rfl
  rw [readDirectory_carried h]
  rcases readDirectory file lz4 superBlock superBlock.rootInode _ s₁ with
    fault | ⟨_ | _ | ⟨entry, rest⟩, reader, s₂⟩
  · rfl
  · rfl
  · rfl
  · rfl

theorem nextDirectory_carried (h : Carries φ file file') (superBlock : ErofsSuperBlock)
    (stack : List Directory) (reader : ErofsReader) (s : σ) :
    nextDirectory file' lz4 superBlock stack reader (φ s) =
      (nextDirectory file lz4 superBlock stack reader s).map (onState₂ φ) := by
  induction stack generalizing reader s with
  | nil => rfl
  | cons front rest ih =>
    unfold nextDirectory
    rw [readDirectory_carried h]
    rcases reader.readDirectory file lz4 superBlock front.inode s with
      fault | ⟨_ | _ | ⟨entry, others⟩, reader₁, s₁⟩
    · rfl
    · rfl
    · exact ih _ _
    · rfl

/-- A call of `next` gives the same entry and leaves the same reader. -/
theorem next_carried (h : Carries φ file file') (reader : ErofsReader) (s : σ) :
    reader.next file' lz4 (φ s) = (reader.next file lz4 s).map (onState₂ φ) := by
  by_cases hidle : reader.dirStack = [] ∨ reader.superBlock.isSome = true ∧
    reader.error.isSome = true
  · rw [next_idle hidle, next_idle hidle]
    rfl
  rw [not_or, not_and'] at hidle
  obtain ⟨hstack, hgo⟩ := hidle
  obtain ⟨front, rest, hstack⟩ := List.exists_cons_of_ne_nil hstack
  cases hsuper : reader.superBlock with
  | none =>
    unfold next
    rw [hstack, hsuper]
    rfl
  | some superBlock =>
    have herror : reader.error = none := by
      rw [← Option.not_isSome_iff_eq_none]
      exact fun herror => hgo herror (by rw [hsuper]; rfl)
    cases hentry : reader.currentDir[reader.currentDirIndex]? with
    | none =>
      unfold next hasError
      rw [hstack, hsuper, herror, hentry]
      rfl
    | some dirEntry =>
      have hat : reader.AtEntry superBlock front dirEntry :=
        ⟨hsuper, by rw [hstack]; rfl, herror, hentry⟩
      rcases hinode : ErofsInode.new file superBlock dirEntry.inode (reader.hintsFor dirEntry) s with
        ⟨inode, s₁⟩
      have hinode' : ErofsInode.new file' superBlock dirEntry.inode (reader.hintsFor dirEntry) (φ s) =
          (inode, φ s₁) := by
        rw [ErofsInode.new_carried h, hinode]
        rfl
      rw [next_at hat hinode, next_at hat hinode']
      split_ifs
      · rw [nextDirectory_carried h]
        rcases nextDirectory file lz4 superBlock _ _ s₁ with fault | ⟨_ | _, reader₁, s₂⟩
        · rfl
        · rfl
        · rfl
      · rfl
      · rfl

end ErofsReader

end

/-! ## Files that behave as one without a state -/

/-- From the states `good` on, a file answers as `plain` does, which has no state. -/
structure Behaves (file : IErofsImageFile σ) (good : σ → Prop) (plain : IErofsImageFile Unit) :
    Prop where
  size : plain.size = file.size
  keeps : ∀ {s buffer offset}, good s → good (file.read s buffer offset).2.2
  read : ∀ {s buffer offset}, good s →
    plain.read () buffer offset =
      ((file.read s buffer offset).1, (file.read s buffer offset).2.1, ())

namespace Behaves

variable {file : IErofsImageFile σ} {good : σ → Prop} {plain : IErofsImageFile Unit}

theorem keeps_state (h : Behaves file good plain) (s : { s // good s }) (buffer : Bytes)
    (offset : Nat) : good (file.read s.val buffer offset).2.2 := h.keeps s.property

/-- The file on its good states only. -/
def restrict (h : Behaves file good plain) : IErofsImageFile { s // good s } where
  size := file.size
  size_lt := file.size_lt
  read s buffer offset :=
    ((file.read s.val buffer offset).1, (file.read s.val buffer offset).2.1,
      ⟨(file.read s.val buffer offset).2.2, h.keeps_state s buffer offset⟩)
  read_length s buffer offset := file.read_length s.val buffer offset

theorem carries_val (h : Behaves file good plain) : Carries Subtype.val h.restrict file :=
  ⟨rfl, fun _ _ _ => rfl⟩

theorem carries_unit (h : Behaves file good plain) :
    Carries (fun _ : { s // good s } => ()) h.restrict plain :=
  ⟨h.size, fun s _ _ => h.read s.property⟩

end Behaves

end Erofs
