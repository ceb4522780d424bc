import Ralf.Erofs.ExtentMap

/-!
# Reading the data of inodes

The data of an inode is stored as plain blocks, as blocks with a tail behind the inode,
or compressed. There is a reader for each; all of them fill a buffer from an offset of
the data, and a read that fails may leave anything in the buffer. The compressed reader
keeps the last block that it decompressed in part.

LZ4 is a parameter: what it is given and what it says is modelled, what it does is not.
-/

namespace Erofs

/-- The two LZ4 functions in use, `LZ4_decompress_safe` and
`LZ4_decompress_safe_partial`. -/
inductive Lz4Function
  | safe
  | safePartial
  deriving DecidableEq, Repr

/-- Decompression of a block into a buffer. It succeeds when it gives as many bytes as
the buffer has; otherwise it may leave anything in the buffer. -/
structure Lz4 where
  decompress : Lz4Function → Bytes → Bytes → Bool × Bytes
  decompress_length : ∀ function src dst, (decompress function src dst).2.length = dst.length
  decompress_determined : ∀ function src dst dst', dst.length = dst'.length →
    (decompress function src dst).1 = (decompress function src dst').1 ∧
      ((decompress function src dst).1 = true →
        (decompress function src dst).2 = (decompress function src dst').2)

/-- A buffer after `std::vector::resize`. -/
def resize (buffer : Bytes) (size : Nat) : Bytes :=
  buffer.take size ++ List.replicate (size - buffer.length) 0

/-- The largest size of a `std::vector` of bytes. -/
def maxVectorSize : Nat := 2 ^ 63 - 1

section
variable {σ : Type} (file : IErofsImageFile σ) (lz4 : Lz4)

/-! ## Flat data -/

structure ErofsInodeFlatPlainDataReader where
  blocksAddress : Nat
  dataSize : Nat
  deriving DecidableEq, Repr

def ErofsInodeFlatPlainDataReader.read (reader : ErofsInodeFlatPlainDataReader) (out : Bytes)
    (offset : Nat) (s : σ) : Bool × Bytes × σ :=
  if offset ≥ reader.dataSize ∨ out.length > reader.dataSize - offset then (false, out, s)
  else file.read s out (wrap64 (reader.blocksAddress + offset))

structure ErofsInodeFlatInlineDataReader where
  contigBlocksSize : Nat
  contigBlocksAddress : Nat
  tailBlockAddress : Nat
  dataSize : Nat
  deriving DecidableEq, Repr

def ErofsInodeFlatInlineDataReader.new (blockAddr tailBlockAddr blockSize dataSize : Nat) :
    ErofsInodeFlatInlineDataReader :=
  { contigBlocksSize := dataSize / blockSize * blockSize
    contigBlocksAddress := blockAddr
    tailBlockAddress := tailBlockAddr
    dataSize := dataSize }

def ErofsInodeFlatInlineDataReader.read (reader : ErofsInodeFlatInlineDataReader) (out : Bytes)
    (offset : Nat) (s : σ) : Bool × Bytes × σ :=
  if offset ≥ reader.dataSize ∨ out.length > reader.dataSize - offset then (false, out, s)
  else if offset + out.length ≥ reader.contigBlocksSize then
    if offset ≥ reader.contigBlocksSize then
      file.read s out (wrap64 (reader.tailBlockAddress + (offset - reader.contigBlocksSize)))
    else
      let contigSize := reader.contigBlocksSize - offset
      match file.read s (out.take contigSize) (wrap64 (reader.contigBlocksAddress + offset)) with
      | (false, data, s) => (false, data ++ out.drop contigSize, s)
      | (true, data, s) =>
        let (success, tail, s) := file.read s (out.drop contigSize) reader.tailBlockAddress
        (success, data ++ tail, s)
  else file.read s out (wrap64 (reader.contigBlocksAddress + offset))

/-! ## Compressed data -/

structure ErofsInodeCompressedDataReader where
  extents : ErofsExtentMap
  dataSize : Nat
  blockSize : Nat
  haveLz4ZeroPadding : Bool
  blockBuffer : Bytes := []
  lastDecompressedBlockAddr : Nat := sizeMax
  decompressedBlock : Bytes := []
  deriving DecidableEq, Repr

namespace ErofsInodeCompressedDataReader

/-- Decompresses a block into a buffer. Zero padding is in front of the data. -/
def decompressLz4 (reader : ErofsInodeCompressedDataReader) (block out : Bytes) : Bool × Bytes :=
  if reader.haveLz4ZeroPadding then
    let src := block.dropWhile (· = 0)
    if src = [] then (false, out) else lz4.decompress .safe src out
  else lz4.decompress .safePartial block out

/-- Copies from the block that was decompressed last. -/
def copyDecompressed (reader : ErofsInodeCompressedDataReader) (size offset : Nat) :
    Except Fault Bytes :=
  if offset + size > reader.decompressedBlock.length then .error .overread
  else .ok (reader.decompressedBlock.slice offset size)

/-- Decompresses the block in the block buffer and keeps it. -/
def decompressBlock (reader : ErofsInodeCompressedDataReader) (extent : Extent) :
    Except Fault (Bool × ErofsInodeCompressedDataReader) :=
  if extent.uncomprSize > maxVectorSize then .error .badAlloc
  else
    let buffer :=
      if reader.decompressedBlock.length < extent.uncomprSize then
        resize reader.decompressedBlock extent.uncomprSize
      else reader.decompressedBlock
    let (success, data) :=
      reader.decompressLz4 lz4 reader.blockBuffer (buffer.take extent.uncomprSize)
    .ok (success, { reader with
      lastDecompressedBlockAddr := if success then extent.comprBlockAddr else sizeMax
      decompressedBlock := data ++ buffer.drop extent.uncomprSize })

/-- Reads a part of an extent whose block is LZ4 compressed. -/
def readLz4Compressed (reader : ErofsInodeCompressedDataReader) (extent : Extent) (out : Bytes)
    (offset : Nat) (s : σ) : Except Fault (Bool × Bytes × ErofsInodeCompressedDataReader × σ) :=
  if reader.lastDecompressedBlockAddr = extent.comprBlockAddr then
    match reader.copyDecompressed out.length offset with
    | .error fault => .error fault
    | .ok data => .ok (true, data, reader, s)
  else
    let blockBuffer :=
      if reader.blockBuffer.length ≠ reader.blockSize then
        resize reader.blockBuffer reader.blockSize
      else reader.blockBuffer
    let (success, blockBuffer, s) := file.read s blockBuffer extent.comprBlockAddr
    let reader := { reader with blockBuffer := blockBuffer }
    if ¬success then .ok (false, out, reader, s)
    else if offset = 0 ∧ extent.uncomprSize = out.length then
      let (success, data) := reader.decompressLz4 lz4 blockBuffer out
      .ok (success, data, reader, s)
    else
      match reader.decompressBlock lz4 extent with
      | .error fault => .error fault
      | .ok (false, reader) => .ok (false, out, reader, s)
      | .ok (true, reader) =>
        match reader.copyDecompressed out.length offset with
        | .error fault => .error fault
        | .ok data => .ok (true, data, reader, s)

/-- Reads a part of one extent. -/
def readExtent (reader : ErofsInodeCompressedDataReader) (extent : Extent) (out : Bytes)
    (offset : Nat) (s : σ) : Except Fault (Bool × Bytes × ErofsInodeCompressedDataReader × σ) :=
  match extent.compression with
  | .none =>
    let (success, data, s) := file.read s out (wrap64 (extent.comprBlockAddr + offset))
    .ok (success, data, reader, s)
  | .lz4 => reader.readLz4Compressed file lz4 extent out offset s
  | _ => .ok (false, out, reader, s)

/-- The loop of `read` over the extents, from the one with the first byte on. -/
def readExtents : List Extent → Nat → Bytes → ErofsInodeCompressedDataReader → σ →
    Except Fault (Bool × Bytes × ErofsInodeCompressedDataReader × σ)
  | _, _, [], reader, s => .ok (true, [], reader, s)
  -- there is no extent behind the last one
  | [], _, _ :: _, _, _ => .error .outOfBounds
  | extent :: rest, clusterOffset, out@(_ :: _), reader, s =>
    let clusterAmount := min (wrapSub64 extent.uncomprSize clusterOffset) out.length
    match reader.readExtent file lz4 extent (out.take clusterAmount) clusterOffset s with
    | .error fault => .error fault
    | .ok (false, data, reader, s) => .ok (false, data ++ out.drop clusterAmount, reader, s)
    | .ok (true, data, reader, s) =>
      match readExtents rest 0 (out.drop clusterAmount) reader s with
      | .error fault => .error fault
      | .ok (success, tail, reader, s) => .ok (success, data ++ tail, reader, s)

def read (reader : ErofsInodeCompressedDataReader) (out : Bytes) (offset : Nat) (s : σ) :
    Except Fault (Bool × Bytes × ErofsInodeCompressedDataReader × σ) :=
  if offset ≥ reader.dataSize ∨ out.length > reader.dataSize - offset then
    .ok (false, out, reader, s)
  else
    match reader.extents.find offset with
    | .error fault => .error fault
    | .ok i =>
      match reader.extents.entries[i]? with
      | none => .ok (false, out, reader, s)
      | some extent =>
        readExtents file lz4 (reader.extents.entries.drop i)
          (wrapSub64 offset extent.uncomprOffset) out reader s

end ErofsInodeCompressedDataReader

/-! ## All readers -/

inductive IErofsInodeDataReader
  | flatPlain (reader : ErofsInodeFlatPlainDataReader)
  | flatInline (reader : ErofsInodeFlatInlineDataReader)
  | compressed (reader : ErofsInodeCompressedDataReader)
  deriving DecidableEq, Repr

/-- Fills a buffer with the data from an offset on. -/
def IErofsInodeDataReader.read (reader : IErofsInodeDataReader) (out : Bytes)
    (offset : Nat) (s : σ) :
    Except Fault (Bool × Bytes × IErofsInodeDataReader × σ) :=
  match reader with
  | .flatPlain flat =>
    let (success, data, s) := flat.read file out offset s
    .ok (success, data, reader, s)
  | .flatInline flat =>
    let (success, data, s) := flat.read file out offset s
    .ok (success, data, reader, s)
  | .compressed compr =>
    match compr.read file lz4 out offset s with
    | .error fault => .error fault
    | .ok (success, data, compr, s) => .ok (success, data, .compressed compr, s)

end

/-! ## Reads keep the size of the buffer -/

section
variable {σ : Type} {file : IErofsImageFile σ} {lz4 : Lz4} {s s' : σ}
  {out data : Bytes} {offset : Nat}
  {success : Bool}

theorem length_take_append_drop {data : Bytes} (n : Nat) (h : data.length = (out.take n).length) :
    (data ++ out.drop n).length = out.length := by
  rw [List.length_append, h, ← List.length_append, List.take_append_drop]

theorem ErofsInodeFlatPlainDataReader.read_length (reader : ErofsInodeFlatPlainDataReader) :
    (reader.read file out offset s).2.1.length = out.length := by
  unfold read
  split
  · rfl
  · exact file.read_length _ _ _

theorem ErofsInodeFlatInlineDataReader.read_length (reader : ErofsInodeFlatInlineDataReader) :
    (reader.read file out offset s).2.1.length = out.length := by
  unfold read
  split
  · rfl
  split
  · split
    · exact file.read_length _ _ _
    · have hblocks := file.read_length s (out.take (reader.contigBlocksSize - offset))
        (wrap64 (reader.contigBlocksAddress + offset))
      generalize hread : file.read s (out.take (reader.contigBlocksSize - offset))
        (wrap64 (reader.contigBlocksAddress + offset)) = filled at hblocks
      obtain ⟨_ | _, data, s⟩ := filled
      · simp only [hread]
        exact length_take_append_drop _ hblocks
      · simp only [hread]
        rw [List.length_append, file.read_length, hblocks, ← List.length_append,
          List.take_append_drop]
  · exact file.read_length _ _ _

namespace ErofsInodeCompressedDataReader

variable {reader reader' : ErofsInodeCompressedDataReader} {extent : Extent}

theorem decompressLz4_length (block out : Bytes) :
    (reader.decompressLz4 lz4 block out).2.length = out.length := by
  unfold decompressLz4
  split
  · dsimp only
    split
    · rfl
    · exact lz4.decompress_length _ _ _
  · exact lz4.decompress_length _ _ _

/-- Decompression depends on the size of the buffer alone, not on what is in it. -/
theorem decompressLz4_determined (block : Bytes) {out out' : Bytes}
    (hlength : out.length = out'.length) :
    (reader.decompressLz4 lz4 block out).1 = (reader.decompressLz4 lz4 block out').1 ∧
      ((reader.decompressLz4 lz4 block out).1 = true →
        (reader.decompressLz4 lz4 block out).2 = (reader.decompressLz4 lz4 block out').2) := by
  unfold decompressLz4
  split
  · dsimp only
    split
    · exact ⟨rfl, (fun h => (nomatch h))⟩
    · exact lz4.decompress_determined _ _ _ _ hlength
  · exact lz4.decompress_determined _ _ _ _ hlength

theorem copyDecompressed_length {size : Nat} (h : reader.copyDecompressed size offset = .ok data) :
    data.length = size := by
  unfold copyDecompressed at h
  split at h
  · cases h
  · next hfits =>
    cases h
    exact Bytes.slice_length (Nat.not_lt.mp hfits)

theorem readLz4Compressed_length
    (h : reader.readLz4Compressed file lz4 extent out offset s = .ok (success, data, reader', s')) :
    data.length = out.length := by
  unfold readLz4Compressed at h
  split at h
  · split at h
    · cases h
    · next hcopy =>
      cases h
      exact copyDecompressed_length hcopy
  · rcases hread : file.read s
      (if reader.blockBuffer.length ≠ reader.blockSize then resize reader.blockBuffer
        reader.blockSize
        else reader.blockBuffer) extent.comprBlockAddr with ⟨filled, block, s₁⟩
    simp only [hread] at h
    split at h
    · cases h
      rfl
    split at h
    · cases h
      exact decompressLz4_length _ _
    split at h
    · cases h
    · cases h
      rfl
    · split at h
      · cases h
      · next hcopy =>
        cases h
        exact copyDecompressed_length hcopy

theorem readExtent_length
    (h : reader.readExtent file lz4 extent out offset s = .ok (success, data, reader', s')) :
    data.length = out.length := by
  unfold readExtent at h
  split at h
  · cases h
    exact file.read_length _ _ _
  · exact readLz4Compressed_length h
  · cases h
    rfl

theorem readExtents_length {extents : List Extent} {clusterOffset : Nat}
    (h : readExtents file lz4 extents clusterOffset out reader s = .ok
    (success, data, reader', s')) :
    data.length = out.length := by
  induction extents generalizing clusterOffset out reader s success data with
  | nil =>
    cases out with
    | nil =>
      cases h
      rfl
    | cons b out => cases h
  | cons extent rest ih =>
    cases out with
    | nil =>
      cases h
      rfl
    | cons b out =>
      unfold readExtents at h
      dsimp only at h
      split at h
      · cases h
      · next hread =>
        cases h
        exact length_take_append_drop _ (readExtent_length hread)
      · next hread =>
        split at h
        · cases h
        · next hrest =>
          cases h
          rw [List.length_append, ih hrest, readExtent_length hread, ← List.length_append,
            List.take_append_drop]

theorem read_length (h : reader.read file lz4 out offset s = .ok (success, data, reader', s')) :
    data.length = out.length := by
  unfold read at h
  split at h
  · cases h
    rfl
  split at h
  · cases h
  split at h
  · cases h
    rfl
  · exact readExtents_length h

end ErofsInodeCompressedDataReader

theorem IErofsInodeDataReader.read_length {reader reader' : IErofsInodeDataReader}
    (h : reader.read file lz4 out offset s = .ok (success, data, reader', s')) :
    data.length = out.length := by
  unfold read at h
  split at h
  · next flat =>
    cases h
    exact flat.read_length
  · next flat =>
    cases h
    exact flat.read_length
  · split at h
    · cases h
    · next hread =>
      cases h
      exact ErofsInodeCompressedDataReader.read_length hread

end

end Erofs
