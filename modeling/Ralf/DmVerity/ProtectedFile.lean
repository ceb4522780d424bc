import Ralf.DmVerity.Verifier

/-!
# Protected files

`DmVerityProtectedFile` reads byte ranges of a data file and verifies every block
on the way. The verifier works on whole blocks, so a range is read as a partial
head, whole blocks straight into the caller's buffer, and a partial tail; partial
blocks go through a block buffer that is kept from one call to the next. A file
opened for direct I/O is read block by block through that buffer instead.

The caller's buffer is part of the model: a call that fails leaves in it what was
read up to that point, verified or not.
-/

namespace DmVerity

/-- The block verifier that a protected file uses. -/
structure IDmVerityVerifier where
  blockSize : Nat
  dataBlockCount : Nat
  verify : Nat → Bytes → Bool

/-- A data file that does not change. A read may fail or be short; what it gives
is always what the file contains. -/
structure DataFile where
  contents : Bytes
  length_lt : contents.length < 2 ^ 63
  pread : Nat → Nat → ReadResult
  pread_prefix : ∀ offset size bytes, pread offset size = .data bytes →
    bytes <+: contents.slice offset size

/-- The block size of a protected file. -/
def kBlockSize : Nat := 4096

/-- The reader object. The range lies in the file (`checkAndCalcFileRange`), and
the block buffer holds one block. -/
structure DmVerityProtectedFile (file : DataFile) where
  fileOffset : Nat
  fileSize : Nat
  range_le : fileOffset + fileSize ≤ file.contents.length
  directIo : Bool
  blockBuffer : Bytes
  blockBuffer_length : blockBuffer.length = kBlockSize
  blockBufferNumber : Nat := sizeMax

/-- Checks a range of a file, or chooses the rest of the file. -/
def checkAndCalcFileRange (fileSize : Nat) (offset size : Option Nat) : Result (Nat × Nat) :=
  let actualOffset := offset.getD 0
  if actualOffset ≥ fileSize then
    .error (.ralf .dmVerityError
      s!"File offset is outside of the file size (offset {actualOffset}, size {fileSize})")
  else
    let actualSize := size.getD (fileSize - actualOffset)
    if actualSize > fileSize - actualOffset then
      .error (.ralf .dmVerityError <|
        s!"Supplied file range is outside of the file size (offset {actualOffset}, " ++
        s!"size {actualSize}, actual size {fileSize})")
    else .ok (actualOffset, actualSize)

theorem checkAndCalcFileRange_le {fileSize : Nat} {offset size : Option Nat} {range : Nat × Nat}
    (h : checkAndCalcFileRange fileSize offset size = .ok range) :
    range.1 + range.2 ≤ fileSize := by
  unfold checkAndCalcFileRange at h
  dsimp only at h
  split_ifs at h
  cases h
  dsimp only
  omega

namespace DmVerityProtectedFile

/-- Makes the reader for a range of a data file that the verifier covers. The
buffer starts with the bytes that the allocation finds in memory. -/
def «open» (file : DataFile) (dataFileOffset dataFileSize : Option Nat)
    (verifier : Result IDmVerityVerifier) (directIo : Bool)
    (memory : { bytes : Bytes // bytes.length = kBlockSize }) :
    Result (DmVerityProtectedFile file) :=
  match h : checkAndCalcFileRange file.contents.length dataFileOffset dataFileSize with
  | .error error => .error error
  | .ok range =>
    match verifier with
    | .error error => .error error
    | .ok verifier =>
      if verifier.blockSize ≠ 4096 then
        .error (.ralf .dmVerityError "Only support 4k dm-verity block sizes")
      else if range.2 > wrap64 (verifier.dataBlockCount * verifier.blockSize) then
        .error (.ralf .dmVerityError "dm-verity hashes doesn't cover all the data in the file")
      else
        .ok { fileOffset := range.1, fileSize := range.2, range_le := checkAndCalcFileRange_le h,
              directIo := directIo, blockBuffer := memory.val,
              blockBuffer_length := memory.property }

variable {file : DataFile} (verify : Nat → Bytes → Bool)

/-- The file offset of a block of the range. -/
def blockOffset (f : DmVerityProtectedFile file) (nblock : Nat) : Nat :=
  wrap64 (f.fileOffset + nblock * kBlockSize)

/-- Reads and verifies block `nblock` at position `pos` of a buffer. -/
def readAndVerifyBlock (f : DmVerityProtectedFile file) (nblock : Nat)
    (buffer : Bytes) (pos : Nat) :
    Bool × Bytes :=
  match file.pread (f.blockOffset nblock) kBlockSize with
  | .error _ => (false, buffer)
  | .data bytes =>
    let buffer := buffer.overwrite pos bytes
    (bytes.length = kBlockSize && verify nblock (buffer.slice pos kBlockSize), buffer)

theorem readAndVerifyBlock_length {f : DmVerityProtectedFile file} {nblock pos : Nat}
    {buffer : Bytes} (hpos : pos + kBlockSize ≤ buffer.length) :
    (f.readAndVerifyBlock verify nblock buffer pos).2.length = buffer.length := by
  unfold readAndVerifyBlock
  split
  · rfl
  · next bytes hread =>
    have hle := (file.pread_prefix _ _ _ hread).length_le
    have hslice := Bytes.slice_length_le file.contents (f.blockOffset nblock) kBlockSize
    exact Bytes.overwrite_length (by omega)

/-- Makes `nblock` the block in the block buffer; after a failure it holds none. -/
def loadBlock (f : DmVerityProtectedFile file) (nblock : Nat) : Bool × DmVerityProtectedFile file :=
  if nblock = f.blockBufferNumber then (true, f)
  else
    match h : f.readAndVerifyBlock verify nblock f.blockBuffer 0 with
    | (ok, blockBuffer) =>
      (ok, { f with
        blockBuffer := blockBuffer
        blockBuffer_length := by
          have hlen := @readAndVerifyBlock_length file verify f nblock 0 f.blockBuffer
            (by simp [f.blockBuffer_length])
          rw [h] at hlen
          exact hlen.trans f.blockBuffer_length
        blockBufferNumber := if ok then nblock else sizeMax })

/-- Copies a part of a block to position `pos` of the caller's buffer. -/
def readPartialBlock (f : DmVerityProtectedFile file) (buffer : Bytes)
    (pos nblock offset size : Nat) :
    Bool × Bytes × DmVerityProtectedFile file :=
  if offset ≥ kBlockSize ∨ size > kBlockSize - offset then (false, buffer, f)
  else
    match f.loadBlock verify nblock with
    | (false, f) => (false, buffer, f)
    | (true, f) => (true, buffer.overwrite pos (f.blockBuffer.slice offset size), f)

/-- The loop over whole blocks. It stops at a failure, or with the position, the
size left and the next block. -/
def readBlocks (f : DmVerityProtectedFile file) (buffer : Bytes) (pos size blkNumber : Nat) :
    Bool × Bytes × Nat × Nat × Nat :=
  if size ≥ kBlockSize then
    match f.readAndVerifyBlock verify blkNumber buffer pos with
    | (false, buffer) => (false, buffer, pos, size, blkNumber)
    | (true, buffer) =>
      f.readBlocks buffer (pos + kBlockSize) (size - kBlockSize) (blkNumber + 1)
  else (true, buffer, pos, size, blkNumber)
  termination_by size
  decreasing_by simp only [kBlockSize] at *; omega

/-- The whole blocks of a read, and its tail. -/
def readBody (f : DmVerityProtectedFile file) (buffer : Bytes) (pos size blkNumber : Nat) :
    Bool × Bytes × DmVerityProtectedFile file :=
  match f.readBlocks verify buffer pos size blkNumber with
  | (false, buffer, _) => (false, buffer, f)
  | (true, buffer, pos, size, blkNumber) =>
    if size > 0 then f.readPartialBlock verify buffer pos blkNumber 0 size else (true, buffer, f)

/-- The loop of a direct read: every block goes through the block buffer. -/
def readDirectLoop (f : DmVerityProtectedFile file) (buffer : Bytes)
    (pos size offset blkNumber : Nat) :
    Bool × Bytes × DmVerityProtectedFile file :=
  if size > 0 then
    match f.loadBlock verify blkNumber with
    | (false, f) => (false, buffer, f)
    | (true, f) =>
      let blkOffset := offset % kBlockSize
      let blkAmount := min size (kBlockSize - blkOffset)
      f.readDirectLoop (buffer.overwrite pos (f.blockBuffer.slice blkOffset blkAmount))
        (pos + blkAmount) (size - blkAmount) 0 (blkNumber + 1)
  else (true, buffer, f)
  termination_by size
  decreasing_by
    have := Nat.mod_lt offset (by decide : 0 < kBlockSize)
    omega

def readDirectIo (f : DmVerityProtectedFile file) (buffer : Bytes) (size offset : Nat) :
    Bool × Bytes × DmVerityProtectedFile file :=
  f.readDirectLoop verify buffer 0 size offset (offset / kBlockSize)

/-- Reads `size` bytes at `offset` into a buffer: whether the call succeeds, the
buffer and the object after it. -/
def read (f : DmVerityProtectedFile file) (buffer : Bytes) (size offset : Nat) :
    Bool × Bytes × DmVerityProtectedFile file :=
  if offset ≥ f.fileSize ∨ size > f.fileSize - offset then (false, buffer, f)
  else if f.directIo then f.readDirectIo verify buffer size offset
  else
    let blkNumber := offset / kBlockSize
    let blkOffset := offset % kBlockSize
    if blkOffset ≠ 0 then
      let blkAmount := min size (kBlockSize - blkOffset)
      match f.readPartialBlock verify buffer 0 blkNumber blkOffset blkAmount with
      | (false, buffer, f) => (false, buffer, f)
      | (true, buffer, f) => f.readBody verify buffer blkAmount (size - blkAmount) (blkNumber + 1)
    else f.readBody verify buffer 0 size blkNumber

end DmVerityProtectedFile

end DmVerity
