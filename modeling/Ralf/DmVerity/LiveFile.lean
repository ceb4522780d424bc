import Ralf.DmVerity.ProtectedFile

/-!
# Protected files on storage that changes

The reader of `DmVerityProtectedFile` over storage that can give something else each time it is
read, with a verifier that has a state. Nothing is assumed about the storage. On a file that does
not change and with a verifier without a state, this is the reader of before (`read_eq`).
-/

namespace DmVerity

variable {ω : Type}

/-- A data file and a verifier with their state. What is read next is up to the storage. -/
structure BlockSource (ω : Type) where
  pread : ω → Nat → Nat → ReadResult × ω
  verify : ω → Nat → Bytes → Bool × ω
  pread_le : ∀ w offset size bytes, (pread w offset size).1 = .data bytes → bytes.length ≤ size

/-- The reader object, without the file and the verifier. -/
@[ext] structure LiveFile where
  fileOffset : Nat
  fileSize : Nat
  directIo : Bool
  blockBuffer : Bytes
  blockBuffer_length : blockBuffer.length = kBlockSize
  blockBufferNumber : Nat := sizeMax

namespace LiveFile

theorem memory_length (memory : { bytes : Bytes // bytes.length = kBlockSize }) :
    memory.val.length = kBlockSize :=
  memory.property

/-- Makes the reader for a range of a data file of `length` bytes that the verifier covers. The
buffer starts with the bytes that the allocation finds in memory. -/
def «open» (length : Nat) (dataFileOffset dataFileSize : Option Nat)
    (verifier : Result DmVerityVerifier) (directIo : Bool)
    (memory : { bytes : Bytes // bytes.length = kBlockSize }) : Result LiveFile :=
  match checkAndCalcFileRange length dataFileOffset dataFileSize with
  | .error error => .error error
  | .ok range =>
    match verifier with
    | .error error => .error error
    | .ok verifier =>
      if verifier.dataBlockSize ≠ 4096 then
        .error (.ralf .dmVerityError "Only support 4k dm-verity block sizes")
      else if range.2 > wrap64 (verifier.dataBlockCount * verifier.dataBlockSize) then
        .error (.ralf .dmVerityError "dm-verity hashes doesn't cover all the data in the file")
      else
        .ok { fileOffset := range.1, fileSize := range.2, directIo := directIo,
              blockBuffer := memory.val, blockBuffer_length := memory_length memory }

variable (src : BlockSource ω)

/-- Reads and verifies block `nblock` at position `pos` of a buffer. -/
def readAndVerifyBlock (f : LiveFile) (nblock : Nat) (buffer : Bytes) (pos : Nat) (w : ω) :
    Bool × Bytes × ω :=
  match src.pread w (wrap64 (f.fileOffset + nblock * kBlockSize)) kBlockSize with
  | (.error _, w) => (false, buffer, w)
  | (.data bytes, w) =>
    let buffer := buffer.overwrite pos bytes
    if bytes.length ≠ kBlockSize then (false, buffer, w)
    else
      let (ok, w) := src.verify w nblock (buffer.slice pos kBlockSize)
      (ok, buffer, w)

variable {src} in
theorem readAndVerifyBlock_length {f : LiveFile} {nblock pos : Nat} {buffer : Bytes} {w : ω}
    (hpos : pos + kBlockSize ≤ buffer.length) :
    (f.readAndVerifyBlock src nblock buffer pos w).2.1.length = buffer.length := by
  unfold readAndVerifyBlock
  rcases hread : src.pread w (wrap64 (f.fileOffset + nblock * kBlockSize)) kBlockSize with
    ⟨bytes | errno, w'⟩
  · have hle := src.pread_le w _ _ bytes (congrArg Prod.fst hread)
    have hover : (buffer.overwrite pos bytes).length = buffer.length :=
      Bytes.overwrite_length (Nat.le_trans (Nat.add_le_add_left hle pos) hpos)
    dsimp only
    split
    · exact hover
    · exact hover
  · rfl

variable {src} in
theorem blockBuffer_read {f : LiveFile} {nblock : Nat} {w : ω} :
    (f.readAndVerifyBlock src nblock f.blockBuffer 0 w).2.1.length = kBlockSize := by
  have hlength := f.blockBuffer_length
  rw [readAndVerifyBlock_length (by rw [Nat.zero_add, hlength]), hlength]

/-- Makes `nblock` the block in the block buffer; after a failure it holds none. -/
def loadBlock (f : LiveFile) (nblock : Nat) (w : ω) : Bool × LiveFile × ω :=
  if nblock = f.blockBufferNumber then (true, f, w)
  else
    let out := f.readAndVerifyBlock src nblock f.blockBuffer 0 w
    (out.1, { f with
      blockBuffer := out.2.1
      blockBuffer_length := blockBuffer_read
      blockBufferNumber := if out.1 then nblock else sizeMax }, out.2.2)

/-- Copies a part of a block to position `pos` of the caller's buffer. -/
def readPartialBlock (f : LiveFile) (buffer : Bytes) (pos nblock offset size : Nat) (w : ω) :
    Bool × Bytes × LiveFile × ω :=
  if offset ≥ kBlockSize ∨ size > kBlockSize - offset then (false, buffer, f, w)
  else
    match f.loadBlock src nblock w with
    | (false, f, w) => (false, buffer, f, w)
    | (true, f, w) => (true, buffer.overwrite pos (f.blockBuffer.slice offset size), f, w)

/-- The loop over whole blocks. It stops at a failure, or with the position, the size left and the
next block. -/
def readBlocks (f : LiveFile) (buffer : Bytes) (pos size blkNumber : Nat) (w : ω) :
    Bool × Bytes × (Nat × Nat × Nat) × ω :=
  if size ≥ kBlockSize then
    match f.readAndVerifyBlock src blkNumber buffer pos w with
    | (false, buffer, w) => (false, buffer, (pos, size, blkNumber), w)
    | (true, buffer, w) =>
      f.readBlocks buffer (pos + kBlockSize) (size - kBlockSize) (blkNumber + 1) w
  else (true, buffer, (pos, size, blkNumber), w)
  termination_by size
  decreasing_by simp only [kBlockSize] at *; omega

/-- The whole blocks of a read, and its tail. -/
def readBody (f : LiveFile) (buffer : Bytes) (pos size blkNumber : Nat) (w : ω) :
    Bool × Bytes × LiveFile × ω :=
  match f.readBlocks src buffer pos size blkNumber w with
  | (false, buffer, _, w) => (false, buffer, f, w)
  | (true, buffer, (pos, size, blkNumber), w) =>
    if size > 0 then f.readPartialBlock src buffer pos blkNumber 0 size w
    else (true, buffer, f, w)

/-- The loop of a direct read: every block goes through the block buffer. -/
def readDirectLoop (f : LiveFile) (buffer : Bytes) (pos size offset blkNumber : Nat) (w : ω) :
    Bool × Bytes × LiveFile × ω :=
  if size > 0 then
    match f.loadBlock src blkNumber w with
    | (false, f, w) => (false, buffer, f, w)
    | (true, f, w) =>
      let blkOffset := offset % kBlockSize
      let blkAmount := min size (kBlockSize - blkOffset)
      f.readDirectLoop (buffer.overwrite pos (f.blockBuffer.slice blkOffset blkAmount))
        (pos + blkAmount) (size - blkAmount) 0 (blkNumber + 1) w
  else (true, buffer, f, w)
  termination_by size
  decreasing_by
    have := Nat.mod_lt offset (by decide : 0 < kBlockSize)
    omega

/-- Reads `size` bytes at `offset` into a buffer: whether the call succeeds, the buffer, and the
object and the storage after it. -/
def read (f : LiveFile) (buffer : Bytes) (size offset : Nat) (w : ω) :
    Bool × Bytes × LiveFile × ω :=
  if offset ≥ f.fileSize ∨ size > f.fileSize - offset then (false, buffer, f, w)
  else if f.directIo then f.readDirectLoop src buffer 0 size offset (offset / kBlockSize) w
  else
    let blkNumber := offset / kBlockSize
    let blkOffset := offset % kBlockSize
    if blkOffset ≠ 0 then
      let blkAmount := min size (kBlockSize - blkOffset)
      match f.readPartialBlock src buffer 0 blkNumber blkOffset blkAmount w with
      | (false, buffer, f, w) => (false, buffer, f, w)
      | (true, buffer, f, w) =>
        f.readBody src buffer blkAmount (size - blkAmount) (blkNumber + 1) w
    else f.readBody src buffer 0 size blkNumber w

/-- Reads one after the other, each into a buffer at an offset: whether it succeeds, and the
buffer. -/
def readAll : LiveFile → List (Bytes × Nat) → ω → List (Bool × Bytes)
  | _, [], _ => []
  | f, (buffer, offset) :: reads, w =>
    let out := f.read src buffer buffer.length offset w
    (out.1, out.2.1) :: readAll out.2.2.1 reads out.2.2.2

end LiveFile

/-! ## A file that does not change -/

/-- A data file and a verifier without a state. -/
def BlockSource.still (file : DataFile) (verify : Nat → Bytes → Bool) : BlockSource Unit where
  pread _ offset size := (file.pread offset size, ())
  verify _ n data := (verify n data, ())
  pread_le _ offset size bytes h :=
    Nat.le_trans (file.pread_prefix offset size bytes h).length_le
      (Bytes.slice_length_le file.contents offset size)

section
variable {file : DataFile} {verify : Nat → Bytes → Bool}

/-- The reader object of a file, without the file. -/
def DmVerityProtectedFile.live (f : DmVerityProtectedFile file) : LiveFile :=
  ⟨f.fileOffset, f.fileSize, f.directIo, f.blockBuffer, f.blockBuffer_length, f.blockBufferNumber⟩

namespace LiveFile

open DmVerityProtectedFile

theorem readAndVerifyBlock_eq (f : DmVerityProtectedFile file) (nblock pos : Nat)
    (buffer : Bytes) :
    f.live.readAndVerifyBlock (.still file verify) nblock buffer pos () =
      ((f.readAndVerifyBlock verify nblock buffer pos).1,
        (f.readAndVerifyBlock verify nblock buffer pos).2, ()) := by
  have hread : (BlockSource.still file verify).pread ()
      (wrap64 (f.live.fileOffset + nblock * kBlockSize)) kBlockSize =
        (file.pread (f.blockOffset nblock) kBlockSize, ()) := rfl
  unfold LiveFile.readAndVerifyBlock DmVerityProtectedFile.readAndVerifyBlock
  rw [hread]
  cases file.pread (f.blockOffset nblock) kBlockSize with
  | error errno => rfl
  | data bytes =>
    dsimp only
    by_cases hlen : bytes.length = kBlockSize
    · rw [if_neg (not_not.mpr hlen), decide_eq_true hlen, Bool.true_and]
      rfl
    · rw [if_pos hlen, decide_eq_false hlen, Bool.false_and]

theorem loadBlock_eq (f : DmVerityProtectedFile file) (nblock : Nat) :
    f.live.loadBlock (.still file verify) nblock () =
      ((f.loadBlock verify nblock).1, (f.loadBlock verify nblock).2.live, ()) := by
  unfold LiveFile.loadBlock DmVerityProtectedFile.loadBlock
  by_cases hcached : nblock = f.blockBufferNumber
  · rw [if_pos hcached, if_pos (show nblock = f.live.blockBufferNumber from hcached)]
  · rw [if_neg hcached, if_neg (show ¬ nblock = f.live.blockBufferNumber from hcached)]
    have hread := @readAndVerifyBlock_eq file verify f nblock 0 f.blockBuffer
    split
    next ok blockBuffer hmatch =>
    rw [hmatch] at hread
    have hok : (f.live.readAndVerifyBlock (.still file verify) nblock f.live.blockBuffer 0 ()).1 =
      ok := congrArg Prod.fst hread
    have hbuffer : (f.live.readAndVerifyBlock (.still file verify) nblock f.live.blockBuffer 0
      ()).2.1 = blockBuffer := congrArg (·.2.1) hread
    refine Prod.ext hok (Prod.ext (LiveFile.ext rfl rfl rfl hbuffer ?_) rfl)
    dsimp only
    rw [hok]
    rfl

theorem readPartialBlock_eq (f : DmVerityProtectedFile file) (buffer : Bytes)
    (pos nblock offset size : Nat) :
    f.live.readPartialBlock (.still file verify) buffer pos nblock offset size () =
      ((f.readPartialBlock verify buffer pos nblock offset size).1,
        (f.readPartialBlock verify buffer pos nblock offset size).2.1,
        (f.readPartialBlock verify buffer pos nblock offset size).2.2.live, ()) := by
  unfold LiveFile.readPartialBlock DmVerityProtectedFile.readPartialBlock
  split
  · rfl
  · rw [loadBlock_eq]
    rcases f.loadBlock verify nblock with ⟨_ | _, f'⟩
    · rfl
    · rfl

theorem readBlocks_eq (f : DmVerityProtectedFile file) (buffer : Bytes)
    (pos size blkNumber : Nat) :
    f.live.readBlocks (.still file verify) buffer pos size blkNumber () =
      ((f.readBlocks verify buffer pos size blkNumber).1,
        (f.readBlocks verify buffer pos size blkNumber).2.1,
        (f.readBlocks verify buffer pos size blkNumber).2.2, ()) := by
  fun_induction DmVerityProtectedFile.readBlocks verify f buffer pos size blkNumber with
  | case1 buffer pos size blkNumber hsize buffer' hread =>
    rw [LiveFile.readBlocks, if_pos hsize, readAndVerifyBlock_eq, hread]
  | case2 buffer pos size blkNumber hsize buffer' hread ih =>
    rw [LiveFile.readBlocks, if_pos hsize, readAndVerifyBlock_eq, hread]
    exact ih
  | case3 buffer pos size blkNumber hsize =>
    rw [LiveFile.readBlocks, if_neg hsize]

theorem readBody_eq (f : DmVerityProtectedFile file) (buffer : Bytes) (pos size blkNumber : Nat) :
    f.live.readBody (.still file verify) buffer pos size blkNumber () =
      ((f.readBody verify buffer pos size blkNumber).1,
        (f.readBody verify buffer pos size blkNumber).2.1,
        (f.readBody verify buffer pos size blkNumber).2.2.live, ()) := by
  unfold LiveFile.readBody DmVerityProtectedFile.readBody
  rw [readBlocks_eq]
  rcases f.readBlocks verify buffer pos size blkNumber with ⟨_ | _, buffer', pos', size', n'⟩
  · rfl
  · dsimp only
    split
    · exact readPartialBlock_eq f buffer' pos' n' 0 size'
    · rfl

theorem readDirectLoop_eq (f : DmVerityProtectedFile file) (buffer : Bytes)
    (pos size offset blkNumber : Nat) :
    f.live.readDirectLoop (.still file verify) buffer pos size offset blkNumber () =
      ((f.readDirectLoop verify buffer pos size offset blkNumber).1,
        (f.readDirectLoop verify buffer pos size offset blkNumber).2.1,
        (f.readDirectLoop verify buffer pos size offset blkNumber).2.2.live, ()) := by
  fun_induction DmVerityProtectedFile.readDirectLoop verify f buffer pos size offset blkNumber with
  | case1 f buffer pos size offset blkNumber hsize f' hload =>
    rw [LiveFile.readDirectLoop, if_pos hsize, loadBlock_eq, hload]
  | case2 f buffer pos size offset blkNumber hsize f' hload blkOffset blkAmount ih =>
    rw [LiveFile.readDirectLoop, if_pos hsize, loadBlock_eq, hload]
    exact ih
  | case3 f buffer pos size offset blkNumber hsize =>
    rw [LiveFile.readDirectLoop, if_neg hsize]

/-- On a file that does not change, with a verifier without a state, a read is one of
`DmVerityProtectedFile`. -/
theorem read_eq (f : DmVerityProtectedFile file) (buffer : Bytes) (size offset : Nat) :
    f.live.read (.still file verify) buffer size offset () =
      ((f.read verify buffer size offset).1, (f.read verify buffer size offset).2.1,
        (f.read verify buffer size offset).2.2.live, ()) := by
  unfold LiveFile.read DmVerityProtectedFile.read
  show (if offset ≥ f.fileSize ∨ size > f.fileSize - offset then _
    else if f.directIo then _ else _) = _
  split
  · rfl
  split
  · exact readDirectLoop_eq f buffer 0 size offset (offset / kBlockSize)
  dsimp only
  split
  · rw [readPartialBlock_eq]
    rcases f.readPartialBlock verify buffer 0 (offset / kBlockSize) (offset % kBlockSize)
      (min size (kBlockSize - offset % kBlockSize)) with ⟨_ | _, buffer', f'⟩
    · rfl
    · exact readBody_eq f' buffer' _ _ _
  · exact readBody_eq f buffer 0 size _

end LiveFile

end

end DmVerity
