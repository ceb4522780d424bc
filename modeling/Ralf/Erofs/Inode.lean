import Ralf.Core.Extraction
import Ralf.Erofs.InodeData
import Ralf.Erofs.SuperBlock

/-!
# Inodes

An `ErofsInode` reads its on-disk structure when it is made, 32 or 64 bytes, and is
valid when it has a type that is supported. Its data reader is made by the first read.
-/

namespace Erofs

/-- How the data of an inode is stored. -/
inductive DataFormat
  | flatPlain
  | compressedFull
  | flatInline
  | compressedCompact
  | chunkBased
  | invalid
  deriving DecidableEq, Repr

structure ErofsInode where
  superBlock : ErofsSuperBlock
  inodeNumber : Nat
  inodeFileOffset : Nat
  inodeReaderHints : Nat
  inodeHeaderSize : Nat := 0
  dataFormat : DataFormat := .invalid
  type : FileType := .unknown
  size : Nat := 0
  mode : Nat := 0
  uid : Nat := 0
  gid : Nat := 0
  modificationTime : Int × Int := (0, 0)
  rawBlockAddress : Nat := 0
  compressedBlocks : Nat := 0
  inodeReader : Option IErofsInodeDataReader := none
  deriving DecidableEq, Repr

namespace ErofsInode

def isValid (inode : ErofsInode) : Bool := inode.type ≠ .unknown

/-- The permission bits of the mode. -/
def permissions (inode : ErofsInode) : Nat := inode.mode &&& 0o777

/-! ## The on-disk structure -/

/-- The data format that the format field of a structure has. -/
def processDataFormat (format : Nat) : DataFormat :=
  match format / 2 % 8 with
  | 0 => .flatPlain
  | 1 => .compressedFull
  | 2 => .flatInline
  | 3 => .compressedCompact
  | 4 => .chunkBased
  | _ => .invalid

/-- The type that a mode has, if it is supported. -/
def processMode (mode : Nat) : FileType :=
  match mode &&& 0o170000 with
  | 0o040000 => .directory
  | 0o100000 => .regular
  | 0o120000 => .symlink
  | _ => .unknown

/-- What is stored of a structure once it is accepted. `data` is the block address or
the number of blocks, as the format says. -/
def processInode (inode : ErofsInode) (format mode headerSize size data uid gid : Nat)
    (modificationTime : Int × Int) : ErofsInode :=
  let dataFormat := processDataFormat format
  { inode with
    inodeHeaderSize := headerSize
    size := size
    dataFormat := dataFormat
    mode := mode
    type := processMode mode
    rawBlockAddress :=
      if dataFormat = .flatPlain ∨ dataFormat = .flatInline then
        if data = 2 ^ 31 - 1 then sizeMax else wrap64 (data * inode.superBlock.blockSize)
      else inode.rawBlockAddress
    compressedBlocks :=
      if dataFormat = .compressedFull ∨ dataFormat = .compressedCompact then data
      else inode.compressedBlocks
    uid := uid
    gid := gid
    modificationTime := modificationTime }

/-- An `ErofsInodeCompact`, of 32 bytes. -/
def processCompactInode (inode : ErofsInode) (buf : Bytes) : ErofsInode :=
  -- extended attributes are not supported
  if buf.uint 2 2 ≠ 0 then inode
  else
    inode.processInode (buf.uint 0 2) (buf.uint 4 2) 32 (buf.uint 8 4) (buf.uint 16 4)
      (buf.uint 24 2) (buf.uint 26 2) inode.superBlock.buildTime

/-- An `ErofsInodeExtended`, of 64 bytes. -/
def processExtendedInode (inode : ErofsInode) (buf : Bytes) : ErofsInode :=
  if buf.uint 2 2 ≠ 0 then inode
  else if buf.uint 8 8 ≥ sizeMax then inode
  else
    inode.processInode (buf.uint 0 2) (buf.uint 4 2) 64 (buf.uint 8 8) (buf.uint 16 4)
      (buf.uint 24 4) (buf.uint 28 4) ((buf.uint 32 8 : Int).bmod (2 ^ 64), buf.uint 40 4)

section
variable {σ : Type} (file : IErofsImageFile σ) (lz4 : Lz4)

/-- The inode with a number. It stays invalid when its structure cannot be read. -/
def new (superBlock : ErofsSuperBlock) (inodeNumber hints : Nat) (s : σ) : ErofsInode × σ :=
  let inode : ErofsInode :=
    { superBlock := superBlock
      inodeNumber := inodeNumber
      inodeFileOffset := superBlock.inodeOffset inodeNumber
      inodeReaderHints := hints }
  match file.readBytes 32 inode.inodeFileOffset s with
  | (none, s) => (inode, s)
  | (some buf, s) =>
    -- the first bit of the format tells the two structures apart
    if buf.uint 0 2 % 2 = 0 then (inode.processCompactInode buf, s)
    else
      match file.readBytes 32 (wrap64 (inode.inodeFileOffset + 32)) s with
      | (none, s) => (inode, s)
      | (some rest, s) => (inode.processExtendedInode (buf ++ rest), s)

/-! ## Reading the data -/

/-- The compressed data reader for an extent map. With a hint it looks at the first
extent. -/
def newCompressedReader (inode : ErofsInode) (extents : ErofsExtentMap) :
    Except Fault IErofsInodeDataReader :=
  if inode.inodeReaderHints ≠ 0 ∧ extents.entries = [] then .error .outOfBounds
  else
    .ok <| .compressed
      { extents := extents
        dataSize := inode.size
        blockSize := inode.superBlock.blockSize
        haveLz4ZeroPadding := inode.superBlock.hasFeature .zeroPadding }

/-- `createFull` or `createCompact`: the reader, if the extent map can be made. -/
def createCompressed (inode : ErofsInode) (map : Except Fault (Option ErofsExtentMap × σ)) :
    Except Fault (Option IErofsInodeDataReader × σ) :=
  match map with
  | .error fault => .error fault
  | .ok (none, s) => .ok (none, s)
  | .ok (some extents, s) =>
    match inode.newCompressedReader extents with
    | .error fault => .error fault
    | .ok reader => .ok (some reader, s)

/-- The data reader for the format of the inode. -/
def createReader (inode : ErofsInode) (s : σ) : Except Fault (Option IErofsInodeDataReader × σ) :=
  let tailAddress := wrap64 (inode.inodeFileOffset + inode.inodeHeaderSize)
  let blockSize := inode.superBlock.blockSize
  match inode.dataFormat with
  | .flatInline =>
    .ok (some (.flatInline (.new inode.rawBlockAddress tailAddress blockSize inode.size)), s)
  | .flatPlain => .ok (some (.flatPlain ⟨inode.rawBlockAddress, inode.size⟩), s)
  | .compressedFull =>
    inode.createCompressed
      (ErofsExtentMap.fromLegacyIndexes file tailAddress inode.compressedBlocks
        blockSize inode.size s)
  | .compressedCompact =>
    inode.createCompressed
      (ErofsExtentMap.fromCompactIndexes file tailAddress inode.compressedBlocks
        blockSize inode.size s)
  | .chunkBased | .invalid => .ok (none, s)

/-- The data reader that there is, or a new one. -/
def dataReader (inode : ErofsInode) (s : σ) : Except Fault (Option IErofsInodeDataReader × σ) :=
  match inode.inodeReader with
  | some reader => .ok (some reader, s)
  | none => inode.createReader file s

/-- Reads from an offset of the data into a buffer, as far as there is data: the number
of bytes, 0 at the end of the data, and -1 for a failure. -/
def read (inode : ErofsInode) (buf : Bytes) (offset : Nat) (s : σ) :
    Except Fault (Int × Bytes × ErofsInode × σ) :=
  if offset ≥ inode.size ∨ buf.length = 0 then .ok (0, buf, inode, s)
  else
    let size := min buf.length (inode.size - offset)
    match inode.dataReader file s with
    | .error fault => .error fault
    | .ok (none, s) => .ok (-1, buf, inode, s)
    | .ok (some reader, s) =>
      match reader.read file lz4 (buf.take size) offset s with
      | .error fault => .error fault
      | .ok (success, data, reader, s) =>
        .ok (if success then size else -1, data ++ buf.drop size,
          { inode with inodeReader := some reader }, s)

end

/-- The place in the image file of a byte of flat data. -/
def address (inode : ErofsInode) (i : Nat) : Nat :=
  let contigSize := inode.size / inode.superBlock.blockSize * inode.superBlock.blockSize
  if inode.dataFormat = .flatInline ∧ contigSize ≤ i then
    wrap64 (inode.inodeFileOffset + inode.inodeHeaderSize) + (i - contigSize)
  else inode.rawBlockAddress + i

theorem read_length {σ : Type} {file : IErofsImageFile σ} {lz4 : Lz4} {inode inode' : ErofsInode}
    {buf data : Bytes} {offset : Nat} {s s' : σ} {rd : Int}
    (h : inode.read file lz4 buf offset s = .ok (rd, data, inode', s')) : data.length =
    buf.length := by
  unfold read at h
  split at h
  · cases h
    rfl
  dsimp only at h
  split at h
  · cases h
  · cases h
    rfl
  split at h
  · cases h
  · next hread =>
    cases h
    exact length_take_append_drop _ (IErofsInodeDataReader.read_length hread)

/-- Reading makes or changes the data reader at most. -/
theorem read_same {σ : Type} {file : IErofsImageFile σ} {lz4 : Lz4} {inode inode' : ErofsInode}
    {buf data : Bytes} {offset : Nat} {s s' : σ} {rd : Int}
    (h : inode.read file lz4 buf offset s = .ok (rd, data, inode', s')) :
    inode' = { inode with inodeReader := inode'.inodeReader } := by
  unfold read at h
  split at h
  · cases h
    rfl
  dsimp only at h
  split at h
  · cases h
  · cases h
    rfl
  split at h
  · cases h
  · cases h
    rfl

theorem read_size {σ : Type} {file : IErofsImageFile σ} {lz4 : Lz4} {inode inode' : ErofsInode}
    {buf data : Bytes} {offset : Nat} {s s' : σ} {rd : Int}
    (h : inode.read file lz4 buf offset s = .ok (rd, data, inode', s')) :
    inode'.size = inode.size := by
  rw [read_same h]

end ErofsInode

end Erofs
