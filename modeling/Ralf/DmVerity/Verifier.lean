import Ralf.Lib.OrderedMap
import Ralf.DmVerity.SuperBlock

/-!
# The dm-verity verifier

`DmVerityVerifier` checks data blocks against a hash tree that is stored in a
file. `open` parses the superblock and builds one layer object for each level of
the tree; `verify` hashes a block and hands the digest to the lowest layer,
which asks the layer above about a hash block it has not verified before.

The hash function is a parameter. A read of the hashes file may give a different
answer each time it is made. `Io` is the part of the world the code changes:
the number of reads made, `errno`, and a record of every string that was hashed.
-/

namespace DmVerity

def kSha256DigestSize : Nat := 32

/-- A SHA-256 value: 32 bytes. -/
abbrev Sha256Digest := { bytes : Bytes // bytes.length = 32 }

/-- The digest a digest object holds before anything was computed. -/
def Sha256Digest.zero : Sha256Digest := ⟨List.replicate 32 0, List.length_replicate⟩

/-- What `pread` gives: the bytes it read, or an error number. -/
inductive ReadResult
  | data (bytes : Bytes)
  | error (errno : Nat)
  deriving DecidableEq, Repr

/-- An open hashes file: its size as `lseek` reports it, and the answer to a
`pread time offset size` that is made after `time` other reads. -/
structure HashesFile where
  size : Except Nat Nat
  pread : Nat → Nat → Nat → ReadResult

/-- The reads made, the last error number, and the strings hashed. -/
structure Io where
  reads : Nat
  errno : Nat
  hashed : List Bytes
  deriving DecidableEq, Repr

/-- The state in which a run begins. -/
def Io.init : Io := ⟨0, 0, []⟩

section
variable (sha256 : Bytes → Sha256Digest) (fd : HashesFile)

/-- A `pread` whose result is used only when it gives all of `size` bytes. -/
def preadFull (size offset : Nat) (io : Io) : Option Bytes × Io :=
  match fd.pread io.reads offset size with
  | .data bytes =>
    (if bytes.length = size then some bytes else none, { io with reads := io.reads + 1 })
  | .error errno => (none, { io with reads := io.reads + 1, errno := errno })

/-- The digest of the salt followed by the data. -/
def sha256Digest (data salt : Bytes) (io : Io) : Sha256Digest × Io :=
  (sha256 (salt ++ data), { io with hashed := (salt ++ data) :: io.hashed })

/-! ## Layers -/

/-- The layer of a tree whose data is a single block: the root hash itself. -/
structure SingleDataBlockLayer where
  rootHash : Sha256Digest
  deriving DecidableEq, Repr

def SingleDataBlockLayer.verifyBlock (layer : SingleDataBlockLayer) (block : Nat)
    (digest : Sha256Digest) : Bool :=
  if block ≠ 0 then false else layer.rootHash = digest

/-- The top layer: one hash block, kept in memory when it could be read. -/
structure TopMostHashTreeLayer where
  hashesCount : Nat
  hashesPerBlock : Nat
  hashBlock : Option Bytes
  digest : Sha256Digest
  deriving DecidableEq, Repr

/-- The constructor reads and hashes the block. When the read fails it returns
with a null block and a zero digest. -/
def TopMostHashTreeLayer.new (fileOffset dataBlocks hashBlockSize : Nat) (salt : Bytes) (io : Io) :
    TopMostHashTreeLayer × Io :=
  let layer : TopMostHashTreeLayer :=
    { hashesCount := dataBlocks, hashesPerBlock := hashBlockSize / kSha256DigestSize,
      hashBlock := none, digest := .zero }
  match preadFull fd hashBlockSize fileOffset io with
  | (none, io) => (layer, io)
  | (some hashBlockData, io) =>
    let (digest, io) := sha256Digest sha256 hashBlockData salt io
    ({ layer with digest := digest, hashBlock := some hashBlockData }, io)

/-- `memcmp` of a digest with slot `block % hashesPerBlock` of a hash block. -/
def slotMatches (hashesPerBlock : Nat) (hashBlock : Bytes) (block : Nat) (digest : Sha256Digest) :
    Bool :=
  hashBlock.slice (block % hashesPerBlock * kSha256DigestSize) kSha256DigestSize = digest.val

def TopMostHashTreeLayer.verifyBlock (layer : TopMostHashTreeLayer) (block : Nat)
    (digest : Sha256Digest) : Except Fault Bool :=
  if block ≥ layer.hashesCount then .ok false
  else
    match layer.hashBlock with
    | none => .error .nullPointer
    | some hashBlock => .ok (slotMatches layer.hashesPerBlock hashBlock block digest)

/-- A layer below the top, with its cache of verified hash blocks. -/
structure HashTreeLayer where
  fileOffset : Nat
  hashesCount : Nat
  hashBlockSize : Nat
  hashesPerBlock : Nat
  salt : Bytes
  verifiedHashBlocks : OrderedMap Bytes

namespace HashTreeLayer

/-- The number of hash blocks the cache holds at most. -/
def kMaxCacheBlocks : Nat := 64

def new (fileOffset dataBlocks hashBlockSize : Nat) (salt : Bytes) : HashTreeLayer where
  fileOffset := fileOffset
  hashesCount := dataBlocks
  hashBlockSize := hashBlockSize
  hashesPerBlock := hashBlockSize / kSha256DigestSize
  salt := salt
  verifiedHashBlocks := .empty

/-- The file offset of a hash block of the layer. -/
def blockOffset (layer : HashTreeLayer) (hashBlockIndex : Nat) : Nat :=
  wrap64 (layer.fileOffset + hashBlockIndex * layer.hashBlockSize)

/-- Adds a verified hash block to the cache; a full cache first drops its lowest index. -/
def store (layer : HashTreeLayer) (hashBlockIndex : Nat) (hashBlock : Bytes) : HashTreeLayer :=
  let cache :=
    if layer.verifiedHashBlocks.size ≥ kMaxCacheBlocks then layer.verifiedHashBlocks.eraseBegin
    else layer.verifiedHashBlocks
  { layer with verifiedHashBlocks := cache.emplace hashBlockIndex hashBlock }

end HashTreeLayer

/-- A layer object; every layer below the top owns the layer above it. -/
inductive IHashTreeLayer
  | singleDataBlock (layer : SingleDataBlockLayer)
  | topMost (layer : TopMostHashTreeLayer)
  | hashTree (layer : HashTreeLayer) (parent : IHashTreeLayer)

/-- Checks the digest of a block of the level below against the layer. -/
def IHashTreeLayer.verifyBlock :
    IHashTreeLayer → Nat → Sha256Digest → Io → Except Fault (Bool × IHashTreeLayer × Io)
  | .singleDataBlock layer, block, digest, io =>
    .ok (layer.verifyBlock block digest, .singleDataBlock layer, io)
  | .topMost layer, block, digest, io =>
    match layer.verifyBlock block digest with
    | .error fault => .error fault
    | .ok result => .ok (result, .topMost layer, io)
  | .hashTree layer parent, block, digest, io =>
    if block ≥ layer.hashesCount then .ok (false, .hashTree layer parent, io)
    else
      let hashBlockIndex := block / layer.hashesPerBlock
      match layer.verifiedHashBlocks.find hashBlockIndex with
      | some hashBlock =>
        .ok (slotMatches layer.hashesPerBlock hashBlock block digest, .hashTree layer parent, io)
      | none =>
        match preadFull fd layer.hashBlockSize (layer.blockOffset hashBlockIndex) io with
        | (none, io) => .ok (false, .hashTree layer parent, io)
        | (some hashBlock, io) =>
          let (hash, io) := sha256Digest sha256 hashBlock layer.salt io
          match parent.verifyBlock hashBlockIndex hash io with
          | .error fault => .error fault
          | .ok (false, parent, io) => .ok (false, .hashTree layer parent, io)
          | .ok (true, parent, io) =>
            .ok (slotMatches layer.hashesPerBlock hashBlock block digest,
              .hashTree (layer.store hashBlockIndex hashBlock) parent, io)

/-! ## Opening a hash tree -/

/-- The size of a level: its hash blocks and the blocks of the level below they cover. -/
structure LayerDetails where
  hashBlocks : Nat
  dataBlocks : Nat
  deriving DecidableEq, Repr

/-- The levels from the bottom up, until one has a single hash block. The first
argument bounds the number of levels; ten levels of 128 hashes a block are more
than a 64-bit count can need (`layerDetails_spec`). -/
def layerDetails (hashesPerBlock : Nat) : Nat → Nat → List LayerDetails
  | 0, _ => []
  | levels + 1, dataBlocks =>
    let levelHashBlocks := divRoundUp dataBlocks hashesPerBlock
    ⟨levelHashBlocks, dataBlocks⟩ ::
      if levelHashBlocks > 1 then layerDetails hashesPerBlock levels levelHashBlocks else []

def maxLevels : Nat := 10

/-- The sum of the hash blocks of all levels, in 64-bit arithmetic. -/
def totalHashBlocks (details : List LayerDetails) : Nat :=
  wrap64 (details.map (·.hashBlocks)).sum

/-- The loop that stacks the lower layers, from the top of the tree down.
`layerOffset` and `above` are the offset and the size of the previous level. -/
def stackLayers (hashBlockSize : Nat) (salt : Bytes) (layer : IHashTreeLayer) (layerOffset : Nat)
    (above : LayerDetails) : List LayerDetails → IHashTreeLayer
  | [] => layer
  | details :: rest =>
    let layerOffset := wrap64 (layerOffset + above.hashBlocks * hashBlockSize)
    stackLayers hashBlockSize salt
      (.hashTree (.new layerOffset details.dataBlocks hashBlockSize salt) layer)
      layerOffset details rest

/-- The verifier object. -/
structure DmVerityVerifier where
  rootHash : Sha256Digest := .zero
  hashesOffset : Nat := 0
  hashesSize : Nat := 0
  hashBlockSize : Nat := 0
  hashesPerBlock : Nat := 0
  dataBlockSize : Nat := 0
  dataBlockCount : Nat := 0
  salt : Bytes := []
  layer0 : Option IHashTreeLayer := none

namespace DmVerityVerifier

/-- Takes the block sizes, the block count and the salt from a superblock. -/
def configure (v : DmVerityVerifier) (superBlock : VeritySuperBlock) : Result DmVerityVerifier :=
  match checkSuperBlock superBlock with
  | .error error => .error error
  | .ok () =>
    -- The data size is limited to 512 MiB; the product is a 64-bit one.
    if superBlock.dataBlocks = 0 ∨
        wrap64 (superBlock.dataBlocks * superBlock.dataBlockSize) > 512 * 1024 * 1024 then
      .error (.ralf .dmVerityError
        s!"dm-verity has too large data block count ({superBlock.dataBlocks})")
    else
      .ok { v with
        hashBlockSize := superBlock.hashBlockSize
        dataBlockSize := superBlock.dataBlockSize
        dataBlockCount := superBlock.dataBlocks
        salt := superBlock.salt.take superBlock.saltSize
        hashesPerBlock := superBlock.hashBlockSize / kSha256DigestSize }

/-- Builds the layers of a configured verifier. -/
def buildLayers (v : DmVerityVerifier) (io : Io) : Result DmVerityVerifier × Io :=
  if v.dataBlockCount = 1 then
    (.ok { v with layer0 := some (.singleDataBlock ⟨v.rootHash⟩) }, io)
  else
    match (layerDetails v.hashesPerBlock maxLevels v.dataBlockCount).reverse with
    | [] => (.ok v, io)
    | top :: lower =>
      let total := totalHashBlocks (top :: lower)
      if wrap64 ((1 + total) * v.hashBlockSize) > v.hashesSize then
        (.error (.ralf .dmVerityError <|
          s!"Number of required hash blocks ({total}) of size {v.hashBlockSize} exceeds " ++
          s!"hashes file size ({v.hashesSize})"), io)
      else
        let layerOffset := wrap64 (v.hashesOffset + v.hashBlockSize)
        match TopMostHashTreeLayer.new sha256 fd layerOffset top.dataBlocks
          v.hashBlockSize v.salt io
          with
        | (topLayer, io) =>
          if topLayer.digest ≠ v.rootHash then
            (.error (.ralf .dmVerityError "dm-verity root hash doesn't match"), io)
          else
            (.ok { v with
              layer0 := some (stackLayers v.hashBlockSize v.salt (.topMost topLayer) layerOffset top
                lower) }, io)

/-- Reads the superblock at the hashes offset and builds the tree it describes. -/
def parseDmVeritySuperBlock (v : DmVerityVerifier) (io : Io) : Result DmVerityVerifier × Io :=
  match preadFull fd 4096 v.hashesOffset io with
  | (none, io) => (.error (.system io.errno "Failed to read superblock"), io)
  | (some superBlockBuf, io) =>
    match v.configure (.ofBytes superBlockBuf) with
    | .error error => (.error error, io)
    | .ok v => v.buildLayers sha256 fd io

/-- Opens a hash tree on a file, at an optional offset and with an optional size. -/
def «open» (rootHash : Bytes) (hashesOffset hashesSize : Option Nat) (io : Io) :
    Result DmVerityVerifier × Io :=
  if hroot : rootHash.length = kSha256DigestSize then
    match fd.size with
    | .error errno => (.error (.system errno "Failed to get size of hashes file"), io)
    | .ok fileSize =>
      let offset := hashesOffset.getD 0
      if offset > fileSize then
        (.error (.ralf .dmVerityError <|
          s!"Hashes offset is outside of the file size (offset {offset}, size {fileSize})"), io)
      else
        let size := hashesSize.getD (fileSize - offset)
        if size > fileSize - offset then
          (.error (.ralf .dmVerityError <|
            s!"Supplied hashes range is outside of the file size (offset {offset}, size {size}, " ++
            s!"actual size {fileSize})"), io)
        else
          parseDmVeritySuperBlock sha256 fd
            { rootHash := ⟨rootHash, hroot⟩, hashesOffset := offset, hashesSize := size } io
  else
    (.error (.ralf .dmVerityError s!"Invalid root hash size ({rootHash.length})"), io)

/-- Verifies the block `data` (of `dataBlockSize` bytes) as block number `block`. -/
def verify (v : DmVerityVerifier) (block : Nat) (data : Bytes) (io : Io) :
    Except Fault (Bool × DmVerityVerifier × Io) :=
  match v.layer0 with
  | none => .ok (false, v, io)
  | some layer0 =>
    if block ≥ v.dataBlockCount then .ok (false, v, io)
    else
      let (digest, io) := sha256Digest sha256 data v.salt io
      match layer0.verifyBlock sha256 fd block digest io with
      | .error fault => .error fault
      | .ok (result, layer0, io) => .ok (result, { v with layer0 := some layer0 }, io)

/-- A history of `verify` calls, with the results they return. -/
def verifyAll (v : DmVerityVerifier) (io : Io) :
    List (Nat × Bytes) → Except Fault (List Bool × DmVerityVerifier × Io)
  | [] => .ok ([], v, io)
  | (block, data) :: history =>
    match v.verify sha256 fd block data io with
    | .error fault => .error fault
    | .ok (result, v, io) =>
      match v.verifyAll io history with
      | .error fault => .error fault
      | .ok (results, v, io) => .ok (result :: results, v, io)

end DmVerityVerifier

end

end DmVerity
