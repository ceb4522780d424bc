import Ralf.Erofs.ImageFile
import Ralf.Lib.Intervals

/-!
# The extent map of a compressed inode

A compressed inode is stored in blocks of one size, and each of them holds an
extent of the uncompressed data. `ErofsExtentMap` has one entry for every
compressed block. Its entries are added from the logical cluster indexes of the
inode, which the image stores either as an array (`fromLegacyIndexes`) or packed
in groups of 8 or 32 bytes (`fromCompactIndexes`). Only head clusters make an
extent, and the size of an extent is known when the next one is added.

An access outside the entries is the fault `outOfBounds`, and one behind the end
of the packed indexes is `overread`.
-/

namespace Erofs

open Intervals

/-- The type of a logical cluster. -/
inductive ErofsLclusterType
  | plain
  | head1
  | nonHead
  | head2
  deriving DecidableEq, Repr

/-- The cluster type that two bits encode. -/
def ErofsLclusterType.ofBits (bits : Nat) : ErofsLclusterType :=
  match bits % 4 with
  | 0 => .plain
  | 1 => .head1
  | 2 => .nonHead
  | _ => .head2

/-- How the block of an extent is compressed. -/
inductive Compression
  | none
  | lz4
  | lzma
  | zip
  | zstd
  | invalid
  deriving DecidableEq, Repr

structure Extent where
  compression : Compression
  uncomprOffset : Nat
  uncomprSize : Nat
  comprBlockAddr : Nat
  deriving DecidableEq, Repr

/-- An extent as the vector's constructor makes it. -/
def Extent.init : Extent := ⟨.none, 0, 0, 0⟩

structure ErofsExtentMap where
  blockSize : Nat
  uncomprSize : Nat
  comprAlgos : Compression × Compression
  entries : List Extent
  lastAddedIndex : Nat := sizeMax
  deriving DecidableEq, Repr

/-- `kMaxUncompressedSize`: 512 MiB. -/
def kMaxUncompressedSize : Nat := 512 * 1024 * 1024

/-- The compression of an algorithm number; only LZ4 is supported. -/
def convertComprAlgo (algo : Nat) : Compression := if algo = 0 then .lz4 else .invalid

namespace ErofsExtentMap

/-- The map with `comprBlocks` entries, none of them added. -/
def new (uncomprSize comprBlocks comprBlockSize comprAlgo0 comprAlgo1 : Nat) : ErofsExtentMap :=
  { blockSize := comprBlockSize
    uncomprSize := uncomprSize
    comprAlgos := (convertComprAlgo comprAlgo0, convertComprAlgo comprAlgo1)
    entries := List.replicate comprBlocks Extent.init }

/-! ## Searching -/

/-- The position of the extent that holds an uncompressed offset, found by binary
search for the first extent that does not end before it. -/
def find (map : ErofsExtentMap) (offset : Nat) : Except Fault Nat :=
  let it := lowerBound
    (fun entry : Extent => wrapSub64 (wrap64 (entry.uncomprOffset + entry.uncomprSize)) 1 < offset)
    map.entries
  match map.entries[it]? with
  | some entry =>
    if entry.uncomprOffset > offset then
      -- `it - 1` is before the first entry when `it` is the first entry
      if it = 0 then .error .outOfBounds else .ok (it - 1)
    else .ok it
  | none => .ok it

/-! ## Adding extents -/

/-- Changes the entry at `index`. -/
def modifyEntry (map : ErofsExtentMap) (index : Nat) (f : Extent → Extent) :
    Attempt ErofsExtentMap :=
  match map.entries[index]? with
  | some entry => .ok (some { map with entries := map.entries.set index (f entry) })
  | none => .error .outOfBounds

/-- The compression of a head cluster, if its type has one. -/
def headCompression (map : ErofsExtentMap) : ErofsLclusterType → Option Compression
  | .plain => some .none
  | .head1 => some map.comprAlgos.1
  | .head2 => if map.comprAlgos.2 = .invalid then none else some map.comprAlgos.2
  | .nonHead => none

/-- Makes the entry at `lastAddedIndex` the extent of a cluster. Its size is set
when it is the last entry of the map. -/
def fillEntry (map : ErofsExtentMap) (type : ErofsLclusterType) (uncomprOffset blockAddr : Nat) :
    Attempt ErofsExtentMap :=
  match map.headCompression type with
  | none => .ok none
  | some compression =>
    map.modifyEntry map.lastAddedIndex fun _ =>
      { compression := compression
        uncomprOffset := uncomprOffset
        uncomprSize :=
          if map.lastAddedIndex = wrapSub64 map.entries.length 1 then
            wrapSub64 map.uncomprSize uncomprOffset
          else 0
        comprBlockAddr := wrap64 (blockAddr * map.blockSize) }

/-- Adds the extent of a head cluster. A cluster at the end of the data is
ignored, whether or not the map is full. -/
def add (map : ErofsExtentMap) (type : ErofsLclusterType) (uncomprOffset blockAddr : Nat) :
    Attempt ErofsExtentMap :=
  if uncomprOffset > map.uncomprSize then .ok none
  else if uncomprOffset = map.uncomprSize then .ok (some map)
  else if map.lastAddedIndex = sizeMax then
    fillEntry { map with lastAddedIndex := 0 } type uncomprOffset blockAddr
  else if map.lastAddedIndex ≥ wrapSub64 map.entries.length 1 then .ok none
  else
    (map.modifyEntry map.lastAddedIndex fun entry =>
      { entry with uncomprSize := wrapSub64 uncomprOffset entry.uncomprOffset }).andThen fun map =>
        fillEntry { map with lastAddedIndex := map.lastAddedIndex + 1 } type uncomprOffset blockAddr

/-- The end of a build: the map, if it is filled. -/
def finishMap {σ : Type} (compressedBlocks : Nat) (s : σ) (built : Attempt ErofsExtentMap) :
    Except Fault (Option ErofsExtentMap × σ) :=
  match built with
  | .error fault => .error fault
  | .ok none => .ok (none, s)
  | .ok (some map) =>
    if map.lastAddedIndex ≠ wrapSub64 compressedBlocks 1 then .ok (none, s)
    else .ok (some map, s)

/-! ## The map header -/

/-- The `ErofsZMapHeader` fields in use. -/
structure ErofsZMapHeader where
  advise : Nat
  algorithmType : Nat
  clusterBits : Nat

def ErofsZMapHeader.ofBytes (data : Bytes) : ErofsZMapHeader :=
  { advise := data.uint 4 2, algorithmType := data.uint 6 1, clusterBits := data.uint 7 1 }

def ErofsZMapHeader.algo1 (header : ErofsZMapHeader) : Nat := header.algorithmType % 16

def ErofsZMapHeader.algo2 (header : ErofsZMapHeader) : Nat := header.algorithmType / 16 % 16

/-- The size of a logical cluster. -/
def ErofsZMapHeader.clusterSize (header : ErofsZMapHeader) (blockSize : Nat) : Nat :=
  wrap64 (blockSize * 2 ^ (header.clusterBits % 8))

variable {σ : Type} (file : IErofsImageFile σ)

/-! ## Legacy indexes -/

/-- An `ErofsLclusterIndex`. -/
structure ErofsLclusterIndex where
  advise : Nat
  clusterOffset : Nat
  blkAddr : Nat
  deriving DecidableEq, Repr

def ErofsLclusterIndex.ofBytes (data : Bytes) : ErofsLclusterIndex :=
  { advise := data.uint 0 2, clusterOffset := data.uint 2 2, blkAddr := data.uint 4 4 }

/-- The map header and the cluster indexes of an inode, as the file gives them. -/
structure LegacyIndexes where
  header : ErofsZMapHeader
  clusterIndexes : List ErofsLclusterIndex

/-- The checks that `fromLegacyIndexes` makes, and what it reads from the file. -/
def readLegacyIndexes (extentsOffset compressedBlocks blockSize uncompressedSize : Nat) (s : σ) :
    Except Fault (Option LegacyIndexes × σ) :=
  if blockSize = 0 then .error .divideByZero
  else if compressedBlocks > file.size / blockSize ∨ uncompressedSize > kMaxUncompressedSize then
    .ok (none, s)
  else if extentsOffset % 4 ≠ 0 then .ok (none, s)
  else
    match file.readBytes 8 extentsOffset s with
    | (none, s) => .ok (none, s)
    | (some data, s) =>
      let header := ErofsZMapHeader.ofBytes data
      if header.algo1 ≠ 0 ∨ header.algo2 ≠ 0 then .ok (none, s)
      else
        let clusterSize := header.clusterSize blockSize
        if clusterSize = 0 then .error .divideByZero
        else
          let logicalClusters := divRoundUp uncompressedSize clusterSize
          match file.readBytes (logicalClusters * 8) (wrap64 (extentsOffset + 16)) s with
          | (none, s) => .ok (none, s)
          | (some data, s) =>
            .ok (some ⟨header, (List.range logicalClusters).map fun i =>
              .ofBytes (data.slice (i * 8) 8)⟩, s)

/-- The loop over the cluster indexes: every head cluster is added. -/
def addLegacyIndexes (clusterSize : Nat) : Nat → List ErofsLclusterIndex → ErofsExtentMap →
    Attempt ErofsExtentMap
  | _, [], map => .ok (some map)
  | logicalClusterNum, cluster :: rest, map =>
    let type := ErofsLclusterType.ofBits cluster.advise
    if type = .nonHead then addLegacyIndexes clusterSize (logicalClusterNum + 1) rest map
    else
      -- the cluster offset is not checked against the cluster size
      (map.add type (wrap64 (logicalClusterNum * clusterSize) ||| cluster.clusterOffset)
        cluster.blkAddr).andThen (addLegacyIndexes clusterSize (logicalClusterNum + 1) rest)

def fromLegacyIndexes (extentsOffset compressedBlocks blockSize uncompressedSize : Nat) (s : σ) :
    Except Fault (Option ErofsExtentMap × σ) :=
  match readLegacyIndexes file extentsOffset compressedBlocks blockSize uncompressedSize s with
  | .error fault => .error fault
  | .ok (none, s) => .ok (none, s)
  | .ok (some indexes, s) =>
    let map := new uncompressedSize compressedBlocks blockSize indexes.header.algo1
      indexes.header.algo2
    finishMap compressedBlocks s
      (addLegacyIndexes (indexes.header.clusterSize blockSize) 0 indexes.clusterIndexes map)

/-! ## Compacted indexes -/

/-- The packed indexes of an inode: the number of 4-byte entries before and after
the 2-byte entries, and the bytes they are stored in. -/
structure CompactIndexes where
  header : ErofsZMapHeader
  compacted4bInitial : Nat
  compacted2b : Nat
  compacted4bEnd : Nat
  indexes : Bytes

/-- The numbers of 4-byte entries at the start, 2-byte entries, and 4-byte entries
at the end. The 2-byte entries start at a multiple of 32. -/
def compactedCounts (twoBytes : Bool) (indexesOffset logicalClusters : Nat) : Nat × Nat × Nat :=
  if twoBytes then
    let compacted4bInitial := (32 - indexesOffset % 32) / 4
    let compacted4bInitial := if compacted4bInitial = 32 / 4 then 0 else compacted4bInitial
    if compacted4bInitial > logicalClusters then (0, 0, logicalClusters)
    else
      let compacted2b := (logicalClusters - compacted4bInitial) / 16 * 16
      (compacted4bInitial, compacted2b, logicalClusters - compacted4bInitial - compacted2b)
  else (0, 0, logicalClusters)

/-- The checks that `fromCompactIndexes` makes, and what it reads from the file. -/
def readCompactIndexes (extentsOffset compressedBlocks blockSize uncompressedSize : Nat) (s : σ) :
    Except Fault (Option CompactIndexes × σ) :=
  if blockSize = 0 then .error .divideByZero
  else if blockSize ≠ 4096 then .ok (none, s)
  else if compressedBlocks > file.size / blockSize ∨ uncompressedSize > kMaxUncompressedSize then
    .ok (none, s)
  else if extentsOffset % 4 ≠ 0 then .ok (none, s)
  else
    match file.readBytes 8 extentsOffset s with
    | (none, s) => .ok (none, s)
    | (some data, s) =>
      let header := ErofsZMapHeader.ofBytes data
      if header.algo1 ≠ 0 ∨ header.algo2 ≠ 0 then .ok (none, s)
      -- only the advise bit `Compacted2b` is supported
      else if header.advise / 2 ≠ 0 then .ok (none, s)
      else
        let clusterSize := header.clusterSize blockSize
        let logicalClusters := divRoundUp uncompressedSize clusterSize
        let indexesOffset := wrap64 (extentsOffset + 8)
        if header.advise % 2 = 1 ∧ clusterSize ≠ 4096 then .ok (none, s)
        else
          let (compacted4bInitial, compacted2b, compacted4bEnd) :=
            compactedCounts (header.advise % 2 = 1) indexesOffset logicalClusters
          let indexesSize :=
            compacted4bInitial * 4 + compacted2b * 2 + (compacted4bEnd + 1) / 2 * 2 * 4
          match file.readBytes indexesSize indexesOffset s with
          | (none, s) => .ok (none, s)
          | (some indexes, s) =>
            .ok (some ⟨header, compacted4bInitial, compacted2b, compacted4bEnd, indexes⟩, s)

/-- The loop over the entries of one group. The block address goes up with every
head cluster, in 32 bits. -/
def addEntries (clusterSize : Nat) : Nat → Nat → List Nat → ErofsExtentMap →
    Attempt ErofsExtentMap
  | _, _, [], map => .ok (some map)
  | clusterIndex, blkaddr, entry :: rest, map =>
    let type := ErofsLclusterType.ofBits (entry / 2 ^ 12)
    if type = .nonHead then addEntries clusterSize (clusterIndex + 1) blkaddr rest map
    else
      (map.add type (wrap64 (clusterIndex * clusterSize) ||| (entry &&& (clusterSize - 1)))
        blkaddr).andThen (addEntries clusterSize (clusterIndex + 1) ((blkaddr + 1) % 2 ^ 32) rest)

/-- A group of packed entries: how many it has, how many bytes it takes, where
entry `i` is, and where the address of the compressed block before it is. -/
structure Pack where
  count : Nat
  width : Nat
  entry : Bytes → Nat → Nat
  blkaddrOffset : Nat

/-- `processCompact4BIndexes`: two 16-bit entries and a block address. -/
def compact4BIndexes : Pack := ⟨2, 8, fun data i => data.uint (i * 2) 2, 4⟩

/-- `processSingleCompact4BIndex`: only the first entry of two. -/
def singleCompact4BIndex : Pack := ⟨1, 8, fun data i => data.uint (i * 2) 2, 4⟩

/-- `processCompact2BIndexes`: sixteen 14-bit entries and a block address. -/
def compact2BIndexes : Pack :=
  ⟨16, 32, fun data i => data.uint (i * 14 / 8) 4 / 2 ^ (i * 14 % 8) % 2 ^ 14, 28⟩

/-- The entries of a group. -/
def Pack.entries (pack : Pack) (data : Bytes) : List Nat :=
  (List.range pack.count).map (pack.entry data)

/-- The address of the first block of a group. -/
def Pack.blkaddr (pack : Pack) (data : Bytes) : Nat :=
  (data.uint pack.blkaddrOffset 4 + 1) % 2 ^ 32

/-- The state of the loops over the groups. -/
structure PackPosition where
  map : ErofsExtentMap
  dataOffset : Nat
  clusterIndex : Nat

/-- Adds the head clusters of the group at the position. -/
def processIndexes (pack : Pack) (indexes : Bytes) (clusterSize : Nat) (position : PackPosition) :
    Attempt ErofsExtentMap :=
  if position.dataOffset + pack.width ≤ indexes.length then
    let data := indexes.slice position.dataOffset pack.width
    addEntries clusterSize position.clusterIndex (pack.blkaddr data)
      (pack.entries data) position.map
  else .error .overread

/-- `while (remaining > limit)`, a loop over the groups of one kind. The counter
is a 32-bit number, and wraps when the entries do not fill the last group: the
loop then leaves the packed indexes. -/
def processLoop (pack : Pack) (indexes : Bytes) (clusterSize limit remaining : Nat)
    (position : PackPosition) : Attempt (Nat × PackPosition) :=
  if remaining > limit then
    if _h : 0 < pack.width ∧ position.dataOffset + pack.width ≤ indexes.length then
      (processIndexes pack indexes clusterSize position).andThen fun map =>
        processLoop pack indexes clusterSize limit ((remaining + (2 ^ 32 - pack.count)) % 2 ^ 32)
          { map := map
            dataOffset := position.dataOffset + pack.width
            clusterIndex := (position.clusterIndex + pack.count) % 2 ^ 32 }
    else .error .overread
  else .ok (some (remaining, position))
  termination_by indexes.length - position.dataOffset

/-- The loops over the packed indexes. -/
def addCompactIndexes (blockSize : Nat) (table : CompactIndexes) (map : ErofsExtentMap) :
    Attempt ErofsExtentMap :=
  let clusterSize := table.header.clusterSize blockSize
  let loop (pack : Pack) := processLoop pack table.indexes clusterSize
  (loop compact4BIndexes 0 table.compacted4bInitial ⟨map, 0, 0⟩).andThen fun (_, position) =>
  (loop compact2BIndexes 0 table.compacted2b position).andThen fun (_, position) =>
  (loop compact4BIndexes 1 table.compacted4bEnd position).andThen fun (compacted4bEnd, position) =>
  if compacted4bEnd > 0 then processIndexes singleCompact4BIndex table.indexes clusterSize position
  else .ok (some position.map)

def fromCompactIndexes (extentsOffset compressedBlocks blockSize uncompressedSize : Nat) (s : σ) :
    Except Fault (Option ErofsExtentMap × σ) :=
  match readCompactIndexes file extentsOffset compressedBlocks blockSize uncompressedSize s with
  | .error fault => .error fault
  | .ok (none, s) => .ok (none, s)
  | .ok (some table, s) =>
    let map := new uncompressedSize compressedBlocks blockSize table.header.algo1
      table.header.algo2
    finishMap compressedBlocks s (addCompactIndexes blockSize table map)

end ErofsExtentMap

end Erofs
