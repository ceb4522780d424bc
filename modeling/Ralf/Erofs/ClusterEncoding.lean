import Ralf.Erofs.HeadExtents
import Ralf.Lib.PackedBits

/-!
# The two encodings of a list of logical clusters

A list of logical clusters can be stored as an array of records (`legacyTable`) or
as packed entries (`compactTable`). An entry has the type of the cluster in the two
bits above the offset, and a pack of entries ends with the address of the block
before its first head. The heads are on consecutive blocks in both.

What the parsers read of a table is stated on the clusters: `extents` is what the
heads of a list make of the map, with the types that some reader sees.
-/

namespace Erofs

/-- The two bits that encode a cluster type. -/
def ErofsLclusterType.bits : ErofsLclusterType → Nat
  | .plain => 0
  | .head1 => 1
  | .nonHead => 2
  | .head2 => 3

theorem ErofsLclusterType.bits_lt (type : ErofsLclusterType) : type.bits < 4 := by
  cases type <;> decide

@[simp] theorem ErofsLclusterType.ofBits_bits (type : ErofsLclusterType) :
    ofBits type.bits = type := by
  cases type <;> rfl

namespace ErofsExtentMap

/-! ## Logical clusters -/

/-- The number of low bits of an entry, below the type. -/
def offsetBits (clusterSize : Nat) : Nat := max 12 (Nat.log2 clusterSize)

/-- The low bits of an entry: the distance to the head for a cluster that is none. -/
def lowBits (type : ErofsLclusterType) (clusterOffset delta : Nat) : Nat :=
  if type = .nonHead then delta else clusterOffset

/-- The entry of a cluster. -/
def entryOf (clusterSize : Nat) (type : ErofsLclusterType) (clusterOffset delta : Nat) : Nat :=
  type.bits * 2 ^ offsetBits clusterSize + lowBits type clusterOffset delta

/-- A logical cluster that has an entry of 16 bits. -/
structure LogicalCluster (clusterSize : Nat) where
  type : ErofsLclusterType
  clusterOffset : Nat
  delta : Nat
  low_lt : lowBits type clusterOffset delta < 2 ^ offsetBits clusterSize
  entry_lt : entryOf clusterSize type clusterOffset delta < 2 ^ 16

variable {clusterSize : Nat}

namespace LogicalCluster

def low (cluster : LogicalCluster clusterSize) : Nat :=
  lowBits cluster.type cluster.clusterOffset cluster.delta

def entry (cluster : LogicalCluster clusterSize) : Nat :=
  entryOf clusterSize cluster.type cluster.clusterOffset cluster.delta

/-- The cluster type at bits 12 and 13 of the entry. -/
def readType (cluster : LogicalCluster clusterSize) : ErofsLclusterType :=
  .ofBits (cluster.entry / 2 ^ 12)

theorem low_of_head {cluster : LogicalCluster clusterSize} (h : cluster.type ≠ .nonHead) :
    cluster.low = cluster.clusterOffset := if_neg h

/-- The number of blocks of a cluster. -/
def blocks (cluster : LogicalCluster clusterSize) : Nat :=
  if cluster.type = .nonHead then 0 else 1

end LogicalCluster

/-- The number of blocks of a list of clusters. -/
def blockCount (clusters : List (LogicalCluster clusterSize)) : Nat :=
  (clusters.map LogicalCluster.blocks).sum

theorem blockCount_append (clusters clusters' : List (LogicalCluster clusterSize)) :
    blockCount (clusters ++ clusters') = blockCount clusters + blockCount clusters' := by
  simp [blockCount]

/-! ## The encodings -/

/-- The record of a cluster whose block, if it has one, is at `blockAddr`. -/
def legacyRecord (blockAddr : Nat) (cluster : LogicalCluster clusterSize) : Bytes :=
  Bytes.leBytes 2 cluster.type.bits ++ Bytes.leBytes 2 cluster.clusterOffset ++
    Bytes.leBytes 4 (if cluster.type = .nonHead then cluster.delta else blockAddr)

/-- The records of a list of clusters. -/
def legacyTable : Nat → List (LogicalCluster clusterSize) → Bytes
  | _, [] => []
  | blockAddr, cluster :: rest =>
    legacyRecord blockAddr cluster ++ legacyTable (blockAddr + cluster.blocks) rest

/-- How many entries a pack has, and of how many bits each. -/
structure PackFormat where
  count : Nat
  bits : Nat

/-- The bytes of the entries. -/
def PackFormat.entryBytes (format : PackFormat) : Nat := format.count * format.bits / 8

def PackFormat.width (format : PackFormat) : Nat := format.entryBytes + 4

/-- Packs of 4 bytes a cluster. -/
def pack4B : PackFormat := ⟨2, 16⟩

/-- Packs of 2 bytes a cluster. -/
def pack2B : PackFormat := ⟨16, 14⟩

/-- A pack of clusters: their entries, and the address of the block before the first. -/
def packBytes (format : PackFormat) (blockAddr : Nat)
    (clusters : List (LogicalCluster clusterSize)) : Bytes :=
  Bytes.packWords format.entryBytes format.bits (clusters.map LogicalCluster.entry) ++
    Bytes.leBytes 4 (blockAddr + (2 ^ 32 - 1))

/-- A number of packs, the last one filled up with zeros. -/
def packs (format : PackFormat) : Nat → Nat → List (LogicalCluster clusterSize) → Bytes
  | 0, _, _ => []
  | n + 1, blockAddr, clusters =>
    packBytes format blockAddr (clusters.take format.count) ++
      packs format n (blockAddr + blockCount (clusters.take format.count))
        (clusters.drop format.count)

/-- The numbers of clusters in the 4-byte packs at the start and in the 2-byte packs. The
2-byte packs start at a multiple of 32. -/
def compactLayout (twoBytes : Bool) (indexesOffset logicalClusters : Nat) : Nat × Nat :=
  let initial := (32 - indexesOffset % 32) % 32 / 4
  if twoBytes ∧ initial ≤ logicalClusters then (initial, (logicalClusters - initial) / 16 * 16)
  else (0, 0)

/-- The packs of a list of clusters: 4-byte packs at both ends. -/
def compactTable (twoBytes : Bool) (indexesOffset blockAddr : Nat)
    (clusters : List (LogicalCluster clusterSize)) : Bytes :=
  let (initial, middle) := compactLayout twoBytes indexesOffset clusters.length
  let rest := clusters.drop initial
  let blockAddr₁ := blockAddr + blockCount (clusters.take initial)
  let blockAddr₂ := blockAddr₁ + blockCount (rest.take middle)
  packs pack4B (initial / 2) blockAddr (clusters.take initial) ++
    (packs pack2B (middle / 16) blockAddr₁ (rest.take middle) ++
      packs pack4B ((rest.length - middle + 1) / 2) blockAddr₂ (rest.drop middle))

/-! ## What the heads make of a map -/

/-- The uncompressed offset of a head in cluster `num`. -/
def LogicalCluster.offsetAt (num : Nat) (cluster : LogicalCluster clusterSize) : Nat :=
  wrap64 (num * clusterSize) ||| cluster.low

/-- What the heads of a list add, from cluster `num` on, for a reader that sees the
types `typeOf` and counts the blocks from `blockAddr`. -/
def extents (typeOf : LogicalCluster clusterSize → ErofsLclusterType) :
    Nat → Nat → List (LogicalCluster clusterSize) → List (Option Compression × Nat × Nat)
  | _, _, [] => []
  | num, blockAddr, cluster :: rest =>
    if typeOf cluster = .nonHead then extents typeOf (num + 1) blockAddr rest
    else
      (extentCompression (typeOf cluster), cluster.offsetAt num, blockAddr % 2 ^ 32) ::
        extents typeOf (num + 1) (blockAddr + 1) rest

theorem extents_cons (typeOf : LogicalCluster clusterSize → ErofsLclusterType)
    (num blockAddr : Nat) (cluster : LogicalCluster clusterSize)
    (rest : List (LogicalCluster clusterSize)) :
    extents typeOf num blockAddr (cluster :: rest) =
      if typeOf cluster = .nonHead then extents typeOf (num + 1) blockAddr rest
      else (extentCompression (typeOf cluster), cluster.offsetAt num, blockAddr % 2 ^ 32) ::
        extents typeOf (num + 1) (blockAddr + 1) rest := rfl

/-- The heads of two lists, one after the other. -/
theorem extents_append (num blockAddr : Nat)
    (clusters clusters' : List (LogicalCluster clusterSize)) :
    extents LogicalCluster.type num blockAddr (clusters ++ clusters') =
      extents LogicalCluster.type num blockAddr clusters ++
        extents LogicalCluster.type (num + clusters.length)
          (blockAddr + blockCount clusters) clusters' := by
  induction clusters generalizing num blockAddr with
  | nil => rfl
  | cons cluster rest ih =>
    have hnum : num + (cluster :: rest).length = num + 1 + rest.length := by
      rw [List.length_cons]
      omega
    have haddr : blockAddr + blockCount (cluster :: rest) =
        blockAddr + cluster.blocks + blockCount rest :=
      (Nat.add_assoc _ _ _).symm
    rw [List.cons_append, extents_cons, extents_cons, hnum, haddr]
    by_cases h : cluster.type = .nonHead
    · have hblocks : cluster.blocks = 0 := if_pos h
      rw [if_pos h, if_pos h, ih, hblocks, Nat.add_zero blockAddr]
    · have hblocks : cluster.blocks = 1 := if_neg h
      rw [if_neg h, if_neg h, ih, hblocks, List.cons_append]

/-- Readers that see the same kinds of clusters add the same. -/
theorem extents_congr {typeOf typeOf' : LogicalCluster clusterSize → ErofsLclusterType}
    {clusters : List (LogicalCluster clusterSize)}
    (h : ∀ cluster ∈ clusters,
      extentCompression (typeOf cluster) = extentCompression (typeOf' cluster))
    (num blockAddr : Nat) :
    extents typeOf num blockAddr clusters = extents typeOf' num blockAddr clusters := by
  induction clusters generalizing num blockAddr with
  | nil => rfl
  | cons cluster rest ih =>
    obtain ⟨hcluster, hrest⟩ := List.forall_mem_cons.mp h
    have hhead : typeOf cluster = .nonHead ↔ typeOf' cluster = .nonHead := by
      rw [← extentCompression_eq_none_iff, ← extentCompression_eq_none_iff, hcluster]
    rw [extents_cons, extents_cons, hcluster, ih hrest, ih hrest]
    by_cases hnone : typeOf' cluster = .nonHead
    · rw [if_pos (hhead.mpr hnone), if_pos hnone]
    · rw [if_neg (fun h => hnone (hhead.mp h)), if_neg hnone]

/-- Without the addresses it does not matter where a reader counts from. -/
theorem extents_map_mark (typeOf : LogicalCluster clusterSize → ErofsLclusterType)
    (num blockAddr blockAddr' : Nat) (clusters : List (LogicalCluster clusterSize)) :
    (extents typeOf num blockAddr clusters).map mark =
      (extents typeOf num blockAddr' clusters).map mark := by
  induction clusters generalizing num blockAddr blockAddr' with
  | nil => rfl
  | cons cluster rest ih =>
    rw [extents_cons, extents_cons]
    by_cases h : typeOf cluster = .nonHead
    · rw [if_pos h, if_pos h, ih]
    · rw [if_neg h, if_neg h, List.map_cons, List.map_cons, ih (num + 1) _ (blockAddr' + 1)]
      rfl

/-- The compressions and the offsets of the heads that a reader sees. -/
def marks (typeOf : LogicalCluster clusterSize → ErofsLclusterType) (num : Nat)
    (clusters : List (LogicalCluster clusterSize)) : List (Option Compression × Nat) :=
  (extents typeOf num 0 clusters).map mark

theorem marks_cons (typeOf : LogicalCluster clusterSize → ErofsLclusterType) (num : Nat)
    (cluster : LogicalCluster clusterSize) (rest : List (LogicalCluster clusterSize)) :
    marks typeOf num (cluster :: rest) =
      if typeOf cluster = .nonHead then marks typeOf (num + 1) rest
      else (extentCompression (typeOf cluster), cluster.offsetAt num) ::
        marks typeOf (num + 1) rest := by
  unfold marks
  rw [extents_cons]
  by_cases h : typeOf cluster = .nonHead
  · rw [if_pos h, if_pos h]
  · rw [if_neg h, if_neg h, List.map_cons, extents_map_mark _ _ _ 0]
    rfl

theorem marks_append (typeOf : LogicalCluster clusterSize → ErofsLclusterType) (num : Nat)
    (clusters clusters' : List (LogicalCluster clusterSize)) :
    marks typeOf num (clusters ++ clusters') =
      marks typeOf num clusters ++ marks typeOf (num + clusters.length) clusters' := by
  induction clusters generalizing num with
  | nil => rfl
  | cons cluster rest ih =>
    have hnum : num + (cluster :: rest).length = num + 1 + rest.length := by
      rw [List.length_cons]
      omega
    rw [List.cons_append, marks_cons, marks_cons, ih, hnum]
    by_cases h : typeOf cluster = .nonHead
    · rw [if_pos h, if_pos h]
    · rw [if_neg h, if_neg h, List.cons_append]

/-! ## Reading the records -/

theorem legacyRecord_length (blockAddr : Nat) (cluster : LogicalCluster clusterSize) :
    (legacyRecord blockAddr cluster).length = 8 := by
  simp [legacyRecord]

theorem legacyTable_length (blockAddr : Nat) (clusters : List (LogicalCluster clusterSize)) :
    (legacyTable blockAddr clusters).length = clusters.length * 8 := by
  induction clusters generalizing blockAddr with
  | nil => rfl
  | cons cluster rest ih =>
    rw [legacyTable, List.length_append, legacyRecord_length, ih, List.length_cons]
    omega

/-- The index that a record holds. -/
def legacyIndex (blockAddr : Nat) (cluster : LogicalCluster clusterSize) : ErofsLclusterIndex :=
  .ofBytes (legacyRecord blockAddr cluster)

theorem legacyIndex_type (blockAddr : Nat) (cluster : LogicalCluster clusterSize) :
    ErofsLclusterType.ofBits (legacyIndex blockAddr cluster).advise = cluster.type := by
  have hadvise : (legacyIndex blockAddr cluster).advise = cluster.type.bits := by
    show Bytes.le ((legacyRecord blockAddr cluster).slice 0 2) = _
    unfold legacyRecord
    rw [List.append_assoc, Bytes.slice_append_eq (Bytes.leBytes_length _ _),
      Bytes.le_leBytes (Nat.lt_trans cluster.type.bits_lt (by decide))]
  rw [hadvise, ErofsLclusterType.ofBits_bits]

theorem legacyIndex_clusterOffset {cluster : LogicalCluster clusterSize} (blockAddr : Nat)
    (h : cluster.type ≠ .nonHead) :
    (legacyIndex blockAddr cluster).clusterOffset = cluster.low := by
  have hlow : cluster.low ≤ cluster.entry := Nat.le_add_left _ _
  show Bytes.le ((legacyRecord blockAddr cluster).slice 2 2) = _
  unfold legacyRecord
  rw [List.append_assoc, Bytes.slice_append_of_le (by simp), Bytes.leBytes_length,
    Bytes.slice_append_eq (Bytes.leBytes_length _ _), ← LogicalCluster.low_of_head h,
    Bytes.le_leBytes (Nat.lt_of_le_of_lt hlow cluster.entry_lt)]

theorem legacyIndex_blkAddr {cluster : LogicalCluster clusterSize} (blockAddr : Nat)
    (h : cluster.type ≠ .nonHead) :
    (legacyIndex blockAddr cluster).blkAddr = blockAddr % 2 ^ 32 := by
  have hslice : (legacyRecord blockAddr cluster).slice 4 4 = Bytes.leBytes 4 blockAddr := by
    unfold legacyRecord
    rw [if_neg h, Bytes.slice_append_of_le (by simp)]
    simp [Bytes.slice, List.take_of_length_le]
  show Bytes.le ((legacyRecord blockAddr cluster).slice 4 4) = _
  rw [hslice, Bytes.le_leBytes_mod]
  rfl

/-- The records that are read of a table. -/
def legacyIndexes : Nat → List (LogicalCluster clusterSize) → List ErofsLclusterIndex
  | _, [] => []
  | blockAddr, cluster :: rest =>
    legacyIndex blockAddr cluster :: legacyIndexes (blockAddr + cluster.blocks) rest

theorem range_map_legacyTable (blockAddr : Nat) (clusters : List (LogicalCluster clusterSize)) :
    (List.range clusters.length).map (fun i =>
      ErofsLclusterIndex.ofBytes ((legacyTable blockAddr clusters).slice (i * 8) 8)) =
        legacyIndexes blockAddr clusters := by
  induction clusters generalizing blockAddr with
  | nil => rfl
  | cons cluster rest ih =>
    have hlen := legacyRecord_length blockAddr cluster
    rw [List.length_cons, List.range_succ_eq_map, List.map_cons, List.map_map, legacyIndexes,
      ← ih, legacyTable, Nat.zero_mul, Bytes.slice_append_eq hlen]
    refine congrArg _ (List.map_congr_left fun i _ => ?_)
    have hpos : (i + 1) * 8 = (legacyRecord blockAddr cluster).length + i * 8 := by omega
    show ErofsLclusterIndex.ofBytes _ = _
    rw [hpos, Bytes.slice_append_right]

/-- The heads of the records are those of the clusters. -/
theorem extent_clusterHeads (num blockAddr : Nat) (clusters : List (LogicalCluster clusterSize)) :
    (clusterHeads clusterSize num (legacyIndexes blockAddr clusters)).map Head.extent =
      extents LogicalCluster.type num blockAddr clusters := by
  induction clusters generalizing num blockAddr with
  | nil => rfl
  | cons cluster rest ih =>
    have htype := legacyIndex_type blockAddr cluster
    unfold legacyIndexes clusterHeads extents
    by_cases h : cluster.type = .nonHead
    · have hblocks : cluster.blocks = 0 := if_pos h
      rw [dif_pos (htype.trans h), if_pos h, hblocks]
      exact ih _ _
    · have hblocks : cluster.blocks = 1 := if_neg h
      rw [dif_neg (fun heq => h (htype.symm.trans heq)), if_neg h, List.map_cons, ih, hblocks]
      unfold Head.extent
      dsimp only
      rw [htype, legacyIndex_clusterOffset blockAddr h, legacyIndex_blkAddr blockAddr h]
      rfl

/-! ## Reading the packs -/

/-- A pack of the parser reads packs of a format, all of their entries or the first ones. -/
structure PackFormat.ReadBy (format : PackFormat) (pack : Pack) : Prop where
  width : pack.width = format.width
  count_le : pack.count ≤ format.count
  blkaddrOffset : pack.blkaddrOffset = format.entryBytes
  entry : ∀ data i, pack.entry data i = data.bitField (format.bits * i) format.bits
  fits : format.bits * format.count ≤ 8 * format.entryBytes

theorem uint_pair (data : Bytes) (i : Nat) : data.uint (i * 2) 2 = data.bitField (16 * i) 16 := by
  have hpos : 16 * i = 8 * (i * 2) := by omega
  rw [Bytes.uint_eq_bitField, hpos]

theorem readBy_compact4B : pack4B.ReadBy compact4BIndexes :=
  ⟨rfl, by decide, rfl, uint_pair, by decide⟩

theorem readBy_singleCompact4B : pack4B.ReadBy singleCompact4BIndex :=
  ⟨rfl, by decide, rfl, uint_pair, by decide⟩

theorem readBy_compact2B : pack2B.ReadBy compact2BIndexes := by
  refine ⟨rfl, by decide, rfl, fun data i => ?_, by decide⟩
  have hpos : 14 * i = 8 * (i * 14 / 8) + i * 14 % 8 := by omega
  show data.uint (i * 14 / 8) 4 / 2 ^ (i * 14 % 8) % 2 ^ 14 = data.bitField (14 * i) 14
  rw [Bytes.uint_shift_eq_bitField data _ (by omega), hpos]

theorem packBytes_length (format : PackFormat) (blockAddr : Nat)
    (clusters : List (LogicalCluster clusterSize)) :
    (packBytes format blockAddr clusters).length = format.width := by
  simp [packBytes, PackFormat.width]

theorem packs_length (format : PackFormat) (n blockAddr : Nat)
    (clusters : List (LogicalCluster clusterSize)) :
    (packs format n blockAddr clusters).length = n * format.width := by
  induction n generalizing blockAddr clusters with
  | zero => simp [packs]
  | succ n ih =>
    rw [packs, List.length_append, packBytes_length, ih]
    ring

section Pack

variable {format : PackFormat} {pack : Pack} (hread : format.ReadBy pack)
  {clusters : List (LogicalCluster clusterSize)}

include hread

/-- The entries that are read of a pack. -/
theorem entries_packBytes (hentries : ∀ cluster ∈ clusters, cluster.entry < 2 ^ format.bits)
    (hcount : pack.count ≤ clusters.length) (hfull : clusters.length ≤ format.count)
    (blockAddr : Nat) : pack.entries (packBytes format blockAddr clusters) =
      (clusters.take pack.count).map LogicalCluster.entry := by
  unfold Pack.entries
  refine List.ext_getElem (by simpa using hcount) fun i hi hi' => ?_
  rw [List.length_map, List.length_range] at hi
  have hlt : i < (clusters.map LogicalCluster.entry).length := by
    rw [List.length_map]
    exact Nat.lt_of_lt_of_le hi hcount
  have hfits : format.bits * (clusters.map LogicalCluster.entry).length ≤ 8 * format.entryBytes := by
    rw [List.length_map]
    exact Nat.le_trans (Nat.mul_le_mul_left _ hfull) hread.fits
  rw [List.getElem_map, List.getElem_range, hread.entry, packBytes,
    Bytes.bitField_packWords _ (by simpa using hentries) hlt hfits]
  simp

/-- The address of the first block of a pack. -/
theorem blkaddr_packBytes (blockAddr : Nat) :
    pack.blkaddr (packBytes format blockAddr clusters) = blockAddr % 2 ^ 32 := by
  have hslice : (packBytes format blockAddr clusters).slice pack.blkaddrOffset 4 =
      Bytes.leBytes 4 (blockAddr + (2 ^ 32 - 1)) := by
    rw [hread.blkaddrOffset, packBytes, Bytes.slice_append_of_le (by simp)]
    simp [Bytes.slice, List.take_of_length_le]
  unfold Pack.blkaddr Bytes.uint
  rw [hslice, Bytes.le_leBytes_mod]
  omega

end Pack

/-- The low bits of an entry. -/
theorem entry_and (hsize : 2 ^ offsetBits clusterSize = clusterSize)
    (cluster : LogicalCluster clusterSize) :
    cluster.entry &&& (clusterSize - 1) = cluster.low := by
  have hmask := Nat.and_two_pow_sub_one_eq_mod cluster.entry (offsetBits clusterSize)
  have hlow : cluster.low < 2 ^ offsetBits clusterSize := cluster.low_lt
  rw [hsize] at hmask hlow
  have hentry : cluster.entry = cluster.type.bits * clusterSize + cluster.low := by
    unfold LogicalCluster.entry entryOf
    rw [hsize]
    rfl
  rw [hmask, hentry, Nat.mul_comm, Nat.mul_add_mod, Nat.mod_eq_of_lt hlow]

/-- The heads of a group of entries have the types at the bits 12 and 13. -/
theorem extent_entryHeads (hsize : 2 ^ offsetBits clusterSize = clusterSize)
    (num blockAddr : Nat) (clusters : List (LogicalCluster clusterSize)) :
    (entryHeads clusterSize num (blockAddr % 2 ^ 32)
      (clusters.map LogicalCluster.entry)).map Head.extent =
        extents LogicalCluster.readType num blockAddr clusters := by
  induction clusters generalizing num blockAddr with
  | nil => rfl
  | cons cluster rest ih =>
    rw [List.map_cons]
    unfold entryHeads extents
    change (if h : cluster.readType = .nonHead then _ else _ :: _ : List Head).map _ = _
    by_cases h : cluster.readType = .nonHead
    · rw [dif_pos h, if_pos h]
      exact ih _ _
    · have hnext : (blockAddr % 2 ^ 32 + 1) % 2 ^ 32 = (blockAddr + 1) % 2 ^ 32 := by omega
      rw [dif_neg h, if_neg h, List.map_cons, hnext, ih]
      unfold Head.extent
      dsimp only
      rw [entry_and hsize]
      rfl

end ErofsExtentMap

end Erofs
