import Ralf.Erofs.CompactHeads

/-!
# When compact and legacy indexes agree

`Images` are two images with the same list of logical clusters, as an array of
records and as packs. The builds give one map from both when the parser of the packs
reads every cluster as it is (`encodingsAgree_of_readable`), which holds for clusters
of 4096 bytes. In the entries of larger clusters the offset takes more than 12 bits,
but the parser looks for the type at the bits 12 and 13 all the same:
`encodingsAgree_iff` tells which lists survive that.
-/

namespace Erofs

namespace ErofsExtentMap

variable {clusterSize : Nat}

/-! ## The images -/

/-- The cluster size that the low three bits of the header's last byte encode. -/
def lclusterSize (clusterBits : Nat) : Nat := 4096 * 2 ^ (clusterBits % 8)

theorem two_pow_offsetBits (clusterBits : Nat) :
    2 ^ offsetBits (lclusterSize clusterBits) = lclusterSize clusterBits := by
  have hpow : lclusterSize clusterBits = 2 ^ (12 + clusterBits % 8) :=
    (Nat.pow_add 2 12 (clusterBits % 8)).symm
  unfold offsetBits
  rw [hpow, Nat.log2_two_pow, Nat.max_eq_right (Nat.le_add_right _ _)]

theorem lclusterSize_pos (clusterBits : Nat) : 0 < lclusterSize clusterBits :=
  Nat.mul_pos (by decide) (Nat.two_pow_pos _)

theorem lclusterSize_le (clusterBits : Nat) : lclusterSize clusterBits ≤ 2 ^ 19 := by
  have hpow : 2 ^ (clusterBits % 8) ≤ 2 ^ 7 :=
    Nat.pow_le_pow_right (by decide) (Nat.le_of_lt_succ (Nat.mod_lt _ (by decide)))
  unfold lclusterSize
  omega

/-- The bytes of a map header. -/
def mapHeader (reserved advise algorithmType clusterBits : Nat) : Bytes :=
  Bytes.leBytes 4 reserved ++ (Bytes.leBytes 2 advise ++
    (Bytes.leBytes 1 algorithmType ++ Bytes.leBytes 1 clusterBits))

theorem mapHeader_length (reserved advise algorithmType clusterBits : Nat) :
    (mapHeader reserved advise algorithmType clusterBits).length = 8 := by
  simp [mapHeader]

theorem mapHeader_ofBytes (reserved advise algorithmType clusterBits : Nat) :
    ErofsZMapHeader.ofBytes (mapHeader reserved advise algorithmType clusterBits) =
      ⟨advise % 2 ^ 16, algorithmType % 2 ^ 8, clusterBits % 2 ^ 8⟩ := by
  have hadvise : (mapHeader reserved advise algorithmType clusterBits).slice 4 2 =
      Bytes.leBytes 2 advise := by
    unfold mapHeader
    rw [Bytes.slice_append_of_le (by simp), Bytes.leBytes_length,
      Bytes.slice_append_eq (Bytes.leBytes_length _ _)]
  have halgorithm : (mapHeader reserved advise algorithmType clusterBits).slice 6 1 =
      Bytes.leBytes 1 algorithmType := by
    unfold mapHeader
    rw [Bytes.slice_append_of_le (by simp), Bytes.leBytes_length,
      Bytes.slice_append_of_le (by simp), Bytes.leBytes_length,
      Bytes.slice_append_eq (Bytes.leBytes_length _ _)]
  have hbits : (mapHeader reserved advise algorithmType clusterBits).slice 7 1 =
      Bytes.leBytes 1 clusterBits := by
    unfold mapHeader
    rw [Bytes.slice_append_of_le (by simp), Bytes.leBytes_length,
      Bytes.slice_append_of_le (by simp), Bytes.leBytes_length,
      Bytes.slice_append_of_le (by simp), Bytes.leBytes_length]
    simp [Bytes.slice, Bytes.leBytes]
  unfold ErofsZMapHeader.ofBytes Bytes.uint
  rw [hadvise, halgorithm, hbits, Bytes.le_leBytes_mod, Bytes.le_leBytes_mod,
    Bytes.le_leBytes_mod]
  rfl

/-- The file gives the header at an offset and then the table at a distance from it. -/
def Holds {σ : Type} (file : IErofsImageFile σ) (s : σ) (offset distance : Nat)
    (header table : Bytes) : Prop :=
  ∃ s₁ s₂, file.readBytes header.length offset s = (some header, s₁) ∧
    file.readBytes table.length (wrap64 (offset + distance)) s₁ = (some table, s₂)

/-- Images with both encodings of a list of clusters, and the arguments of the builds. -/
structure Images (σ τ : Type) (clusterBits : Nat)
    (clusters : List (LogicalCluster (lclusterSize clusterBits))) where
  legacy : IErofsImageFile σ
  compact : IErofsImageFile τ
  legacyState : σ
  compactState : τ
  legacyOffset : Nat
  compactOffset : Nat
  compressedBlocks : Nat
  uncompressedSize : Nat
  blockAddr : Nat
  algorithmType : Nat
  legacyReserved : Nat
  legacyAdvise : Nat
  compactReserved : Nat
  /-- The advise bit `Compacted2b`. -/
  twoBytes : Bool
  clusters_length : clusters.length =
    (uncompressedSize + (lclusterSize clusterBits - 1)) / lclusterSize clusterBits
  /-- The 2-byte packs are for clusters of 4096 bytes only. -/
  twoBytes_clusterSize : twoBytes = true → lclusterSize clusterBits = 4096
  legacyOffset_aligned : legacyOffset % 4 = 0
  compactOffset_aligned : compactOffset % (if twoBytes then 8 else 4) = 0
  blocks_fit : compressedBlocks ≤ legacy.size / 4096 ↔ compressedBlocks ≤ compact.size / 4096
  legacy_holds : Holds legacy legacyState legacyOffset 16
    (mapHeader legacyReserved legacyAdvise algorithmType clusterBits)
    (legacyTable blockAddr clusters)
  compact_holds : Holds compact compactState compactOffset 8
    (mapHeader compactReserved (if twoBytes then 1 else 0) algorithmType clusterBits)
    (compactTable twoBytes (compactOffset + 8) blockAddr clusters)

namespace Images

variable {σ τ : Type} {clusterBits : Nat}
  {clusters : List (LogicalCluster (lclusterSize clusterBits))}

/-- The map that is built from the records. -/
def legacyMap (images : Images σ τ clusterBits clusters) : Except Fault (Option ErofsExtentMap) :=
  (fromLegacyIndexes images.legacy images.legacyOffset images.compressedBlocks 4096
    images.uncompressedSize images.legacyState).map Prod.fst

/-- The map that is built from the packs. -/
def compactMap (images : Images σ τ clusterBits clusters) : Except Fault (Option ErofsExtentMap) :=
  (fromCompactIndexes images.compact images.compactOffset images.compressedBlocks 4096
    images.uncompressedSize images.compactState).map Prod.fst

/-- The checks before the tables are read fail. -/
def Refused (images : Images σ τ clusterBits clusters) : Prop :=
  images.compressedBlocks > images.legacy.size / 4096 ∨
    images.uncompressedSize > kMaxUncompressedSize ∨ images.algorithmType % 2 ^ 8 ≠ 0

instance (images : Images σ τ clusterBits clusters) : Decidable images.Refused :=
  inferInstanceAs (Decidable (_ ∨ _))

/-- The map that heads make, if they fill it. -/
def mapOf (images : Images σ τ clusterBits clusters) (heads : List Head) :
    Except Fault (Option ErofsExtentMap) :=
  (finishMap images.compressedBlocks () (addAll heads
    (new images.uncompressedSize images.compressedBlocks 4096 0 0))).map Prod.fst

end Images

/-- Every pair of images with the encodings of the clusters gives one map. -/
def EncodingsAgree (clusterBits : Nat)
    (clusters : List (LogicalCluster (lclusterSize clusterBits))) :
    Prop :=
  ∀ {σ τ : Type} (images : Images σ τ clusterBits clusters), images.compactMap = images.legacyMap

theorem finishMap_map_fst {σ : Type} (compressedBlocks : Nat) (s : σ)
    (built : Attempt ErofsExtentMap) :
    (finishMap compressedBlocks s built).map Prod.fst =
      (finishMap compressedBlocks () built).map Prod.fst := by
  unfold finishMap
  rcases built with fault | _ | map
  · rfl
  · rfl
  · dsimp only
    split_ifs <;> rfl

/-- The algorithms that both builds accept. -/
theorem algorithms_iff (advise algorithmType clusterBits : Nat) :
    let header : ErofsZMapHeader := ⟨advise, algorithmType % 2 ^ 8, clusterBits⟩
    (header.algo1 ≠ 0 ∨ header.algo2 ≠ 0) ↔ algorithmType % 2 ^ 8 ≠ 0 := by
  show (algorithmType % 2 ^ 8 % 16 ≠ 0 ∨ algorithmType % 2 ^ 8 / 16 % 16 ≠ 0) ↔ _
  omega

/-- The cluster size of a header, without overflow. -/
theorem header_clusterSize (advise algorithmType clusterBits : Nat) :
    ErofsZMapHeader.clusterSize ⟨advise, algorithmType, clusterBits % 2 ^ 8⟩ 4096 =
      lclusterSize clusterBits := by
  have hbits : clusterBits % 2 ^ 8 % 8 = clusterBits % 8 := by omega
  unfold ErofsZMapHeader.clusterSize
  dsimp only
  rw [hbits]
  exact wrap64_of_lt (Nat.lt_of_le_of_lt (lclusterSize_le clusterBits) (by decide))

namespace Images

variable {σ τ : Type} {clusterBits : Nat}
  {clusters : List (LogicalCluster (lclusterSize clusterBits))}

/-- The number of clusters of a size that is accepted. -/
theorem clusters_length_eq (images : Images σ τ clusterBits clusters)
    (h : images.uncompressedSize ≤ kMaxUncompressedSize) :
    divRoundUp images.uncompressedSize (lclusterSize clusterBits) = clusters.length := by
  have hle := lclusterSize_le clusterBits
  unfold kMaxUncompressedSize at h
  unfold divRoundUp
  rw [wrap64_of_lt (by omega), images.clusters_length]

/-- The records give the heads of the clusters. -/
theorem legacyMap_eq (images : Images σ τ clusterBits clusters) :
    ∃ heads : List Head,
      heads.map Head.extent = extents LogicalCluster.type 0 images.blockAddr clusters ∧
      images.legacyMap = if images.Refused then .ok none else images.mapOf heads := by
  obtain ⟨s₁, s₂, hheader, htable⟩ := images.legacy_holds
  have halgorithms := algorithms_iff (images.legacyAdvise % 2 ^ 16) images.algorithmType
    (clusterBits % 2 ^ 8)
  have hsize := header_clusterSize (images.legacyAdvise % 2 ^ 16) (images.algorithmType % 2 ^ 8)
    clusterBits
  refine ⟨_, extent_clusterHeads 0 images.blockAddr clusters, ?_⟩
  rw [mapHeader_length] at hheader
  rw [legacyTable_length] at htable
  unfold legacyMap fromLegacyIndexes readLegacyIndexes
  rw [if_neg (by decide : ¬(4096 = 0))]
  by_cases hblocks : images.compressedBlocks > images.legacy.size / 4096
  · have hrefused : images.Refused := .inl hblocks
    rw [if_pos (.inl hblocks), if_pos hrefused]
    rfl
  by_cases hbig : images.uncompressedSize > kMaxUncompressedSize
  · have hrefused : images.Refused := .inr (.inl hbig)
    rw [if_pos (.inr hbig), if_pos hrefused]
    rfl
  rw [if_neg (not_or.mpr ⟨hblocks, hbig⟩),
    if_neg (not_not.mpr images.legacyOffset_aligned), hheader]
  dsimp only
  rw [mapHeader_ofBytes]
  by_cases halgo : images.algorithmType % 2 ^ 8 = 0
  · have hok : ¬images.Refused := by
      rintro (h | h | h)
      · exact hblocks h
      · exact hbig h
      · exact h halgo
    have haccepted := fun h => halgorithms.mp h halgo
    obtain ⟨halgo₁, halgo₂⟩ := not_or.mp haccepted
    rw [if_neg haccepted, hsize,
      if_neg (Nat.ne_of_gt (lclusterSize_pos clusterBits)),
      images.clusters_length_eq (Nat.le_of_not_gt hbig), htable, if_neg hok]
    dsimp only
    rw [finishMap_map_fst, range_map_legacyTable, hsize, addLegacyIndexes_eq_addAll,
      not_not.mp halgo₁, not_not.mp halgo₂]
    rfl
  · have hrefused : images.Refused := .inr (.inr halgo)
    rw [if_pos (halgorithms.mpr halgo), if_pos hrefused]
    rfl

/-- The advise bits of the packs. -/
theorem advise_twoBytes (twoBytes : Bool) :
    (if twoBytes then 1 else 0) % 2 ^ 16 / 2 = 0 ∧
      ((if twoBytes then 1 else 0) % 2 ^ 16 % 2 = 1 ↔ twoBytes = true) ∧
      decide ((if twoBytes then 1 else 0) % 2 ^ 16 % 2 = 1) = twoBytes := by
  cases twoBytes <;> decide

theorem compactedCounts_wrap64 (twoBytes : Bool) (indexesOffset logicalClusters : Nat) :
    compactedCounts twoBytes (wrap64 indexesOffset) logicalClusters =
      compactedCounts twoBytes indexesOffset logicalClusters := by
  have hmod : wrap64 indexesOffset % 32 = indexesOffset % 32 :=
    Nat.mod_mod_of_dvd _ (by decide)
  unfold compactedCounts
  rw [hmod]

theorem compactOffset_aligned_4 (images : Images σ τ clusterBits clusters) :
    images.compactOffset % 4 = 0 := by
  have h := images.compactOffset_aligned
  split_ifs at h
  · omega
  · exact h

theorem compactOffset_aligned_8 (images : Images σ τ clusterBits clusters)
    (htwo : images.twoBytes = true) : (images.compactOffset + 8) % 8 = 0 := by
  have h := images.compactOffset_aligned
  rw [if_pos htwo] at h
  omega

/-- The number of clusters of a list with a size that is accepted. -/
theorem clusters_length_lt (images : Images σ τ clusterBits clusters)
    (h : images.uncompressedSize ≤ kMaxUncompressedSize) : clusters.length < 2 ^ 32 := by
  have hle := lclusterSize_le clusterBits
  unfold kMaxUncompressedSize at h
  rw [images.clusters_length]
  refine Nat.lt_of_le_of_lt (Nat.div_le_self _ _) ?_
  omega

theorem refused_compact_iff (images : Images σ τ clusterBits clusters) :
    images.Refused ↔ images.compressedBlocks > images.compact.size / 4096 ∨
      images.uncompressedSize > kMaxUncompressedSize ∨ images.algorithmType % 2 ^ 8 ≠ 0 := by
  have hblocks := not_congr images.blocks_fit
  rw [Nat.not_le, Nat.not_le] at hblocks
  exact or_congr_left hblocks

/-- The packs are refused as the records are. -/
theorem compactMap_of_refused (images : Images σ τ clusterBits clusters)
    (hrefused : images.Refused) : images.compactMap = .ok none := by
  obtain ⟨s₁, s₂, hheader, -⟩ := images.compact_holds
  rw [mapHeader_length] at hheader
  have halgorithms := algorithms_iff ((if images.twoBytes then 1 else 0) % 2 ^ 16)
    images.algorithmType (clusterBits % 2 ^ 8)
  unfold compactMap fromCompactIndexes readCompactIndexes
  rw [if_neg (by decide : ¬(4096 = 0)), if_neg (by decide : ¬(4096 ≠ 4096))]
  by_cases hbig : images.compressedBlocks > images.compact.size / 4096 ∨
      images.uncompressedSize > kMaxUncompressedSize
  · rw [if_pos hbig]
    rfl
  · have halgo : images.algorithmType % 2 ^ 8 ≠ 0 := by
      rcases images.refused_compact_iff.mp hrefused with h | h | h
      · exact absurd (.inl h) hbig
      · exact absurd (.inr h) hbig
      · exact h
    rw [if_neg hbig, if_neg (not_not.mpr images.compactOffset_aligned_4), hheader]
    dsimp only
    rw [mapHeader_ofBytes, if_pos (halgorithms.mpr halgo)]
    rfl

/-- The packs give the heads of the clusters, with the types at the bits 12 and 13. -/
theorem compactMap_eq (images : Images σ τ clusterBits clusters) (hok : ¬images.Refused) :
    ∃ heads : List Head,
      (heads.map Head.extent).map mark = marks LogicalCluster.readType 0 clusters ∧
      ((∀ cluster ∈ clusters, cluster.Readable) →
        heads.map Head.extent = extents LogicalCluster.type 0 images.blockAddr clusters) ∧
      images.compactMap = images.mapOf heads := by
  obtain ⟨s₁, s₂, hheader, htable⟩ := images.compact_holds
  rw [mapHeader_length] at hheader
  have halgorithms := algorithms_iff ((if images.twoBytes then 1 else 0) % 2 ^ 16)
    images.algorithmType (clusterBits % 2 ^ 8)
  have hsize := header_clusterSize ((if images.twoBytes then 1 else 0) % 2 ^ 16)
    (images.algorithmType % 2 ^ 8) clusterBits
  rw [refused_compact_iff, not_or, not_or, not_not] at hok
  obtain ⟨hblocks, hbig, halgo⟩ := hok
  have haccepted := fun h => halgorithms.mp h halgo
  obtain ⟨halgo₁, halgo₂⟩ := not_or.mp haccepted
  obtain ⟨hadvise, htwo, hdecide⟩ := advise_twoBytes images.twoBytes
  rcases hcounts : compactedCounts images.twoBytes (images.compactOffset + 8) clusters.length with
    ⟨initial, middle, last⟩
  rw [compactTable_length _ images.compactOffset_aligned_8 hcounts] at htable
  obtain ⟨heads, hheads, hmarks, hextents⟩ := @compactHeads_table _
    ⟨⟨(if images.twoBytes then 1 else 0) % 2 ^ 16, images.algorithmType % 2 ^ 8,
      clusterBits % 2 ^ 8⟩, initial, middle, last,
      compactTable images.twoBytes (images.compactOffset + 8) images.blockAddr clusters⟩
    images.twoBytes (images.compactOffset + 8) images.blockAddr clusters hsize
    (two_pow_offsetBits clusterBits) images.twoBytes_clusterSize images.compactOffset_aligned_8
    hcounts.symm rfl (images.clusters_length_lt (Nat.le_of_not_gt hbig))
  refine ⟨heads, hmarks, hextents, ?_⟩
  have hpacked : ¬((if images.twoBytes then 1 else 0) % 2 ^ 16 % 2 = 1 ∧
      lclusterSize clusterBits ≠ 4096) :=
    fun h => h.2 (images.twoBytes_clusterSize (htwo.mp h.1))
  unfold compactMap fromCompactIndexes readCompactIndexes
  rw [if_neg (by decide : ¬(4096 = 0)), if_neg (by decide : ¬(4096 ≠ 4096)),
    if_neg (not_or.mpr ⟨hblocks, hbig⟩),
      if_neg (not_not.mpr images.compactOffset_aligned_4), hheader]
  dsimp only
  rw [mapHeader_ofBytes, if_neg haccepted, if_neg (not_not.mpr hadvise), hsize, if_neg hpacked,
    hdecide, compactedCounts_wrap64, images.clusters_length_eq (Nat.le_of_not_gt hbig), hcounts]
  dsimp only
  rw [htable]
  dsimp only
  rw [finishMap_map_fst, addCompactIndexes_eq, hheads, not_not.mp halgo₁, not_not.mp halgo₂]
  unfold Heads.run mapOf
  rw [Attempt.andThen_self]

end Images

/-! ## Agreement -/

section Marks

variable (hsize : 2 ^ offsetBits clusterSize = clusterSize)

include hsize

/-- The offset of a head lies in its cluster. -/
theorem offsetAt_bounds {num : Nat} (hnum : num * clusterSize < 2 ^ 64)
    (cluster : LogicalCluster clusterSize) :
    num * clusterSize ≤ cluster.offsetAt num ∧
      cluster.offsetAt num < (num + 1) * clusterSize := by
  have hlow : cluster.low < 2 ^ offsetBits clusterSize := cluster.low_lt
  have hor := Nat.two_pow_add_eq_or_of_lt hlow num
  rw [hsize] at hlow hor
  unfold LogicalCluster.offsetAt
  rw [wrap64_of_lt hnum, Nat.mul_comm, ← hor, Nat.mul_comm (num + 1), Nat.mul_succ]
  omega

theorem marks_bounds {typeOf : LogicalCluster clusterSize → ErofsLclusterType} {num : Nat}
    {clusters : List (LogicalCluster clusterSize)}
    (hroom : (num + clusters.length) * clusterSize ≤ 2 ^ 64) :
    ∀ m ∈ marks typeOf num clusters,
      num * clusterSize ≤ m.2 ∧ m.2 < (num + clusters.length) * clusterSize := by
  induction clusters generalizing num with
  | nil => exact fun _ h => absurd h List.not_mem_nil
  | cons cluster rest ih =>
    have hlength : num + (cluster :: rest).length = num + 1 + rest.length := by
      rw [List.length_cons]
      omega
    rw [hlength] at hroom ⊢
    have hpos : 0 < clusterSize := hsize ▸ Nat.two_pow_pos _
    have hnext : num * clusterSize < (num + 1) * clusterSize :=
      Nat.mul_lt_mul_of_pos_right (Nat.lt_succ_self num) hpos
    have hend : (num + 1) * clusterSize ≤ (num + 1 + rest.length) * clusterSize :=
      Nat.mul_le_mul_right _ (Nat.le_add_right _ _)
    have hrest : ∀ m ∈ marks typeOf (num + 1) rest,
        num * clusterSize ≤ m.2 ∧ m.2 < (num + 1 + rest.length) * clusterSize :=
      fun m hm => ⟨Nat.le_trans (Nat.le_of_lt hnext) (ih hroom m hm).1, (ih hroom m hm).2⟩
    rw [marks_cons]
    split_ifs
    · exact hrest
    · have hbounds := offsetAt_bounds hsize (show num * clusterSize < 2 ^ 64 by omega) cluster
      exact List.forall_mem_cons.mpr ⟨⟨hbounds.1, Nat.lt_of_lt_of_le hbounds.2 hend⟩, hrest⟩

/-- A reader that finds the heads of a list, with their compressions, takes every
cluster for what it is. -/
theorem readable_of_marks_eq {num : Nat} {clusters : List (LogicalCluster clusterSize)}
    (hroom : (num + clusters.length) * clusterSize ≤ 2 ^ 64)
    (hmarks : marks LogicalCluster.readType num clusters = marks LogicalCluster.type num clusters) :
    ∀ cluster ∈ clusters, cluster.Readable := by
  induction clusters generalizing num with
  | nil => exact fun _ h => absurd h List.not_mem_nil
  | cons cluster rest ih =>
    have hlength : num + (cluster :: rest).length = num + 1 + rest.length := by
      rw [List.length_cons]
      omega
    rw [hlength] at hroom
    have hpos : 0 < clusterSize := hsize ▸ Nat.two_pow_pos _
    have hnext : num * clusterSize < (num + 1) * clusterSize :=
      Nat.mul_lt_mul_of_pos_right (Nat.lt_succ_self num) hpos
    have hend : (num + 1) * clusterSize ≤ (num + 1 + rest.length) * clusterSize :=
      Nat.mul_le_mul_right _ (Nat.le_add_right _ _)
    have hoffset := (offsetAt_bounds hsize (show num * clusterSize < 2 ^ 64 by omega) cluster).2
    -- the head of this cluster is before those of the rest
    have hapart : ∀ typeOf compression,
        (compression, cluster.offsetAt num) ∉ marks typeOf (num + 1) rest :=
      fun typeOf compression h =>
        absurd (marks_bounds hsize hroom _ h).1 (Nat.not_le.mpr hoffset)
    rw [marks_cons, marks_cons] at hmarks
    split_ifs at hmarks with hread htype htype
    · refine List.forall_mem_cons.mpr ⟨?_, ih hroom hmarks⟩
      unfold LogicalCluster.Readable
      rw [hread, htype]
    · exact absurd (hmarks ▸ List.mem_cons_self) (hapart _ _)
    · exact absurd (hmarks ▸ List.mem_cons_self) (hapart _ _)
    · obtain ⟨hhead, hrest⟩ := List.cons.inj hmarks
      exact List.forall_mem_cons.mpr ⟨(Prod.mk.inj hhead).1, ih hroom hrest⟩

end Marks

namespace Images

variable {σ τ : Type} {clusterBits : Nat}
  {clusters : List (LogicalCluster (lclusterSize clusterBits))}

/-- Heads with the same extents make the same map. -/
theorem mapOf_congr (images : Images σ τ clusterBits clusters) {heads heads' : List Head}
    (hextents : heads.map Head.extent = heads'.map Head.extent) :
    images.mapOf heads = images.mapOf heads' := by
  unfold mapOf
  rw [addAll_congr hextents rfl]

/-- A map is made when the heads fill it. -/
theorem mapOf_eq_some_iff (images : Images σ τ clusterBits clusters) {heads : List Head}
    {map : ErofsExtentMap} : images.mapOf heads = .ok (some map) ↔
      addAll heads (new images.uncompressedSize images.compressedBlocks 4096 0 0) = .ok (some map) ∧
        map.lastAddedIndex = wrapSub64 images.compressedBlocks 1 := by
  unfold mapOf finishMap
  rcases addAll heads (new images.uncompressedSize images.compressedBlocks 4096 0 0) with
    fault | _ | map'
  · exact iff_of_false (fun h => nomatch h) fun h => nomatch h.1
  · exact iff_of_false (fun h => nomatch h) fun h => nomatch h.1
  · dsimp only
    split_ifs with hfilled
    · refine iff_of_false (fun h => nomatch h) ?_
      rintro ⟨h, hlast⟩
      cases h
      exact hfilled hlast
    · constructor
      · intro h
        cases h
        exact ⟨rfl, not_not.mp hfilled⟩
      · rintro ⟨h, -⟩
        cases h
        rfl

/-- Lists of heads before the end of the data that make one map, one of them with as many
heads as blocks, show the same compressions and offsets. -/
theorem marks_eq_of_mapOf_eq (images : Images σ τ clusterBits clusters)
    (hblocks : images.compressedBlocks < 2 ^ 64) (hsize : images.uncompressedSize < 2 ^ 64)
    {heads heads' : List Head}
    (hheads : ∀ head ∈ heads, head.uncomprOffset < images.uncompressedSize)
    (hheads' : ∀ head ∈ heads', head.uncomprOffset < images.uncompressedSize)
    (hlength : heads'.length = images.compressedBlocks)
    (hmaps : images.mapOf heads = images.mapOf heads') :
    (heads.map Head.extent).map mark = (heads'.map Head.extent).map mark := by
  have hnew := Filling.new images.compressedBlocks images.uncompressedSize 4096
  obtain ⟨map, hadd'⟩ := exists_addAll hblocks hsize hnew hheads' (Nat.le_of_eq hlength)
  have hfilled' := (addAll_shown hblocks hsize hnew (fun _ h => absurd h List.not_mem_nil)
    hheads' hadd').1
  have hlast' := hfilled'.lastAddedIndex
  rw [List.nil_append, List.length_map, hlength] at hlast'
  obtain ⟨hadd, -⟩ := images.mapOf_eq_some_iff.mp
    (hmaps.trans (images.mapOf_eq_some_iff.mpr ⟨hadd', hlast'⟩))
  have hfilled := (addAll_shown hblocks hsize hnew (fun _ h => absurd h List.not_mem_nil)
    hheads hadd).1
  have hfull : heads.length = images.compressedBlocks := by
    have hlast := hfilled.lastAddedIndex
    have hle := hfilled.points_le
    rw [List.nil_append, List.length_map] at hlast hle
    rw [hlast'] at hlast
    unfold wrapSub64 wrap64 at hlast
    omega
  rw [marks_of_full hblocks hsize hnew hheads hadd hfull,
    marks_of_full hblocks hsize hnew hheads' hadd' hlength]

end Images

/-- Readable clusters give one map in both encodings. -/
theorem encodingsAgree_of_readable {clusterBits : Nat}
    {clusters : List (LogicalCluster (lclusterSize clusterBits))}
    (h : ∀ cluster ∈ clusters, cluster.Readable) : EncodingsAgree clusterBits clusters := by
  intro σ τ images
  obtain ⟨heads', hextents', hlegacy⟩ := images.legacyMap_eq
  rw [hlegacy]
  by_cases hrefused : images.Refused
  · rw [if_pos hrefused, images.compactMap_of_refused hrefused]
  · obtain ⟨heads, -, hextents, hcompact⟩ := images.compactMap_eq hrefused
    rw [if_neg hrefused, hcompact]
    exact images.mapOf_congr ((hextents h).trans hextents'.symm)

/-! ## Images of a list of clusters -/

/-- An image that starts with the bytes. -/
def imageOfBytes (bytes : Bytes) : IErofsImageFile Unit :=
  imageOf (2 ^ 40) (by decide) fun offset => bytes.getD offset 0

theorem imageOfBytes_readBytes {bytes : Bytes} {size offset : Nat} (hpos : offset < 2 ^ 40)
    (hfits : offset + size ≤ bytes.length) (hlength : bytes.length ≤ 2 ^ 40) :
    (imageOfBytes bytes).readBytes size offset () = (some (bytes.slice offset size), ()) := by
  have hinside : ¬(offset ≥ 2 ^ 40 ∨
    (List.replicate size (0 : UInt8)).length > 2 ^ 40 - offset) := by
    rw [List.length_replicate]
    omega
  have hslice : (List.range (List.replicate size (0 : UInt8)).length).map
      (fun i => bytes.getD (offset + i) 0) = bytes.slice offset size := by
    rw [List.length_replicate, Bytes.map_getD_range hfits]
  unfold IErofsImageFile.readBytes imageOfBytes imageOf
  dsimp only
  rw [if_neg hinside, hslice]

/-- An image with a header, a gap and a table. -/
theorem holds_imageOfBytes {header gap table : Bytes}
    (hlength : header.length + gap.length + table.length ≤ 2 ^ 40)
    (hpos : header.length + gap.length < 2 ^ 40) :
    Holds (imageOfBytes (header ++ (gap ++ table))) () 0 (header.length + gap.length) header
      table := by
  have htotal : (header ++ (gap ++ table)).length =
      header.length + gap.length + table.length := by
    rw [List.length_append, List.length_append, Nat.add_assoc]
  refine ⟨(), (), ?_, ?_⟩
  · rw [imageOfBytes_readBytes (by decide) (by omega) (by omega),
      Bytes.slice_append_eq rfl]
  · rw [Nat.zero_add, wrap64_of_lt (by omega),
      imageOfBytes_readBytes (by omega) (by omega) (by omega), Bytes.slice_append_right,
      ← Nat.add_zero gap.length, Bytes.slice_append_right, Bytes.slice_zero_self]

theorem blockCount_le (clusters : List (LogicalCluster clusterSize)) :
    blockCount clusters ≤ clusters.length := by
  induction clusters with
  | nil => exact Nat.le_refl 0
  | cons cluster rest ih =>
    have hone : cluster.blocks ≤ 1 := by
      unfold LogicalCluster.blocks
      split_ifs <;> decide
    show cluster.blocks + blockCount rest ≤ rest.length + 1
    omega

theorem extents_length (num blockAddr : Nat) (clusters : List (LogicalCluster clusterSize)) :
    (extents LogicalCluster.type num blockAddr clusters).length = blockCount clusters := by
  induction clusters generalizing num blockAddr with
  | nil => rfl
  | cons cluster rest ih =>
    show _ = cluster.blocks + blockCount rest
    rw [extents_cons]
    unfold LogicalCluster.blocks
    split_ifs
    · rw [ih, Nat.zero_add]
    · rw [List.length_cons, ih, Nat.add_comm]

section ImagesOf

variable {clusterBits : Nat} {clusters : List (LogicalCluster (lclusterSize clusterBits))}

/-- The number of clusters of a file that is not refused. -/
theorem clusters_length_le
    (hfits : clusters.length * lclusterSize clusterBits ≤ kMaxUncompressedSize) :
    clusters.length ≤ 2 ^ 17 := by
  have hsize : 4096 ≤ lclusterSize clusterBits :=
    Nat.le_mul_of_pos_right _ (Nat.two_pow_pos _)
  have hle := Nat.mul_le_mul_left clusters.length hsize
  unfold kMaxUncompressedSize at hfits
  omega

/-- Images of a list of clusters, with 4-byte packs and a block for each head. -/
def imagesOf (hfits : clusters.length * lclusterSize clusterBits ≤ kMaxUncompressedSize) :
    Images Unit Unit clusterBits clusters where
  legacy := imageOfBytes (mapHeader 0 0 0 clusterBits ++
    (Bytes.leBytes 8 0 ++ legacyTable 0 clusters))
  compact := imageOfBytes (mapHeader 0 0 0 clusterBits ++ ([] ++ compactTable false 8 0 clusters))
  legacyState := ()
  compactState := ()
  legacyOffset := 0
  compactOffset := 0
  compressedBlocks := blockCount clusters
  uncompressedSize := clusters.length * lclusterSize clusterBits
  blockAddr := 0
  algorithmType := 0
  legacyReserved := 0
  legacyAdvise := 0
  compactReserved := 0
  twoBytes := false
  clusters_length := by
    have hpos := lclusterSize_pos clusterBits
    rw [Nat.mul_comm, Nat.mul_add_div hpos, Nat.div_eq_of_lt (Nat.sub_lt hpos Nat.one_pos),
      Nat.add_zero]
  twoBytes_clusterSize := fun h => nomatch h
  legacyOffset_aligned := rfl
  compactOffset_aligned := rfl
  blocks_fit := Iff.rfl
  legacy_holds := by
    have hlength := clusters_length_le hfits
    have h := @holds_imageOfBytes (mapHeader 0 0 0 clusterBits) (Bytes.leBytes 8 0)
      (legacyTable 0 clusters)
    rw [mapHeader_length, Bytes.leBytes_length, legacyTable_length] at h
    exact h (by omega) (by decide)
  compact_holds := by
    have hlength := clusters_length_le hfits
    have h := @holds_imageOfBytes (mapHeader 0 0 0 clusterBits) [] (compactTable false 8 0 clusters)
    rw [mapHeader_length, List.length_nil,
      @compactTable_length _ false 8 0 0 clusters.length clusters 0 (fun h => nomatch h) rfl] at h
    exact h (by omega) (by decide)

/-- The images of a list that agree show that the clusters are readable. -/
theorem readable_of_encodingsAgree
    (hfits : clusters.length * lclusterSize clusterBits ≤ kMaxUncompressedSize)
    (h : EncodingsAgree clusterBits clusters) : ∀ cluster ∈ clusters, cluster.Readable := by
  have hsize := two_pow_offsetBits clusterBits
  have hmax := hfits
  unfold kMaxUncompressedSize at hmax
  have hblocks : blockCount clusters ≤ 2 ^ 17 :=
    Nat.le_trans (blockCount_le clusters) (clusters_length_le hfits)
  have hok : ¬(imagesOf hfits).Refused := by
    rintro (hlarge | hbig | halgo)
    · exact absurd hlarge (Nat.not_lt.mpr (Nat.le_trans hblocks
        (show 2 ^ 17 ≤ 2 ^ 40 / 4096 by decide)))
    · exact absurd hbig (Nat.not_lt.mpr hfits)
    · exact halgo rfl
  obtain ⟨heads', hextents', hlegacy⟩ := (imagesOf hfits).legacyMap_eq
  obtain ⟨heads, hmarks, -, hcompact⟩ := (imagesOf hfits).compactMap_eq hok
  rw [if_neg hok] at hlegacy
  have hmarks' : (heads'.map Head.extent).map mark = marks LogicalCluster.type 0 clusters := by
    rw [hextents']
    rfl
  have hlength : heads'.length = blockCount clusters := by
    rw [← @List.length_map _ _ heads' Head.extent, hextents', extents_length]
  have hinside : ∀ (typeOf : LogicalCluster (lclusterSize clusterBits) → ErofsLclusterType)
      (heads : List Head), (heads.map Head.extent).map mark = marks typeOf 0 clusters →
        ∀ head ∈ heads, head.uncomprOffset < clusters.length * lclusterSize clusterBits := by
    intro typeOf heads hmarks head hhead
    have hmem : mark head.extent ∈ marks typeOf 0 clusters := by
      rw [← hmarks]
      exact List.mem_map_of_mem (List.mem_map_of_mem hhead)
    have hbound := (marks_bounds hsize (by rw [Nat.zero_add]; omega) _ hmem).2
    rwa [Nat.zero_add] at hbound
  have heq := (imagesOf hfits).marks_eq_of_mapOf_eq
    (show blockCount clusters < 2 ^ 64 by omega)
    (show clusters.length * lclusterSize clusterBits < 2 ^ 64 by omega)
    (hinside _ heads hmarks) (hinside _ heads' hmarks') hlength
    (hcompact.symm.trans ((h (imagesOf hfits)).trans hlegacy))
  rw [hmarks, hmarks'] at heq
  exact readable_of_marks_eq hsize (by rw [Nat.zero_add]; omega) heq

end ImagesOf

/-- The largest size that is accepted has whole clusters only. -/
theorem kMaxUncompressedSize_eq (clusterBits : Nat) :
    kMaxUncompressedSize = 2 ^ (17 - clusterBits % 8) * lclusterSize clusterBits := by
  have hbits : 17 - clusterBits % 8 + (12 + clusterBits % 8) = 29 := by omega
  have hsize : lclusterSize clusterBits = 2 ^ (12 + clusterBits % 8) :=
    (Nat.pow_add 2 12 (clusterBits % 8)).symm
  rw [hsize, ← Nat.pow_add, hbits]
  rfl

/-- More clusters than an accepted size has are refused in both encodings. -/
theorem encodingsAgree_of_too_many {clusterBits : Nat}
    {clusters : List (LogicalCluster (lclusterSize clusterBits))}
    (h : ¬clusters.length * lclusterSize clusterBits ≤ kMaxUncompressedSize) :
    EncodingsAgree clusterBits clusters := by
  intro σ τ images
  have hbig : images.uncompressedSize > kMaxUncompressedSize := by
    refine Nat.lt_of_not_le fun hsize => h ?_
    have hlength := divRoundUp_le_of_le_mul (lclusterSize_pos clusterBits)
      (Nat.le_trans hsize (Nat.le_of_eq (kMaxUncompressedSize_eq clusterBits)))
    rw [images.clusters_length_eq hsize] at hlength
    rw [kMaxUncompressedSize_eq clusterBits]
    exact Nat.mul_le_mul_right _ hlength
  have hrefused : images.Refused := .inr (.inl hbig)
  obtain ⟨heads, -, hlegacy⟩ := images.legacyMap_eq
  rw [hlegacy, if_pos hrefused, images.compactMap_of_refused hrefused]

/-- For every cluster size, the lists of clusters that give one map in both encodings,
whatever the images, are those that the parser of the packs reads as they are and those
that no accepted size has. -/
theorem encodingsAgree_iff (clusterBits : Nat)
    (clusters : List (LogicalCluster (lclusterSize clusterBits))) :
    EncodingsAgree clusterBits clusters ↔
      (clusters.length * lclusterSize clusterBits ≤ kMaxUncompressedSize →
        ∀ cluster ∈ clusters, cluster.Readable) := by
  refine ⟨fun h hfits => readable_of_encodingsAgree hfits h, fun h => ?_⟩
  by_cases hfits : clusters.length * lclusterSize clusterBits ≤ kMaxUncompressedSize
  · exact encodingsAgree_of_readable (h hfits)
  · exact encodingsAgree_of_too_many hfits

/-- A compressed head at the start of a cluster of 8192 bytes. -/
def bigHead : LogicalCluster (lclusterSize 1) :=
  ⟨.head1, 0, 0, by decide +kernel, by decide +kernel⟩

/-- The images of a file that is one such cluster. -/
def bigHeadImages : Images Unit Unit 1 [bigHead] := imagesOf (by decide)

/-- The entry of the head is `0x2000`, which is read as the entry of no head. -/
theorem not_encodingsAgree : ¬∀ (clusterBits : Nat)
    (clusters : List (LogicalCluster (lclusterSize clusterBits))),
    EncodingsAgree clusterBits clusters := by
  intro h
  have hlegacy : bigHeadImages.legacyMap =
      .ok (some ⟨4096, 8192, (.lz4, .lz4), [⟨.lz4, 0, 8192, 0⟩], 0⟩) := by
    decide +kernel
  have hcompact : bigHeadImages.compactMap = .ok none := by
    decide +kernel
  have heq := h 1 [bigHead] bigHeadImages
  rw [hlegacy, hcompact] at heq
  exact absurd heq (by decide)

end ErofsExtentMap

end Erofs
