import Ralf.Erofs.ClusterEncoding

/-!
# The heads of packed indexes

The loops over the packed indexes take packs from the front of the table
(`packHeads_packBytes`, `loopHeads_packs`), so that the whole build adds the heads of
all entries (`compactHeads_table`), with the types at the bits 12 and 13 of the
entries.
-/

namespace Erofs

namespace ErofsExtentMap

variable {clusterSize : Nat}

/-! ## The heads of packs -/

/-- The heads that are read of a number of packs. -/
def packedHeads (format : PackFormat) :
    Nat → Nat → Nat → List (LogicalCluster clusterSize) → List Head
  | 0, _, _, _ => []
  | n + 1, num, blockAddr, clusters =>
    entryHeads clusterSize num (blockAddr % 2 ^ 32)
        ((clusters.take format.count).map LogicalCluster.entry) ++
      packedHeads format n (num + format.count)
        (blockAddr + blockCount (clusters.take format.count)) (clusters.drop format.count)

/-- The clusters of the packs after the first ones. -/
theorem take_drop_packs (format : PackFormat) (n : Nat)
    (clusters : List (LogicalCluster clusterSize)) :
    clusters.take ((n + 1) * format.count) =
        clusters.take format.count ++ (clusters.drop format.count).take (n * format.count) ∧
      clusters.drop ((n + 1) * format.count) =
        (clusters.drop format.count).drop (n * format.count) := by
  rw [Nat.succ_mul, Nat.add_comm, List.take_add, List.drop_drop]
  exact ⟨rfl, rfl⟩

theorem packs_add (format : PackFormat) (m n blockAddr : Nat)
    (clusters : List (LogicalCluster clusterSize)) :
    packs format (m + n) blockAddr clusters = packs format m blockAddr clusters ++
      packs format n (blockAddr + blockCount (clusters.take (m * format.count)))
        (clusters.drop (m * format.count)) := by
  induction m generalizing blockAddr clusters with
  | zero => simp [packs, blockCount]
  | succ m ih =>
    obtain ⟨htake, hdrop⟩ := take_drop_packs format m clusters
    rw [Nat.succ_add, packs, ih, packs, htake, hdrop, blockCount_append, List.append_assoc,
      Nat.add_assoc blockAddr]

theorem packedHeads_add (format : PackFormat) (m n num blockAddr : Nat)
    (clusters : List (LogicalCluster clusterSize)) :
    packedHeads format (m + n) num blockAddr clusters =
      packedHeads format m num blockAddr clusters ++
        packedHeads format n (num + m * format.count)
          (blockAddr + blockCount (clusters.take (m * format.count)))
          (clusters.drop (m * format.count)) := by
  induction m generalizing num blockAddr clusters with
  | zero => simp [packedHeads, blockCount]
  | succ m ih =>
    obtain ⟨htake, hdrop⟩ := take_drop_packs format m clusters
    have hnum : num + (m + 1) * format.count = num + format.count + m * format.count := by
      rw [Nat.succ_mul]
      omega
    rw [Nat.succ_add, packedHeads, ih, packedHeads, htake, hdrop, blockCount_append,
      List.append_assoc, Nat.add_assoc blockAddr, hnum]

section Packs

variable {format : PackFormat} {pack : Pack} (hread : format.ReadBy pack) {indexes rest : Bytes}
  {offset : Nat} {clusters : List (LogicalCluster clusterSize)}
  (hentries : ∀ cluster ∈ clusters, cluster.entry < 2 ^ format.bits)

include hread hentries

/-- A pack at the front of the bytes is read. -/
theorem packHeads_packBytes (hcount : pack.count ≤ clusters.length) (num blockAddr : Nat)
    (hdrop : indexes.drop offset =
      packBytes format blockAddr (clusters.take format.count) ++ rest) :
    packHeads pack indexes clusterSize offset num =
        ⟨entryHeads clusterSize num (blockAddr % 2 ^ 32)
          ((clusters.take pack.count).map LogicalCluster.entry), some ()⟩ ∧
      0 < pack.width ∧ offset + pack.width ≤ indexes.length := by
  have hwidth : pack.width = format.width := hread.width
  have hlength := congrArg List.length hdrop
  rw [List.length_drop, List.length_append, packBytes_length] at hlength
  have hpos : 0 < format.width := Nat.succ_pos _
  have hslice : indexes.slice offset pack.width =
      packBytes format blockAddr (clusters.take format.count) := by
    unfold Bytes.slice
    rw [hdrop, List.take_append_of_le_length (by rw [packBytes_length, hwidth]),
      List.take_of_length_le (by rw [packBytes_length, hwidth])]
  have hfits : offset + pack.width ≤ indexes.length := by omega
  refine ⟨?_, by omega, hfits⟩
  unfold packHeads
  rw [if_pos hfits, hslice]
  dsimp only
  have hmem : ∀ cluster ∈ clusters.take format.count, cluster.entry < 2 ^ format.bits :=
    fun cluster h => hentries cluster (List.mem_of_mem_take h)
  have hle : pack.count ≤ (clusters.take format.count).length := by
    rw [List.length_take]
    exact Nat.le_min.mpr ⟨hread.count_le, hcount⟩
  rw [blkaddr_packBytes hread,
    entries_packBytes hread hmem hle (List.length_take_le _ _), List.take_take,
    Nat.min_eq_left hread.count_le]

end Packs

/-- A loop over whole packs reads their heads. -/
theorem loopHeads_packs {format : PackFormat} {pack : Pack} (hread : format.ReadBy pack)
    (hcount : pack.count = format.count) {limit remaining : Nat} (hlimit : limit < format.count)
    (hremaining : remaining ≤ limit) {indexes : Bytes} (n : Nat) {num offset blockAddr : Nat}
    {clusters : List (LogicalCluster clusterSize)} {rest : Bytes}
    (hentries : ∀ cluster ∈ clusters, cluster.entry < 2 ^ format.bits)
    (hlength : n * format.count ≤ clusters.length)
    (hdrop : indexes.drop offset = packs format n blockAddr clusters ++ rest)
    (hnum : num + n * format.count + remaining < 2 ^ 32) :
    loopHeads pack indexes clusterSize limit (n * format.count + remaining) offset num =
      ⟨packedHeads format n num blockAddr clusters,
        some (remaining, offset + n * format.width, num + n * format.count)⟩ := by
  induction n generalizing num offset blockAddr clusters with
  | zero =>
    rw [loopHeads, if_neg (by omega)]
    simp [packedHeads]
  | succ n ih =>
    rw [packs, List.append_assoc] at hdrop
    rw [Nat.succ_mul] at hlength hnum
    obtain ⟨hpack, hwidth⟩ :=
      packHeads_packBytes hread hentries (by omega) num blockAddr hdrop
    have hcounter : ((n + 1) * format.count + remaining + (2 ^ 32 - pack.count)) % 2 ^ 32 =
        n * format.count + remaining := by
      rw [Nat.succ_mul]
      omega
    have hnext : indexes.drop (offset + pack.width) =
        packs format n (blockAddr + blockCount (clusters.take format.count))
          (clusters.drop format.count) ++ rest := by
      rw [← List.drop_drop, hdrop, hread.width]
      exact List.drop_left' (packBytes_length _ _ _)
    have hnum' : (num + pack.count) % 2 ^ 32 = num + format.count := by omega
    have hrest := ih (fun cluster h => hentries cluster (List.mem_of_mem_drop h))
      (by rw [List.length_drop]; omega) hnext
      (show num + format.count + n * format.count + remaining < 2 ^ 32 by omega)
    rw [loopHeads, if_pos (by rw [Nat.succ_mul]; omega), dif_pos hwidth]
    dsimp only
    rw [hcounter, hnum', hrest, hpack, hcount]
    have hoffset : offset + format.width + n * format.width =
        offset + (n + 1) * format.width := by
      rw [Nat.succ_mul]
      omega
    have hindex : num + format.count + n * format.count = num + (n + 1) * format.count := by
      rw [Nat.succ_mul]
      omega
    rw [hread.width, hoffset, hindex]
    rfl

theorem Heads.andThen_some {β γ : Type} (added : List Head) (b : β) (f : β → Heads γ) :
    Heads.andThen ⟨added, some b⟩ f = ⟨added ++ (f b).added, (f b).stop⟩ := rfl

/-- The last loop and the entry that is left over read the packs of all clusters. -/
theorem lastHeads_packs {indexes : Bytes} {num offset blockAddr : Nat}
    {clusters : List (LogicalCluster clusterSize)}
    (hdrop : indexes.drop offset =
      packs pack4B ((clusters.length + 1) / 2) blockAddr clusters)
    (hnum : num + clusters.length < 2 ^ 32) :
    ((loopHeads compact4BIndexes indexes clusterSize 1 clusters.length offset num).andThen
      fun stop =>
        if stop.1 > 0 then packHeads singleCompact4BIndex indexes clusterSize stop.2.1 stop.2.2
        else ⟨[], some ()⟩) =
      ⟨packedHeads pack4B ((clusters.length + 1) / 2) num blockAddr clusters, some ()⟩ := by
  obtain ⟨n, r, hr, hlength, hpacks⟩ : ∃ n r, r ≤ 1 ∧ clusters.length = n * pack4B.count + r ∧
      (clusters.length + 1) / 2 = n + r := by
    refine ⟨clusters.length / 2, clusters.length % 2, by omega, ?_, by omega⟩
    exact (Nat.div_add_mod' clusters.length 2).symm
  have hentries : ∀ cluster ∈ clusters, cluster.entry < 2 ^ pack4B.bits :=
    fun cluster _ => cluster.entry_lt
  rw [hpacks, packs_add] at hdrop
  rw [hpacks, hlength, packedHeads_add,
    loopHeads_packs readBy_compact4B rfl (by decide) hr n hentries (by omega) hdrop (by omega)]
  rw [Heads.andThen_some]
  dsimp only
  rcases Nat.le_one_iff_eq_zero_or_eq_one.mp hr with rfl | rfl
  · rfl
  · -- the single entry is read of the first half of a pack
    have hsingle : (clusters.drop (n * pack4B.count)).length = 1 := by
      rw [List.length_drop]
      omega
    have hfirst : indexes.drop (offset + n * pack4B.width) =
        packs pack4B 1 (blockAddr + blockCount (clusters.take (n * pack4B.count)))
          (clusters.drop (n * pack4B.count)) := by
      rw [← List.drop_drop, hdrop]
      exact List.drop_left' (packs_length _ _ _ _)
    have htake : (clusters.drop (n * pack4B.count)).take singleCompact4BIndex.count =
        (clusters.drop (n * pack4B.count)).take pack4B.count := by
      rw [List.take_of_length_le (by rw [hsingle]; decide),
        List.take_of_length_le (by rw [hsingle]; decide)]
    rw [if_pos Nat.one_pos, (packHeads_packBytes readBy_singleCompact4B
      (fun cluster h => hentries cluster (List.mem_of_mem_drop h))
      (by rw [hsingle]; decide) _ _ hfirst).1, htake]
    simp [packedHeads]

/-- The heads that are read of a table of packs. -/
theorem compactHeads_packs {table : CompactIndexes}
    (hsize : table.header.clusterSize 4096 = clusterSize)
    {m n blockAddr₀ blockAddr₁ blockAddr₂ : Nat}
    {first middle last : List (LogicalCluster clusterSize)}
    (hmiddle : ∀ cluster ∈ middle, cluster.entry < 2 ^ pack2B.bits)
    (hfirstLength : first.length = m * pack4B.count)
    (hmiddleLength : middle.length = n * pack2B.count)
    (hcounts : (table.compacted4bInitial, table.compacted2b, table.compacted4bEnd) =
      (first.length, middle.length, last.length))
    (hindexes : table.indexes = packs pack4B m blockAddr₀ first ++
      (packs pack2B n blockAddr₁ middle ++ packs pack4B ((last.length + 1) / 2) blockAddr₂ last))
    (hlength : first.length + middle.length + last.length < 2 ^ 32) :
    compactHeads 4096 table = ⟨packedHeads pack4B m 0 blockAddr₀ first ++
      (packedHeads pack2B n first.length blockAddr₁ middle ++
        packedHeads pack4B ((last.length + 1) / 2) (first.length + middle.length) blockAddr₂
          last), some ()⟩ := by
  obtain ⟨hinitial, hrest⟩ := Prod.mk.inj hcounts
  obtain ⟨htwo, hend⟩ := Prod.mk.inj hrest
  have hloop₀ := loopHeads_packs readBy_compact4B rfl (show 0 < pack4B.count by decide)
    (Nat.le_refl 0) m (fun cluster _ => cluster.entry_lt) (Nat.le_of_eq hfirstLength.symm)
    (show table.indexes.drop 0 = _ from hindexes)
    (show 0 + m * pack4B.count + 0 < 2 ^ 32 by omega)
  have hdrop₁ : table.indexes.drop (0 + m * pack4B.width) = packs pack2B n blockAddr₁ middle ++
      packs pack4B ((last.length + 1) / 2) blockAddr₂ last := by
    rw [hindexes, Nat.zero_add]
    exact List.drop_left' (packs_length _ _ _ _)
  have hloop₁ := loopHeads_packs readBy_compact2B rfl (show 0 < pack2B.count by decide)
    (Nat.le_refl 0) n hmiddle (Nat.le_of_eq hmiddleLength.symm) hdrop₁
    (show 0 + m * pack4B.count + n * pack2B.count + 0 < 2 ^ 32 by omega)
  have hdrop₂ : table.indexes.drop (0 + m * pack4B.width + n * pack2B.width) =
      packs pack4B ((last.length + 1) / 2) blockAddr₂ last := by
    rw [← List.drop_drop, hdrop₁]
    exact List.drop_left' (packs_length _ _ _ _)
  have hlast := lastHeads_packs hdrop₂
    (show 0 + m * pack4B.count + n * pack2B.count + last.length < 2 ^ 32 by omega)
  unfold compactHeads
  rw [hsize, hinitial, htwo, hend, hfirstLength, hmiddleLength]
  dsimp only
  rw [Nat.add_zero, Nat.zero_add, Nat.zero_add] at hloop₀ hloop₁
  rw [Nat.zero_add, Nat.zero_add] at hlast
  rw [hloop₀, Heads.andThen_some, hloop₁, Heads.andThen_some, hlast]

/-! ## What the packs make of a map -/

/-- The parser takes the cluster for what it is: a head that is stored plain, a head
that is compressed, or no head. -/
def LogicalCluster.Readable (cluster : LogicalCluster clusterSize) : Prop :=
  extentCompression cluster.readType = extentCompression cluster.type

instance (cluster : LogicalCluster clusterSize) : Decidable cluster.Readable :=
  inferInstanceAs (Decidable (_ = _))

/-- The clusters after a full pack, if there are any. -/
theorem take_length_or_drop_eq_nil (n : Nat) (clusters : List (LogicalCluster clusterSize)) :
    (clusters.take n).length = n ∨ clusters.drop n = [] := by
  rcases Nat.le_total n clusters.length with h | h
  · exact .inl (by rw [List.length_take, Nat.min_eq_left h])
  · exact .inr (List.drop_eq_nil_of_le h)

/-- The heads of packs, up to their addresses. -/
theorem marks_packedHeads (hsize : 2 ^ offsetBits clusterSize = clusterSize)
    (format : PackFormat) (n num blockAddr : Nat)
    (clusters : List (LogicalCluster clusterSize)) :
    ((packedHeads format n num blockAddr clusters).map Head.extent).map mark =
      marks LogicalCluster.readType num (clusters.take (n * format.count)) := by
  induction n generalizing num blockAddr clusters with
  | zero =>
    rw [Nat.zero_mul]
    rfl
  | succ n ih =>
    rw [packedHeads, List.map_append, List.map_append, extent_entryHeads hsize, ih,
      (take_drop_packs format n clusters).1, marks_append, extents_map_mark _ _ _ 0]
    rcases take_length_or_drop_eq_nil format.count clusters with h | h
    · rw [h]
      rfl
    · rw [h, List.take_nil]
      rfl

/-- The heads of packs of readable clusters. -/
theorem extent_packedHeads (hsize : 2 ^ offsetBits clusterSize = clusterSize)
    (format : PackFormat) (n num blockAddr : Nat)
    {clusters : List (LogicalCluster clusterSize)}
    (hreadable : ∀ cluster ∈ clusters, cluster.Readable) :
    (packedHeads format n num blockAddr clusters).map Head.extent =
      extents LogicalCluster.type num blockAddr (clusters.take (n * format.count)) := by
  induction n generalizing num blockAddr clusters with
  | zero =>
    rw [Nat.zero_mul]
    rfl
  | succ n ih =>
    have hfirst : ∀ cluster ∈ clusters.take format.count, cluster.Readable :=
      fun cluster h => hreadable cluster (List.mem_of_mem_take h)
    have hrest : ∀ cluster ∈ clusters.drop format.count, cluster.Readable :=
      fun cluster h => hreadable cluster (List.mem_of_mem_drop h)
    rw [packedHeads, List.map_append, extent_entryHeads hsize, extents_congr hfirst, ih _ _ hrest,
      (take_drop_packs format n clusters).1, extents_append]
    rcases take_length_or_drop_eq_nil format.count clusters with h | h
    · rw [h]
    · rw [h, List.take_nil]
      rfl

/-- Where the 2-byte packs are. The groups at both ends have 4-byte packs. -/
theorem compactLayout_spec {twoBytes : Bool} {indexesOffset : Nat} (logicalClusters : Nat)
    (haligned : twoBytes = true → indexesOffset % 8 = 0) :
    ∃ m n, compactLayout twoBytes indexesOffset logicalClusters =
        (m * pack4B.count, n * pack2B.count) ∧
      m * pack4B.count + n * pack2B.count ≤ logicalClusters ∧ (twoBytes = false → n = 0) ∧
      compactedCounts twoBytes indexesOffset logicalClusters =
        (m * pack4B.count, n * pack2B.count,
          logicalClusters - m * pack4B.count - n * pack2B.count) := by
  unfold compactLayout compactedCounts pack4B pack2B
  dsimp only
  by_cases h : twoBytes = true ∧ (32 - indexesOffset % 32) % 32 / 4 ≤ logicalClusters
  · obtain ⟨htwo, hroom⟩ := h
    have hoffset := haligned htwo
    have hinitial : (if (32 - indexesOffset % 32) / 4 = 32 / 4 then 0
        else (32 - indexesOffset % 32) / 4) = (32 - indexesOffset % 32) % 32 / 4 := by
      split_ifs <;> omega
    have heven : (32 - indexesOffset % 32) % 32 / 4 =
        (32 - indexesOffset % 32) % 32 / 8 * 2 := by omega
    rw [if_pos ⟨htwo, hroom⟩, if_pos htwo, hinitial, if_neg (Nat.not_lt.mpr hroom), heven]
    refine ⟨_, _, rfl, ?_, fun h => absurd htwo (by simp [h]), rfl⟩
    omega
  · refine ⟨0, 0, by rw [if_neg h], Nat.zero_le _, fun _ => rfl, ?_⟩
    cases htwo : twoBytes with
    | false => rfl
    | true =>
      have hroom : logicalClusters < (32 - indexesOffset % 32) % 32 / 4 :=
        Nat.lt_of_not_le fun hle => h ⟨htwo, hle⟩
      have hinitial : (if (32 - indexesOffset % 32) / 4 = 32 / 4 then 0
          else (32 - indexesOffset % 32) / 4) > logicalClusters := by
        split_ifs <;> omega
      rw [if_pos rfl, if_pos hinitial]
      rfl

/-- An entry of a 4096-byte cluster has 14 bits. -/
theorem entry_lt_of_4096 (cluster : LogicalCluster 4096) : cluster.entry < 2 ^ 14 := by
  have hlow : cluster.low < 2 ^ 12 := cluster.low_lt
  have htype := cluster.type.bits_lt
  show cluster.type.bits * 2 ^ 12 + cluster.low < 2 ^ 14
  omega

/-- A table as the packs of the clusters at the start, in the middle and at the end. -/
theorem compactTable_eq {twoBytes : Bool} {indexesOffset m n : Nat}
    {clusters : List (LogicalCluster clusterSize)}
    (hlayout : compactLayout twoBytes indexesOffset clusters.length =
      (m * pack4B.count, n * pack2B.count)) (blockAddr : Nat) :
    let first := clusters.take (m * pack4B.count)
    let middle := (clusters.drop (m * pack4B.count)).take (n * pack2B.count)
    let last := (clusters.drop (m * pack4B.count)).drop (n * pack2B.count)
    compactTable twoBytes indexesOffset blockAddr clusters =
      packs pack4B m blockAddr first ++
        (packs pack2B n (blockAddr + blockCount first) middle ++
          packs pack4B ((last.length + 1) / 2)
            (blockAddr + blockCount first + blockCount middle) last) := by
  have hm : m * pack4B.count / 2 = m := Nat.mul_div_cancel m (by decide)
  have hn : n * pack2B.count / 16 = n := Nat.mul_div_cancel n (by decide)
  intro first middle last
  have hlast : last.length = (clusters.drop (m * pack4B.count)).length - n * pack2B.count :=
    List.length_drop
  unfold compactTable
  rw [hlayout, hlast]
  dsimp only
  rw [hm, hn]

/-- The heads that are read of the table of a list of clusters. -/
theorem compactHeads_table {table : CompactIndexes} {twoBytes : Bool}
    {indexesOffset blockAddr : Nat} {clusters : List (LogicalCluster clusterSize)}
    (htableSize : table.header.clusterSize 4096 = clusterSize)
    (hsize : 2 ^ offsetBits clusterSize = clusterSize)
    (htwo : twoBytes = true → clusterSize = 4096)
    (haligned : twoBytes = true → indexesOffset % 8 = 0)
    (hcounts : (table.compacted4bInitial, table.compacted2b, table.compacted4bEnd) =
      compactedCounts twoBytes indexesOffset clusters.length)
    (hindexes : table.indexes = compactTable twoBytes indexesOffset blockAddr clusters)
    (hlength : clusters.length < 2 ^ 32) :
    ∃ heads, compactHeads 4096 table = ⟨heads, some ()⟩ ∧
      (heads.map Head.extent).map mark = marks LogicalCluster.readType 0 clusters ∧
      ((∀ cluster ∈ clusters, cluster.Readable) →
        heads.map Head.extent = extents LogicalCluster.type 0 blockAddr clusters) := by
  obtain ⟨m, n, hlayout, hroom, hn, hcounts'⟩ := compactLayout_spec clusters.length haligned
  obtain ⟨first, middle, last, hsplit, hfirst, hmiddle, hlast, htable⟩ :
      ∃ first middle last : List (LogicalCluster clusterSize),
        clusters = first ++ (middle ++ last) ∧
        first.length = m * pack4B.count ∧ middle.length = n * pack2B.count ∧
        last.length = clusters.length - m * pack4B.count - n * pack2B.count ∧
        table.indexes = packs pack4B m blockAddr first ++
          (packs pack2B n (blockAddr + blockCount first) middle ++
            packs pack4B ((last.length + 1) / 2)
              (blockAddr + blockCount first + blockCount middle) last) := by
    refine ⟨_, _, _, ?_, ?_, ?_, ?_, hindexes.trans (compactTable_eq hlayout blockAddr)⟩
    · rw [List.take_append_drop, List.take_append_drop]
    · rw [List.length_take]
      omega
    · rw [List.length_take, List.length_drop]
      omega
    · rw [List.length_drop, List.length_drop]
  have hentries : ∀ cluster ∈ middle, cluster.entry < 2 ^ pack2B.bits := by
    cases htwoBytes : twoBytes with
    | false =>
      have hnil : middle = [] :=
        List.eq_nil_of_length_eq_zero (by rw [hmiddle, hn htwoBytes, Nat.zero_mul])
      rw [hnil]
      exact fun _ h => absurd h List.not_mem_nil
    | true =>
      have h4096 := htwo htwoBytes
      subst h4096
      exact fun cluster _ => entry_lt_of_4096 cluster
  have hheads := compactHeads_packs htableSize hentries hfirst hmiddle
    (by rw [hcounts, hcounts', hfirst, hmiddle, hlast]) htable (by omega)
  have htakeFirst : first.take (m * pack4B.count) = first :=
    List.take_of_length_le (Nat.le_of_eq hfirst)
  have htakeMiddle : middle.take (n * pack2B.count) = middle :=
    List.take_of_length_le (Nat.le_of_eq hmiddle)
  have htakeLast : last.take ((last.length + 1) / 2 * pack4B.count) = last :=
    List.take_of_length_le (show last.length ≤ (last.length + 1) / 2 * 2 by omega)
  refine ⟨_, hheads, ?_, fun hreadable => ?_⟩
  · rw [List.map_append, List.map_append, List.map_append, List.map_append,
      marks_packedHeads hsize, marks_packedHeads hsize, marks_packedHeads hsize, htakeFirst,
      htakeMiddle, htakeLast, hsplit, marks_append, marks_append, Nat.zero_add]
  · rw [hsplit] at hreadable
    have hreadable' := List.forall_mem_append.mp hreadable
    have hreadable'' := List.forall_mem_append.mp hreadable'.2
    rw [List.map_append, List.map_append, extent_packedHeads hsize _ _ _ _ hreadable'.1,
      extent_packedHeads hsize _ _ _ _ hreadable''.1,
        extent_packedHeads hsize _ _ _ _ hreadable''.2,
      htakeFirst, htakeMiddle, htakeLast, hsplit, extents_append, extents_append, Nat.zero_add]

/-- The bytes of a table are those that the parser reads. -/
theorem compactTable_length {twoBytes : Bool} {indexesOffset initial middle last : Nat}
    {clusters : List (LogicalCluster clusterSize)} (blockAddr : Nat)
    (haligned : twoBytes = true → indexesOffset % 8 = 0)
    (hcounts : compactedCounts twoBytes indexesOffset clusters.length = (initial, middle, last)) :
    (compactTable twoBytes indexesOffset blockAddr clusters).length =
      initial * 4 + middle * 2 + (last + 1) / 2 * 2 * 4 := by
  obtain ⟨m, n, hlayout, hroom, -, hcounts'⟩ := compactLayout_spec clusters.length haligned
  obtain ⟨rfl, hrest⟩ := Prod.mk.inj (hcounts.symm.trans hcounts')
  obtain ⟨rfl, rfl⟩ := Prod.mk.inj hrest
  rw [compactTable_eq hlayout, List.length_append, List.length_append, packs_length, packs_length,
    packs_length, List.length_drop, List.length_drop]
  show m * 8 + (n * 32 + _ * 8) = m * 2 * 4 + n * 16 * 2 + _ * 2 * 4
  omega

end ErofsExtentMap

end Erofs
