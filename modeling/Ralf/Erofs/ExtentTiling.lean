import Ralf.Erofs.ExtentMap

/-!
# When the extents partition the data

The heads of the logical clusters go through three levels here:

1. both index formats are a list of heads that `addAll` adds one after another
   (`addLegacyIndexes_eq`, `addCompactIndexes_eq`);
2. on the offsets alone, `place` says what adding one head does, and `Filling` ties
   a map to the offsets placed in it (`add_refines`);
3. a map filled with `points` has the intervals cut at `points` (`Filling.spans`),
   and these partition the data exactly when the points start at 0 and increase.

`add` does not compare an offset with the one before it, and a map for no blocks
accepts heads. `wellBuilt_iff` is the condition on the heads under which neither
shows.
-/

namespace Erofs

open Intervals

namespace ErofsExtentMap

/-! ## What a map is for -/

/-- The ranges of the uncompressed data that the entries stand for. -/
def spans (map : ErofsExtentMap) : List (Nat × Nat) :=
  map.entries.map fun entry => (entry.uncomprOffset, entry.uncomprSize)

/-- The extents partition `[0, size)`, a search finds the extent of every offset in
the range, and no search leaves the entries. -/
structure Partitions (map : ErofsExtentMap) (size : Nat) : Prop where
  tiles : Tiles 0 size map.spans
  find : ∀ offset < size, ∃ i entry, map.find offset = .ok i ∧ map.entries[i]? = some entry ∧
    entry.uncomprOffset ≤ offset ∧ offset < entry.uncomprOffset + entry.uncomprSize
  inBounds : ∀ offset, map.find offset ≠ .error .outOfBounds

/-- What a build has to give: no access outside the entries, and a map that
partitions the data if it gives one. -/
def WellBuilt {σ : Type} (size : Nat) : Except Fault (Option ErofsExtentMap × σ) → Prop
  | .error fault => fault ≠ .outOfBounds
  | .ok (none, _) => True
  | .ok (some map, _) => map.Partitions size

/-- The search test on an extent of the range: the extent ends at or before the
offset. -/
theorem ends_before_iff {start size total offset : Nat} (hpos : 0 < size)
    (hle : start + size ≤ total) (htotal : total < 2 ^ 64) :
    wrapSub64 (wrap64 (start + size)) 1 < offset ↔ start + size ≤ offset := by
  rw [wrap64_of_lt (by omega), wrapSub64_of_le (by omega) (by omega)]
  omega

/-- Extents that tile are searched correctly. -/
theorem partitions_of_tiles {map : ErofsExtentMap} {size : Nat} (hsize : size < 2 ^ 64)
    (h : Tiles 0 size map.spans) : map.Partitions size := by
  have hmem : ∀ entry ∈ map.entries, 0 < entry.uncomprSize ∧
      entry.uncomprOffset + entry.uncomprSize ≤ size := by
    intro entry hentry
    exact (h.mem_le (List.mem_map.mpr ⟨entry, hentry, rfl⟩)).2
  have hfind : ∀ offset < size, ∃ i entry, map.find offset = .ok i ∧ map.entries[i]? = some entry ∧
      entry.uncomprOffset ≤ offset ∧ offset < entry.uncomprOffset + entry.uncomprSize := by
    intro offset hoffset
    obtain ⟨before, i, after, hspans, hbefore, hstart, hend, hafter⟩ :=
      h.split (Nat.zero_le _) hoffset
    obtain ⟨before, rest, hentries, rfl, hrest⟩ := List.map_eq_append_iff.mp hspans
    obtain ⟨entry, after, rfl, rfl, rfl⟩ := List.map_eq_cons_iff.mp hrest
    rw [hentries] at hmem
    have hit : lowerBound
        (fun entry : Extent =>
          wrapSub64 (wrap64 (entry.uncomprOffset + entry.uncomprSize)) 1 < offset)
        (before ++ entry :: after) = before.length := by
      refine lowerBound_eq ?_ ?_
      · intro x hx
        obtain ⟨hpos, hle⟩ := hmem x (List.mem_append_left _ hx)
        exact decide_eq_true ((ends_before_iff hpos hle hsize).mpr
          (hbefore _ (List.mem_map.mpr ⟨x, hx, rfl⟩)))
      · intro x hx
        obtain ⟨hpos, hle⟩ := hmem x (List.mem_append_right _ hx)
        refine decide_eq_false fun hlt => ?_
        have hends := (ends_before_iff hpos hle hsize).mp hlt
        rcases List.mem_cons.mp hx with rfl | hx
        · exact absurd hend (Nat.not_lt.mpr hends)
        · exact absurd (hafter _ (List.mem_map.mpr ⟨x, hx, rfl⟩)) (Nat.not_lt.mpr hends)
    have hget : (before ++ entry :: after)[before.length]? = some entry := by simp
    refine ⟨before.length, entry, ?_, by rw [hentries, hget], hstart, hend⟩
    unfold ErofsExtentMap.find
    rw [hentries, hit]
    simp only [hget]
    rw [if_neg (Nat.not_lt.mpr hstart)]
  refine ⟨h, hfind, fun offset => ?_⟩
  rcases Nat.lt_or_ge offset size with hlt | hge
  · obtain ⟨i, entry, hi, -⟩ := hfind offset hlt
    rw [hi]
    exact fun h => nomatch h
  · -- behind the data every extent ends before the offset
    have hit : lowerBound
        (fun entry : Extent =>
          wrapSub64 (wrap64 (entry.uncomprOffset + entry.uncomprSize)) 1 < offset)
        map.entries = map.entries.length := by
      have := @lowerBound_eq _ (fun entry : Extent =>
        wrapSub64 (wrap64 (entry.uncomprOffset + entry.uncomprSize)) 1 < offset) map.entries []
      rw [List.append_nil] at this
      refine this (fun x hx => ?_) fun x hx => absurd hx List.not_mem_nil
      obtain ⟨hpos, hle⟩ := hmem x hx
      exact decide_eq_true ((ends_before_iff hpos hle hsize).mpr (Nat.le_trans hle hge))
    unfold ErofsExtentMap.find
    rw [hit]
    simp

/-! ## The heads of an index table -/

/-- A head cluster: what `add` is called with. -/
structure Head where
  type : ErofsLclusterType
  isHead : type ≠ .nonHead
  uncomprOffset : Nat
  blockAddr : Nat

/-- Adds heads one after another. -/
def addAll : List Head → ErofsExtentMap → Attempt ErofsExtentMap
  | [], map => .ok (some map)
  | head :: rest, map =>
    (map.add head.type head.uncomprOffset head.blockAddr).andThen (addAll rest)

theorem addAll_append (heads heads' : List Head) (map : ErofsExtentMap) :
    addAll (heads ++ heads') map = (addAll heads map).andThen (addAll heads') := by
  induction heads generalizing map with
  | nil => rfl
  | cons head rest ih =>
    show (map.add _ _ _).andThen (addAll (rest ++ heads')) = _
    rw [addAll, Attempt.andThen_assoc, funext ih]

/-- The heads that a part of a build adds, and what it ends with: none when it
leaves the packed indexes after these heads. -/
structure Heads (β : Type) where
  added : List Head
  stop : Option β

namespace Heads

variable {α β γ : Type}

/-- One part of a build after another. -/
def andThen (heads : Heads β) (f : β → Heads γ) : Heads γ :=
  match heads.stop with
  | none => ⟨heads.added, none⟩
  | some b => ⟨heads.added ++ (f b).added, (f b).stop⟩

/-- Adds the heads to a map. -/
def run (heads : Heads β) (result : β → ErofsExtentMap → α) (map : ErofsExtentMap) : Attempt α :=
  (addAll heads.added map).andThen fun map =>
    match heads.stop with
    | none => .error .overread
    | some b => .ok (some (result b map))

theorem run_andThen {heads : Heads β} {f : β → Heads γ} {result : β → ErofsExtentMap → α}
    {α' : Type} {next : α → Attempt α'} {result' : γ → ErofsExtentMap → α'}
    (h : ∀ b map, next (result b map) = (f b).run result' map) (map : ErofsExtentMap) :
    (heads.run result map).andThen next = (heads.andThen f).run result' map := by
  obtain ⟨added, stop⟩ := heads
  unfold run andThen
  rw [Attempt.andThen_assoc]
  cases stop with
  | none => rfl
  | some b =>
    dsimp only
    rw [addAll_append, Attempt.andThen_assoc]
    refine congrArg _ (funext fun map => ?_)
    exact h b map

end Heads

/-- The heads of an array of cluster indexes. -/
def clusterHeads (clusterSize : Nat) : Nat → List ErofsLclusterIndex → List Head
  | _, [] => []
  | num, cluster :: rest =>
    if h : ErofsLclusterType.ofBits cluster.advise = .nonHead then
      clusterHeads clusterSize (num + 1) rest
    else
      ⟨_, h, wrap64 (num * clusterSize) ||| cluster.clusterOffset, cluster.blkAddr⟩ ::
        clusterHeads clusterSize (num + 1) rest

theorem addLegacyIndexes_eq_addAll (clusterSize num : Nat) (indexes : List ErofsLclusterIndex)
    (map : ErofsExtentMap) :
    addLegacyIndexes clusterSize num indexes map = addAll
      (clusterHeads clusterSize num indexes) map := by
  induction indexes generalizing num map with
  | nil => rfl
  | cons cluster rest ih =>
    unfold addLegacyIndexes clusterHeads
    by_cases h : ErofsLclusterType.ofBits cluster.advise = .nonHead
    · rw [dif_pos h]
      dsimp only
      rw [if_pos h, ih]
    · rw [dif_neg h, addAll]
      dsimp only
      rw [if_neg h, funext (ih (num + 1))]

/-- The heads of a table of cluster indexes. -/
def legacyHeads (blockSize : Nat) (table : LegacyIndexes) : Heads Unit :=
  ⟨clusterHeads (table.header.clusterSize blockSize) 0 table.clusterIndexes, some ()⟩

theorem addLegacyIndexes_eq (blockSize : Nat) (table : LegacyIndexes) (map : ErofsExtentMap) :
    addLegacyIndexes (table.header.clusterSize blockSize) 0 table.clusterIndexes map =
      (legacyHeads blockSize table).run (fun _ map => map) map := by
  rw [addLegacyIndexes_eq_addAll]
  exact (Attempt.andThen_self _).symm

/-- The heads of a group of packed entries. -/
def entryHeads (clusterSize : Nat) : Nat → Nat → List Nat → List Head
  | _, _, [] => []
  | clusterIndex, blkaddr, entry :: rest =>
    if h : ErofsLclusterType.ofBits (entry / 2 ^ 12) = .nonHead then
      entryHeads clusterSize (clusterIndex + 1) blkaddr rest
    else
      ⟨_, h, wrap64 (clusterIndex * clusterSize) ||| (entry &&& (clusterSize - 1)), blkaddr⟩ ::
        entryHeads clusterSize (clusterIndex + 1) ((blkaddr + 1) % 2 ^ 32) rest

theorem addEntries_eq (clusterSize clusterIndex blkaddr : Nat) (entries : List Nat)
    (map : ErofsExtentMap) :
    addEntries clusterSize clusterIndex blkaddr entries map =
      addAll (entryHeads clusterSize clusterIndex blkaddr entries) map := by
  induction entries generalizing clusterIndex blkaddr map with
  | nil => rfl
  | cons entry rest ih =>
    unfold addEntries entryHeads
    by_cases h : ErofsLclusterType.ofBits (entry / 2 ^ 12) = .nonHead
    · rw [dif_pos h]
      dsimp only
      rw [if_pos h, ih]
    · rw [dif_neg h, addAll]
      dsimp only
      rw [if_neg h, funext (ih (clusterIndex + 1) ((blkaddr + 1) % 2 ^ 32))]

/-- The heads of the group at an offset. -/
def packHeads (pack : Pack) (indexes : Bytes) (clusterSize dataOffset clusterIndex : Nat) :
    Heads Unit :=
  if dataOffset + pack.width ≤ indexes.length then
    let data := indexes.slice dataOffset pack.width
    ⟨entryHeads clusterSize clusterIndex (pack.blkaddr data) (pack.entries data), some ()⟩
  else ⟨[], none⟩

theorem processIndexes_eq (pack : Pack) (indexes : Bytes)
    (clusterSize dataOffset clusterIndex : Nat)
    (map : ErofsExtentMap) :
    processIndexes pack indexes clusterSize ⟨map, dataOffset, clusterIndex⟩ =
      (packHeads pack indexes clusterSize dataOffset clusterIndex).run (fun _ map => map) map := by
  unfold processIndexes packHeads Heads.run
  by_cases h : dataOffset + pack.width ≤ indexes.length
  · rw [if_pos h, if_pos h]
    dsimp only
    rw [addEntries_eq]
    cases addAll _ map with
    | error fault => rfl
    | ok result => cases result <;> rfl
  · rw [if_neg h, if_neg h]
    rfl

/-- The heads that a loop over groups adds, and the counter, the offset and the
cluster index it ends with. -/
def loopHeads (pack : Pack) (indexes : Bytes) (clusterSize limit remaining dataOffset
    clusterIndex : Nat) : Heads (Nat × Nat × Nat) :=
  if remaining > limit then
    if _h : 0 < pack.width ∧ dataOffset + pack.width ≤ indexes.length then
      let rest := loopHeads pack indexes clusterSize limit
        ((remaining + (2 ^ 32 - pack.count)) % 2 ^ 32) (dataOffset + pack.width)
        ((clusterIndex + pack.count) % 2 ^ 32)
      (packHeads pack indexes clusterSize dataOffset clusterIndex).andThen fun _ => rest
    else ⟨[], none⟩
  else ⟨[], some (remaining, dataOffset, clusterIndex)⟩
  termination_by indexes.length - dataOffset

/-- The counter and the position after a loop. -/
def afterLoop (stop : Nat × Nat × Nat) (map : ErofsExtentMap) : Nat × PackPosition :=
  (stop.1, ⟨map, stop.2.1, stop.2.2⟩)

theorem processLoop_eq (pack : Pack) (indexes : Bytes) (clusterSize limit remaining dataOffset
    clusterIndex : Nat) (map : ErofsExtentMap) :
    processLoop pack indexes clusterSize limit remaining ⟨map, dataOffset, clusterIndex⟩ =
      (loopHeads pack indexes clusterSize limit remaining dataOffset clusterIndex).run
        afterLoop map := by
  induction remaining, dataOffset, clusterIndex using
    loopHeads.induct pack indexes clusterSize limit generalizing map with
  | case1 remaining dataOffset clusterIndex hlimit hfits ih =>
    rw [processLoop, loopHeads, if_pos hlimit, if_pos hlimit, dif_pos hfits, dif_pos hfits,
      processIndexes_eq]
    refine Heads.run_andThen (fun _ map => ?_) map
    exact ih map
  | case2 remaining dataOffset clusterIndex hlimit hfits =>
    rw [processLoop, loopHeads, if_pos hlimit, if_pos hlimit, dif_neg hfits, dif_neg hfits]
    rfl
  | case3 remaining dataOffset clusterIndex hlimit =>
    rw [processLoop, loopHeads, if_neg hlimit, if_neg hlimit]
    rfl

/-- The heads of the packed indexes. -/
def compactHeads (blockSize : Nat) (table : CompactIndexes) : Heads Unit :=
  let clusterSize := table.header.clusterSize blockSize
  let loop (pack : Pack) := loopHeads pack table.indexes clusterSize
  (loop compact4BIndexes 0 table.compacted4bInitial 0 0).andThen fun (_, dataOffset,
    clusterIndex) =>
  (loop compact2BIndexes 0 table.compacted2b dataOffset clusterIndex).andThen
    fun (_, dataOffset, clusterIndex) =>
  (loop compact4BIndexes 1 table.compacted4bEnd dataOffset clusterIndex).andThen
    fun (compacted4bEnd, dataOffset, clusterIndex) =>
  if compacted4bEnd > 0 then
    packHeads singleCompact4BIndex table.indexes clusterSize dataOffset clusterIndex
  else ⟨[], some ()⟩

theorem addCompactIndexes_eq (blockSize : Nat) (table : CompactIndexes) (map : ErofsExtentMap) :
    addCompactIndexes blockSize table map =
      (compactHeads blockSize table).run (fun _ map => map) map := by
  unfold addCompactIndexes compactHeads
  dsimp only
  rw [processLoop_eq]
  refine Heads.run_andThen (fun stop map => ?_) map
  dsimp only [afterLoop]
  rw [processLoop_eq]
  refine Heads.run_andThen (fun stop map => ?_) map
  dsimp only [afterLoop]
  rw [processLoop_eq]
  refine Heads.run_andThen (fun stop map => ?_) map
  dsimp only [afterLoop]
  split_ifs with hpos
  · exact processIndexes_eq _ _ _ _ _ _
  · rfl

/-! ## Adding a head, on the offsets alone -/

/-- Adding a head at `offset` to a map of `n` extents that holds `points`. -/
def place (n size : Nat) (points : List Nat) (offset : Nat) : Attempt (List Nat) :=
  if offset > size then .ok none
  else if offset = size then .ok (some points)
  else if points.length < n then .ok (some (points ++ [offset]))
  else if n = 0 then .error .outOfBounds
  else .ok none

/-- The state of a map of `n` extents that holds `points`: the intervals cut at the
points, the last one still empty unless the map is full, and untouched entries. -/
structure Filling (n size : Nat) (points : List Nat) (map : ErofsExtentMap) : Prop where
  comprAlgos : map.comprAlgos = (.lz4, .lz4)
  uncomprSize : map.uncomprSize = size
  length : map.entries.length = n
  points_le : points.length ≤ n
  lastAddedIndex : map.lastAddedIndex = wrapSub64 points.length 1
  spans : map.spans = cut (if points.length = n then size else points.getLastD 0) points ++
    List.replicate (n - points.length) (0, 0)

variable {n size : Nat} {points : List Nat} {map : ErofsExtentMap}

theorem Filling.new (n size blockSize : Nat) :
    Filling n size [] (new size n blockSize 0 0) := by
  refine ⟨rfl, rfl, List.length_replicate, Nat.zero_le _, rfl, ?_⟩
  show List.map _ (List.replicate n Extent.init) = _
  rw [List.map_replicate]
  simp [cut, Extent.init]

theorem modifyEntry_eq {index : Nat} {entry : Extent} (h : map.entries[index]? = some entry)
    (f : Extent → Extent) : map.modifyEntry index f =
      .ok (some { map with entries := map.entries.set index (f entry) }) := by
  unfold modifyEntry
  rw [h]

/-- Setting an entry sets its range. -/
theorem spans_set (map : ErofsExtentMap) (index : Nat) (entry : Extent) :
    spans { map with entries := map.entries.set index entry } =
      map.spans.set index (entry.uncomprOffset, entry.uncomprSize) :=
  List.map_set

/-- The entry of a range. -/
theorem exists_entry {index start length : Nat} (h : map.spans[index]? = some (start, length)) :
    ∃ entry, map.entries[index]? = some entry ∧ entry.uncomprOffset = start ∧
      entry.uncomprSize = length := by
  unfold spans at h
  rw [List.getElem?_map, Option.map_eq_some_iff] at h
  obtain ⟨entry, hentry, heq⟩ := h
  cases heq
  exact ⟨entry, hentry, rfl, rfl⟩

theorem headCompression_isSome (halgos : map.comprAlgos = (.lz4, .lz4)) {type : ErofsLclusterType}
    (htype : type ≠ .nonHead) : ∃ compression, map.headCompression type = some compression := by
  unfold headCompression
  rw [halgos]
  cases type with
  | plain => exact ⟨_, rfl⟩
  | head1 => exact ⟨_, rfl⟩
  | nonHead => exact absurd rfl htype
  | head2 => exact ⟨.lz4, rfl⟩

/-- The same state when the ranges are closed at `offset` and the next entry is
about to be filled. -/
structure Pending (n size : Nat) (points : List Nat) (offset : Nat)
    (map : ErofsExtentMap) : Prop where
  comprAlgos : map.comprAlgos = (.lz4, .lz4)
  uncomprSize : map.uncomprSize = size
  length : map.entries.length = n
  lastAddedIndex : map.lastAddedIndex = points.length
  spans : map.spans = cut offset points ++ List.replicate (n - points.length) (0, 0)

/-- Filling the next entry places the offset. -/
theorem Pending.fillEntry {offset : Nat} (h : Pending n size points offset map) (hn : n < 2 ^ 64)
    (hoffset : offset < 2 ^ 64) (hlt : points.length < n) {type : ErofsLclusterType}
    (htype : type ≠ .nonHead) (blockAddr : Nat) :
    Attempt.Rel (Filling n size) (.ok (some (points ++ [offset])))
      (map.fillEntry type offset blockAddr) := by
  obtain ⟨compression, hcompression⟩ := headCompression_isSome h.comprAlgos htype
  obtain ⟨entry, hentry⟩ : ∃ entry, map.entries[points.length]? = some entry :=
    ⟨_, List.getElem?_eq_getElem (by rw [h.length]; exact hlt)⟩
  unfold ErofsExtentMap.fillEntry
  simp only [hcompression, h.lastAddedIndex]
  rw [modifyEntry_eq hentry]
  refine ⟨h.comprAlgos, h.uncomprSize, ?_, ?_, ?_, ?_⟩
  · rw [List.length_set, h.length]
  · rw [List.length_append, List.length_singleton]
    exact hlt
  · show map.lastAddedIndex = _
    rw [h.lastAddedIndex, List.length_append, List.length_singleton,
      wrapSub64_of_le (Nat.le_add_left _ _) (by omega)]
    rfl
  · have hrest : List.replicate (n - points.length) ((0, 0) : Nat × Nat) =
        (0, 0) :: List.replicate (n - (points.length + 1)) (0, 0) := by
      rw [← List.replicate_succ]
      congr 1
      omega
    have hlastIndex : points.length = wrapSub64 n 1 ↔ points.length + 1 = n := by
      rw [wrapSub64_of_le (by omega) hn]
      omega
    rw [spans_set, h.spans, h.length, h.uncomprSize, hrest,
      List.set_append_right _ _ (by rw [cut_length]), cut_length, Nat.sub_self, List.set_cons_zero,
      cut_concat, List.length_append, List.length_singleton, List.append_assoc,
      List.singleton_append]
    congr 3
    by_cases hfull : points.length + 1 = n
    · rw [if_pos hfull, if_pos (hlastIndex.mpr hfull)]
    · rw [if_neg hfull, if_neg (fun h => hfull (hlastIndex.mp h)), List.getLastD_concat,
        wrapSub64_self hoffset]

/-- Without entries there is none to fill. -/
theorem Pending.fillEntry_fault {offset : Nat} (h : Pending 0 size [] offset map)
    {type : ErofsLclusterType} (htype : type ≠ .nonHead) (blockAddr : Nat) :
    map.fillEntry type offset blockAddr = .error .outOfBounds := by
  obtain ⟨compression, hcompression⟩ := headCompression_isSome h.comprAlgos htype
  have hnone : map.entries[0]? = none := List.getElem?_eq_none (Nat.le_of_eq h.length)
  unfold ErofsExtentMap.fillEntry modifyEntry
  simp only [hcompression, h.lastAddedIndex, List.length_nil, hnone]

/-- The extent placed last is closed at the next offset. -/
theorem Filling.close {init : List Nat} {x : Nat} (h : Filling n size (init ++ [x]) map)
    (hlast : map.lastAddedIndex = init.length) (hx : x < 2 ^ 64) (hlt : init.length + 1 < n)
    (offset : Nat) :
    ∃ map', map.modifyEntry map.lastAddedIndex (fun entry =>
        { entry with uncomprSize := wrapSub64 offset entry.uncomprOffset }) = .ok (some map') ∧
      Pending n size (init ++ [x]) offset
        { map' with lastAddedIndex := map'.lastAddedIndex + 1 } := by
  have hspans := h.spans
  rw [List.length_append, List.length_singleton, if_neg (Nat.ne_of_lt hlt), List.getLastD_concat,
    cut_concat, wrapSub64_self hx, List.append_assoc, List.singleton_append] at hspans
  obtain ⟨entry, hentry, hstart, -⟩ : ∃ entry, map.entries[init.length]? = some entry ∧
      entry.uncomprOffset = x ∧ entry.uncomprSize = 0 := by
    refine exists_entry ?_
    rw [hspans, List.getElem?_append_right (by rw [cut_length]), cut_length, Nat.sub_self]
    rfl
  rw [hlast, modifyEntry_eq hentry]
  refine ⟨_, rfl, h.comprAlgos, h.uncomprSize, ?_, ?_, ?_⟩
  · exact List.length_set.trans h.length
  · show map.lastAddedIndex + 1 = _
    rw [hlast, List.length_append, List.length_singleton]
  · show ErofsExtentMap.spans { map with entries := map.entries.set init.length _ } = _
    rw [spans_set, hspans, List.set_append_right _ _ (by rw [cut_length]), cut_length, Nat.sub_self,
      List.set_cons_zero, cut_concat, List.length_append, List.length_singleton, List.append_assoc,
      List.singleton_append, hstart]

/-- `add` places its offset. -/
theorem add_filling (h : Filling n size points map) (hn : n < 2 ^ 64) (hsize : size < 2 ^ 64)
    (hpoints : ∀ x ∈ points, x < size) {type : ErofsLclusterType} (htype : type ≠ .nonHead)
    (offset blockAddr : Nat) :
    Attempt.Rel (Filling n size) (place n size points offset) (map.add type offset blockAddr) := by
  have huncompr := h.uncomprSize
  subst huncompr
  unfold place add
  by_cases hgt : offset > map.uncomprSize
  · rw [if_pos hgt, if_pos hgt]
    trivial
  rw [if_neg hgt, if_neg hgt]
  by_cases heq : offset = map.uncomprSize
  · rw [if_pos heq, if_pos heq]
    exact h
  rw [if_neg heq, if_neg heq]
  have hoffset : offset < 2 ^ 64 := by omega
  rcases List.eq_nil_or_concat points with rfl | ⟨init, x, rfl⟩
  · have hpending : Pending n map.uncomprSize [] offset { map with lastAddedIndex := 0 } :=
      ⟨h.comprAlgos, h.uncomprSize, h.length, rfl, by
        show map.spans = _
        simpa [cut] using h.spans⟩
    have hfirst : wrapSub64 ([] : List Nat).length 1 = sizeMax := rfl
    rw [h.lastAddedIndex, if_pos hfirst]
    by_cases hpos : ([] : List Nat).length < n
    · rw [if_pos hpos]
      exact hpending.fillEntry hn hoffset hpos htype blockAddr
    · -- the source writes to an entry although there is none
      cases Nat.le_zero.mp (Nat.not_lt.mp hpos)
      rw [if_neg hpos, if_pos rfl, hpending.fillEntry_fault htype]
      rfl
  · have hle := h.points_le
    have hlast := h.lastAddedIndex
    rw [List.concat_eq_append] at *
    rw [List.length_append, List.length_singleton] at hle hlast ⊢
    rw [wrapSub64_of_le (by omega) (by omega), Nat.add_sub_cancel] at hlast
    have hnotFirst : init.length ≠ sizeMax := by
      unfold sizeMax
      omega
    rw [h.length, hlast, wrapSub64_of_le (by omega) hn, if_neg hnotFirst]
    by_cases hlt : init.length + 1 < n
    · have hfree : ¬init.length ≥ n - 1 := by omega
      rw [if_pos hlt, if_neg hfree]
      obtain ⟨map', hmodify, hpending⟩ :=
        h.close hlast (by have := hpoints x (by simp); omega) hlt offset
      rw [← hlast, hmodify, Attempt.andThen_some]
      exact hpending.fillEntry hn hoffset (by simpa using hlt) htype blockAddr
    · have hn0 : n ≠ 0 := by omega
      have hfull : init.length ≥ n - 1 := by omega
      rw [if_neg hlt, if_neg hn0, if_pos hfull]
      trivial

/-! ## Adding all heads -/

/-- Adding heads at the offsets, one after another. -/
def placeAll (n size : Nat) : List Nat → List Nat → Attempt (List Nat)
  | [], points => .ok (some points)
  | offset :: rest, points => (place n size points offset).andThen (placeAll n size rest)

/-- What `place` gives when it gives points. -/
theorem place_eq_some {offset : Nat} {points' : List Nat}
    (h : place n size points offset = .ok (some points')) :
    offset = size ∧ points' = points ∨
      offset < size ∧ points.length < n ∧ points' = points ++ [offset] := by
  unfold place at h
  split_ifs at h with hgt heq hlt
  · cases h
  · cases h
    exact .inl ⟨heq, rfl⟩
  · cases h
    exact .inr ⟨by omega, hlt, rfl⟩
  · cases h

theorem place_lt {offset : Nat} {points' : List Nat} (hpoints : ∀ x ∈ points, x < size)
    (h : place n size points offset = .ok (some points')) : ∀ x ∈ points', x < size := by
  rcases place_eq_some h with ⟨-, rfl⟩ | ⟨hlt, -, rfl⟩
  · exact hpoints
  · intro x hx
    rcases List.mem_append.mp hx with hx | hx
    · exact hpoints x hx
    · rwa [List.mem_singleton.mp hx]

/-- Adding heads places their offsets. -/
theorem addAll_filling (hn : n < 2 ^ 64) (hsize : size < 2 ^ 64) (heads : List Head)
    (h : Filling n size points map) (hpoints : ∀ x ∈ points, x < size) :
    Attempt.Rel (fun points map => Filling n size points map ∧ ∀ x ∈ points, x < size)
      (placeAll n size (heads.map Head.uncomprOffset) points) (addAll heads map) := by
  induction heads generalizing points map with
  | nil => exact ⟨h, hpoints⟩
  | cons head rest ih =>
    have hadd := add_filling h hn hsize hpoints head.isHead head.uncomprOffset head.blockAddr
    have hstep : Attempt.Rel (fun points map => Filling n size points map ∧ ∀ x ∈ points, x < size)
        (place n size points head.uncomprOffset)
          (map.add head.type head.uncomprOffset head.blockAddr) :=
      hadd.imp fun points' map' hplace hmap' => ⟨hmap', place_lt hpoints hplace⟩
    exact hstep.andThen fun points' map' h' => ih h'.1 h'.2

/-- The offsets that take an entry: those at the end of the data do not. -/
def headPoints (size : Nat) (offsets : List Nat) : List Nat := offsets.filter (· ≠ size)

/-- The result of placing all offsets. -/
theorem placeAll_eq_some_iff {offsets points' : List Nat} (hpoints : points.length ≤ n) :
    placeAll n size offsets points = .ok (some points') ↔
      (∀ offset ∈ offsets, offset ≤ size) ∧ points' = points ++ headPoints size offsets ∧
        points'.length ≤ n := by
  induction offsets generalizing points with
  | nil =>
    simp only [placeAll, headPoints, List.filter_nil, List.append_nil, Except.ok.injEq,
      Option.some.injEq]
    constructor
    · rintro rfl
      exact ⟨fun _ h => absurd h List.not_mem_nil, rfl, hpoints⟩
    · rintro ⟨-, rfl, -⟩
      rfl
  | cons offset rest ih =>
    rw [placeAll, List.forall_mem_cons]
    rcases Nat.lt_trichotomy offset size with hlt | rfl | hgt
    · have hcons : headPoints size (offset :: rest) = offset :: headPoints size rest :=
        List.filter_cons_of_pos (by simpa using Nat.ne_of_lt hlt)
      rw [hcons, List.append_cons]
      unfold place
      rw [if_neg (Nat.not_lt.mpr (Nat.le_of_lt hlt)), if_neg (Nat.ne_of_lt hlt)]
      by_cases hroom : points.length < n
      · rw [if_pos hroom, Attempt.andThen_some, ih (by simpa [Nat.succ_le_iff] using hroom)]
        exact ⟨fun h => ⟨⟨Nat.le_of_lt hlt, h.1⟩, h.2⟩, fun h => ⟨h.1.2, h.2⟩⟩
      · rw [if_neg hroom]
        constructor
        · intro h
          split_ifs at h <;> exact absurd h (by simp)
        · rintro ⟨-, rfl, hlen⟩
          simp only [List.length_append, List.length_singleton] at hlen
          omega
    · have hcons : headPoints offset (offset :: rest) = headPoints offset rest :=
        List.filter_cons_of_neg (by simp)
      unfold place
      rw [hcons, if_neg (Nat.lt_irrefl _), if_pos rfl, Attempt.andThen_some, ih hpoints]
      exact ⟨fun h => ⟨⟨Nat.le_refl _, h.1⟩, h.2⟩, fun h => ⟨h.1.2, h.2⟩⟩
    · unfold place
      rw [if_pos hgt, Attempt.andThen_none]
      constructor
      · intro h
        exact absurd h (by simp)
      · rintro ⟨⟨hle, -⟩, -⟩
        omega

/-- Placing offsets leaves the entries only when there are none and an offset is
before the end of the data, and none before it is behind. -/
theorem placeAll_eq_error_iff {offsets : List Nat} {fault : Fault} (hpoints : points.length ≤ n) :
    placeAll n size offsets points = .error fault ↔
      fault = .outOfBounds ∧ n = 0 ∧ ∃ offset, (headPoints size offsets).head? = some offset ∧
        offset < size := by
  induction offsets generalizing points with
  | nil =>
    constructor
    · intro h
      exact absurd h (by simp [placeAll])
    · rintro ⟨-, -, offset, h, -⟩
      exact absurd h (by simp [headPoints])
  | cons offset rest ih =>
    rw [placeAll]
    rcases Nat.lt_trichotomy offset size with hlt | rfl | hgt
    · have hcons : headPoints size (offset :: rest) = offset :: headPoints size rest :=
        List.filter_cons_of_pos (by simpa using Nat.ne_of_lt hlt)
      rw [hcons, List.head?_cons]
      unfold place
      rw [if_neg (Nat.not_lt.mpr (Nat.le_of_lt hlt)), if_neg (Nat.ne_of_lt hlt)]
      by_cases hroom : points.length < n
      · rw [if_pos hroom, Attempt.andThen_some, ih (by simpa [Nat.succ_le_iff] using hroom)]
        constructor
        · rintro ⟨-, rfl, -⟩
          exact absurd hroom (Nat.not_lt_zero _)
        · rintro ⟨-, rfl, -⟩
          exact absurd hroom (Nat.not_lt_zero _)
      · rw [if_neg hroom]
        by_cases hn0 : n = 0
        · rw [if_pos hn0, Attempt.andThen_error, Except.error.injEq]
          exact ⟨fun h => ⟨h.symm, hn0, offset, rfl, hlt⟩, fun h => h.1.symm⟩
        · rw [if_neg hn0, Attempt.andThen_none]
          exact ⟨fun h => absurd h (by simp), fun h => absurd h.2.1 hn0⟩
    · have hcons : headPoints offset (offset :: rest) = headPoints offset rest :=
        List.filter_cons_of_neg (by simp)
      unfold place
      rw [hcons, if_neg (Nat.lt_irrefl _), if_pos rfl, Attempt.andThen_some, ih hpoints]
    · have hcons : headPoints size (offset :: rest) = offset :: headPoints size rest :=
        List.filter_cons_of_pos (by simpa using Nat.ne_of_gt hgt)
      unfold place
      rw [hcons, if_pos hgt, Attempt.andThen_none, List.head?_cons]
      constructor
      · intro h
        exact absurd h (by simp)
      · rintro ⟨-, -, offset', h, hlt⟩
        cases h
        omega

/-! ## The condition on the heads -/

/-- The offsets of a list of heads make a map of `n` extents that partitions the
data, or no map. `complete` tells that the index loops end. -/
structure HeadsOk (n size : Nat) (offsets : List Nat) (complete : Bool) : Prop where
  /-- Without compressed blocks no head may be accepted, and some head or the index
  loops have to stop the build. -/
  noBlocks : n = 0 → match (headPoints size offsets).head? with
    | some offset => size < offset
    | none => complete = false
  /-- Heads as many as blocks have to start at 0 and to increase. -/
  blocks : n ≠ 0 → complete = true → (∀ offset ∈ offsets, offset ≤ size) →
    (headPoints size offsets).length = n →
      (headPoints size offsets).head? = some 0 ∧ (headPoints size offsets).Pairwise (· < ·)

/-- The condition in terms of the placed offsets. -/
theorem headsOk_iff {offsets : List Nat} {complete : Bool} :
    HeadsOk n size offsets complete ↔
      match placeAll n size offsets [] with
      | .error _ => False
      | .ok none => True
      | .ok (some points) => complete = true → points.length = n →
        points.head? = some 0 ∧ points.Pairwise (· < ·) := by
  cases hplace : placeAll n size offsets [] with
  | error fault =>
    obtain ⟨-, hn0, offset, hhead, hlt⟩ := (placeAll_eq_error_iff (Nat.zero_le n)).mp hplace
    refine iff_of_false (fun h => ?_) id
    have := h.noBlocks hn0
    rw [hhead] at this
    exact absurd hlt (Nat.not_lt.mpr (Nat.le_of_lt this))
  | ok result =>
    cases result with
    | none =>
      refine iff_of_true ⟨fun hn0 => ?_, fun hn0 hcomplete hle hlen => ?_⟩ trivial
      · cases hhead : (headPoints size offsets).head? with
        | none =>
          have hnil := List.head?_eq_none_iff.mp hhead
          have hle : ∀ offset ∈ offsets, offset ≤ size := fun offset hoffset =>
            Nat.le_of_eq (by simpa using List.filter_eq_nil_iff.mp hnil offset hoffset)
          have := (@placeAll_eq_some_iff n size [] offsets _ (Nat.zero_le n)).mpr
            ⟨hle, rfl, by simp [hnil]⟩
          rw [hplace] at this
          exact absurd this (by simp)
        | some offset =>
          have hne : offset ≠ size := by
            simpa using (List.mem_filter.mp (List.mem_of_mem_head? hhead)).2
          refine Nat.lt_of_le_of_ne (Nat.not_lt.mp fun hlt => ?_) hne.symm
          have := (@placeAll_eq_error_iff n size [] offsets _ (Nat.zero_le n)).mpr
            ⟨rfl, hn0, offset, hhead, hlt⟩
          rw [hplace] at this
          exact absurd this (by simp)
      · have := (@placeAll_eq_some_iff n size [] offsets _ (Nat.zero_le n)).mpr
          ⟨hle, rfl, Nat.le_of_eq hlen⟩
        rw [hplace] at this
        exact absurd this (by simp)
    | some points =>
      obtain ⟨hle, rfl, hlen⟩ := (placeAll_eq_some_iff (Nat.zero_le n)).mp hplace
      rw [List.nil_append] at *
      constructor
      · intro h hcomplete hfull
        by_cases hn0 : n = 0
        · have := h.noBlocks hn0
          rw [List.eq_nil_of_length_eq_zero (hfull.trans hn0)] at this
          exact absurd hcomplete (by simpa using this)
        · exact h.blocks hn0 hcomplete hle hfull
      · intro h
        refine ⟨fun hn0 => ?_, fun hn0 hcomplete _ hfull => h hcomplete hfull⟩
        have hnil : headPoints size offsets = [] :=
          List.eq_nil_of_length_eq_zero (Nat.le_zero.mp (hn0 ▸ hlen))
        rw [hnil] at h ⊢
        dsimp only [List.head?_nil]
        cases complete with
        | false => rfl
        | true => exact absurd (h rfl hn0.symm).1 (by simp)

/-- A build from heads is right exactly when the heads are. -/
theorem wellBuilt_run_iff {σ : Type} {heads : Heads Unit} (hn : n < 2 ^ 64) (hpos : 0 < size)
    (hsize : size < 2 ^ 64) (blockSize : Nat) (s : σ) :
    WellBuilt size (finishMap n s (heads.run (fun _ map => map) (new size n blockSize 0 0))) ↔
      HeadsOk n size (heads.added.map Head.uncomprOffset) heads.stop.isSome := by
  rw [headsOk_iff]
  have hrel := addAll_filling hn hsize heads.added (Filling.new n size blockSize)
    fun _ h => absurd h List.not_mem_nil
  unfold Heads.run
  rcases hplace : placeAll n size (heads.added.map Head.uncomprOffset)
    [] with fault | _ | points <;>
    rcases hadd : addAll heads.added (new size n blockSize 0 0) with fault' | _ | map <;>
    rw [hplace, hadd] at hrel <;> try exact hrel.elim
  · cases hrel
    obtain ⟨rfl, -⟩ := (placeAll_eq_error_iff (Nat.zero_le n)).mp hplace
    exact iff_of_false (fun h => h rfl) id
  · exact iff_of_true trivial trivial
  · obtain ⟨hmap, hpoints⟩ := hrel
    rw [Attempt.andThen_some]
    cases heads.stop with
    | none => exact iff_of_true (fun h => nomatch h) fun h => nomatch h
    | some _ =>
      have hfilled : map.lastAddedIndex = wrapSub64 n 1 ↔ points.length = n := by
        rw [hmap.lastAddedIndex]
        have := hmap.points_le
        unfold wrapSub64 wrap64
        omega
      unfold finishMap
      dsimp only
      by_cases hfull : points.length = n
      · have hspans := hmap.spans
        rw [if_pos hfull, hfull, Nat.sub_self, List.replicate_zero, List.append_nil] at hspans
        rw [if_neg (not_not.mpr (hfilled.mpr hfull))]
        have htiles : Tiles 0 size map.spans ↔
            points.head? = some 0 ∧ points.Pairwise (· < ·) := by
          rw [hspans]
          cases points with
          | nil => exact iff_of_false (fun h => absurd h (Nat.ne_of_lt hpos)) fun h => nomatch h.1
          | cons x rest => exact tiles_cut_iff (List.cons_ne_nil _ _) hsize hpoints
        exact ⟨fun h _ _ => htiles.mp h.tiles, fun h =>
          partitions_of_tiles hsize (htiles.mpr (h rfl hfull))⟩
      · rw [if_pos (fun h => hfull (hfilled.mp h))]
        exact iff_of_true trivial fun _ h => absurd h hfull

/-! ## The two index formats -/

variable {σ : Type} (file : IErofsImageFile σ)

/-- What the checks of an index table establish. -/
structure TableChecks (compressedBlocks blockSize uncompressedSize : Nat)
    (header : ErofsZMapHeader) : Prop where
  blocks_le : compressedBlocks ≤ file.size / blockSize
  size_le : uncompressedSize ≤ kMaxUncompressedSize
  algo1 : header.algo1 = 0
  algo2 : header.algo2 = 0

theorem readLegacyIndexes_ok {extentsOffset compressedBlocks blockSize uncompressedSize : Nat}
    {s s' : σ} {table : LegacyIndexes}
    (h : readLegacyIndexes file extentsOffset compressedBlocks blockSize uncompressedSize s =
      .ok (some table, s')) :
    TableChecks file compressedBlocks blockSize uncompressedSize table.header := by
  unfold readLegacyIndexes at h
  split_ifs at h with hzero hbig halign <;> try cases h
  split at h
  · cases h
  · dsimp only at h
    split_ifs at h with halgo hcluster <;> try cases h
    split at h
    · cases h
    · cases h
      exact ⟨by omega, by omega, by tauto, by tauto⟩

theorem readCompactIndexes_ok {extentsOffset compressedBlocks blockSize uncompressedSize : Nat}
    {s s' : σ} {table : CompactIndexes}
    (h : readCompactIndexes file extentsOffset compressedBlocks blockSize uncompressedSize s =
      .ok (some table, s')) :
    TableChecks file compressedBlocks blockSize uncompressedSize table.header := by
  unfold readCompactIndexes at h
  split_ifs at h with hzero hblock hbig halign <;> try cases h
  split at h
  · cases h
  · dsimp only at h
    split_ifs at h with halgo hadvise htwo <;> try cases h
    split at h
    · cases h
    · cases h
      exact ⟨by omega, by omega, by tauto, by tauto⟩

/-- The numbers of a table that passes the checks are below `2 ^ 64`. -/
theorem TableChecks.lt {compressedBlocks blockSize uncompressedSize : Nat}
    {header : ErofsZMapHeader}
    (h : TableChecks file compressedBlocks blockSize uncompressedSize header) :
    compressedBlocks < 2 ^ 64 ∧ uncompressedSize < 2 ^ 64 := by
  have hblocks := Nat.le_trans h.blocks_le (Nat.div_le_self _ _)
  have hsize := h.size_le
  unfold kMaxUncompressedSize at hsize
  exact ⟨Nat.lt_of_le_of_lt hblocks file.size_lt, by omega⟩

/-- Reading a table does not touch the entries of a map. -/
theorem readLegacyIndexes_ne_outOfBounds (extentsOffset compressedBlocks blockSize
    uncompressedSize : Nat) (s : σ) :
    readLegacyIndexes file extentsOffset compressedBlocks blockSize uncompressedSize s ≠
      .error .outOfBounds := by
  intro h
  unfold readLegacyIndexes at h
  split_ifs at h <;> try cases h
  split at h
  · cases h
  · dsimp only at h
    split_ifs at h <;> try cases h
    split at h <;> cases h

theorem readCompactIndexes_ne_outOfBounds (extentsOffset compressedBlocks blockSize
    uncompressedSize : Nat) (s : σ) :
    readCompactIndexes file extentsOffset compressedBlocks blockSize uncompressedSize s ≠
      .error .outOfBounds := by
  intro h
  unfold readCompactIndexes at h
  split_ifs at h <;> try cases h
  split at h
  · cases h
  · dsimp only at h
    split_ifs at h
    split at h <;> cases h

/-- A build from an array of cluster indexes is right exactly when the heads are. -/
theorem fromLegacyIndexes_wellBuilt (extentsOffset compressedBlocks blockSize : Nat)
    {uncompressedSize : Nat} (hpos : 0 < uncompressedSize) (s : σ) :
    WellBuilt uncompressedSize
        (fromLegacyIndexes file extentsOffset compressedBlocks blockSize uncompressedSize s) ↔
      ∀ table s', readLegacyIndexes file extentsOffset compressedBlocks blockSize
        uncompressedSize s =
          .ok (some table, s') →
        HeadsOk compressedBlocks uncompressedSize
          ((legacyHeads blockSize table).added.map Head.uncomprOffset)
          (legacyHeads blockSize table).stop.isSome := by
  have hbounds := readLegacyIndexes_ne_outOfBounds file extentsOffset compressedBlocks blockSize
    uncompressedSize s
  unfold fromLegacyIndexes
  rcases hread : readLegacyIndexes file extentsOffset compressedBlocks blockSize uncompressedSize s
    with fault | ⟨_ | table, s'⟩
  · exact iff_of_true (fun h => hbounds (hread.trans (congrArg _ h))) fun _ _ h => nomatch h
  · exact iff_of_true trivial fun _ _ h => nomatch h
  · have hchecks := readLegacyIndexes_ok file hread
    dsimp only
    rw [addLegacyIndexes_eq, hchecks.algo1, hchecks.algo2,
      wellBuilt_run_iff (hchecks.lt file).1 hpos (hchecks.lt file).2]
    exact ⟨fun h _ _ heq => by cases heq; exact h, fun h => h table s' rfl⟩

/-- A build from packed indexes is right exactly when the heads are. -/
theorem fromCompactIndexes_wellBuilt (extentsOffset compressedBlocks blockSize : Nat)
    {uncompressedSize : Nat} (hpos : 0 < uncompressedSize) (s : σ) :
    WellBuilt uncompressedSize
        (fromCompactIndexes file extentsOffset compressedBlocks blockSize uncompressedSize s) ↔
      ∀ table s', readCompactIndexes file extentsOffset compressedBlocks blockSize
        uncompressedSize s =
          .ok (some table, s') →
        HeadsOk compressedBlocks uncompressedSize
          ((compactHeads blockSize table).added.map Head.uncomprOffset)
          (compactHeads blockSize table).stop.isSome := by
  have hbounds := readCompactIndexes_ne_outOfBounds file extentsOffset compressedBlocks blockSize
    uncompressedSize s
  unfold fromCompactIndexes
  rcases hread : readCompactIndexes file extentsOffset compressedBlocks blockSize uncompressedSize s
    with fault | ⟨_ | table, s'⟩
  · exact iff_of_true (fun h => hbounds (hread.trans (congrArg _ h))) fun _ _ h => nomatch h
  · exact iff_of_true trivial fun _ _ h => nomatch h
  · have hchecks := readCompactIndexes_ok file hread
    dsimp only
    rw [addCompactIndexes_eq, hchecks.algo1, hchecks.algo2,
      wellBuilt_run_iff (hchecks.lt file).1 hpos (hchecks.lt file).2]
    exact ⟨fun h _ _ heq => by cases heq; exact h, fun h => h table s' rfl⟩

/-- An image of two blocks whose index table, legacy or packed, has a head at 0 and one at 4196. -/
def twoHeadsImage : IErofsImageFile Unit :=
  imageOf 8192 (by decide) fun offset => if offset = 10 ∨ offset = 26 then 100 else 0

/-- An image of two blocks whose only byte that is not zero makes the first head
start at offset 1. -/
def lateHeadImage : IErofsImageFile Unit :=
  imageOf 8192 (by decide) fun offset => if offset = 18 then 1 else 0

end ErofsExtentMap

end Erofs
