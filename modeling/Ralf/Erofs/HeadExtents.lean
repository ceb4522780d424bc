import Ralf.Erofs.ExtentTiling

/-!
# What a map shows of the heads it was built from

Of a head, a map takes the compression, the offset and the block address
(`Head.extent`): heads with the same extents build the same map (`addAll_congr`).
In the other direction, a map that is filled shows the compressions and the offsets
of its heads in their order (`mark_eq_of_filled`).
-/

namespace Erofs

open Intervals

namespace ErofsExtentMap

/-- The compression of a head's extent when both algorithms are LZ4. -/
def extentCompression : ErofsLclusterType → Option Compression
  | .plain => some .none
  | .head1 => some .lz4
  | .nonHead => none
  | .head2 => some .lz4

theorem extentCompression_eq_none_iff {type : ErofsLclusterType} :
    extentCompression type = none ↔ type = .nonHead := by
  cases type <;> decide

/-- The compression, the offset and the block address that a head adds. -/
def Head.extent (head : Head) : Option Compression × Nat × Nat :=
  (extentCompression head.type, head.uncomprOffset, head.blockAddr)

/-- The compression and the offset of an extent. -/
def mark (extent : Option Compression × Nat × Nat) : Option Compression × Nat :=
  (extent.1, extent.2.1)

variable {map map' : ErofsExtentMap} {type type' : ErofsLclusterType}
  {uncomprOffset blockAddr : Nat}

theorem headCompression_eq (halgos : map.comprAlgos = (.lz4, .lz4)) (type : ErofsLclusterType) :
    map.headCompression type = extentCompression type := by
  unfold headCompression
  rw [halgos]
  cases type <;> rfl

/-! ## One head -/

/-- The compressions of the entries. -/
def compressions (map : ErofsExtentMap) : List Compression :=
  map.entries.map Extent.compression

theorem modifyEntry_eq_some {index : Nat} {f : Extent → Extent}
    (h : map.modifyEntry index f = .ok (some map')) :
    ∃ entry, map.entries[index]? = some entry ∧
      map' = { map with entries := map.entries.set index (f entry) } := by
  unfold modifyEntry at h
  split at h
  · next entry hentry =>
    cases h
    exact ⟨entry, hentry, rfl⟩
  · cases h

/-- Filling an entry sets its compression. -/
theorem fillEntry_eq_some (h : map.fillEntry type uncomprOffset blockAddr = .ok (some map')) :
    ∃ compression, map.headCompression type = some compression ∧
      map'.comprAlgos = map.comprAlgos ∧ map'.lastAddedIndex = map.lastAddedIndex ∧
      map'.compressions = map.compressions.set map.lastAddedIndex compression := by
  unfold fillEntry at h
  rcases hcompression : map.headCompression type with _ | compression
  · rw [hcompression] at h
    cases h
  · rw [hcompression] at h
    obtain ⟨entry, -, rfl⟩ := modifyEntry_eq_some h
    exact ⟨compression, rfl, rfl, rfl, List.map_set⟩

/-- Closing an entry leaves its compression. -/
theorem compressions_close {index size : Nat} {entry : Extent}
    (hentry : map.entries[index]? = some entry) :
    compressions { map with
      entries := map.entries.set index { entry with uncomprSize := size } } =
        map.compressions := by
  obtain ⟨hlt, hget⟩ := List.getElem?_eq_some_iff.mp hentry
  show List.map Extent.compression (map.entries.set index _) = _
  rw [List.map_set]
  unfold compressions
  refine List.ext_getElem (by simp) fun i hi hi' => ?_
  rw [List.getElem_set]
  split_ifs with hindex
  · subst hindex
    rw [List.getElem_map, hget]
  · rfl

/-- A head that takes an entry sets the compression of the entry added last. -/
theorem add_eq_some (h : map.add type uncomprOffset blockAddr = .ok (some map'))
    (hlt : uncomprOffset < map.uncomprSize) :
    ∃ compression, map.headCompression type = some compression ∧
      map'.comprAlgos = map.comprAlgos ∧
      map'.compressions = map.compressions.set map'.lastAddedIndex compression := by
  unfold add at h
  rw [if_neg (Nat.not_lt.mpr (Nat.le_of_lt hlt)), if_neg (Nat.ne_of_lt hlt)] at h
  split_ifs at h with hfirst hfull
  · obtain ⟨compression, hcompression, halgos, hlast, hset⟩ := fillEntry_eq_some h
    rw [hlast]
    exact ⟨compression, hcompression, halgos, hset⟩
  · cases h
  · rcases hclose : map.modifyEntry map.lastAddedIndex (fun entry =>
      { entry with uncomprSize := wrapSub64 uncomprOffset entry.uncomprOffset }) with
      fault | _ | closed <;> rw [hclose] at h
    · cases h
    · cases h
    · rw [Attempt.andThen_some] at h
      obtain ⟨entry, hentry, rfl⟩ := modifyEntry_eq_some hclose
      obtain ⟨compression, hcompression, halgos, hlast, hset⟩ := fillEntry_eq_some h
      refine ⟨compression, hcompression, halgos, ?_⟩
      rw [hlast, hset]
      exact congrArg (List.set · _ compression) (compressions_close hentry)

theorem comprAlgos_add (h : map.add type uncomprOffset blockAddr = .ok (some map')) :
    map'.comprAlgos = map.comprAlgos := by
  rcases Nat.lt_trichotomy uncomprOffset map.uncomprSize with hlt | heq | hgt
  · obtain ⟨-, -, halgos, -⟩ := add_eq_some h hlt
    exact halgos
  · unfold add at h
    rw [if_neg (Nat.not_lt.mpr (Nat.le_of_eq heq)), if_pos heq] at h
    cases h
    rfl
  · unfold add at h
    rw [if_pos hgt] at h
    cases h

/-! ## The same extents -/

theorem fillEntry_congr (halgos : map.comprAlgos = (.lz4, .lz4))
    (htype : extentCompression type = extentCompression type') (uncomprOffset blockAddr : Nat) :
    map.fillEntry type uncomprOffset blockAddr = map.fillEntry type' uncomprOffset blockAddr := by
  unfold fillEntry
  rw [headCompression_eq halgos, headCompression_eq halgos, htype]

theorem add_congr (halgos : map.comprAlgos = (.lz4, .lz4))
    (htype : extentCompression type = extentCompression type') (uncomprOffset blockAddr : Nat) :
    map.add type uncomprOffset blockAddr = map.add type' uncomprOffset blockAddr := by
  unfold add
  rw [@fillEntry_congr { map with lastAddedIndex := 0 } _ _ halgos htype]
  rcases hclose : map.modifyEntry map.lastAddedIndex (fun entry =>
    { entry with uncomprSize := wrapSub64 uncomprOffset entry.uncomprOffset }) with
    fault | _ | closed
  · rfl
  · rfl
  · obtain ⟨entry, -, hclosed⟩ := modifyEntry_eq_some hclose
    have halgos' : closed.comprAlgos = (.lz4, .lz4) := by
      rw [hclosed]
      exact halgos
    rw [Attempt.andThen_some, Attempt.andThen_some,
      @fillEntry_congr { closed with lastAddedIndex := closed.lastAddedIndex + 1 } _ _ halgos' htype]

/-- Heads with the same extents build the same map. -/
theorem addAll_congr {heads heads' : List Head}
    (hextents : heads.map Head.extent = heads'.map Head.extent)
    (halgos : map.comprAlgos = (.lz4, .lz4)) : addAll heads map = addAll heads' map := by
  induction heads generalizing heads' map with
  | nil =>
    rw [List.map_eq_nil_iff.mp hextents.symm]
  | cons head rest ih =>
    obtain ⟨head', rest', rfl, hhead, hrest⟩ := List.map_eq_cons_iff.mp hextents.symm
    obtain ⟨htype, hoffset, haddr⟩ : extentCompression head'.type = extentCompression head.type ∧
        head'.uncomprOffset = head.uncomprOffset ∧ head'.blockAddr = head.blockAddr := by
      simpa [Head.extent] using hhead
    rw [addAll, addAll, hoffset, haddr, add_congr halgos htype]
    rcases hadd : map.add head.type head.uncomprOffset head.blockAddr with fault | _ | map₁
    · rfl
    · rfl
    · exact ih hrest.symm ((comprAlgos_add hadd).trans halgos)

/-! ## What a filled map shows -/

theorem take_set_succ {α : Type} {l : List α} {i : Nat} (h : i < l.length) (a : α) :
    (l.set i a).take (i + 1) = l.take i ++ [a] := by
  rw [List.set_eq_take_append_cons_drop, if_pos h, List.append_cons]
  exact List.take_left' (by rw [List.length_append, List.length_take, Nat.min_eq_left
    (Nat.le_of_lt h), List.length_singleton])

section Shown

variable {n size : Nat} {points : List Nat} (hn : n < 2 ^ 64) (hsize : size < 2 ^ 64)

include hn hsize

/-- A head before the end of the data takes the next entry, with its compression. -/
theorem add_shown (hmap : Filling n size points map) (hpoints : ∀ x ∈ points, x < size)
    {head : Head} (hhead : head.uncomprOffset < size)
    (hadd : map.add head.type head.uncomprOffset head.blockAddr = .ok (some map')) :
    Filling n size (points ++ [head.uncomprOffset]) map' ∧
      (map'.compressions.take (points.length + 1)).map some =
        (map.compressions.take points.length).map some ++ [extentCompression head.type] := by
  have hrel := add_filling hmap hn hsize hpoints head.isHead head.uncomprOffset head.blockAddr
  rw [hadd] at hrel
  rcases hplace : place n size points head.uncomprOffset with fault | _ | points' <;>
    rw [hplace] at hrel
  · exact hrel.elim
  · exact hrel.elim
  · have hmap' : Filling n size points' map' := hrel
    obtain ⟨heq, -⟩ | ⟨-, hroom, rfl⟩ := place_eq_some hplace
    · exact absurd heq (Nat.ne_of_lt hhead)
    · refine ⟨hmap', ?_⟩
      obtain ⟨compression, hcompression, -, hset⟩ :=
        add_eq_some hadd (by rw [hmap.uncomprSize]; exact hhead)
      rw [headCompression_eq hmap.comprAlgos] at hcompression
      have hlast : map'.lastAddedIndex = points.length := by
        rw [hmap'.lastAddedIndex, List.length_append, List.length_singleton,
          wrapSub64_of_le (by omega) (by omega), Nat.add_sub_cancel]
      have hlt : points.length < map.compressions.length := by
        unfold compressions
        rw [List.length_map, hmap.length]
        exact hroom
      rw [hset, hlast, take_set_succ hlt, List.map_append, hcompression]
      rfl

/-- Heads before the end of the data take one entry each, with their compressions. -/
theorem addAll_shown {heads : List Head} (hmap : Filling n size points map)
    (hpoints : ∀ x ∈ points, x < size) (hheads : ∀ head ∈ heads, head.uncomprOffset < size)
    (hadd : addAll heads map = .ok (some map')) :
    Filling n size (points ++ heads.map Head.uncomprOffset) map' ∧
      (map'.compressions.take (points.length + heads.length)).map some =
        (map.compressions.take points.length).map some ++
          heads.map fun head => extentCompression head.type := by
  induction heads generalizing points map with
  | nil =>
    cases hadd
    simpa using hmap
  | cons head rest ih =>
    obtain ⟨hhead, hrest⟩ := List.forall_mem_cons.mp hheads
    obtain ⟨map₁, hone, hadd⟩ := Attempt.andThen_eq_ok hadd
    obtain ⟨hmap₁, hshown₁⟩ := add_shown hn hsize hmap hpoints hhead hone
    have hpoints₁ : ∀ x ∈ points ++ [head.uncomprOffset], x < size :=
      List.forall_mem_append.mpr ⟨hpoints, List.forall_mem_singleton.mpr hhead⟩
    have hlength : points.length + (head :: rest).length =
        (points ++ [head.uncomprOffset]).length + rest.length := by
      simp only [List.length_cons, List.length_append, List.length_nil]
      omega
    obtain ⟨hfilled, hshown⟩ := ih hmap₁ hpoints₁ hrest hadd
    rw [List.length_append, List.length_singleton, hshown₁] at hshown
    rw [hlength, List.length_append, List.length_singleton, hshown, List.map_cons, List.map_cons,
      List.append_cons points]
    exact ⟨hfilled, (List.append_cons _ _ _).symm⟩

/-- As many heads as entries build a map. -/
theorem exists_addAll {heads : List Head} (hmap : Filling n size [] map)
    (hheads : ∀ head ∈ heads, head.uncomprOffset < size) (hlength : heads.length ≤ n) :
    ∃ map', addAll heads map = .ok (some map') := by
  have hplaced : placeAll n size (heads.map Head.uncomprOffset) [] =
      .ok (some ([] ++ headPoints size (heads.map Head.uncomprOffset))) := by
    refine (placeAll_eq_some_iff (Nat.zero_le n)).mpr ⟨?_, rfl, ?_⟩
    · intro offset hoffset
      obtain ⟨head, hhead, rfl⟩ := List.mem_map.mp hoffset
      exact Nat.le_of_lt (hheads head hhead)
    · rw [List.nil_append]
      refine Nat.le_trans (List.length_filter_le _ _) ?_
      rwa [List.length_map]
  have hrel := addAll_filling hn hsize heads hmap fun _ h => absurd h List.not_mem_nil
  rw [hplaced] at hrel
  rcases hadd : addAll heads map with fault | _ | map' <;> rw [hadd] at hrel
  · exact hrel.elim
  · exact hrel.elim
  · exact ⟨map', rfl⟩

end Shown

/-- A full map shows the compressions and the offsets of its heads. -/
theorem marks_of_full {n size : Nat} (hn : n < 2 ^ 64) (hsize : size < 2 ^ 64) {heads : List Head}
    (hmap : Filling n size [] map) (hheads : ∀ head ∈ heads, head.uncomprOffset < size)
    (hadd : addAll heads map = .ok (some map')) (hlength : heads.length = n) :
    (heads.map Head.extent).map mark = (map'.compressions.map some).zip (map'.spans.map Prod.fst) := by
  obtain ⟨hfilled, hshown⟩ :=
    addAll_shown hn hsize hmap (fun _ h => absurd h List.not_mem_nil) hheads hadd
  rw [List.nil_append] at hfilled
  have hspans := hfilled.spans
  rw [List.length_map, if_pos hlength, hlength, Nat.sub_self, List.replicate_zero,
    List.append_nil] at hspans
  have htake : map'.compressions.take (0 + heads.length) = map'.compressions := by
    refine List.take_of_length_le ?_
    unfold compressions
    rw [List.length_map, hfilled.length]
    omega
  refine List.zip_of_prod ?_ ?_
  · rw [List.length_nil, htake] at hshown
    rw [hshown, List.map_map, List.map_map]
    rfl
  · rw [hspans, cut_map_fst, List.map_map, List.map_map]
    rfl

end ErofsExtentMap

end Erofs
