import Ralf.Oci.ArchiveBackingStore

/-!
# The size of the cache

`cacheSmallFiles` keeps files of at most 16 KiB and has space for 64 KiB. The space that a
file takes is its size after it was moved to the cache, which is zero. So the cache has
every first cacheable file of a path, whatever they add up to.
-/

namespace Oci

/-- The bytes of the files in a cache. -/
def cacheBytes (cache : List (FilePath × Bytes)) : Nat := (cache.map fun file => file.2.length).sum

/-- The bounds that the cache is to keep. -/
structure CacheBounded (cache : List (FilePath × Bytes)) : Prop where
  space : (cacheBytes cache : Int) ≤ maxCacheSpace
  threshold : ∀ file ∈ cache, (file.2.length : Int) ≤ cacheThreshold

/-- An entry that can be kept for a path that no entry before it can be kept for. -/
def firstCacheable (before : List ArchiveEntry) (entry : ArchiveEntry) : Bool :=
  entry.pathname.any fun entryPath =>
    isCached (FilePath.parse entryPath) entry &&
      before.all fun earlier => !isCached (FilePath.parse entryPath) earlier

/-- The bytes of the first cacheable entries of all paths, behind some entries. -/
def cacheableBytes : List ArchiveEntry → List ArchiveEntry → Nat
  | _, [] => 0
  | before, entry :: rest =>
    (if firstCacheable before entry then entry.data.length else 0) +
      cacheableBytes (entry :: before) rest

variable {entry : ArchiveEntry} {before rest : List ArchiveEntry}
  {cache : List (FilePath × Bytes)} {path : FilePath}

theorem firstCacheable_iff :
    firstCacheable before entry = true ↔
      ∃ path, isCached path entry = true ∧ ∀ earlier ∈ before, isCached path earlier = false := by
  unfold firstCacheable
  simp only [Option.any_eq_true, Bool.and_eq_true, List.all_eq_true, Bool.not_eq_true']
  constructor
  · rintro ⟨entryPath, -, hcached, hfirst⟩
    exact ⟨_, hcached, hfirst⟩
  · rintro ⟨path, hcached, hfirst⟩
    obtain ⟨⟨-, entryPath, hname, rfl⟩, -⟩ := isCached_iff.mp hcached
    exact ⟨entryPath, hname, hcached, hfirst⟩

/-- The cache after some entries: a path has nothing when no entry can be kept for it. -/
def KeptOf (before : List ArchiveEntry) (cache : List (FilePath × Bytes)) : Prop :=
  ∀ path, cache.lookup path = none ↔ ∀ earlier ∈ before, isCached path earlier = false

theorem KeptOf.kept (h : KeptOf before cache) (hcached : isCached path entry = true) :
    KeptOf (entry :: before) ((path, entry.data) :: cache) := by
  intro other
  rw [List.forall_mem_cons, ← h other, List.lookup_cons]
  by_cases hpath : other = path
  · rw [hpath, beq_self_eq_true, hcached]
    simp
  · have hother : isCached other entry = false :=
      Bool.eq_false_iff.mpr fun hother => hpath (isCached_unique hother hcached)
    rw [beq_false_of_ne hpath, hother]
    simp

theorem KeptOf.unkept (h : KeptOf before cache)
    (hunkept : ∀ path, isCached path entry = true → cache.lookup path ≠ none) :
    KeptOf (entry :: before) cache := by
  intro other
  rw [List.forall_mem_cons, ← h other]
  exact (and_iff_right_of_imp fun hnone =>
    Bool.eq_false_iff.mpr fun hcached => hunkept other hcached hnone).symm

/-- The files that are kept are those that can be kept first for their path. -/
theorem cacheBytes_cacheLoop (h : KeptOf before cache) :
    cacheBytes (cacheLoop rest maxCacheSpace cache) =
      cacheBytes cache + cacheableBytes before rest := by
  induction rest generalizing before cache with
  | nil => rfl
  | cons entry rest ih =>
    unfold cacheableBytes
    rcases cacheLoop_step entry rest cache with ⟨path, hcached, hnone, hstep⟩ | ⟨hunkept, hstep⟩
    · have hfirst : firstCacheable before entry = true :=
        firstCacheable_iff.mpr ⟨path, hcached, (h path).mp hnone⟩
      rw [hstep, ih (h.kept hcached), if_pos hfirst]
      unfold cacheBytes
      rw [List.map_cons, List.sum_cons]
      dsimp only
      omega
    · have hfirst : ¬ firstCacheable before entry = true := by
        rw [firstCacheable_iff]
        rintro ⟨path, hcached, hnone⟩
        exact hunkept path hcached ((h path).mpr hnone)
      rw [hstep, ih (h.unkept hunkept), if_neg hfirst, Nat.zero_add]

theorem cacheBytes_cacheSmallFiles (archive : LibarchiveFileReader) :
    cacheBytes (cacheSmallFiles archive) = cacheableBytes [] archive.entries := by
  refine (cacheBytes_cacheLoop fun path => ?_).trans (Nat.zero_add _)
  exact iff_of_true List.lookup_nil fun _ hmem => (nomatch hmem)

/-- No file in the cache is too large. -/
theorem threshold_cacheLoop (h : ∀ file ∈ cache, (file.2.length : Int) ≤ cacheThreshold) :
    ∀ file ∈ cacheLoop rest maxCacheSpace cache, (file.2.length : Int) ≤ cacheThreshold := by
  induction rest generalizing cache with
  | nil => exact h
  | cons entry rest ih =>
    rcases cacheLoop_step entry rest cache with ⟨path, hcached, -, hstep⟩ | ⟨-, hstep⟩
    · rw [hstep]
      obtain ⟨-, -, hsize, hfits⟩ := isCached_iff.mp hcached
      exact ih (List.forall_mem_cons.mpr ⟨hfits.trans hsize, h⟩)
    · rw [hstep]
      exact ih h

/-- The cache keeps its bounds exactly if the first cacheable entries of all paths fit into it. -/
theorem cacheSmallFiles_bounded_iff (archive : LibarchiveFileReader) :
    CacheBounded (cacheSmallFiles archive) ↔ cacheableBytes [] archive.entries ≤ 64 * 1024 := by
  have hbytes := cacheBytes_cacheSmallFiles archive
  have hthreshold : ∀ file ∈ cacheSmallFiles archive, (file.2.length : Int) ≤ cacheThreshold :=
    threshold_cacheLoop fun _ hmem => (nomatch hmem)
  constructor
  · rintro ⟨hspace, -⟩
    rw [hbytes] at hspace
    exact Int.ofNat_le.mp hspace
  · intro hfit
    refine ⟨?_, hthreshold⟩
    rw [hbytes]
    exact Int.ofNat_le.mpr hfit

/-- What a call of `readData` gives at most. -/
def zeroBlock : Bytes := List.replicate 4096 0

theorem zeroBlock_length : zeroBlock.length = 4096 := List.length_replicate

theorem zeroBlock_ne_nil : zeroBlock ≠ [] := by
  rw [← List.length_pos_iff, zeroBlock_length]
  decide

/-- A file of 16 KiB with a name of one character. -/
def largeFile (name : UInt8) : ArchiveEntry where
  pathname := some [name]
  type := .regular
  size := 16384
  chunks := [zeroBlock, zeroBlock, zeroBlock, zeroBlock]
  dataEnd := .eof
  chunks_ne_nil := by simp [zeroBlock_ne_nil]

theorem largeFile_length (name : UInt8) : (largeFile name).data.length = 16384 := by
  have hdata : (largeFile name).data =
      zeroBlock ++ (zeroBlock ++ (zeroBlock ++ (zeroBlock ++ []))) := rfl
  rw [hdata, List.length_append, List.length_append, List.length_append, List.length_append,
    zeroBlock_length]
  rfl

theorem isCached_largeFile {name : UInt8} {path : FilePath} :
    isCached path (largeFile name) = true ↔ path = FilePath.parse [name] := by
  rw [isCached_iff, largeFile_length]
  simp [largeFile, cacheThreshold]

theorem firstCacheable_largeFile {names : List UInt8} {name : UInt8}
    (h : FilePath.parse [name] ∉ names.map fun earlier => FilePath.parse [earlier]) :
    firstCacheable (names.map largeFile) (largeFile name) = true := by
  refine firstCacheable_iff.mpr ⟨_, isCached_largeFile.mpr rfl, fun earlier hmem => ?_⟩
  obtain ⟨other, hother, rfl⟩ := List.mem_map.mp hmem
  exact Bool.eq_false_iff.mpr fun hcached =>
    h (List.mem_map.mpr ⟨other, hother, (isCached_largeFile.mp hcached).symm⟩)

/-- Five of them: 80 KiB are kept. -/
theorem not_cacheSmallFiles_bounded :
    ¬ CacheBounded (cacheSmallFiles ⟨[97, 98, 99, 100, 101].map largeFile, true⟩) := by
  rintro ⟨hspace, -⟩
  have hkept : ∀ names name,
      (FilePath.parse [name] ∉ names.map fun earlier => FilePath.parse [earlier]) →
      ∀ rest, cacheableBytes (names.map largeFile) (largeFile name :: rest) =
        16384 + cacheableBytes ((name :: names).map largeFile) rest := by
    intro names name hnames rest
    rw [cacheableBytes, if_pos (firstCacheable_largeFile hnames), largeFile_length]
    rfl
  have hbytes : cacheableBytes ([].map largeFile) ([97, 98, 99, 100, 101].map largeFile) =
      5 * 16384 := by
    simp only [List.map_cons]
    rw [hkept _ _ (by decide), hkept _ _ (by decide), hkept _ _ (by decide), hkept _ _ (by decide),
      hkept _ _ (by decide)]
    rfl
  rw [cacheBytes_cacheSmallFiles] at hspace
  rw [List.map_nil] at hbytes
  rw [hbytes] at hspace
  exact absurd hspace (by decide)

end Oci
