import Ralf.Archive.Entries

/-!
# The files of an OCI archive

An `OCIArchiveBackingStore` reads the files of an archive by their path. It can keep the small
ones, which it gets in a first pass over the archive. `readFile` and `getFile` look there
first and go through the archive otherwise.

The first pass keeps the first entry of a path that is small enough, a search without the
cache takes the first entry of the path. `cache_agrees_iff` says when that makes no
difference.
-/

namespace Oci

open Archive

/-! ## The archive -/

/-- An entry of an archive, with what the calls of `readData` give until its data ends. -/
structure ArchiveEntry where
  pathname : Option Bytes
  type : EntryType
  size : Int
  chunks : List Bytes
  dataEnd : DataEnd
  chunks_ne_nil : ∀ chunk ∈ chunks, chunk ≠ []
  deriving DecidableEq

/-- The data of an entry that can be read. -/
def ArchiveEntry.data (entry : ArchiveEntry) : Bytes := entry.chunks.flatten

/-- The entries up to the first header that is not read, and whether the archive can be opened
again. -/
structure LibarchiveFileReader where
  entries : List ArchiveEntry
  cloneable : Bool

/-- A reader for the same archive, at its start. -/
def LibarchiveFileReader.clone (archive : LibarchiveFileReader) : Option LibarchiveFileReader :=
  if archive.cloneable then some archive else none

/-- The loop of `readArchiveFileEntry`. The end of the data and a failure are not told apart. -/
def readLoop (size : Int) : List Bytes → Bytes → Result Bytes
  | [], buffer => .ok buffer
  | chunk :: rest, buffer =>
    if (buffer.length + chunk.length : Int) > size then
      .error (.ralf .packageFileTooLarge "File is too large")
    else readLoop size rest (buffer ++ chunk)

/-- The data of an entry, with at most `maxSize` bytes. -/
def readArchiveFileEntry (entry : ArchiveEntry) (maxSize : Int) : Result Bytes :=
  if entry.size < 0 ∨ entry.size > maxSize then
    .error (.ralf .packageFileTooLarge "File is too large")
  else readLoop entry.size entry.chunks []

/-! ## The store -/

/-- A file that was opened: a `BufferReader`, or an `ArchiveEntryReader`. -/
inductive OpenedFile
  | buffer (contents : Bytes) (offset : Nat)
  | archive (entry : ArchiveEntry)
  deriving DecidableEq

/-- `BufferReader::read`. -/
def bufferRead (contents : Bytes) (offset size : Nat) : Bytes :=
  if offset ≥ contents.length then [] else (contents.drop offset).take size

/-- Reads of `size` bytes until there are no more. -/
def bufferReadAll (contents : Bytes) (size : Nat) : Nat → Nat → Bytes
  | 0, _ => []
  | fuel + 1, offset =>
    let data := bufferRead contents offset size
    if data = [] then [] else data ++ bufferReadAll contents size fuel (offset + data.length)

/-- What reading a file to its end gives, in reads of `size` bytes, and how it ends. -/
def OpenedFile.readAll (size : Nat) : OpenedFile → Bytes × DataEnd
  | buffer contents offset => (bufferReadAll contents size (contents.length + 1) offset, .eof)
  | archive entry => (entry.data, entry.dataEnd)

/-- The largest file that is kept: 16 KiB. -/
def cacheThreshold : Int := 16 * 1024

/-- The maximum space available in the cache: 64 KiB. -/
def maxCacheSpace : Int := 64 * 1024

/-- The loop of `cacheSmallFiles`, with the space that is left. -/
def cacheLoop : List ArchiveEntry → Int → List (FilePath × Bytes) → List (FilePath × Bytes)
  | [], _, cache => cache
  | entry :: rest, cacheSpace, cache =>
    match entry.pathname with
    | none => cacheLoop rest cacheSpace cache
    | some entryPath =>
      if entry.type ≠ .regular ∨ entry.size ≤ 0 then cacheLoop rest cacheSpace cache
      else if entry.size ≤ cacheThreshold ∧ entry.size ≤ cacheSpace ∧
          cache.lookup (FilePath.parse entryPath) = none then
        match readArchiveFileEntry entry entry.size with
        | .error _ => cacheLoop rest cacheSpace cache
        | .ok contents =>
          -- the contents were moved to the cache when their size is taken: nothing is left
          let moved : Bytes := []
          cacheLoop rest (cacheSpace - moved.length) ((FilePath.parse entryPath, contents) :: cache)
      else cacheLoop rest cacheSpace cache

def cacheSmallFiles (archive : LibarchiveFileReader) : List (FilePath × Bytes) :=
  cacheLoop archive.entries maxCacheSpace []

structure OCIArchiveBackingStore where
  archive : LibarchiveFileReader
  cache : List (FilePath × Bytes)

/-- A regular entry with the path. -/
def isFile (path : FilePath) (entry : ArchiveEntry) : Bool :=
  entry.type = .regular && entry.pathname.any fun entryPath => path = FilePath.parse entryPath

/-- A regular entry with the path and a size. -/
def isSizedFile (path : FilePath) (entry : ArchiveEntry) : Bool :=
  isFile path entry && 0 ≤ entry.size

namespace OCIArchiveBackingStore

def new (archive : LibarchiveFileReader) (enableCache : Bool) : OCIArchiveBackingStore :=
  ⟨archive, if enableCache then cacheSmallFiles archive else []⟩

def readFile (store : OCIArchiveBackingStore) (path : FilePath) (maxSize : Nat) : Result Bytes :=
  match store.cache.lookup path with
  | some contents =>
    if contents.length > maxSize then .error (.ralf .packageFileTooLarge "File is too large")
    else .ok contents
  | none =>
    match store.archive.clone with
    | none => .error (.ralf .internalError "Failed to clone archive")
    | some archive =>
      match archive.entries.find? (isSizedFile path) with
      | none =>
        .error (.ralf .packageContentsInvalid s!"File '{path.cStr}' not found in package")
      | some entry =>
        if entry.size > asInt64 maxSize then
          .error (.ralf .packageFileTooLarge s!"File '{path.cStr}' is too large")
        else readArchiveFileEntry entry entry.size

def getFile (store : OCIArchiveBackingStore) (path : FilePath) : Result OpenedFile :=
  match store.cache.lookup path with
  | some contents => .ok (.buffer contents 0)
  | none =>
    match store.archive.clone with
    | none => .error (.ralf .internalError "Failed to clone archive")
    | some archive =>
      match archive.entries.find? (isFile path) with
      | none =>
        .error (.ralf .packageContentsInvalid s!"File '{path.cStr}' not found in package")
      | some entry => .ok (.archive entry)

end OCIArchiveBackingStore

/-! ## Reading entries -/

/-- The error for a file that is too large. -/
def fileTooLarge : Error := .ralf .packageFileTooLarge "File is too large"

theorem readLoop_eq {size : Int} (chunks : List Bytes) {buffer : Bytes}
    (h : (buffer.length : Int) ≤ size) :
    readLoop size chunks buffer =
      if ((buffer ++ chunks.flatten).length : Int) ≤ size then .ok (buffer ++ chunks.flatten)
      else .error fileTooLarge := by
  induction chunks generalizing buffer with
  | nil =>
    rw [List.flatten_nil, List.append_nil, if_pos h]
    rfl
  | cons chunk rest ih =>
    unfold readLoop
    rw [List.flatten_cons, ← List.append_assoc]
    split
    · next hmore =>
      rw [if_neg]
      · rfl
      · rw [List.length_append, List.length_append]
        omega
    · next hfits =>
      refine ih ?_
      rw [List.length_append]
      omega

theorem readArchiveFileEntry_eq {entry : ArchiveEntry} (h : 0 ≤ entry.size) :
    readArchiveFileEntry entry entry.size =
      if (entry.data.length : Int) ≤ entry.size then .ok entry.data else .error fileTooLarge := by
  unfold readArchiveFileEntry
  rw [if_neg (by omega), readLoop_eq entry.chunks h]
  rfl

theorem bufferReadAll_eq {contents : Bytes} {size : Nat} (hsize : 0 < size) (fuel offset : Nat)
    (hfuel : contents.length < offset + fuel) :
    bufferReadAll contents size fuel offset = contents.drop offset := by
  induction fuel generalizing offset with
  | zero => exact (List.drop_of_length_le (by omega)).symm
  | succ fuel ih =>
    unfold bufferReadAll bufferRead
    by_cases hend : offset ≥ contents.length
    · rw [if_pos hend]
      exact (List.drop_of_length_le hend).symm
    · have hlength : ((contents.drop offset).take size).length = min size
        (contents.length - offset) := by
        rw [List.length_take, List.length_drop]
      dsimp only
      rw [if_neg hend, if_neg]
      · rw [ih _ (by omega), ← List.drop_drop, hlength]
        rcases Nat.le_total size (contents.length - offset) with hle | hle
        · rw [Nat.min_eq_left hle, List.take_append_drop]
        · have hrest : (contents.drop offset).drop (contents.length - offset) = [] :=
            List.drop_of_length_le List.length_drop.le
          rw [Nat.min_eq_right hle, List.take_of_length_le (List.length_drop.trans_le hle), hrest,
            List.append_nil]
      · intro hnil
        rw [hnil, List.length_nil] at hlength
        omega

/-! ## What is cached -/

/-- An entry that the first pass keeps for a path, unless it has one already. -/
def isCached (path : FilePath) (entry : ArchiveEntry) : Bool :=
  isFile path entry && 0 < entry.size && entry.size ≤
    cacheThreshold && entry.data.length ≤ entry.size

theorem isCached_iff {path : FilePath} {entry : ArchiveEntry} : isCached path entry = true ↔
    (entry.type = .regular ∧ ∃ entryPath, entry.pathname = some entryPath ∧
      path = FilePath.parse entryPath) ∧
    0 < entry.size ∧ entry.size ≤ cacheThreshold ∧ (entry.data.length : Int) ≤ entry.size := by
  simp [isCached, isFile, Option.any_eq_true, and_assoc]

/-- An entry that is kept for no path that has nothing yet. -/
theorem lookup_unkept {entry : ArchiveEntry} {cache : List (FilePath × Bytes)}
    (h : ∀ path, isCached path entry = true → cache.lookup path ≠ none) (path : FilePath) :
    cache.lookup path =
      (cache.lookup path).or (if isCached path entry then some entry.data else none) := by
  cases hlookup : cache.lookup path with
  | some contents => rfl
  | none =>
    rw [if_neg fun hcached => h path hcached hlookup]
    rfl

/-- One entry of the first pass: it is kept for its path, or it is kept for no path that has nothing
yet. The space never gets less. -/
theorem cacheLoop_step (entry : ArchiveEntry) (rest : List ArchiveEntry)
    (cache : List (FilePath × Bytes)) :
    (∃ path, isCached path entry = true ∧ cache.lookup path = none ∧
      cacheLoop (entry :: rest) maxCacheSpace cache =
        cacheLoop rest maxCacheSpace ((path, entry.data) :: cache)) ∨
    ((∀ path, isCached path entry = true → cache.lookup path ≠ none) ∧
      cacheLoop (entry :: rest) maxCacheSpace cache = cacheLoop rest maxCacheSpace cache) := by
  rw [cacheLoop]
  cases hname : entry.pathname with
  | none =>
    refine .inr ⟨fun path hcached => ?_, rfl⟩
    obtain ⟨⟨-, entryPath, hname', -⟩, -⟩ := isCached_iff.mp hcached
    rw [hname] at hname'
    cases hname'
  | some entryPath =>
    dsimp only
    split
    · next hskip =>
      refine .inr ⟨fun path hcached => ?_, rfl⟩
      obtain ⟨⟨htype, -⟩, hsize, -⟩ := isCached_iff.mp hcached
      exact absurd hskip (not_or.mpr ⟨not_not.mpr htype, hsize.not_ge⟩)
    next hfile =>
    rw [not_or, not_not, not_le] at hfile
    obtain ⟨htype, hsize⟩ := hfile
    -- the entry can only be kept for its own path
    have hown : ∀ path, isCached path entry = true ↔ path = FilePath.parse entryPath ∧
        entry.size ≤ cacheThreshold ∧ (entry.data.length : Int) ≤ entry.size := by
      intro path
      rw [isCached_iff, hname]
      simp [htype, hsize]
    split
    · next hsmall =>
      rw [readArchiveFileEntry_eq hsize.le]
      by_cases hfits : (entry.data.length : Int) ≤ entry.size
      · rw [if_pos hfits]
        exact .inl ⟨_, (hown _).mpr ⟨rfl, hsmall.1, hfits⟩, hsmall.2.2, rfl⟩
      · rw [if_neg hfits]
        exact .inr ⟨fun path hcached => absurd ((hown path).mp hcached).2.2 hfits, rfl⟩
    · next hlarge =>
      refine .inr ⟨fun path hcached hlookup => hlarge ?_, rfl⟩
      obtain ⟨rfl, hthreshold, -⟩ := (hown path).mp hcached
      exact ⟨hthreshold, hthreshold.trans (by decide), hlookup⟩

/-- An entry is kept for one path only. -/
theorem isCached_unique {path path' : FilePath} {entry : ArchiveEntry}
    (h : isCached path entry = true) (h' : isCached path' entry = true) : path = path' := by
  obtain ⟨⟨-, entryPath, hname, hpath⟩, -⟩ := isCached_iff.mp h
  obtain ⟨⟨-, entryPath', hname', hpath'⟩, -⟩ := isCached_iff.mp h'
  cases hname.symm.trans hname'
  exact hpath.trans hpath'.symm

/-- What is found after one entry of the first pass. -/
theorem cacheLoop_cons (entry : ArchiveEntry) (rest : List ArchiveEntry)
    (cache : List (FilePath × Bytes)) :
    ∃ cache', cacheLoop (entry :: rest) maxCacheSpace cache = cacheLoop rest maxCacheSpace cache' ∧
      ∀ path, cache'.lookup path =
        (cache.lookup path).or (if isCached path entry then some entry.data else none) := by
  rcases cacheLoop_step entry rest cache with ⟨kept, hcached, hnone, hstep⟩ | ⟨hunkept, hstep⟩
  · refine ⟨_, hstep, fun path => ?_⟩
    by_cases hpath : path = kept
    · rw [hpath, List.lookup_cons_self, hnone, Option.none_or, if_pos hcached]
    · rw [List.lookup_cons, beq_false_of_ne hpath,
        if_neg fun hother => hpath (isCached_unique hother hcached), Option.or_none]
  · exact ⟨cache, hstep, lookup_unkept hunkept⟩

/-- The first pass keeps the data of the first such entry. -/
theorem lookup_cacheLoop (path : FilePath) (entries : List ArchiveEntry)
    (cache : List (FilePath × Bytes)) :
    (cacheLoop entries maxCacheSpace cache).lookup path =
      (cache.lookup path).or ((entries.find? (isCached path)).map ArchiveEntry.data) := by
  induction entries generalizing cache with
  | nil => exact (Option.or_none).symm
  | cons entry rest ih =>
    obtain ⟨cache', hcache, hlookup⟩ := cacheLoop_cons entry rest cache
    rw [hcache, ih, hlookup, Option.or_assoc, List.find?_cons]
    cases isCached path entry with
    | false => rfl
    | true => rfl

theorem lookup_cacheSmallFiles (archive : LibarchiveFileReader) (path : FilePath) :
    (cacheSmallFiles archive).lookup path =
      (archive.entries.find? (isCached path)).map ArchiveEntry.data := by
  unfold cacheSmallFiles
  rw [lookup_cacheLoop, List.lookup_nil, Option.none_or]

/-! ## When the cache makes no difference -/

/-- The same value, or errors of one code. -/
def SameResult {α : Type} : Result α → Result α → Prop
  | .ok a, .ok b => a = b
  | .error error, .error error' => error.code = error'.code
  | _, _ => False

theorem SameResult.refl {α : Type} (result : Result α) : SameResult result result := by
  cases result with
  | error error => rfl
  | ok a => rfl

/-- The entry that is cached stands for the first entry of the path, and for the first one with
a size: it has the data of both, the first one's data ends without a failure, and as much of it
is too large. -/
structure StandsFor (maxSize : Nat) (cached first sized : ArchiveEntry) : Prop where
  contents : first.data = cached.data
  complete : first.dataEnd = .eof
  tooLarge : maxSize < cached.data.length ↔
    (maxSize : Int) < sized.size ∨ sized.size < sized.data.length
  same : cached.data.length ≤ maxSize → sized.data = cached.data

section
variable (entries : List ArchiveEntry) (path : FilePath) (maxSize : Nat)

/-- If an entry of the path is cached, it stands for the others. -/
def CacheAgrees : Prop :=
  ∀ cached first sized, entries.find? (isCached path) = some cached →
    entries.find? (isFile path) = some first → entries.find? (isSizedFile path) = some sized →
    StandsFor maxSize cached first sized

/-- The text is the same too: where a cached file is too large, what is too large without the
cache is the data of the entry and not its size. -/
def TextAgrees : Prop :=
  ∀ cached sized, entries.find? (isCached path) = some cached →
    entries.find? (isSizedFile path) = some sized →
    maxSize < cached.data.length → sized.size ≤ maxSize

end

section
variable {archive : LibarchiveFileReader} {path : FilePath} {maxSize : Nat}

namespace OCIArchiveBackingStore

theorem readFile_sized {sized : ArchiveEntry} (hmax : maxSize < 2 ^ 63)
    (hclone : archive.cloneable = true)
    (hsized : archive.entries.find? (isSizedFile path) = some sized) :
    (new archive false).readFile path maxSize =
      if (maxSize : Int) < sized.size then
        .error (.ralf .packageFileTooLarge s!"File '{path.cStr}' is too large")
      else if (sized.data.length : Int) ≤ sized.size then .ok sized.data
      else .error fileTooLarge := by
  have hsize : 0 ≤ sized.size := by
    have hfound := List.find?_some hsized
    unfold isSizedFile at hfound
    exact of_decide_eq_true (Bool.and_eq_true_iff.mp hfound).2
  unfold readFile new LibarchiveFileReader.clone
  dsimp only
  rw [if_neg Bool.false_ne_true, List.lookup_nil, if_pos hclone]
  dsimp only
  rw [hsized]
  dsimp only
  rw [asInt64_of_lt hmax, readArchiveFileEntry_eq hsize]

theorem getFile_first {first : ArchiveEntry} (hclone : archive.cloneable = true)
    (hfirst : archive.entries.find? (isFile path) = some first) :
    (new archive false).getFile path = .ok (.archive first) := by
  unfold getFile new LibarchiveFileReader.clone
  dsimp only
  rw [if_neg Bool.false_ne_true, List.lookup_nil, if_pos hclone]
  dsimp only
  rw [hfirst]

/-- With the cache, a file that is in it is read from it. -/
theorem lookup_new {cached : ArchiveEntry}
    (hcached : archive.entries.find? (isCached path) = some cached) :
    (new archive true).cache.lookup path = some cached.data := by
  refine (lookup_cacheSmallFiles archive path).trans ?_
  rw [hcached]
  rfl

/-- A file that is not in the cache is read as without one. -/
theorem new_eq_of_not_cached (hcached : archive.entries.find? (isCached path) = none) :
    (new archive true).readFile path maxSize = (new archive false).readFile path maxSize ∧
      (new archive true).getFile path = (new archive false).getFile path := by
  have hlookup : (new archive true).cache.lookup path = none := by
    refine (lookup_cacheSmallFiles archive path).trans ?_
    rw [hcached]
    rfl
  constructor
  · unfold readFile
    rw [hlookup]
    rfl
  · unfold getFile
    rw [hlookup]
    rfl

theorem contents_iff {size : Nat} {cached first : ArchiveEntry} (hsize : 0 < size)
    (hclone : archive.cloneable = true)
    (hcached : archive.entries.find? (isCached path) = some cached)
    (hfirst : archive.entries.find? (isFile path) = some first) :
    ((new archive true).getFile path).map (OpenedFile.readAll size) =
        ((new archive false).getFile path).map (OpenedFile.readAll size) ↔
      first.data = cached.data ∧ first.dataEnd = .eof := by
  have hget : (new archive true).getFile path = .ok (.buffer cached.data 0) := by
    unfold getFile
    rw [lookup_new hcached]
  rw [hget, getFile_first hclone hfirst]
  show Except.ok (bufferReadAll cached.data size (cached.data.length + 1) 0, DataEnd.eof) =
    Except.ok (first.data, first.dataEnd) ↔ _
  rw [bufferReadAll_eq hsize _ 0 (by omega), List.drop_zero]
  constructor
  · intro heq
    obtain ⟨hdata, hend⟩ := Prod.mk.inj (Except.ok.inj heq)
    exact ⟨hdata.symm, hend.symm⟩
  · rintro ⟨hdata, hend⟩
    rw [hdata, hend]

/-- The two texts for a file that is too large. -/
theorem tooLarge_ne (path : FilePath) :
    Error.ralf .packageFileTooLarge s!"File '{path.cStr}' is too large" ≠ fileTooLarge := by
  intro heq
  have hlength := congrArg (fun error => error.what.length) heq
  simp only [Error.ralf, fileTooLarge, String.length_append] at hlength
  have hstart : (toString "File '").length = 6 := rfl
  have hend : (toString "' is too large").length = 14 := rfl
  have hother : "File is too large".length = 17 := rfl
  omega

/-- `readFile` with the cache, by whether the cached data and the data in the archive are too
large. -/
theorem readFile_iff {cached sized : ArchiveEntry} (hmax : maxSize < 2 ^ 63)
    (hclone : archive.cloneable = true)
    (hcached : archive.entries.find? (isCached path) = some cached)
    (hsized : archive.entries.find? (isSizedFile path) = some sized) :
    (SameResult ((new archive true).readFile path maxSize)
      ((new archive false).readFile path maxSize) ↔
      (maxSize < cached.data.length ↔
          (maxSize : Int) < sized.size ∨ sized.size < sized.data.length) ∧
        (cached.data.length ≤ maxSize → sized.data = cached.data)) ∧
    ((new archive true).readFile path maxSize = (new archive false).readFile path maxSize ↔
      SameResult ((new archive true).readFile path maxSize)
          ((new archive false).readFile path maxSize) ∧
        (maxSize < cached.data.length → sized.size ≤ maxSize)) := by
  have hread : (new archive true).readFile path maxSize =
      if cached.data.length > maxSize then .error fileTooLarge else .ok cached.data := by
    unfold readFile
    rw [lookup_new hcached]
    rfl
  rw [hread, readFile_sized hmax hclone hsized]
  by_cases hcachedLarge : cached.data.length > maxSize
  · rw [if_pos hcachedLarge]
    by_cases hlarge : (maxSize : Int) < sized.size
    · -- both are too large, and the texts differ
      rw [if_pos hlarge]
      refine ⟨iff_of_true rfl ⟨iff_of_true hcachedLarge (.inl hlarge), fun hle => ?_⟩,
        iff_of_false (fun heq => ?_) fun hsame => hlarge.not_ge (hsame.2 hcachedLarge)⟩
      · exact absurd hle hcachedLarge.not_ge
      · exact tooLarge_ne path (Except.error.inj heq).symm
    · rw [if_neg hlarge]
      by_cases hfits : (sized.data.length : Int) ≤ sized.size
      · rw [if_pos hfits]
        refine ⟨iff_of_false (fun h => h) fun hsame => ?_, iff_of_false (fun heq => nomatch heq)
          fun hsame => hsame.1⟩
        exact (hsame.1.mp hcachedLarge).elim hlarge hfits.not_gt
      · rw [if_neg hfits]
        refine ⟨iff_of_true rfl ⟨iff_of_true hcachedLarge (.inr (not_le.mp hfits)), fun hle => ?_⟩,
          iff_of_true rfl ⟨rfl, fun _ => not_lt.mp hlarge⟩⟩
        exact absurd hle hcachedLarge.not_ge
  · rw [if_neg hcachedLarge]
    by_cases hlarge : (maxSize : Int) < sized.size
    · rw [if_pos hlarge]
      refine ⟨iff_of_false (fun h => h) fun hsame => ?_, iff_of_false (fun heq => nomatch heq)
        fun hsame => hsame.1⟩
      exact hcachedLarge (hsame.1.mpr (.inl hlarge))
    · rw [if_neg hlarge]
      by_cases hfits : (sized.data.length : Int) ≤ sized.size
      · rw [if_pos hfits]
        have hnotLarge : ¬ ((maxSize : Int) < sized.size ∨ sized.size < sized.data.length) :=
          not_or.mpr ⟨hlarge, hfits.not_gt⟩
        have hsame : SameResult (.ok cached.data) (.ok sized.data) ↔
          cached.data = sized.data := Iff.rfl
        rw [hsame]
        refine ⟨⟨fun heq => ⟨iff_of_false hcachedLarge hnotLarge, fun _ => heq.symm⟩,
          fun h => (h.2 (not_lt.mp hcachedLarge)).symm⟩, ⟨fun heq => ?_, fun h => congrArg _ h.1⟩⟩
        exact ⟨Except.ok.inj heq, fun hlt => absurd hlt hcachedLarge⟩
      · rw [if_neg hfits]
        refine ⟨iff_of_false (fun h => h) fun hsame => ?_, iff_of_false (fun heq => nomatch heq)
          fun hsame => hsame.1⟩
        exact hcachedLarge (hsame.1.mpr (.inr (not_le.mp hfits)))

/-- A path of a cached entry has entries of both kinds. -/
theorem exists_entries_of_cached {cached : ArchiveEntry}
    (hcached : archive.entries.find? (isCached path) = some cached) :
    ∃ first sized, archive.entries.find? (isFile path) = some first ∧
      archive.entries.find? (isSizedFile path) = some sized := by
  obtain ⟨⟨htype, entryPath, hname, hpath⟩, hpos, -⟩ := isCached_iff.mp (List.find?_some hcached)
  have hmem := List.mem_of_find?_eq_some hcached
  have hisFile : isFile path cached = true := by
    simp [isFile, htype, hname, hpath]
  have hisSized : isSizedFile path cached = true := by
    unfold isSizedFile
    rw [hisFile, Bool.true_and]
    exact decide_eq_true hpos.le
  obtain ⟨first, hfirst⟩ := Option.isSome_iff_exists.mp
    (List.find?_isSome.mpr ⟨cached, hmem, hisFile⟩)
  obtain ⟨sized, hsized⟩ := Option.isSome_iff_exists.mp
    (List.find?_isSome.mpr ⟨cached, hmem, hisSized⟩)
  exact ⟨first, sized, hfirst, hsized⟩

/-- `CacheAgrees` for the entries that are found. -/
theorem cacheAgrees_iff_of_entries {cached first sized : ArchiveEntry}
    (hcached : archive.entries.find? (isCached path) = some cached)
    (hfirst : archive.entries.find? (isFile path) = some first)
    (hsized : archive.entries.find? (isSizedFile path) = some sized) :
    CacheAgrees archive.entries path maxSize ↔ StandsFor maxSize cached first sized := by
  refine ⟨fun h => h cached first sized hcached hfirst hsized, fun h => ?_⟩
  intro cached' first' sized' hcached' hfirst' hsized'
  cases hcached.symm.trans hcached'
  cases hfirst.symm.trans hfirst'
  cases hsized.symm.trans hsized'
  exact h

/-- `TextAgrees` for the entries that are found. -/
theorem textAgrees_iff_of_entries {cached sized : ArchiveEntry}
    (hcached : archive.entries.find? (isCached path) = some cached)
    (hsized : archive.entries.find? (isSizedFile path) = some sized) :
    TextAgrees archive.entries path maxSize ↔
      (maxSize < cached.data.length → sized.size ≤ maxSize) := by
  refine ⟨fun h => h cached sized hcached hsized, fun h => ?_⟩
  intro cached' sized' hcached' hsized'
  cases hcached.symm.trans hcached'
  cases hsized.symm.trans hsized'
  exact h

/-- Reading a file and the contents of an opened file are the same with and without the cache
exactly when a cached entry stands for the entries of its path. -/
theorem cache_agrees_iff {size : Nat} (path : FilePath) (hmax : maxSize < 2 ^ 63) (hsize : 0 < size)
    (hclone : archive.cloneable = true) :
    let cached := new archive true
    let uncached := new archive false
    (((cached.getFile path).map (OpenedFile.readAll size) =
          (uncached.getFile path).map (OpenedFile.readAll size) ∧
        SameResult (cached.readFile path maxSize) (uncached.readFile path maxSize)) ↔
      CacheAgrees archive.entries path maxSize) ∧
    (((cached.getFile path).map (OpenedFile.readAll size) =
          (uncached.getFile path).map (OpenedFile.readAll size) ∧
        cached.readFile path maxSize = uncached.readFile path maxSize) ↔
      CacheAgrees archive.entries path maxSize ∧ TextAgrees archive.entries path maxSize) := by
  dsimp only
  cases hcached : archive.entries.find? (isCached path) with
  | none =>
    obtain ⟨hread, hget⟩ := @new_eq_of_not_cached archive path maxSize hcached
    rw [hread, hget]
    have hagrees : CacheAgrees archive.entries path maxSize := by
      intro cached first sized h
      rw [hcached] at h
      cases h
    have htext : TextAgrees archive.entries path maxSize := by
      intro cached sized h
      rw [hcached] at h
      cases h
    exact ⟨iff_of_true ⟨rfl, SameResult.refl _⟩ hagrees, iff_of_true ⟨rfl, rfl⟩ ⟨hagrees, htext⟩⟩
  | some cached =>
    obtain ⟨first, sized, hfirst, hsized⟩ := exists_entries_of_cached hcached
    have hagrees : CacheAgrees archive.entries path maxSize ↔ _ :=
      cacheAgrees_iff_of_entries hcached hfirst hsized
    have htext : TextAgrees archive.entries path maxSize ↔ _ :=
      textAgrees_iff_of_entries hcached hsized
    obtain ⟨hsame, heq⟩ := readFile_iff hmax hclone hcached hsized
    have hcontents := contents_iff hsize hclone hcached hfirst
    have hstands : StandsFor maxSize cached first sized ↔
        (first.data = cached.data ∧ first.dataEnd = .eof) ∧
          SameResult ((new archive true).readFile path maxSize)
            ((new archive false).readFile path maxSize) := by
      rw [hsame]
      exact ⟨fun h => ⟨⟨h.contents, h.complete⟩, h.tooLarge, h.same⟩,
        fun h => ⟨h.1.1, h.1.2, h.2.1, h.2.2⟩⟩
    rw [hagrees, htext, hcontents, heq, hstands]
    exact ⟨Iff.rfl, and_assoc.symm⟩

end OCIArchiveBackingStore

/-- With one regular entry of the path, which is read to its end, the cache shows only in sizes
between that of the data and the one that the entry declares. -/
theorem standsFor_self_iff {entry : ArchiveEntry} (hfits : (entry.data.length : Int) ≤ entry.size) :
    StandsFor maxSize entry entry entry ↔
      entry.dataEnd = .eof ∧ ¬ (entry.data.length ≤ maxSize ∧ (maxSize : Int) < entry.size) := by
  constructor
  · intro h
    refine ⟨h.complete, fun ⟨hle, hlt⟩ => ?_⟩
    exact absurd (h.tooLarge.mpr (.inl hlt)) hle.not_gt
  · rintro ⟨hend, hsize⟩
    refine ⟨rfl, hend, ⟨fun hlt => .inl ?_, fun hlarge => ?_⟩, fun _ => rfl⟩
    · omega
    · rcases hlarge with hlt | hmore
      · by_contra hle
        exact hsize ⟨not_lt.mp hle, hlt⟩
      · omega

end

/-! ### A path twice -/

/-- An entry `f` with some data. -/
def entryF (chunks : List Bytes) (h : ∀ chunk ∈ chunks, chunk ≠ []) : ArchiveEntry where
  pathname := some [102]
  type := .regular
  size := chunks.flatten.length
  chunks := chunks
  dataEnd := .eof
  chunks_ne_nil := h

/-- An archive with one entry. -/
def oneFile : LibarchiveFileReader := ⟨[entryF [[123, 125]] (by decide)], true⟩

/-- An archive with an empty entry and one with data for a path. -/
def twoFiles : LibarchiveFileReader :=
    ⟨[entryF [] (by decide), entryF [[123, 125]] (by decide)], true⟩

/-- With one entry of the path the cache makes no difference. -/
theorem cache_agrees_iff_one :
    ((OCIArchiveBackingStore.new oneFile true).getFile (FilePath.parse [102])).map
        (OpenedFile.readAll 4096) =
      ((OCIArchiveBackingStore.new oneFile false).getFile (FilePath.parse [102])).map
        (OpenedFile.readAll 4096) ∧
    (OCIArchiveBackingStore.new oneFile true).readFile (FilePath.parse [102]) 100 =
      (OCIArchiveBackingStore.new oneFile false).readFile (FilePath.parse [102]) 100 := by
  refine (@OCIArchiveBackingStore.cache_agrees_iff oneFile 100 4096
    (FilePath.parse [102]) (by decide)
    (by decide) rfl).2.mpr ⟨?_, ?_⟩
  · intro cached first sized hcached hfirst hsized
    cases hcached
    cases hfirst
    cases hsized
    exact (standsFor_self_iff (by decide)).mpr ⟨rfl, by decide⟩
  · intro cached sized hcached hsized hlarge
    cases hcached
    exact absurd hlarge (by decide)

/-- The cache keeps the second of two entries, and the first is found without it. -/
theorem not_cache_agrees :
    ¬ SameResult ((OCIArchiveBackingStore.new twoFiles true).readFile (FilePath.parse [102]) 100)
      ((OCIArchiveBackingStore.new twoFiles false).readFile (FilePath.parse [102]) 100) := by
  have hcached : (OCIArchiveBackingStore.new twoFiles true).readFile (FilePath.parse [102]) 100 =
      .ok [123, 125] := by decide
  have huncached : (OCIArchiveBackingStore.new twoFiles false).readFile (FilePath.parse [102]) 100 =
      .ok [] := by decide
  rw [hcached, huncached]
  exact fun h => nomatch h

end Oci
