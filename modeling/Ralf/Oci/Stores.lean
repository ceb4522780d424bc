import Ralf.Oci.ArchiveBackingStore
import Ralf.Oci.VerifyPackage

/-!
# The stores of a package

A package is opened from an archive, with the cache of its small files or without, or from a
directory. `Serves` says what such a store is for: it gives the files of a package. The archive
serves them when its entries are whole (`archive_serves`), the directory when the files in it can be
read (`dir_serves`), whatever amounts the reads give.
-/

namespace Oci

variable {σ : Type}

/-! ## What a store is for -/

/-- A reader that gives its contents to the end. -/
def IOCIFileReader.Delivers (reader : IOCIFileReader) : Prop :=
  ∀ reads size, 0 < size → ∃ n, 0 < n ∧ reader.outcome reads size = .amount n

/-- The paths of the files of a package. It asks a store for no others, so that nothing has to be
known of other ways to write a path. -/
inductive PackagePath : FilePath → Prop
  | layout : PackagePath (FilePath.ofNames [Bytes.ofString "oci-layout"])
  | index : PackagePath (FilePath.ofNames [Bytes.ofString "index.json"])
  | blob {sha256 : Bytes} (h : validateSha256Digest sha256 = true) : PackagePath (blobPath sha256)

/-- The names in it are in normal form. -/
theorem PackagePath.names {path : FilePath} (h : PackagePath path) :
    ∃ names, path = FilePath.ofNames names ∧ names ≠ [] ∧
      ∀ name ∈ names, name ≠ FilePath.dot ∧ name ≠ FilePath.dotdot := by
  cases h with
  | layout => exact ⟨_, rfl, List.cons_ne_nil _ _, by decide⟩
  | index => exact ⟨_, rfl, List.cons_ne_nil _ _, by decide⟩
  | @blob sha256 hvalid =>
    have hlength : sha256.length = 64 := by
      unfold validateSha256Digest at hvalid
      exact of_decide_eq_true (Bool.and_eq_true_iff.mp hvalid).1
    refine ⟨_, rfl, List.cons_ne_nil _ _, fun name hname => ?_⟩
    rcases List.mem_cons.mp hname with rfl | hname
    · decide
    rcases List.mem_cons.mp hname with rfl | hname
    · decide
    cases List.mem_singleton.mp hname
    exact ⟨fun hdot => absurd (hlength.symm.trans (congrArg List.length hdot)) (by decide),
      fun hdotdot => absurd (hlength.symm.trans (congrArg List.length hdotdot)) (by decide)⟩

/-- The store gives the files of a package, in every state. -/
structure Serves (store : IOCIBackingStore σ) (files : FilePath → Option Bytes) : Prop where
  readFile : ∀ path maxSize s, PackagePath path → maxSize < 2 ^ 63 →
    (store.readFile path maxSize s).1.toOption =
      (files path).filter fun contents => contents.length ≤ maxSize
  getFile : ∀ path s, PackagePath path →
    (store.getFile path s).1.toOption.map IOCIFileReader.contents = files path
  delivers : ∀ path s reader, PackagePath path → (store.getFile path s).1 = .ok reader →
    reader.Delivers

/-! ## Archives -/

/-- The reader of a file of an archive. `archive_read_data` fills the buffer as long as there is
data. -/
def OpenedFile.reader : OpenedFile → IOCIFileReader
  | .buffer contents _ => ⟨contents, fun _ size => .amount size⟩
  | .archive entry => ⟨entry.data, fun reads size =>
      if reads < entry.chunks.length ∨ entry.dataEnd = .eof then .amount size
      else .failure entry.data.length⟩

/-- The store with what `getMappableFile` gives. -/
def OCIArchiveBackingStore.toStore (store : OCIArchiveBackingStore)
    (mappable : FilePath → Result IOCIMappableFile) : IOCIBackingStore Unit where
  readFile path maxSize s := (store.readFile path maxSize, s)
  getFile path s := ((store.getFile path).map OpenedFile.reader, s)
  getMappableFile path s := (mappable path, s)

/-- The archive has the files, each whole. A file can be there more than once. -/
structure Archives (files : FilePath → Option Bytes) (archive : LibarchiveFileReader) : Prop where
  cloneable : archive.cloneable = true
  whole : ∀ entry ∈ archive.entries, ∀ path, PackagePath path → isFile path entry = true →
    files path = some entry.data ∧ entry.size = entry.data.length ∧ entry.dataEnd = .eof
  complete : ∀ path contents, PackagePath path → files path = some contents →
    ∃ entry ∈ archive.entries, isFile path entry = true

section
variable {files : FilePath → Option Bytes} {archive : LibarchiveFileReader} {enableCache : Bool}

/-- What is cached is a file of the package. -/
theorem Archives.lookup_cache (h : Archives files archive) {path : FilePath} {contents : Bytes}
    (hpath : PackagePath path)
    (hlookup : (OCIArchiveBackingStore.new archive enableCache).cache.lookup path =
      some contents) :
    files path = some contents := by
  unfold OCIArchiveBackingStore.new at hlookup
  dsimp only at hlookup
  split at hlookup
  · rw [lookup_cacheSmallFiles] at hlookup
    obtain ⟨entry, hfind, rfl⟩ := Option.map_eq_some_iff.mp hlookup
    have hcached := List.find?_some hfind
    unfold isCached at hcached
    have hfile : isFile path entry = true := by
      simp only [Bool.and_eq_true] at hcached
      exact hcached.1.1.1
    exact (h.whole entry (List.mem_of_find?_eq_some hfind) path hpath hfile).1
  · cases hlookup

/-- The first entry of a path has its file, if one is looked for that is as good. -/
theorem Archives.find (h : Archives files archive) {path : FilePath} (hpath : PackagePath path)
    {matching : FilePath → ArchiveEntry → Bool}
    (hmatching : ∀ entry ∈ archive.entries, matching path entry = isFile path entry) :
    (archive.entries.find? (matching path)).map ArchiveEntry.data = files path := by
  cases hfiles : files path with
  | none =>
    rw [Option.map_eq_none_iff, List.find?_eq_none]
    intro entry hmem hmatch
    rw [hmatching entry hmem] at hmatch
    have hwhole := (h.whole entry hmem path hpath hmatch).1
    rw [hfiles] at hwhole
    cases hwhole
  | some contents =>
    obtain ⟨entry, hmem, hfile⟩ := h.complete path contents hpath hfiles
    have hsome : (archive.entries.find? (matching path)).isSome = true :=
      List.find?_isSome.mpr ⟨entry, hmem, (hmatching entry hmem).trans hfile⟩
    obtain ⟨found, hfound⟩ := Option.isSome_iff_exists.mp hsome
    have hmem' := List.mem_of_find?_eq_some hfound
    have hmatch := List.find?_some hfound
    rw [hmatching found hmem'] at hmatch
    rw [hfound, Option.map_some, ← (h.whole found hmem' path hpath hmatch).1, hfiles]

theorem Archives.isSizedFile (h : Archives files archive) {path : FilePath}
    (hpath : PackagePath path) :
    ∀ entry ∈ archive.entries, Oci.isSizedFile path entry = isFile path entry := by
  intro entry hmem
  unfold Oci.isSizedFile
  cases hfile : isFile path entry with
  | false => rfl
  | true =>
    have hsize := (h.whole entry hmem path hpath hfile).2.1
    simp [hsize]

theorem Archives.readFile (h : Archives files archive) {path : FilePath}
    (hpath : PackagePath path) {maxSize : Nat}
    (hmax : maxSize < 2 ^ 63) :
    ((OCIArchiveBackingStore.new archive enableCache).readFile path maxSize).toOption =
      (files path).filter fun contents => contents.length ≤ maxSize := by
  unfold OCIArchiveBackingStore.readFile
  cases hlookup : (OCIArchiveBackingStore.new archive enableCache).cache.lookup path with
  | some contents =>
    rw [h.lookup_cache hpath hlookup]
    by_cases hlarge : contents.length > maxSize
    · simp [hlarge, Except.toOption, Option.filter]
    · simp [hlarge, Except.toOption, Option.filter, Nat.not_lt.mp hlarge]
  | none =>
    have hclone : (OCIArchiveBackingStore.new archive enableCache).archive.clone =
        some archive := if_pos h.cloneable
    have hfind := h.find hpath (h.isSizedFile hpath)
    rw [hclone]
    dsimp only
    cases hentry : archive.entries.find? (Oci.isSizedFile path) with
    | none =>
      rw [hentry, Option.map_none] at hfind
      rw [← hfind]
      rfl
    | some entry =>
      rw [hentry, Option.map_some] at hfind
      have hmem := List.mem_of_find?_eq_some hentry
      have hmatch := List.find?_some hentry
      rw [h.isSizedFile hpath entry hmem] at hmatch
      obtain ⟨-, hsize, -⟩ := h.whole entry hmem path hpath hmatch
      rw [← hfind]
      dsimp only
      rw [asInt64_of_lt hmax, readArchiveFileEntry_eq (hsize ▸ Int.natCast_nonneg _),
        if_pos hsize.ge, hsize]
      by_cases hlarge : (entry.data.length : Int) > maxSize
      · have hlarge' : ¬entry.data.length ≤ maxSize := by omega
        simp [hlarge, hlarge', Except.toOption, Option.filter]
      · have hsmall : entry.data.length ≤ maxSize := by omega
        simp [hlarge, hsmall, Except.toOption, Option.filter]

/-- A file of the archive that is opened. -/
theorem Archives.getFile (h : Archives files archive) {path : FilePath}
    (hpath : PackagePath path) :
    ((OCIArchiveBackingStore.new archive enableCache).getFile path).toOption.map
        (IOCIFileReader.contents ∘ OpenedFile.reader) = files path ∧
      ∀ opened, (OCIArchiveBackingStore.new archive enableCache).getFile path = .ok opened →
        opened.reader.Delivers := by
  unfold OCIArchiveBackingStore.getFile
  cases hlookup : (OCIArchiveBackingStore.new archive enableCache).cache.lookup path with
  | some contents =>
    refine ⟨(h.lookup_cache hpath hlookup).symm, fun opened hopened reads size hsize => ?_⟩
    cases hopened
    exact ⟨size, hsize, rfl⟩
  | none =>
    have hclone : (OCIArchiveBackingStore.new archive enableCache).archive.clone =
        some archive := if_pos h.cloneable
    have hfind := h.find hpath fun _ _ => rfl
    rw [hclone]
    dsimp only
    cases hentry : archive.entries.find? (isFile path) with
    | none =>
      rw [hentry] at hfind
      refine ⟨hfind, fun opened hopened => ?_⟩
      cases hopened
    | some entry =>
      rw [hentry] at hfind
      refine ⟨hfind, fun opened hopened reads size hsize => ⟨size, hsize, ?_⟩⟩
      cases hopened
      have hmem := List.mem_of_find?_eq_some hentry
      exact if_pos (.inr (h.whole entry hmem path hpath (List.find?_some hentry)).2.2)

/-- An archive with the files serves them, with its cache or without. -/
theorem archive_serves (h : Archives files archive)
    (mappable : FilePath → Result IOCIMappableFile) :
    Serves ((OCIArchiveBackingStore.new archive enableCache).toStore mappable) files where
  readFile path maxSize _ hpath hmax := h.readFile hpath hmax
  getFile path _ hpath := by
    rw [← (h.getFile hpath).1]
    show (((OCIArchiveBackingStore.new archive enableCache).getFile path).map
      OpenedFile.reader).toOption.map _ = _
    cases (OCIArchiveBackingStore.new archive enableCache).getFile path with
    | error error => rfl
    | ok opened => rfl
  delivers path s reader hpath hreader := by
    have hmap : ((OCIArchiveBackingStore.new archive enableCache).getFile path).map
      OpenedFile.reader = .ok reader := hreader
    cases hget : (OCIArchiveBackingStore.new archive enableCache).getFile path with
    | error error =>
      rw [hget] at hmap
      cases hmap
    | ok opened =>
      rw [hget] at hmap
      cases hmap
      exact (h.getFile hpath).2 opened hget

end

/-! ## Directories -/

/-- What is at a path of the file system, with the errors of opening it and of `fstat`. -/
structure DirNode where
  regular : Bool
  contents : Bytes
  openError : Option Nat
  statError : Option Nat

/-- A directory, and what reads of its files give: the `n`-th read that is made gives up to so many
bytes, or fails. -/
structure OCIDirBackingStore where
  baseDir : FilePath
  node : FilePath → Option DirNode
  amounts : Nat → Except Nat Nat

namespace OCIDirBackingStore

variable (store : OCIDirBackingStore)

/-- The full path of a file of the package, `m_baseDir / path`. -/
def fullPath (path : FilePath) : FilePath :=
  if path.rooted then path
  else
    { rooted := store.baseDir.rooted
      names := store.baseDir.names ++ path.names
      trailing :=
        if path.names = [] then store.baseDir.trailing || store.baseDir.hasFilename
        else path.trailing }

/-- The file that is opened for a path. -/
def openFile (path : FilePath) : Result DirNode :=
  match store.node (store.fullPath path) with
  | none => .error (.ralf .packageInvalidEntry "File not found")
  | some node =>
    if ¬node.regular then
      .error (.ralf .packageContentsInvalid "Path is a not a regular file")
    else
      match node.openError, node.statError with
      | some errno, _ => .error (.system errno "Failed to open file")
      | none, some errno => .error (.system errno "Failed to stat file")
      | none, none => .ok node

/-- The loop of `readFile`, with the bytes read so far. -/
def readLoop (contents : Bytes) : Nat → Bytes → Nat → Result Bytes × Nat
  | 0, buffer, reads => (.ok buffer, reads)
  | fuel + 1, buffer, reads =>
    if buffer.length ≥ contents.length then (.ok buffer, reads)
    else
      match store.amounts reads with
      | .error errno => (.error (.system errno "Failed to read file"), reads + 1)
      | .ok amount =>
        let data := (contents.drop buffer.length).take amount
        if data = [] then (.error (.system 0 "Failed to read file"), reads + 1)
        else readLoop contents fuel (buffer ++ data) (reads + 1)

/-- `readFile`, with the number of reads so far. -/
def readFile (path : FilePath) (maxSize : Nat) (reads : Nat) : Result Bytes × Nat :=
  match store.openFile path with
  | .error error => (.error error, reads)
  | .ok node =>
    if node.contents.length > maxSize then
      (.error (.ralf .packageFileTooLarge "File is too large"), reads)
    else store.readLoop node.contents node.contents.length [] reads

/-- The reader of a file. Its reads are further ones. -/
def reader (contents : Bytes) (reads : Nat) : IOCIFileReader where
  contents := contents
  outcome calls size :=
    match store.amounts (reads + calls) with
    | .error _ => .failure contents.length
    | .ok amount => .amount (min amount size)

def toStore : IOCIBackingStore Nat where
  readFile := store.readFile
  getFile path reads := ((store.openFile path).map fun node => store.reader node.contents reads, reads)
  getMappableFile path reads := ((store.openFile path).map fun node => ⟨node.contents⟩, reads)

/-- The directory has the files, and no read of them fails. -/
structure Holds (files : FilePath → Option Bytes) : Prop where
  files : ∀ path, PackagePath path →
    (store.openFile path).toOption.map DirNode.contents = files path
  reads : ∀ n, ∃ amount, 0 < amount ∧ store.amounts n = .ok amount

variable {store} {files : FilePath → Option Bytes}

/-- What is opened in a directory with regular files only, which can all be opened. -/
theorem openFile_contents {path : FilePath}
    (h : ∀ node, store.node (store.fullPath path) = some node →
      node.regular = true ∧ node.openError = none ∧ node.statError = none) :
    (store.openFile path).toOption.map DirNode.contents =
      (store.node (store.fullPath path)).map DirNode.contents := by
  unfold openFile
  rcases hnode : store.node (store.fullPath path) with _ | node
  · rfl
  · obtain ⟨hregular, hopen, hstat⟩ := h node hnode
    simp [hregular, hopen, hstat, Except.toOption]

theorem readLoop_ok (hreads : ∀ n, ∃ amount, 0 < amount ∧ store.amounts n = .ok amount)
    (contents : Bytes) (fuel : Nat) {buffer : Bytes} (reads : Nat) (hbuffer : buffer <+: contents)
    (hfuel : contents.length ≤ buffer.length + fuel) :
    (store.readLoop contents fuel buffer reads).1 = .ok contents := by
  induction fuel generalizing buffer reads with
  | zero =>
    have heq := hbuffer.eq_of_length_le hfuel
    rw [readLoop, heq]
  | succ fuel ih =>
    rw [readLoop]
    split
    · next hend => rw [hbuffer.eq_of_length_le hend]
    next hmore =>
    obtain ⟨amount, hpos, hamount⟩ := hreads reads
    obtain ⟨rest, rfl⟩ := hbuffer
    rw [List.length_append] at hmore
    have hrest : 0 < rest.length := by omega
    have hlength : (rest.take amount).length = min amount rest.length := List.length_take
    have hdata : rest.take amount ≠ [] := by
      rw [← List.length_pos_iff, hlength]
      exact Nat.lt_min.mpr ⟨hpos, hrest⟩
    rw [hamount]
    dsimp only
    rw [List.drop_left, if_neg hdata]
    refine ih (reads + 1) ?_ ?_
    · rw [List.prefix_append_right_inj]
      exact List.take_prefix _ _
    · rw [List.length_append] at hfuel
      rw [List.length_append, List.length_append, hlength]
      omega

/-- A directory with the files serves them, whatever the reads give. -/
theorem dir_serves (h : store.Holds files) : Serves store.toStore files where
  readFile path maxSize reads hpath _ := by
    rw [← h.files path hpath]
    show (store.readFile path maxSize reads).1.toOption = _
    unfold readFile
    cases store.openFile path with
    | error error => rfl
    | ok node =>
      dsimp only
      by_cases hlarge : node.contents.length > maxSize
      · simp [hlarge, Except.toOption, Option.filter]
      · rw [if_neg hlarge, readLoop_ok h.reads node.contents _ reads List.nil_prefix (by simp)]
        simp [Except.toOption, Option.filter, Nat.not_lt.mp hlarge]
  getFile path reads hpath := by
    rw [← h.files path hpath]
    show ((store.openFile path).map fun node => store.reader node.contents reads).toOption.map _ = _
    cases store.openFile path with
    | error error => rfl
    | ok node => rfl
  delivers path reads reader _ hreader := by
    have hmap : ((store.openFile path).map fun node => store.reader node.contents reads) =
      .ok reader := hreader
    cases hopen : store.openFile path with
    | error error =>
      rw [hopen] at hmap
      cases hmap
    | ok node =>
      rw [hopen] at hmap
      cases hmap
      intro calls size hsize
      obtain ⟨amount, hpos, hamount⟩ := h.reads (reads + calls)
      refine ⟨min amount size, Nat.lt_min.mpr ⟨hpos, hsize⟩, ?_⟩
      simp [OCIDirBackingStore.reader, hamount]

end OCIDirBackingStore

end Oci
