import Mathlib.Data.List.Infix
import Ralf.Archive.Confinement
import Ralf.Erofs.NamedEntries
import Ralf.Erofs.UnreadableBlocks
import Ralf.Oci.ErofsImageEntry

/-!
# Writing what an EROFS image gives

A client goes through an image with `next` and writes entries that it was given into a
target directory, without options. Nothing makes an entry go where it was before: a name
may come twice in a directory, first as a directory and then as a symlink. The symlink
takes the place of the directory while it is empty, and the entries of the directory are
written through it.

`calls_confined` says that nothing else goes wrong: when no entry of the image lies below the path
of a symlink of the image, no write resolves a symlink, in whatever order the entries are written.
The invariant is that every symlink in the target directory is at the path of a symlink that was
given.
-/

namespace Oci

open Posix Erofs
open Archive (NoLinksBelow)
open ErofsReader (noLz4 rootByte treeSuperBlock treeImage_size_lt)

/-! ## Entries of an image -/

/-- The number of a data format in a message. -/
def dataFormatNumber : DataFormat → Nat
  | .flatPlain => 0
  | .compressedFull => 1
  | .flatInline => 2
  | .compressedCompact => 3
  | .chunkBased => 4
  | .invalid => 5

/-- The error that a failed read of an inode sets, given the data reader that there is then. -/
def readError (inode : ErofsInode) : Option IErofsInodeDataReader → Option Error
  | some _ =>
    let number := dataFormatNumber inode.dataFormat
    some (.ralf .erofsError s!"Reader failed to read (reader type {number})")
  | none =>
    let number := inode.inodeNumber
    match inode.dataFormat with
    | .chunkBased => none
    | .invalid => some (.ralf .erofsError s!"Unknown inode data format for inode {number}")
    | _ => some (.ralf .erofsError s!"Failed to create inode data reader for inode {number}")

namespace OCIErofsImageEntry

/-- Wraps an entry. What its reads give depends on the image file. -/
def new (entry : ErofsEntry) (read : List (Nat × Nat) → Nat → Nat → Option Error × Bytes) :
    OCIErofsImageEntry where
  path := entry.path
  type := entry.inode.type
  permissions := entry.inode.permissions
  size := entry.size
  modificationTime := entry.inode.modificationTime.1
  read := read

/-- What a read gives after other reads, with an inode and the image file in a state. The inode keeps
its data reader between the reads. A read with a memory fault gives nothing. -/
def readEntry {σ : Type} (file : IErofsImageFile σ) (lz4 : Lz4) :
    ErofsInode → σ → List (Nat × Nat) → Nat → Nat → Option Error × Bytes
  | inode, s, [], size, offset =>
    match inode.read file lz4 (List.replicate size 0) offset s with
    | .error _ => (none, [])
    | .ok (amount, data, inode, _) =>
      if amount < 0 then (readError inode inode.inodeReader, [])
      else (none, data.take amount.toNat)
  | inode, s, (before, position) :: rest, size, offset =>
    match inode.read file lz4 (List.replicate before 0) position s with
    | .error _ => (none, [])
    | .ok (_, _, inode, s) => readEntry file lz4 inode s rest size offset

end OCIErofsImageEntry

/-! ## Sessions -/

/-- A client with its reader and the state of the image file, the entries that it was given, and the
file system. -/
structure Session (σ : Type) where
  reader : ErofsReader
  state : σ
  given : List ErofsEntry
  world : World

namespace Session

/-- The start: a reader that was just made, and no calls made. -/
def new {σ : Type} (reader : ErofsReader) (state : σ) (fs : FileSystem) : Session σ :=
  ⟨reader, state, [], ⟨fs, [], 0⟩⟩

section
variable {σ : Type} (file : IErofsImageFile σ) (lz4 : Lz4) (faults : Nat → Option Errno)
  (targetDir : Location)

/-- Writes an entry. -/
def write (entry : ErofsEntry) (read : List (Nat × Nat) → Nat → Nat → Option Error × Bytes)
    (maxSize : Nat) (s : Session σ) : Session σ :=
  { s with world :=
      ((OCIErofsImageEntry.new entry read).writeTo faults targetDir maxSize ExtractOption.none
        s.world).2 }

/-- What a client can do. -/
inductive Step : Session σ → Session σ → Prop
  | next (s : Session σ) {entry : Option ErofsEntry} {reader : ErofsReader} {state : σ} :
      s.reader.next file lz4 s.state = .ok (entry, reader, state) → Step s
      { s with reader := reader, state := state, given := s.given ++ entry.toList }
  /-- Reading an entry changes the state of the file. -/
  | read (s : Session σ) (state : σ) : Step s { s with state := state }
  | setAdvice (s : Session σ) (readAllOnce : Bool) : Step s
      { s with reader := { s.reader with readAllOnce := readAllOnce } }
  /-- An entry can be written at any time, and its reads can give anything. -/
  | write (s : Session σ) (entry : ErofsEntry)
      (read : List (Nat × Nat) → Nat → Nat → Option Error × Bytes) (maxSize : Nat) :
      entry ∈ s.given → Step s (s.write faults targetDir entry read maxSize)

/-- The next entry, which is written at once. -/
def advance (maxSize : Nat) (s : Session σ) : Option (Session σ) :=
  match s.reader.next file lz4 s.state with
  | .error _ => none
  | .ok (none, reader, state) => some { s with reader := reader, state := state }
  | .ok (some entry, reader, state) =>
    let s : Session σ := { s with reader := reader, state := state, given := s.given ++ [entry] }
    some (s.write faults targetDir entry
      (OCIErofsImageEntry.readEntry file lz4 entry.inode state) maxSize)

/-- A number of entries, each written before the next is taken. -/
def extract (maxSize : Nat) : Nat → Session σ → Option (Session σ)
  | 0, s => some s
  | count + 1, s => (s.advance file lz4 faults targetDir maxSize).bind (extract maxSize count)

end

end Session

/-! ## No symlink is resolved -/

/-- A symlink was given with these names. -/
def LinkGiven (given : List ErofsEntry) (names : List Bytes) : Prop :=
  ∃ entry ∈ given, entry.path.names = names ∧ entry.inode.type = .symlink

/-- What a session keeps: the entries given are those of the image, every symlink below the target
directory is at the path of a symlink that was given, and only the target directory was changed. -/
structure Kept {σ : Type} (file : IErofsImageFile σ) (lz4 : Lz4) (superBlock : ErofsSuperBlock)
    (targetDir : Location) (before : FileSystem) (s : Session σ) : Prop where
  reader : s.reader.PlainNames
  image : ErofsReader.InImage file lz4 superBlock s.reader
  plain : ∀ entry ∈ s.given, PlainPath entry.path
  given : ∀ entry ∈ s.given, ∃ spot, ErofsReader.HasEntry file lz4 superBlock spot ∧
    ErofsReader.Renders file superBlock spot entry
  links : ∀ names, names ≠ [] → IsLink s.world.fs (targetDir ++ names) → LinkGiven s.given names
  calls : ∀ c ∈ s.world.calls, ¬ HasLinkPrefix c.fs targetDir c.path
  outside : ∀ loc, ¬ targetDir <+: loc → s.world.fs.lookup loc = before.lookup loc

section
variable {σ : Type} {file : IErofsImageFile σ} {lz4 : Lz4} {superBlock : ErofsSuperBlock}
  {faults : Nat → Option Errno} {targetDir : Location} {before : FileSystem} {s s' : Session σ}

/-- No symlink is on the way to an entry. -/
theorem Kept.linkFree {entry : ErofsEntry} {names : List Bytes}
    (h : Kept file lz4 superBlock targetDir before s)
    (hnone : ErofsReader.NoneBelowLinks file lz4 superBlock) (hgiven : entry ∈ s.given)
    (hpath : entry.path = FilePath.ofNames names) : LinkFree s.world.fs targetDir names := by
  intro init hinit hne hproper hlink
  obtain ⟨link, hlinkGiven, hlinkNames, htype⟩ := h.links init hne hlink
  obtain ⟨linkSpot, hlinkEntry, hlinkRenders⟩ := h.given link hlinkGiven
  obtain ⟨spot, hentry, hrenders⟩ := h.given entry hgiven
  have hlinkPath : (ErofsReader.pathOf linkSpot).names = init := by
    rw [← hlinkNames, hlinkRenders.path]
    rfl
  have hspotPath : (ErofsReader.pathOf spot).names = names := by
    have hnames := congrArg FilePath.names (hrenders.path.symm.trans hpath)
    exact hnames
  have hsame := hnone linkSpot spot hlinkEntry hentry (hlinkRenders.isSymlink htype) (by
    rw [hlinkPath, hspotPath]
    exact hinit)
  rw [hlinkPath, hspotPath] at hsame
  exact hproper hsame

theorem Kept.write {entry : ErofsEntry} (h : Kept file lz4 superBlock targetDir before s)
    (hnone : ErofsReader.NoneBelowLinks file lz4 superBlock) (hgiven : entry ∈ s.given)
    (read : List (Nat × Nat) → Nat → Nat → Option Error × Bytes) (maxSize : Nat) :
    Kept file lz4 superBlock targetDir before
      (s.write faults targetDir entry read maxSize) := by
  obtain ⟨names, hpath, hplain⟩ := h.plain entry hgiven
  obtain ⟨⟨hframe, -, hcalls⟩, hleft⟩ := @OCIErofsImageEntry.writeTo_spec faults targetDir names
    ⟨targetDir ++ names, true⟩ (names ≠ [] → LinkGiven s.given names) (.new entry read) maxSize hpath
    hplain.leads s.world (h.linkFree hnone hgiven hpath) fun hlink hne => h.links names hne hlink
  refine ⟨h.reader, h.image, h.plain, h.given, fun ns hne hlink => ?_, fun c hc => ?_,
    fun loc hout => ?_⟩
  · unfold Session.write at hlink ⊢
    dsimp only at hlink ⊢
    generalize (OCIErofsImageEntry.new entry read).writeTo faults targetDir maxSize
      ExtractOption.none
      s.world = result at hframe hleft hlink ⊢
    obtain ⟨result, world⟩ := result
    by_cases heq : ns = names
    · subst heq
      cases result with
      | error error => exact hleft hlink hne
      | ok size => exact ⟨entry, hgiven, congrArg FilePath.names hpath, hleft hlink⟩
    · obtain ⟨node, hnode, hsymlink⟩ := hlink
      have hother := hframe (targetDir ++ ns) fun h => heq (List.append_cancel_left h)
      exact h.links ns hne ⟨node, hother ▸ hnode, hsymlink⟩
  · exact (hcalls c hc).elim (h.calls c) id
  · rw [← h.outside loc hout]
    exact hframe loc fun heq => hout ⟨names, heq.symm⟩

section
variable (hfile : file.Unchanging)
  (hread : ErofsReader.DirectoriesReadable file lz4 superBlock)
  (hnone : ErofsReader.NoneBelowLinks file lz4 superBlock)
include hfile hread hnone

theorem step_kept (hstep : Session.Step file lz4 faults targetDir s s')
    (h : Kept file lz4 superBlock targetDir before s) :
    Kept file lz4 superBlock targetDir before s' := by
  cases hstep with
  | next hnext =>
    obtain ⟨hreader, hplain⟩ := ErofsReader.next_plainNames h.reader hnext
    obtain ⟨himage, hentry⟩ := ErofsReader.next_inImage hfile hread h.image hnext
    refine ⟨hreader, himage, fun entry hgiven => ?_, fun entry hgiven => ?_,
      fun names hne hlink => ?_, h.calls, h.outside⟩
    · rcases List.mem_append.mp hgiven with hgiven | hgiven
      · exact h.plain entry hgiven
      · exact hplain entry (Option.mem_toList.mp hgiven)
    · rcases List.mem_append.mp hgiven with hgiven | hgiven
      · exact h.given entry hgiven
      · exact hentry entry (Option.mem_toList.mp hgiven)
    · obtain ⟨link, hlinkGiven, hlink⟩ := h.links names hne hlink
      exact ⟨link, List.mem_append_left _ hlinkGiven, hlink⟩
  | read => exact ⟨h.reader, h.image, h.plain, h.given, h.links, h.calls, h.outside⟩
  | setAdvice =>
    refine ⟨⟨h.reader.stack, h.reader.entries⟩, fun herror => ?_, h.plain, h.given, h.links,
      h.calls, h.outside⟩
    rcases h.image herror with hstack | ⟨hsize, a, hshows, hsound⟩
    · exact .inl hstack
    · exact .inr ⟨hsize, a, hshows.advise _, hsound⟩
  | write entry read maxSize hgiven => exact h.write hnone hgiven read maxSize

theorem run_kept {reader : ErofsReader} {start state : σ}
    (hsuper : ErofsReader.superBlockOf file start = some superBlock)
    (hnew : ErofsReader.new file lz4 start = .ok (reader, state))
    (hlinks : NoLinksBelow before targetDir)
    (hrun : Relation.ReflTransGen (Session.Step file lz4 faults targetDir)
      (.new reader state before) s) : Kept file lz4 superBlock targetDir before s := by
  induction hrun with
  | refl =>
    exact ⟨ErofsReader.new_plainNames hnew, ErofsReader.new_inImage hnew hsuper,
      fun _ hmem => (nomatch hmem), fun _ hmem => (nomatch hmem),
      fun names hne hlink => absurd hlink (hlinks names hne), fun _ hmem =>
        (nomatch hmem), fun _ _ => rfl⟩
  | tail _ hstep ih => exact step_kept hfile hread hnone hstep ih

end

/-- In an image whose directories can be read and that has no entry below the path of a symlink, no
call resolves a symlink on the way, and nothing outside the target directory changes. There is no
such entry when the names in each directory are unique. -/
theorem calls_confined (hfile : file.Unchanging) {reader : ErofsReader} {start state : σ}
    (hsuper : ErofsReader.superBlockOf file start = some superBlock)
    (hnew : ErofsReader.new file lz4 start = .ok (reader, state))
    (hread : ErofsReader.DirectoriesReadable file lz4 superBlock)
    (hlinks : NoLinksBelow before targetDir) :
    (ErofsReader.UniqueNames file lz4 superBlock →
      ErofsReader.NoneBelowLinks file lz4 superBlock) ∧
    (ErofsReader.NoneBelowLinks file lz4 superBlock → ∀ s,
      Relation.ReflTransGen (Session.Step file lz4 faults targetDir) (.new reader state before) s →
        (∀ c ∈ s.world.calls, ¬ HasLinkPrefix c.fs targetDir c.path) ∧
          ∀ loc, ¬ targetDir <+: loc → s.world.fs.lookup loc = before.lookup loc) := by
  refine ⟨ErofsReader.noneBelowLinks_of_uniqueNames hfile, fun hnone s hrun => ?_⟩
  have hkept := run_kept hfile hread hnone hsuper hnew hlinks hrun
  exact ⟨hkept.calls, hkept.outside⟩

end

/-! ### A name that comes twice -/

section
variable {σ : Type} {file : IErofsImageFile σ} {lz4 : Lz4} {faults : Nat → Option Errno}
  {targetDir : Location} {maxSize : Nat} {s s' : Session σ}

theorem advance_steps (h : s.advance file lz4 faults targetDir maxSize = some s') :
    Relation.ReflTransGen (Session.Step file lz4 faults targetDir) s s' := by
  unfold Session.advance at h
  split at h
  · cases h
  · next hnext =>
    cases h
    have hstep := @Session.Step.next σ file lz4 faults targetDir s _ _ _ hnext
    rw [Option.toList_none, List.append_nil] at hstep
    exact .single hstep
  · next hnext =>
    cases h
    exact .tail (.single (.next s hnext))
      (.write _ _ _ _ (List.mem_append_right _ List.mem_cons_self))

theorem extract_steps {count : Nat}
    (h : s.extract file lz4 faults targetDir maxSize count = some s') :
    Relation.ReflTransGen (Session.Step file lz4 faults targetDir) s s' := by
  induction count generalizing s with
  | zero =>
    cases h
    exact .refl
  | succ count ih =>
    obtain ⟨s₁, hadvance, hrest⟩ := Option.bind_eq_some_iff.mp h
    exact (advance_steps hadvance).trans (ih hrest)

end

/-- The file system before: the directory `/t`. -/
def onlyTarget : FileSystem := ⟨[([[0x74]], ⟨.directory, 0o755, 0⟩)]⟩

/-- What the extraction of three entries of an image into `/t` leads to. -/
def extraction (file : IErofsImageFile Unit) : Option (Session Unit) :=
  match ErofsReader.new file noLz4 () with
  | .error _ => none
  | .ok (reader, _) =>
    (Session.new reader () onlyTarget).extract file noLz4 (fun _ => none) [[0x74]] 16 3

theorem extraction_run {file : IErofsImageFile Unit} {s : Session Unit}
    (h : extraction file = some s) :
    ∃ reader, ErofsReader.new file noLz4 () = .ok (reader, ()) ∧
      Relation.ReflTransGen (Session.Step file noLz4 (fun _ => none) [[0x74]])
        (.new reader () onlyTarget) s := by
  unfold extraction at h
  split at h
  · cases h
  · next reader _ hnew => exact ⟨reader, hnew, extract_steps h⟩

theorem onlyTarget_noLinks : NoLinksBelow onlyTarget [[0x74]] := by
  rintro names hne ⟨node, hnode, hlink⟩
  unfold onlyTarget FileSystem.lookup at hnode
  rw [List.lookup_cons] at hnode
  split at hnode
  · next heq => exact hne (by simpa using heq)
  · cases hnode

/-- The bytes of an image whose root directory has a directory `a` and a symlink to `/`. The
directory has an empty file `b`. -/
def linkByte (name : UInt8) (offset : Nat) : UInt8 :=
  if offset < 8192 then
    match offset with
    | 2056 => 26
    -- the inode 65 of the directory, with its block at 12288
    | 2084 => 0xed
    | 2085 => 0x41
    | 2088 => 13
    | 2096 => 3
    -- the inode 66 of the symlink, with its target at 16384
    | 2116 => 0xff
    | 2117 => 0xa1
    | 2120 => 1
    | 2128 => 4
    -- the inode 67 of the file
    | 2148 => 0xa4
    | 2149 => 0x81
    | _ => rootByte offset
  else if offset < 12288 then
    [65, 0, 0, 0, 0, 0, 0, 0, 24, 0, 2, 0, 66, 0, 0, 0, 0, 0, 0, 0, 25, 0, 7, 0, 0x61, name].getD
      (offset - 8192) 0
  else if offset < 16384 then [67, 0, 0, 0, 0, 0, 0, 0, 12, 0, 1, 0, 0x62].getD (offset - 12288) 0
  else if offset = 16384 then 0x2f
  else 0

/-- The image in which the symlink has a name. -/
def linkImage (name : UInt8) : IErofsImageFile Unit := imageOf 20480 treeImage_size_lt (linkByte name)

/-- The symlink is at another path than the directory. -/
theorem calls_confined_other : ∃ s, extraction (linkImage 0x6c) = some s ∧
    (s.given.map fun entry => entry.path.names) = [[[0x61]], [[0x6c]], [[0x61], [0x62]]] ∧
    (∀ c ∈ s.world.calls, ¬ HasLinkPrefix c.fs [[0x74]] c.path) ∧
    ∀ loc, ¬ [[0x74]] <+: loc → s.world.fs.lookup loc = onlyTarget.lookup loc := by
  have hpaths : (extraction (linkImage 0x6c)).map
      (fun s => s.given.map fun entry => entry.path.names) =
        some [[[0x61]], [[0x6c]], [[0x61], [0x62]]] := by decide +kernel
  obtain ⟨s, hs, hgiven⟩ := Option.map_eq_some_iff.mp hpaths
  obtain ⟨reader, hnew, hrun⟩ := extraction_run hs
  have hfile : (linkImage 0x6c).Unchanging := imageOf_unchanging _ _ _
  have hroot : ErofsReader.Lists (linkImage 0x6c) noLz4 treeSuperBlock 64
      [⟨65, [0x61], .directory⟩, ⟨66, [0x6c], .symlink⟩] :=
    ⟨(), @directoryEntries_of_directoryBlocks _ _ _ _ _ _ _ 2 (by decide +kernel)⟩
  have hsub : ErofsReader.Lists (linkImage 0x6c) noLz4 treeSuperBlock 65
      [⟨67, [0x62], .regular⟩] :=
    ⟨(), @directoryEntries_of_directoryBlocks _ _ _ _ _ _ _ 2 (by decide +kernel)⟩
  have honly : ∀ route dir, ErofsReader.HasDirectory (linkImage 0x6c) noLz4 treeSuperBlock
      route dir → dir.inode = 64 ∨ dir.inode = 65 := by
    refine fun route dir hat => @ErofsReader.HasDirectory.closed _ (linkImage 0x6c) noLz4
      treeSuperBlock route dir (fun n => n = 64 ∨ n = 65) (.inl rfl) ?_ hat
    rintro n entries (rfl | rfl) hlists entry hentry htype
    · obtain rfl := hroot.eq hfile hlists
      rcases List.mem_pair.mp hentry with rfl | rfl
      · exact .inr rfl
      · cases htype
    · obtain rfl := hsub.eq hfile hlists
      obtain rfl := List.mem_singleton.mp hentry
      cases htype
  have hread : ErofsReader.DirectoriesReadable (linkImage 0x6c) noLz4 treeSuperBlock := by
    rintro route ⟨path, n⟩ hat -
    rcases honly _ _ hat with rfl | rfl
    · exact ⟨_, hroot⟩
    · exact ⟨_, hsub⟩
  obtain ⟨hnames, hconfined⟩ := @calls_confined _ _ noLz4 treeSuperBlock (fun _ => none) [[0x74]]
    onlyTarget hfile reader () () (by decide +kernel) hnew hread onlyTarget_noLinks
  refine ⟨s, hs, hgiven, hconfined (hnames ?_) s hrun⟩
  rintro route ⟨path, n⟩ entries hat hlists
  rcases honly _ _ hat with rfl | rfl
  · obtain rfl := hroot.eq hfile hlists
    decide
  · obtain rfl := hsub.eq hfile hlists
    decide

/-- A call whose path is `a/b` and is resolved through the symlink `a`. -/
def throughLink (c : Call) : Bool :=
  c.path = FilePath.ofNames [[0x61], [0x62]] &&
    match locate c.fs [[0x74]] (FilePath.ofNames [[0x61]]) with
    | .error _ => false
    | .ok target => (c.fs.lookup target.loc).any Node.isSymlink

theorem hasLinkPrefix_of_throughLink {c : Call} (h : throughLink c = true) :
    HasLinkPrefix c.fs [[0x74]] c.path := by
  obtain ⟨hequal, hlink⟩ := Bool.and_eq_true_iff.mp h
  have hpath := of_decide_eq_true hequal
  split at hlink
  · cases hlink
  · next target hlocate =>
    obtain ⟨node, hnode, hsymlink⟩ := (Option.any_eq_true _ _).mp hlink
    refine ⟨[[0x61]], ?_, ?_, target, ?_, node, hnode, hsymlink⟩
    · rw [hpath]
      exact ⟨[[0x62]], rfl⟩
    · rw [hpath]
      decide
    · rw [hpath]
      exact hlocate

/-- When the symlink has the name `a` too, `a/b` is resolved through it, and the file `/b` is made. -/
theorem not_calls_confined : ∃ reader s, ErofsReader.new (linkImage 0x61) noLz4
    () = .ok (reader, ()) ∧
    NoLinksBelow onlyTarget [[0x74]] ∧
    Relation.ReflTransGen (Session.Step (linkImage 0x61) noLz4 (fun _ => none) [[0x74]])
      (.new reader () onlyTarget) s ∧
    (∃ c ∈ s.world.calls, HasLinkPrefix c.fs [[0x74]] c.path) ∧
    ¬ [[0x74]] <+: [[0x62]] ∧ s.world.fs.lookup [[0x62]] ≠ onlyTarget.lookup [[0x62]] := by
  have hresult : (extraction (linkImage 0x61)).map
      (fun s => (s.world.calls.any throughLink, s.world.fs.lookup [[0x62]])) =
        some (true, some ⟨.regular [], 0o644, 0⟩) := by decide +kernel
  obtain ⟨s, hs, hboth⟩ := Option.map_eq_some_iff.mp hresult
  obtain ⟨hcalls, hoverwritten⟩ := Prod.mk.inj hboth
  obtain ⟨reader, hnew, hrun⟩ := extraction_run hs
  obtain ⟨c, hc, hthrough⟩ := List.any_eq_true.mp hcalls
  refine ⟨reader, s, hnew, onlyTarget_noLinks, hrun,
    ⟨c, hc, hasLinkPrefix_of_throughLink hthrough⟩, ?_, ?_⟩
  · decide
  · rw [hoverwritten]
    decide

end Oci
