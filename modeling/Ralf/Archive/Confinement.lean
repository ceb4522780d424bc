import Mathlib.Logic.Relation
import Ralf.Archive.PathSafety

/-!
# Writing what an archive returns

A client goes through an archive with `next`, reads entries, and writes each one into
a target directory before it takes the next. `returned_paths_safe` covers every such
session: the returned paths are safe, none of them is inside a symlink that was
returned before it, and when the target directory has no symlinks to begin with, no
call resolves a path through a symlink and nothing outside the directory changes.

The invariant that carries this is that the symlinks in the target directory are
returned entries.
-/

namespace Archive

open Posix

/-- A client with its reader, the entries that were returned, and the file system. -/
structure Session where
  reader : ArchiveReader
  returned : List PackageEntry
  world : World

/-- The start: an archive that was just opened, and no calls made. -/
def Session.new (headers : List Header) (digests : Option FileDigestMap)
    (fs : FileSystem) : Session :=
  ⟨.new headers digests, [], ⟨fs, [], 0⟩⟩

section
variable (sha256 : Bytes → Bytes) (faults : Nat → Option Errno) (targetDir : Location)

/-- What the client can do. -/
inductive Session.Step : Session → Session → Prop
  | next (s : Session) : Step s
      { s with
        reader := (s.reader.next sha256).2
        returned := s.returned ++ (s.reader.next sha256).1.toList }
  /-- Reading an entry takes data from the archive and can set the error. -/
  | read (s : Session) (blocks : List DataBlock) (dataEnd : DataEnd) (error : Option Error) :
      (s.reader.hasError = true → error = s.reader.readState.error) → Step s
      { s with reader := { s.reader with readState := { s.reader.readState with
          archive := ⟨s.reader.readState.archive.headers, blocks, dataEnd⟩
          error := error } } }
  /-- Only the entry that was returned last is written. -/
  | write (s : Session) (entry : PackageEntry) (maxSize : Nat) (options : ExtractOptions) :
      s.returned.getLast? = some entry → Step s
      { s with world :=
          (entry.writeTo sha256 faults targetDir maxSize options s.reader.readState s.world).2 }

/-- The next entry, which is written at once. -/
def Session.advance (maxSize : Nat) (options : ExtractOptions) (s : Session) : Session :=
  match s.reader.next sha256 with
  | (none, reader) => { s with reader := reader }
  | (some entry, reader) =>
    { reader := reader
      returned := s.returned ++ [entry]
      world := (entry.writeTo sha256 faults targetDir maxSize options reader.readState s.world).2 }

end

/-- No symlink below a directory. -/
def NoLinksBelow (fs : FileSystem) (dir : Location) : Prop :=
  ∀ names, names ≠ [] → ¬ IsLink fs (dir ++ names)

/-- The symlinks below the target directory are entries, and only the target
directory was changed. -/
structure Written (targetDir : Location) (before : FileSystem) (s : Session) : Prop where
  links : ∀ names, names ≠ [] → IsLink s.world.fs (targetDir ++ names) →
    ∃ entry ∈ s.returned, entry.isSymlink = true ∧ entry.path = FilePath.ofNames names
  calls : ∀ c ∈ s.world.calls, ¬ HasLinkPrefix c.fs targetDir c.path
  outside : ∀ loc, ¬ targetDir <+: loc → s.world.fs.lookup loc = before.lookup loc

variable {sha256 : Bytes → Bytes} {faults : Nat → Option Errno} {targetDir : Location}
  {before : FileSystem} {s s' : Session}

theorem advance_steps (maxSize : Nat) (options : ExtractOptions) (s : Session) :
    Relation.ReflTransGen (Session.Step sha256 faults targetDir) s
      (s.advance sha256 faults targetDir maxSize options) := by
  have hnext := @Session.Step.next sha256 faults targetDir s
  unfold Session.advance
  cases hresult : s.reader.next sha256 with
  | mk entry reader =>
    rw [hresult] at hnext
    cases entry with
    | none => exact .single (by simpa using hnext)
    | some entry => exact .tail (.single hnext) (.write _ entry maxSize options (by simp))

theorem step_listed (h : Session.Step sha256 faults targetDir s s')
    (hlisted : ArchiveReader.Listed s.returned s.reader) :
    ArchiveReader.Listed s'.returned s'.reader := by
  cases h with
  | next => exact ArchiveReader.next_listed hlisted
  | read => exact hlisted.congr rfl rfl
  | write => exact hlisted

/-- On the way to the entry that was returned last there is no symlink. -/
theorem Written.linkFree {entry : PackageEntry} {names : List Bytes}
    (h : Written targetDir before s) (hlisted : ArchiveReader.Listed s.returned s.reader)
    (hlast : s.returned.getLast? = some entry) (hpath : entry.path = FilePath.ofNames names) :
    LinkFree s.world.fs targetDir names := by
  intro init hinit hne hnames hlink
  obtain ⟨other, hother, hsymlink, hotherPath⟩ := h.links init hne hlink
  obtain ⟨earlier, hreturned⟩ := List.getLast?_eq_some_iff.mp hlast
  have hapart := (List.pairwise_append.mp hlisted.apart).1
  rw [hreturned] at hother hapart
  rcases List.mem_append.mp hother with hearlier | hself
  · refine (List.pairwise_append.mp hapart).2.2 other hearlier entry (by simp) hsymlink ?_
    rw [hotherPath, hpath, FilePath.IsPrefix, FilePath.components_ofNames,
      FilePath.components_ofNames]
    exact hinit
  · rw [List.mem_singleton.mp hself, hpath] at hotherPath
    exact hnames (congrArg FilePath.names hotherPath).symm

theorem step_written (h : Session.Step sha256 faults targetDir s s')
    (hlisted : ArchiveReader.Listed s.returned s.reader) (hwritten : Written targetDir before s) :
    Written targetDir before s' := by
  cases h with
  | next =>
    refine ⟨fun names hne hlink => ?_, hwritten.calls, hwritten.outside⟩
    obtain ⟨entry, hentry, hsymlink, hpath⟩ := hwritten.links names hne hlink
    exact ⟨entry, List.mem_append_left _ hentry, hsymlink, hpath⟩
  | read => exact ⟨hwritten.links, hwritten.calls, hwritten.outside⟩
  | write entry maxSize options hlast =>
    have hentry : entry ∈ s.returned := List.mem_of_getLast? hlast
    obtain ⟨names, target, hpath, hleads, hloc⟩ :=
      (hlisted.paths entry (List.mem_append_left _ hentry)).leads targetDir
    obtain ⟨⟨hframe, hlinks, hcalls⟩, -⟩ :=
      @writeTo_keeps sha256 faults _ _ _ _ hpath maxSize options s.reader.readState hleads s.world
        (hwritten.linkFree hlisted hlast hpath) trivial
    refine ⟨fun ns hne hlink => ?_, fun c hc => ?_, fun loc hout => ?_⟩
    · by_cases heq : targetDir ++ ns = target.loc
      · rcases hlinks (heq ▸ hlink) with hsymlink | hbefore
        · refine ⟨entry, hentry, hsymlink, ?_⟩
          rcases hloc with hloc | hloc
          · rw [hpath, List.append_cancel_left (heq.trans hloc)]
          · exact absurd (List.append_right_eq_self.mp (heq.trans hloc)) hne
        · exact hwritten.links ns hne (heq ▸ hbefore)
      · obtain ⟨node, hnode, hsymlink⟩ := hlink
        exact hwritten.links ns hne ⟨node, hframe _ heq ▸ hnode, hsymlink⟩
    · exact (hcalls c hc).elim (hwritten.calls c) id
    · rw [← hwritten.outside loc hout]
      refine hframe loc fun heq => hout ?_
      rcases hloc with hloc | hloc
      · exact ⟨names, (heq.trans hloc).symm⟩
      · exact ⟨[], by rw [List.append_nil, heq, hloc]⟩

variable {headers : List Header} {digests : Option FileDigestMap}

theorem run_listed (h : Relation.ReflTransGen (Session.Step sha256 faults targetDir)
    (.new headers digests before) s) : ArchiveReader.Listed s.returned s.reader := by
  induction h with
  | refl => exact ArchiveReader.Listed.new headers digests
  | tail _ hstep ih => exact step_listed hstep ih

theorem run_written (hlinks : NoLinksBelow before targetDir)
    (h : Relation.ReflTransGen (Session.Step sha256 faults targetDir)
    (.new headers digests before) s) :
    Written targetDir before s := by
  induction h with
  | refl =>
    exact ⟨fun names hne hlink => absurd hlink (hlinks names hne),
      fun c hc => absurd hc List.not_mem_nil, fun _ _ => rfl⟩
  | tail hrun hstep ih => exact step_written hstep (run_listed hrun) ih

/-- The returned paths are safe and not inside symlinks that were returned earlier, so
that writing the entries never goes through a symlink. -/
theorem returned_paths_safe
    (h : Relation.ReflTransGen (Session.Step sha256 faults targetDir)
    (.new headers digests before) s) :
    (∀ entry ∈ s.returned, SafePath entry.path) ∧
      s.returned.Pairwise Apart ∧
      (NoLinksBelow before targetDir →
        (∀ c ∈ s.world.calls, ¬ HasLinkPrefix c.fs targetDir c.path) ∧
        ∀ loc, ¬ targetDir <+: loc → s.world.fs.lookup loc = before.lookup loc) := by
  have hlisted := run_listed h
  refine ⟨fun entry hentry => ?_, (List.pairwise_append.mp hlisted.apart).1, fun hlinks => ?_⟩
  · exact (hlisted.paths entry (List.mem_append_left _ hentry)).safe
  · exact ⟨(run_written hlinks h).calls, (run_written hlinks h).outside⟩

/-- An archive with a symlink `l` to the root, a directory and a file. -/
def linkAndFile : List Header :=
  [.entry { pathname := some [0x6c], type := .symlink, perm := 0o777, mtime := 0, size := 0,
            symlink := some [0x2f], blocks := [], dataEnd := .eof },
   .entry { pathname := some [0x2e, 0x2f, 0x61, 0x2f, 0x2f, 0x66], type := .regular, perm := 0o644,
            mtime := 0, size := 1, symlink := none, blocks := [⟨[0x78], 0⟩], dataEnd := .eof }]

/-- The session that extracts `linkAndFile` into the directory `/t`. -/
def linkAndFileSession : Session :=
  let advance := Session.advance (fun _ => []) (fun _ => none) [[0x74]] 1 ExtractOption.none
  advance (advance (advance (.new linkAndFile none ⟨[([[0x74]], ⟨.directory, 0o755, 0⟩)]⟩)))

theorem returned_paths_safe_linkAndFile :
    linkAndFileSession.returned.map (fun entry => entry.path.names) =
        [[[0x6c]], [[0x61]], [[0x61], [0x66]]] ∧
      linkAndFileSession.world.calls.length = 8 ∧
      (∀ entry ∈ linkAndFileSession.returned, SafePath entry.path) ∧
      linkAndFileSession.returned.Pairwise Apart ∧
      ∀ c ∈ linkAndFileSession.world.calls, ¬ HasLinkPrefix c.fs [[0x74]] c.path := by
  have hadvance := @advance_steps (fun _ => []) (fun _ => none) [[0x74]] 1 ExtractOption.none
  have hrun := (hadvance (.new linkAndFile none ⟨[([[0x74]], ⟨.directory, 0o755, 0⟩)]⟩)).trans
    ((hadvance _).trans (hadvance _))
  obtain ⟨hsafe, hapart, hconfined⟩ := returned_paths_safe hrun
  refine ⟨by decide +kernel, by decide +kernel, hsafe, hapart, (hconfined ?_).1⟩
  rintro names hne ⟨node, hnode, hlink⟩
  rw [FileSystem.lookup, List.lookup_cons] at hnode
  split at hnode
  · next heq => exact hne (by simpa using heq)
  · cases hnode

end Archive
