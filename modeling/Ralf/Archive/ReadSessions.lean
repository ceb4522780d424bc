import Ralf.Archive.FileRead
import Ralf.Archive.Turns

/-!
# Reading entries while the reader moves on

All entries of an archive share one reader. A file entry is made when the header of its member is
read, and may be returned some calls later, behind the directories that its path goes through; it
is readable as long as the reader is at its member. A client may keep all entries and read any of
them at any time.

The invariant of such a session is that what a file entry gave is the beginning of the data of its
own member, that the library has the rest as long as the reader is there, and that no other entry
is for the same member. A symlink entry has its target, and gives it at any time.
-/

namespace Archive

open ArchiveReader

/-! ## Entries of members -/

/-- The index that a file entry has taken. -/
def PackageEntry.fileIndex (entry : PackageEntry) : Option Nat :=
  match entry.kind with
  | .file _ index => some index
  | _ => none

/-- Not two file entries for one member. -/
def Distinct (a b : PackageEntry) : Prop := ∀ index, a.fileIndex = some index →
    b.fileIndex ≠ some index

theorem MadeFor.fileIndex {member : Member} {index found : Nat} {entry : PackageEntry}
    (h : MadeFor member index entry) (hindex : entry.fileIndex = some found) : found = index := by
  unfold PackageEntry.fileIndex at hindex
  cases h with
  | symlink hkind =>
    rw [hkind] at hindex
    cases hindex
  | file hkind =>
    rw [hkind] at hindex
    exact (Option.some.inj hindex).symm

theorem fileIndex_of_directory {entry : PackageEntry} (h : entry.kind = .directory) :
    entry.fileIndex = none := by
  unfold PackageEntry.fileIndex
  rw [h]

theorem fileIndex_of_symlink {entry : PackageEntry} {target : Bytes}
    (h : entry.kind = .symlink target) : entry.fileIndex = none := by
  unfold PackageEntry.fileIndex
  rw [h]

theorem fileIndex_of_file {entry : PackageEntry} {digest : Option Bytes} {index : Nat}
    (h : entry.kind = .file digest index) : entry.fileIndex = some index := by
  unfold PackageEntry.fileIndex
  rw [h]

section
variable {sha256 : Bytes → Bytes} {member : Member} {entry : PackageEntry} {reader : ArchiveReader}
  {headers : List Header} {done : List Member} {pending : List PackageEntry}

/-! ## Where the reader is -/

/-- A reader that has passed some members, with the entries that are still to be returned: they are
directories, or for the last member that was passed. -/
structure Placed (headers : List Header) (done : List Member) (pending : List PackageEntry)
    (reader : ArchiveReader) : Prop where
  headers_eq : headers = done.map .entry ++ reader.readState.archive.headers
  index_eq : reader.readState.entryIndex = done.length
  pending_ok : ∀ entry ∈ pending, entry.kind = .directory ∨
    ∃ member, done.getLast? = some member ∧ MadeFor member done.length entry
  distinct : pending.Pairwise Distinct

/-- The directories and the entry that are queued for a member are for that member. -/
theorem pending_of_queue {entries : List PackageEntry} {index : Nat}
    (hentries : ∀ entry ∈ entries, entry.kind = .directory) (last : Option PackageEntry)
    (hlast : ∀ entry ∈ last, MadeFor member index entry) :
    (∀ entry ∈ entries ++ last.toList, entry.kind = .directory ∨ MadeFor member index entry) ∧
      (entries ++ last.toList).Pairwise Distinct := by
  constructor
  · intro entry hentry
    rcases List.mem_append.mp hentry with hentry | hentry
    · exact .inl (hentries entry hentry)
    · exact .inr (hlast entry (Option.mem_toList.mp hentry))
  · refine List.pairwise_append.mpr ⟨?_, ?_, ?_⟩
    · refine List.Pairwise.imp_of_mem (R := fun _ _ => True) ?_
        (List.pairwise_of_forall fun _ _ => trivial)
      intro a b ha _ _ index hindex
      rw [fileIndex_of_directory (hentries a ha)] at hindex
      cases hindex
    · cases last with
      | none => exact List.Pairwise.nil
      | some entry => exact List.pairwise_singleton _ _
    · intro a ha b _ index hindex
      rw [fileIndex_of_directory (hentries a ha)] at hindex
      cases hindex

/-- What a call of `next` means for the place of the reader. -/
structure Advanced (headers : List Header) (done : List Member) (reader : ArchiveReader)
    (result : Option PackageEntry × ArchiveReader) : Prop where
  readable : ∀ entry, result.1 = some entry → entry.kind = .directory ∨
    result.2.hasError = false ∧ result.2.readState.endOfArchive = false
  placed : result.2.hasError = false → ∃ passed,
    Placed headers (done ++ passed) (result.1.toList ++ result.2.entryStack) result.2 ∧
      (passed = [] → result.2.readState.archive = reader.readState.archive ∧
        result.1.toList ++ result.2.entryStack = reader.entryStack) ∧
      ∀ member, passed.getLast? = some member →
        result.2.readState.archive.blocks = member.blocks ∧
          result.2.readState.archive.dataEnd = member.dataEnd

/-- After a member the reader is placed behind it, with what was queued for it. -/
theorem placed_member {rest : List Header} {queue : List PackageEntry} {reader' : ArchiveReader}
    (hplaced : Placed headers done reader.entryStack reader)
    (hheaders : reader.readState.archive.headers = .entry member :: rest)
    (hstate : reader'.readState = (reader.atMember rest member).readState)
    (hqueue : (∀ entry ∈ queue, entry.kind = .directory ∨ MadeFor member (done.length + 1) entry) ∧
      queue.Pairwise Distinct) :
    Placed headers (done ++ [member]) queue reader' := by
  refine ⟨?_, ?_, fun entry hentry => ?_, hqueue.2⟩
  · rw [hplaced.headers_eq, hheaders, hstate, List.map_append, List.append_assoc]
    rfl
  · rw [hstate, List.length_append, ← hplaced.index_eq]
    rfl
  · rw [List.length_append]
    refine (hqueue.1 entry hentry).imp_right fun hmade => ⟨member, ?_, hmade⟩
    exact List.getLast?_concat

/-- A call that ends with one member. -/
theorem Advanced.of_member {rest : List Header} {result : Option PackageEntry × ArchiveReader}
    (hplaced : Placed headers done reader.entryStack reader)
    (hheaders : reader.readState.archive.headers = .entry member :: rest)
    (hreadable : ∀ entry, result.1 = some entry → entry.kind = .directory ∨
      result.2.hasError = false ∧ result.2.readState.endOfArchive = false)
    (hstate : result.2.hasError = false →
      result.2.readState = (reader.atMember rest member).readState)
    (hqueue : result.2.hasError = false →
      (∀ entry ∈ result.1.toList ++ result.2.entryStack,
        entry.kind = .directory ∨ MadeFor member (done.length + 1) entry) ∧
      (result.1.toList ++ result.2.entryStack).Pairwise Distinct) :
    Advanced headers done reader result := by
  refine ⟨hreadable, fun hclean => ⟨[member], ?_, (fun hnil => (nomatch hnil)), ?_⟩⟩
  · exact placed_member hplaced hheaders (hstate hclean) (hqueue hclean)
  · intro last hlast
    cases hlast
    rw [hstate hclean]
    exact ⟨rfl, rfl⟩

theorem ArchiveReader.Advances.advanced {result : Option PackageEntry × ArchiveReader}
    (h : Advances sha256 reader result)
    (hplaced : reader.hasError = false → Placed headers done reader.entryStack reader) :
    Advanced headers done reader result := by
  induction h generalizing done with
  | stopped hstop =>
    refine ⟨fun _ h => absurd h (Option.not_mem_none _), fun hclean =>
      ⟨[], ?_, fun _ => ⟨rfl, rfl⟩, fun _ h => absurd h (Option.not_mem_none _)⟩⟩
    rw [List.append_nil]
    exact hplaced hclean
  | @queued reader first rest hclean hopen hstack =>
    have hbefore := hplaced hclean
    rw [hstack] at hbefore
    refine ⟨fun entry hentry => ?_, fun _ => ⟨[], ?_, fun _ => ⟨rfl, hstack.symm⟩,
      fun _ h => absurd h (Option.not_mem_none _)⟩⟩
    · exact .inr ⟨hclean, hopen⟩
    · rw [List.append_nil]
      exact ⟨hbefore.headers_eq, hbefore.index_eq, hbefore.pending_ok, hbefore.distinct⟩
  | atEnd hclean hopen hstack hheaders =>
    have hbefore := hplaced hclean
    refine ⟨fun _ h => absurd h (Option.not_mem_none _), fun _ => ⟨[], ?_, fun _ => ⟨rfl, rfl⟩,
      fun _ h => absurd h (Option.not_mem_none _)⟩⟩
    rw [List.append_nil]
    exact ⟨hbefore.headers_eq, hbefore.index_eq, hbefore.pending_ok, hbefore.distinct⟩
  | missing _ _ _ _ _ herror =>
    exact ⟨fun _ h => absurd h (Option.not_mem_none _),
      fun hclean => absurd (herror.symm.trans hclean) (by decide)⟩
  | failed _ _ _ _ _ herror =>
    refine ⟨fun _ h => absurd h (Option.not_mem_none _), fun hclean => ?_⟩
    rw [ArchiveReader.hasError, herror] at hclean
    cases hclean
  | @member reader member rest entry reader' hclean hopen hstack hheaders hturn =>
    have hbefore := hplaced hclean
    cases hturn with
    | refused hfailed =>
      exact ⟨fun _ h => absurd h (Option.not_mem_none _),
        fun hclean => absurd (hfailed.hasError.symm.trans hclean) (by decide)⟩
    | @directory path queued first rest' hpath htype hqueued hqueue =>
      obtain ⟨hdirectories, -, -, hstate⟩ := queued_for hpath.checked hstack hqueued
      refine .of_member hbefore hheaders (fun entry hentry => .inl ?_) hstate.kept fun _ => ?_
      · cases hentry
        exact hdirectories first (by rw [hqueue]; exact List.mem_cons_self)
      · have hpending := @pending_of_queue member queued.entryStack (done.length + 1)
          hdirectories none (by simp)
        rwa [hqueue, Option.toList_none, List.append_nil] at hpending
    | @file path queued digest made first rest' symlinks verifiedEntries hpath htype hfilename
        hqueued hclean' hmake hdigest hqueue =>
      obtain ⟨hdirectories, hend, -, hstate⟩ := queued_for hpath.checked.parent hstack hqueued
      have hindex : queued.readState.entryIndex = done.length + 1 := by
        rw [hstate.kept hclean']
        exact congrArg (· + 1) hbefore.index_eq
      rw [hindex] at hmake
      refine .of_member hbefore hheaders (fun _ _ => .inr ⟨hclean', hend.trans hopen⟩)
        hstate.kept fun _ => ?_
      have hpending := @pending_of_queue member queued.entryStack (done.length + 1)
        hdirectories (some made) (by
          intro entry hentry
          cases hentry
          exact makeEntry_madeFor hpath.member_path hmake)
      rwa [Option.toList_some, hqueue] at hpending
  | @known reader member rest processed result hclean hopen hstack hheaders hturn hnext ih =>
    have hbefore := hplaced hclean
    cases hturn with
    | @known path _ hpath htype hqueued hempty =>
      obtain ⟨-, -, harchive, hstate⟩ := queued_for hpath.checked hstack hqueued
      have hafter := @ih (done ++ [member]) fun hclean' =>
        placed_member hbefore hheaders (hstate.kept hclean') (by rw [hempty]; simp)
      refine ⟨hafter.readable, fun hclean' => ?_⟩
      obtain ⟨passed, hplaced', hsame, hfresh⟩ := hafter.placed hclean'
      refine ⟨member :: passed, ?_, fun hnil => absurd hnil (List.cons_ne_nil _ _), ?_⟩
      · rwa [← List.singleton_append, ← List.append_assoc]
      · intro last hlast
        cases passed with
        | cons next passed => exact hfresh last (by simpa using hlast)
        | nil =>
          cases hlast
          rw [(hsame rfl).1, harchive]
          exact ⟨rfl, rfl⟩

end

/-! ## Entries that were returned -/

/-- The member with an index, where the first has index 1. -/
def memberAt (headers : List Header) : Nat → Option Member
  | 0 => none
  | index + 1 =>
    match headers[index]? with
    | some (.entry member) => some member
    | _ => none

/-- What there is to read of a member. -/
def Member.readable (left : List DataBlock → DataEnd → Bytes) (member : Member) : Bytes :=
  match member.type with
  | .symlink => member.symlink.getD []
  | _ => left member.blocks member.dataEnd

/-- What the library's `archive_read_data` is documented to do: the bytes that it gives are the
next ones that are left of the current member, and it does not go on to another member. -/
structure ReadsMember (readData : LibarchiveReader → Nat → Option Bytes × LibarchiveReader)
    (left : List DataBlock → DataEnd → Bytes) : Prop where
  gives : ∀ archive size data archive', readData archive size = (some data, archive') →
    left archive.blocks archive.dataEnd = data ++ left archive'.blocks archive'.dataEnd
  stays : ∀ archive size, (readData archive size).2.headers = archive.headers

/-- An entry of one of the three classes, with what it keeps between reads. -/
inductive OpenEntry
  | directory
  | symlink (target : Bytes) (offset : Nat)
  | file (entry : ArchiveFileEntry)

/-- A new entry, from which nothing was read. -/
def PackageEntry.opened (entry : PackageEntry) : OpenEntry :=
  match entry.kind with
  | .directory => .directory
  | .symlink target => .symlink target 0
  | .file digest index => .file { path := entry.path, digest := digest, index := index }

section
variable (sha256 : Bytes → Bytes)
  (readData : LibarchiveReader → Nat → Option Bytes × LibarchiveReader)
  (errorString : LibarchiveReader → String)

/-- `read` of the three classes. -/
def OpenEntry.read (entry : OpenEntry) (state : SharedReadState) (call : ReadCall) :
    Result Bytes × OpenEntry × SharedReadState :=
  match entry with
  | .directory =>
    (.error (.ralf .notSupported "Cannot read from a directory entry"), .directory, state)
  | .symlink target offset =>
    if offset ≥ target.length then (.ok [], .symlink target offset, state)
    else
      let len := min call.size (target.length - offset)
      (.ok ((target.drop offset).take len), .symlink target (offset + len), state)
  | .file entry =>
    match entry.read sha256 readData errorString state call with
    | (result, entry, state) => (result, .file entry, state)

end

/-- An entry that `next` returned, with the index that the reader then had, and the bytes that
reads of the entry gave. -/
structure Handle where
  entry : PackageEntry
  opened : OpenEntry
  member : Nat
  got : Bytes

/-- An entry that `next` returned just now. -/
def Handle.new (entry : PackageEntry) (reader : ArchiveReader) : Handle :=
  ⟨entry, entry.opened, reader.readState.entryIndex, []⟩

/-- Whether the reader is not at the member of an entry any more. -/
def Handle.Stale (handle : Handle) (state : SharedReadState) : Prop :=
  state.endOfArchive = true ∨ state.entryIndex ≠ handle.member

/-- A client with its reader and all entries that it got. -/
structure ReadSession where
  reader : ArchiveReader
  handles : List Handle

/-- The start: an archive that was just opened. -/
def ReadSession.new (headers : List Header) (digests : Option FileDigestMap) : ReadSession :=
  ⟨.new headers digests, []⟩

/-- What the client can do: to call `next`, or to read an entry that it has. -/
inductive ReadAction
  | next
  | read (handle : Nat) (call : ReadCall)

section
variable (sha256 : Bytes → Bytes)
  (readData : LibarchiveReader → Nat → Option Bytes × LibarchiveReader)
  (errorString : LibarchiveReader → String)

def ReadSession.next (s : ReadSession) : ReadSession :=
  match s.reader.next sha256 with
  | (none, reader) => { s with reader := reader }
  | (some entry, reader) => ⟨reader, s.handles ++ [.new entry reader]⟩

def ReadSession.read (s : ReadSession) (i : Nat) (call : ReadCall) : ReadSession :=
  match s.handles[i]? with
  | none => s
  | some handle =>
    match handle.opened.read sha256 readData errorString s.reader.readState call with
    | (result, opened, state) =>
      { reader := { s.reader with readState := state }
        handles := s.handles.set i { handle with
          opened := opened
          got := handle.got ++ result.toOption.getD [] } }

def ReadSession.act (s : ReadSession) : ReadAction → ReadSession
  | .next => s.next sha256
  | .read i call => s.read sha256 readData errorString i call

/-- A whole session. -/
def ReadSession.run (s : ReadSession) (actions : List ReadAction) : ReadSession :=
  actions.foldl (ReadSession.act sha256 readData errorString) s

end

/-! ## One read -/

section
variable {sha256 : Bytes → Bytes}
  {readData : LibarchiveReader → Nat → Option Bytes × LibarchiveReader}
  {errorString : LibarchiveReader → String} {left : List DataBlock → DataEnd → Bytes}
  {headers : List Header} {done : List Member} {s : ReadSession} {handle : Handle}

/-- What a read of a file entry can do: it takes nothing from the archive, or the library fails, or
the library gives data, which is returned unless it is the end and the digest is wrong. -/
inductive FileReads (readData : LibarchiveReader → Nat → Option Bytes × LibarchiveReader)
    (entry : ArchiveFileEntry) (state : SharedReadState) (call : ReadCall) :
    Result Bytes × ArchiveFileEntry × SharedReadState → Prop
  | kept {result : Result Bytes} (hnone : result.toOption.getD [] = []) :
    FileReads readData entry state call (result, entry, state)
  | failed {archive : LibarchiveReader} {error : Error} :
    FileReads readData entry state call
      (.error error, entry, { state with archive := archive, error := some error })
  | data {result : Result Bytes} {data : Bytes} {archive : LibarchiveReader}
      {read : ArchiveFileEntry} (hclean : state.error = none)
      (hindex : state.entryIndex = entry.index)
      (hread : readData state.archive call.size = (some data, archive))
      (hresult : result.toOption.getD [] = data) (hsame : read.index = entry.index) :
    FileReads readData entry state call (result, read, { state with archive := archive })

theorem checkReadState_ok_iff {index : Nat} {state : SharedReadState} :
    checkReadState index state = .ok () ↔
      state.error = none ∧ state.endOfArchive = false ∧ state.entryIndex = index := by
  unfold checkReadState
  cases state.error with
  | some error => simp
  | none =>
    dsimp only
    split
    · next h =>
      refine ⟨(fun h => (nomatch h)), fun ⟨_, hopen, hindex⟩ => ?_⟩
      exact absurd h (by simp [hopen, hindex])
    · next h =>
      simpa using h

theorem read_fileReads (entry : ArchiveFileEntry) (state : SharedReadState) (call : ReadCall) :
    FileReads readData entry state call
      (entry.read sha256 readData errorString state call) := by
  unfold ArchiveFileEntry.read
  split
  · exact .kept rfl
  split
  · exact .kept rfl
  next hstate =>
  obtain ⟨hclean, -, hindex⟩ := checkReadState_ok_iff.mp hstate
  split
  · exact .kept rfl
  split
  · exact .failed
  next data archive hread =>
  dsimp only
  split
  · exact .data hclean hindex hread rfl rfl
  split
  · next hend =>
    have hnil : data = [] := List.isEmpty_iff.mp hend.1
    exact .data hclean hindex hread hnil.symm rfl
  · exact .data hclean hindex hread rfl rfl

/-- A file entry is refused when the reader is not at its member. -/
theorem read_stale {entry : ArchiveFileEntry} {state : SharedReadState} (call : ReadCall)
    (hstale : state.endOfArchive = true ∨ state.entryIndex ≠ entry.index) :
    ∃ error, (entry.read sha256 readData errorString state call).1 = .error error := by
  unfold ArchiveFileEntry.read
  split
  · exact ⟨_, rfl⟩
  split
  · exact ⟨_, rfl⟩
  next hstate =>
  obtain ⟨-, hopen, hindex⟩ := checkReadState_ok_iff.mp hstate
  rcases hstale with hend | hmoved
  · exact absurd (hopen.symm.trans hend) (by decide)
  · exact absurd hindex hmoved

/-! ## The invariant -/

/-- An entry that the client has is of its own member, and gave the beginning of its data. -/
inductive Handle.Ok (headers : List Header) (left : List DataBlock → DataEnd → Bytes)
    (handle : Handle) : Prop
  | directory (hkind : handle.entry.kind = .directory) (hopened : handle.opened = .directory)
      (hgot : handle.got = []) :
    Handle.Ok headers left handle
  | symlink {member : Member} {target : Bytes} {offset : Nat}
      (hmember : memberAt headers handle.member = some member)
      (hmade : MadeFor member handle.member handle.entry)
      (hkind : handle.entry.kind = .symlink target)
      (hopened : handle.opened = .symlink target offset) (hgot : handle.got = target.take offset) :
    Handle.Ok headers left handle
  | file {member : Member} {digest : Option Bytes} {entry : ArchiveFileEntry}
      (hmember : memberAt headers handle.member = some member)
      (hmade : MadeFor member handle.member handle.entry)
      (hkind : handle.entry.kind = .file digest handle.member)
      (hopened : handle.opened = .file entry) (hindex : entry.index = handle.member)
      (hgot : handle.got <+: left member.blocks member.dataEnd) :
    Handle.Ok headers left handle

/-- A session without an error. What was read of the current member and what the library has left
of it make up its data. -/
structure ReadSession.Live (headers : List Header) (left : List DataBlock → DataEnd → Bytes)
    (done : List Member) (s : ReadSession) : Prop where
  placed : Placed headers done s.reader.entryStack s.reader
  passed : ∀ handle ∈ s.handles, ∀ index, handle.entry.fileIndex = some index →
    index ≤ done.length
  distinct : (s.handles.map Handle.entry ++ s.reader.entryStack).Pairwise Distinct
  cursor : ∀ member, done.getLast? = some member → ∃ got,
    (∀ handle ∈ s.handles, handle.entry.fileIndex = some done.length → handle.got = got) ∧
      ((∀ handle ∈ s.handles, handle.entry.fileIndex ≠ some done.length) → got = []) ∧
      left member.blocks member.dataEnd =
        got ++ left s.reader.readState.archive.blocks s.reader.readState.archive.dataEnd

/-- What holds at every time of a session. -/
structure ReadSession.Invariant (headers : List Header)
    (left : List DataBlock → DataEnd → Bytes) (s : ReadSession) : Prop where
  ok : ∀ handle ∈ s.handles, handle.Ok headers left
  live : s.reader.hasError = false → ∃ done, s.Live headers left done

theorem Placed.memberAt {pending : List PackageEntry} {reader : ArchiveReader} {member : Member}
    (h : Placed headers done pending reader) (hlast : done.getLast? = some member) :
    memberAt headers done.length = some member := by
  obtain ⟨before, rfl⟩ := List.getLast?_eq_some_iff.mp hlast
  have hheader : headers[before.length]? = some (.entry member) := by
    rw [h.headers_eq, List.map_append, List.append_assoc,
      List.getElem?_append_right (by rw [List.length_map]), List.length_map, Nat.sub_self]
    rfl
  rw [List.length_append, List.length_singleton]
  change (match headers[before.length]? with
    | some (.entry member) => some member
    | _ => none) = some member
  rw [hheader]

theorem MadeFor.opened_ok {entry : PackageEntry} {reader : ArchiveReader} {member : Member}
    (hmember : memberAt headers reader.readState.entryIndex = some member)
    (hmade : MadeFor member reader.readState.entryIndex entry) :
    (Handle.new entry reader).Ok headers left := by
  have hopened : (Handle.new entry reader).opened = entry.opened := rfl
  unfold PackageEntry.opened at hopened
  cases hmade with
  | symlink hkind htype htarget hpath =>
    rw [hkind] at hopened
    exact .symlink hmember (.symlink hkind htype htarget hpath) hkind hopened rfl
  | file hkind htype hpath =>
    rw [hkind] at hopened
    exact .file hmember (.file hkind htype hpath) hkind hopened rfl List.nil_prefix

theorem ReadSession.new_invariant (headers : List Header) (digests : Option FileDigestMap) :
    (ReadSession.new headers digests).Invariant headers left := by
  refine ⟨(fun _ h => (nomatch h)), fun _ => ⟨[], ?_, (fun _ h => (nomatch h)), List.Pairwise.nil,
    (fun _ h => (nomatch h))⟩⟩
  exact ⟨rfl, rfl, (fun _ h => (nomatch h)), List.Pairwise.nil⟩

theorem ReadSession.next_eq (s : ReadSession) :
    s.next sha256 = ⟨(s.reader.next sha256).2,
      s.handles ++ (s.reader.next sha256).1.toList.map fun entry =>
        .new entry (s.reader.next sha256).2⟩ := by
  unfold ReadSession.next
  rcases s.reader.next sha256 with ⟨_ | entry, reader⟩
  · exact congrArg (ReadSession.mk reader) (List.append_nil _).symm
  · rfl

/-- An entry is of its own member when it is returned. -/
theorem Advanced.handle_ok {reader : ArchiveReader} {result : Option PackageEntry × ArchiveReader}
    {entry : PackageEntry} (h : Advanced headers done reader result)
    (hentry : result.1 = some entry) : (Handle.new entry result.2).Ok headers left := by
  have hdirectory : entry.kind = .directory → (Handle.new entry result.2).Ok headers left := by
    intro hkind
    refine .directory hkind ?_ rfl
    change entry.opened = .directory
    unfold PackageEntry.opened
    rw [hkind]
  rcases h.readable entry hentry with hkind | ⟨hclean, -⟩
  · exact hdirectory hkind
  obtain ⟨passed, hplaced, -, -⟩ := h.placed hclean
  rcases hplaced.pending_ok entry (by rw [hentry]; simp) with hkind | ⟨member, hlast, hmade⟩
  · exact hdirectory hkind
  · have hmember := hplaced.memberAt hlast
    rw [← hplaced.index_eq] at hmember hmade
    exact hmade.opened_ok hmember

/-- The entries that were there are not for a member that the reader passed since then. -/
theorem ReadSession.Live.distinct_pending {pending : List PackageEntry} {passed : List Member}
    {reader : ArchiveReader} (h : s.Live headers left done) (hpassed : passed ≠ [])
    (hplaced : Placed headers (done ++ passed) pending reader) :
    ∀ handle ∈ s.handles, ∀ entry ∈ pending, Distinct handle.entry entry := by
  intro handle hhandle entry hentry index hindex hsame
  have hbefore := h.passed handle hhandle index hindex
  have hlength : 0 < passed.length := List.length_pos_iff.mpr hpassed
  rcases hplaced.pending_ok entry hentry with hkind | ⟨member, -, hmade⟩
  · rw [fileIndex_of_directory hkind] at hsame
    cases hsame
  · have hlast := hmade.fileIndex hsame
    rw [List.length_append] at hlast
    omega

/-- The data of the current member after `next`. -/
theorem ReadSession.Live.cursor_next {result : Option PackageEntry × ArchiveReader}
    {passed : List Member} {member : Member} (h : s.Live headers left done)
    (hplaced : Placed headers (done ++ passed) (result.1.toList ++ result.2.entryStack) result.2)
    (hsame : passed = [] → result.2.readState.archive = s.reader.readState.archive ∧
      result.1.toList ++ result.2.entryStack = s.reader.entryStack)
    (hfresh : ∀ member, passed.getLast? = some member →
      result.2.readState.archive.blocks = member.blocks ∧
        result.2.readState.archive.dataEnd = member.dataEnd)
    (hlast : (done ++ passed).getLast? = some member) :
    ∃ got, (∀ handle ∈ s.handles ++ result.1.toList.map fun entry => Handle.new entry result.2,
        handle.entry.fileIndex = some (done ++ passed).length → handle.got = got) ∧
      ((∀ handle ∈ s.handles ++ result.1.toList.map fun entry => Handle.new entry result.2,
        handle.entry.fileIndex ≠ some (done ++ passed).length) → got = []) ∧
      left member.blocks member.dataEnd =
        got ++ left result.2.readState.archive.blocks result.2.readState.archive.dataEnd := by
  by_cases hnil : passed = []
  · subst hnil
    rw [List.append_nil] at hlast ⊢
    obtain ⟨got, hgot, hnone, hdata⟩ := h.cursor member hlast
    refine ⟨got, ?_, ?_, ?_⟩
    · intro handle hhandle hindex
      rcases List.mem_append.mp hhandle with hold | hnew
      · exact hgot handle hold hindex
      · obtain ⟨entry, hentry, rfl⟩ := List.mem_map.mp hnew
        refine (hnone fun other hother hotherIndex => ?_).symm
        have hapart := (List.pairwise_append.mp h.distinct).2.2 other.entry
          (List.mem_map_of_mem hother) entry (by
            rw [← (hsame rfl).2]
            exact List.mem_append_left _ hentry)
        exact hapart done.length hotherIndex hindex
    · exact fun hnone' => hnone fun handle hhandle =>
        hnone' handle (List.mem_append_left _ hhandle)
    · rw [hdata, (hsame rfl).1]
  · obtain ⟨hblocks, hend⟩ := hfresh member (by
      rwa [List.getLast?_append_of_ne_nil _ hnil] at hlast)
    refine ⟨[], ?_, fun _ => rfl, ?_⟩
    · intro handle hhandle hindex
      rcases List.mem_append.mp hhandle with hold | hnew
      · have hbefore := h.passed handle hold _ hindex
        have hlength : 0 < passed.length := List.length_pos_iff.mpr hnil
        rw [List.length_append] at hbefore
        omega
      · obtain ⟨entry, -, rfl⟩ := List.mem_map.mp hnew
        rfl
    · rw [List.nil_append, hblocks, hend]

theorem ReadSession.Live.next {result : Option PackageEntry × ArchiveReader}
    (h : s.Live headers left done) (hadvanced : Advanced headers done s.reader result)
    (hclean : result.2.hasError = false) :
    ∃ done', (ReadSession.mk result.2
      (s.handles ++ result.1.toList.map fun entry => .new entry result.2)).Live headers left
        done' := by
  obtain ⟨passed, hplaced, hsame, hfresh⟩ := hadvanced.placed hclean
  have hentries : (s.handles ++ result.1.toList.map fun entry => Handle.new entry result.2).map
      Handle.entry = s.handles.map Handle.entry ++ result.1.toList := by
    rw [List.map_append, List.map_map]
    exact congrArg _ (List.map_id _)
  refine ⟨done ++ passed, ⟨hplaced.headers_eq, hplaced.index_eq, fun entry hentry =>
    hplaced.pending_ok entry (List.mem_append_right _ hentry), ?_⟩, ?_, ?_, ?_⟩
  · exact (List.pairwise_append.mp hplaced.distinct).2.1
  · intro handle hhandle index hindex
    rcases List.mem_append.mp hhandle with hold | hnew
    · have hbefore := h.passed handle hold index hindex
      rw [List.length_append]
      omega
    · obtain ⟨entry, hentry, rfl⟩ := List.mem_map.mp hnew
      rcases hplaced.pending_ok entry (List.mem_append_left _ hentry) with
        hkind | ⟨member, -, hmade⟩
      · rw [show (Handle.new entry result.2).entry = entry from rfl,
          fileIndex_of_directory hkind] at hindex
        cases hindex
      · exact (hmade.fileIndex hindex).le
  · rw [hentries, List.append_assoc]
    by_cases hnil : passed = []
    · rw [(hsame hnil).2]
      exact h.distinct
    · refine List.pairwise_append.mpr ⟨(List.pairwise_append.mp h.distinct).1, hplaced.distinct, ?_⟩
      intro entry hentry
      obtain ⟨handle, hhandle, rfl⟩ := List.mem_map.mp hentry
      exact h.distinct_pending hnil hplaced handle hhandle
  · exact fun member hlast => h.cursor_next hplaced hsame hfresh hlast

theorem ReadSession.Invariant.next (h : s.Invariant headers left) :
    (s.next sha256).Invariant headers left := by
  rw [ReadSession.next_eq]
  by_cases herror : s.reader.hasError = true
  · have hstop : s.reader.next sha256 = (none, s.reader) := by
      unfold ArchiveReader.next
      exact if_pos (.inl herror)
    rw [hstop]
    simpa using h
  obtain ⟨done, hlive⟩ := h.live (Bool.eq_false_iff.mpr herror)
  have hadvanced := (@ArchiveReader.next_advances sha256 s.reader).advanced fun _ => hlive.placed
  refine ⟨fun handle hhandle => ?_, hlive.next hadvanced⟩
  rcases List.mem_append.mp hhandle with hold | hnew
  · exact h.ok handle hold
  · obtain ⟨entry, hentry, rfl⟩ := List.mem_map.mp hnew
    exact hadvanced.handle_ok (Option.mem_toList.mp hentry)

/-- A handle of the list in which one was replaced. -/
theorem mem_set_cases {handles : List Handle} {i : Nat} {changed other : Handle}
    (h : other ∈ handles.set i changed) :
    other = changed ∨ ∃ j, j ≠ i ∧ handles[j]? = some other := by
  obtain ⟨j, hj⟩ := List.mem_iff_getElem?.mp h
  rw [List.getElem?_set] at hj
  split at hj
  · split at hj
    · exact .inl (Option.some.inj hj).symm
    · cases hj
  · next hne => exact .inr ⟨j, Ne.symm hne, hj⟩

/-- Two entries that the client has are not for one member. -/
theorem ReadSession.Live.apart {i j : Nat} {handle other : Handle} (h : s.Live headers left done)
    (hi : s.handles[i]? = some handle) (hj : s.handles[j]? = some other) (hne : j ≠ i) :
    Distinct handle.entry other.entry := by
  have hpairwise := List.pairwise_iff_getElem.mp (List.pairwise_append.mp h.distinct).1
  obtain ⟨hilt, rfl⟩ := List.getElem?_eq_some_iff.mp hi
  obtain ⟨hjlt, rfl⟩ := List.getElem?_eq_some_iff.mp hj
  rcases Nat.lt_or_gt_of_ne hne with hlt | hlt
  · have hapart := hpairwise j i (by rwa [List.length_map]) (by rwa [List.length_map]) hlt
    rw [List.getElem_map, List.getElem_map] at hapart
    exact fun index hindex hsame => hapart index hsame hindex
  · have hapart := hpairwise i j (by rwa [List.length_map]) (by rwa [List.length_map]) hlt
    rwa [List.getElem_map, List.getElem_map] at hapart

/-- The data of the current member after a read by one of the entries. -/
theorem ReadSession.Live.cursor_set {i : Nat} {changed : Handle} {state : SharedReadState}
    {data : Bytes} {member : Member} (h : s.Live headers left done)
    (hi : s.handles[i]? = some handle) (hentry : changed.entry = handle.entry)
    (hgot : changed.got = handle.got ++ data)
    (htaken : left s.reader.readState.archive.blocks s.reader.readState.archive.dataEnd =
      (if handle.entry.fileIndex = some done.length then data else []) ++
        left state.archive.blocks state.archive.dataEnd)
    (hlast : done.getLast? = some member) :
    ∃ got, (∀ handle ∈ s.handles.set i changed, handle.entry.fileIndex = some done.length →
        handle.got = got) ∧
      ((∀ handle ∈ s.handles.set i changed, handle.entry.fileIndex ≠ some done.length) →
        got = []) ∧
      left member.blocks member.dataEnd =
        got ++ left state.archive.blocks state.archive.dataEnd := by
  have hmem : handle ∈ s.handles := List.mem_of_getElem? hi
  obtain ⟨got, hall, hnone, hdata⟩ := h.cursor member hlast
  rw [htaken] at hdata
  by_cases hcurrent : handle.entry.fileIndex = some done.length
  · rw [if_pos hcurrent] at hdata
    have hfirst := hall handle hmem hcurrent
    refine ⟨changed.got, ?_, ?_, ?_⟩
    · intro other hother hotherIndex
      rcases mem_set_cases hother with rfl | ⟨j, hne, hj⟩
      · rfl
      · exact absurd hotherIndex (h.apart hi hj hne done.length hcurrent)
    · intro hnone'
      have hchanged : changed ∈ s.handles.set i changed :=
        List.mem_set (List.getElem?_eq_some_iff.mp hi).1 changed
      exact absurd (hentry ▸ hcurrent) (hnone' changed hchanged)
    · rw [hgot, hfirst, List.append_assoc]
      exact hdata
  · rw [if_neg hcurrent, List.nil_append] at hdata
    refine ⟨got, ?_, ?_, hdata⟩
    · intro other hother hotherIndex
      rcases mem_set_cases hother with rfl | ⟨j, -, hj⟩
      · exact absurd (hentry ▸ hotherIndex) hcurrent
      · exact hall other (List.mem_of_getElem? hj) hotherIndex
    · intro hnone'
      refine hnone fun other hother hotherIndex => ?_
      obtain ⟨j, hj⟩ := List.mem_iff_getElem?.mp hother
      by_cases hji : j = i
      · subst hji
        rw [hi] at hj
        cases hj
        exact hcurrent hotherIndex
      · refine hnone' other ?_ hotherIndex
        refine List.mem_iff_getElem?.mpr ⟨j, ?_⟩
        rw [List.getElem?_set, if_neg (Ne.symm hji)]
        exact hj

/-- A read takes what it gives from the data of the current member, when the entry is for it, and
else it takes nothing. -/
theorem ReadSession.Live.set {i : Nat} {changed : Handle} {state : SharedReadState} {data : Bytes}
    (h : s.Live headers left done) (hi : s.handles[i]? = some handle)
    (hentry : changed.entry = handle.entry) (hgot : changed.got = handle.got ++ data)
    (hheaders : state.archive.headers = s.reader.readState.archive.headers)
    (hindex : state.entryIndex = s.reader.readState.entryIndex)
    (htaken : left s.reader.readState.archive.blocks s.reader.readState.archive.dataEnd =
      (if handle.entry.fileIndex = some done.length then data else []) ++
        left state.archive.blocks state.archive.dataEnd) :
    (ReadSession.mk { s.reader with readState := state } (s.handles.set i changed)).Live headers
      left done := by
  have hmem : handle ∈ s.handles := List.mem_of_getElem? hi
  refine ⟨⟨?_, ?_, h.placed.pending_ok, h.placed.distinct⟩, ?_, ?_, ?_⟩
  · rw [hheaders]
    exact h.placed.headers_eq
  · rw [hindex]
    exact h.placed.index_eq
  · intro other hother index hotherIndex
    rcases mem_set_cases hother with rfl | ⟨j, -, hj⟩
    · rw [hentry] at hotherIndex
      exact h.passed handle hmem index hotherIndex
    · exact h.passed other (List.mem_of_getElem? hj) index hotherIndex
  · have hsame : (s.handles.set i changed).map Handle.entry = s.handles.map Handle.entry := by
      rw [List.map_set, hentry]
      refine List.ext_getElem? fun j => ?_
      rw [List.getElem?_set]
      split
      · next hj =>
        subst hj
        rw [List.getElem?_map, hi, if_pos (by
          rw [List.length_map]
          exact (List.getElem?_eq_some_iff.mp hi).1)]
        rfl
      · rfl
    dsimp only
    rw [hsame]
    exact h.distinct
  · exact fun member hlast => h.cursor_set hi hentry hgot htaken hlast

theorem ReadSession.Invariant.set {i : Nat} {changed : Handle} {state : SharedReadState}
    (h : s.Invariant headers left) (hchanged : changed.Ok headers left)
    (hlive : state.error = none → ∃ done, (ReadSession.mk { s.reader with readState := state }
      (s.handles.set i changed)).Live headers left done) :
    (ReadSession.mk { s.reader with readState := state }
      (s.handles.set i changed)).Invariant headers left := by
  refine ⟨fun other hother => ?_, fun hclean => hlive ?_⟩
  · rcases mem_set_cases hother with rfl | ⟨j, -, hj⟩
    · exact hchanged
    · exact h.ok other (List.mem_of_getElem? hj)
  · exact Option.not_isSome_iff_eq_none.mp (Bool.eq_false_iff.mp hclean)

theorem ReadSession.read_some {i : Nat} (hi : s.handles[i]? = some handle) (call : ReadCall)
    {result : Result Bytes} {opened : OpenEntry} {state : SharedReadState}
    (hread : handle.opened.read sha256 readData errorString s.reader.readState call =
      (result, opened, state)) :
    s.read sha256 readData errorString i call =
      ⟨{ s.reader with readState := state },
        s.handles.set i { handle with
          opened := opened
          got := handle.got ++ result.toOption.getD [] }⟩ := by
  unfold ReadSession.read
  rw [hi]
  dsimp only
  rw [hread]

/-- What an entry of the current member gave, and what is left of its data. -/
theorem ReadSession.Live.data_left {member : Member} (h : s.Live headers left done)
    (hhandle : handle ∈ s.handles) (hfile : handle.entry.fileIndex = some done.length)
    (hmember : memberAt headers done.length = some member) :
    left member.blocks member.dataEnd = handle.got ++
      left s.reader.readState.archive.blocks s.reader.readState.archive.dataEnd := by
  -- the member of the entry is the last that was passed
  rcases hlast : done.getLast? with _ | last
  · rw [List.getLast?_eq_none_iff] at hlast
    rw [hlast] at hmember
    cases hmember
  have hfound := h.placed.memberAt hlast
  rw [hmember] at hfound
  cases hfound
  obtain ⟨got, hall, -, hdata⟩ := h.cursor member hlast
  rw [hall handle hhandle hfile]
  exact hdata

/-- A read that gives nothing and leaves the archive as it is keeps the invariant. -/
theorem ReadSession.Invariant.set_unread {i : Nat} {changed : Handle}
    (h : s.Invariant headers left) (hi : s.handles[i]? = some handle)
    (hchanged : changed.Ok headers left) (hentry : changed.entry = handle.entry)
    (hgot : changed.got = handle.got ++ []) :
    (ReadSession.mk { s.reader with readState := s.reader.readState }
      (s.handles.set i changed)).Invariant headers left := by
  refine h.set hchanged fun hclean => ?_
  obtain ⟨done, hlive⟩ := h.live (by rw [ArchiveReader.hasError, hclean]; rfl)
  exact ⟨done, hlive.set hi hentry hgot rfl rfl (by rw [ite_self]; rfl)⟩

/-- Reading a directory gives an error. -/
theorem ReadSession.Invariant.read_directory (h : s.Invariant headers left) {i : Nat}
    (hi : s.handles[i]? = some handle) (call : ReadCall)
    (hkind : handle.entry.kind = .directory) (hopened : handle.opened = .directory)
    (hgot : handle.got = []) :
    (s.read sha256 readData errorString i call).Invariant headers left := by
  have hread : handle.opened.read sha256 readData errorString s.reader.readState call =
      (.error (.ralf .notSupported "Cannot read from a directory entry"), .directory,
        s.reader.readState) := by
    rw [hopened]
    rfl
  rw [ReadSession.read_some hi call hread]
  refine h.set_unread hi (.directory hkind rfl ?_) rfl rfl
  rw [hgot]
  rfl

/-- Reading a symlink gives the next part of its target. -/
theorem ReadSession.Invariant.read_symlink (h : s.Invariant headers left) {i : Nat}
    (hi : s.handles[i]? = some handle) (call : ReadCall) {member : Member} {target : Bytes}
    {offset : Nat} (hmember : memberAt headers handle.member = some member)
    (hmade : MadeFor member handle.member handle.entry)
    (hkind : handle.entry.kind = .symlink target)
    (hopened : handle.opened = .symlink target offset) (hgot : handle.got = target.take offset) :
    (s.read sha256 readData errorString i call).Invariant headers left := by
  by_cases hend : offset ≥ target.length
  · have hread : handle.opened.read sha256 readData errorString s.reader.readState call =
        (.ok [], .symlink target offset, s.reader.readState) := by
      rw [hopened]
      exact if_pos hend
    rw [ReadSession.read_some hi call hread]
    refine h.set_unread hi (.symlink hmember hmade hkind rfl ?_) rfl rfl
    exact (List.append_nil _).trans hgot
  · have hread : handle.opened.read sha256 readData errorString s.reader.readState call =
        (.ok ((target.drop offset).take (min call.size (target.length - offset))),
          .symlink target (offset + min call.size (target.length - offset)),
          s.reader.readState) := by
      rw [hopened]
      exact if_neg hend
    rw [ReadSession.read_some hi call hread]
    refine h.set (.symlink hmember hmade hkind rfl ?_) fun hclean => ?_
    · dsimp only
      rw [hgot, List.take_add]
      rfl
    · obtain ⟨done, hlive⟩ := h.live (by rw [ArchiveReader.hasError, hclean]; rfl)
      refine ⟨done, hlive.set hi rfl rfl rfl rfl ?_⟩
      rw [fileIndex_of_symlink hkind, if_neg (by simp)]
      rfl

/-- Reading a file: the data is appended to what the entry gave before. -/
theorem ReadSession.Invariant.read_file (hlibrary : ReadsMember readData left)
    (h : s.Invariant headers left) {i : Nat} (hi : s.handles[i]? = some handle) (call : ReadCall)
    {member : Member} {digest : Option Bytes} {entry : ArchiveFileEntry}
    (hmember : memberAt headers handle.member = some member)
    (hmade : MadeFor member handle.member handle.entry)
    (hkind : handle.entry.kind = .file digest handle.member)
    (hopened : handle.opened = .file entry) (hindex : entry.index = handle.member)
    (hgot : handle.got <+: left member.blocks member.dataEnd) :
    (s.read sha256 readData errorString i call).Invariant headers left := by
  have hreads := @read_fileReads sha256 readData errorString entry s.reader.readState call
  have hread : handle.opened.read sha256 readData errorString s.reader.readState call =
      ((entry.read sha256 readData errorString s.reader.readState call).1,
        .file (entry.read sha256 readData errorString s.reader.readState call).2.1,
        (entry.read sha256 readData errorString s.reader.readState call).2.2) := by
    rw [hopened]
    rfl
  rw [ReadSession.read_some hi call hread]
  generalize entry.read sha256 readData errorString s.reader.readState call = result at hreads ⊢
  cases hreads with
  | @kept result hnone =>
    refine h.set_unread hi (.file hmember hmade hkind rfl hindex ?_) rfl ?_
    · dsimp only
      rwa [hnone, List.append_nil]
    · dsimp only
      rw [hnone]
  | @failed archive error =>
    refine h.set (.file hmember hmade hkind rfl hindex ?_) (fun hclean => (nomatch hclean))
    exact (List.append_nil _).symm ▸ hgot
  | @data result data archive read hclean hcurrent hread hresult hsame =>
    obtain ⟨done, hlive⟩ := h.live (by rw [ArchiveReader.hasError, hclean]; rfl)
    have hlength : handle.member = done.length := by
      rw [← hindex, ← hcurrent, hlive.placed.index_eq]
    have hfile : handle.entry.fileIndex = some done.length :=
      hlength ▸ fileIndex_of_file hkind
    have hgives := hlibrary.gives _ _ _ _ hread
    have hstays := hlibrary.stays s.reader.readState.archive call.size
    rw [hread] at hstays
    refine h.set (.file hmember hmade hkind rfl (hsame.trans hindex) ?_) fun _ => ⟨done, ?_⟩
    · have hdata := hlive.data_left (List.mem_of_getElem? hi) hfile (hlength ▸ hmember)
      dsimp only
      rw [hdata, hresult, hgives, ← List.append_assoc]
      exact List.prefix_append _ _
    · have hgot' : handle.got ++ result.toOption.getD [] = handle.got ++ data :=
        congrArg (handle.got ++ ·) hresult
      refine hlive.set hi rfl hgot' hstays rfl ?_
      rw [if_pos hfile]
      exact hgives

/-- Reading keeps the invariant, whatever kind of entry is read. -/
theorem ReadSession.Invariant.read (hlibrary : ReadsMember readData left)
    (h : s.Invariant headers left) (i : Nat) (call : ReadCall) :
    (s.read sha256 readData errorString i call).Invariant headers left := by
  rcases hi : s.handles[i]? with _ | handle
  · unfold ReadSession.read
    rw [hi]
    exact h
  cases h.ok handle (List.mem_of_getElem? hi) with
  | directory hkind hopened hgot => exact h.read_directory hi call hkind hopened hgot
  | symlink hmember hmade hkind hopened hgot =>
    exact h.read_symlink hi call hmember hmade hkind hopened hgot
  | file hmember hmade hkind hopened hindex hgot =>
    exact h.read_file hlibrary hi call hmember hmade hkind hopened hindex hgot

theorem ReadSession.Invariant.run (hlibrary : ReadsMember readData left)
    (h : s.Invariant headers left) (actions : List ReadAction) :
    (s.run sha256 readData errorString actions).Invariant headers left := by
  induction actions generalizing s with
  | nil => exact h
  | cons action actions ih =>
    refine ih ?_
    cases action with
    | next => exact h.next
    | read i call => exact h.read hlibrary i call

/-! ## What every session can rely on -/

/-- What reading in a session is to ensure: a read gives the next bytes of the entry's own member,
an entry that is stale gives nothing, unless it is a symlink, and a file entry is readable when it
is returned. -/
structure ReadSession.Sound (sha256 : Bytes → Bytes)
    (readData : LibarchiveReader → Nat → Option Bytes × LibarchiveReader)
    (errorString : LibarchiveReader → String) (left : List DataBlock → DataEnd → Bytes)
    (headers : List Header) (s : ReadSession) : Prop where
  own : ∀ handle ∈ s.handles, ∀ call data opened state,
    handle.opened.read sha256 readData errorString s.reader.readState call =
      (.ok data, opened, state) →
    ∃ member, memberAt headers handle.member = some member ∧
      MadeFor member handle.member handle.entry ∧
        handle.got ++ data <+: member.readable left
  stale : ∀ handle ∈ s.handles, handle.entry.isSymlink = false →
    handle.Stale s.reader.readState → ∀ call, ∃ error,
      (handle.opened.read sha256 readData errorString s.reader.readState call).1 = .error error
  symlink : ∀ handle ∈ s.handles, ∀ target, handle.entry.kind = .symlink target →
    ∀ call : ReadCall,
      (handle.opened.read sha256 readData errorString s.reader.readState call).1 =
        .ok ((target.drop handle.got.length).take call.size)
  current : ∀ entry reader, s.reader.next sha256 = (some entry, reader) →
    ∀ digest index, entry.kind = .file digest index →
      checkReadState index reader.readState = .ok ()

theorem Handle.Ok.own {call : ReadCall} {data : Bytes} {opened : OpenEntry}
    {state state' : SharedReadState} (h : handle.Ok headers left)
    (hread : handle.opened.read sha256 readData errorString state call = (.ok data, opened, state'))
    (hafter : Handle.Ok headers left
      { handle with opened := opened, got := handle.got ++ data }) :
    ∃ member, memberAt headers handle.member = some member ∧
      MadeFor member handle.member handle.entry ∧
        handle.got ++ data <+: member.readable left := by
  cases hafter with
  | directory hkind hopened hgot =>
    -- reading a directory gives no data
    cases h with
    | directory _ hopened =>
      rw [hopened] at hread
      cases hread
    | symlink _ _ hkind' =>
      cases hkind.symm.trans hkind'
    | file _ _ hkind' =>
      cases hkind.symm.trans hkind'
  | @symlink member target offset hmember hmade hkind hopened hgot =>
    refine ⟨member, hmember, hmade, ?_⟩
    cases hmade with
    | symlink hkind' htype htarget =>
      cases hkind.symm.trans hkind'
      unfold Member.readable
      rw [htype, htarget]
      change handle.got ++ data = _ at hgot
      rw [hgot]
      exact List.take_prefix _ _
    | file hkind' => cases hkind.symm.trans hkind'
  | @file member digest entry hmember hmade hkind hopened hindex hgot =>
    refine ⟨member, hmember, hmade, ?_⟩
    cases hmade with
    | symlink hkind' => cases hkind.symm.trans hkind'
    | file hkind' htype =>
      unfold Member.readable
      rw [htype]
      exact hgot

theorem Handle.Ok.stale {state : SharedReadState} (h : handle.Ok headers left)
    (hsymlink : handle.entry.isSymlink = false) (hstale : handle.Stale state) (call : ReadCall) :
    ∃ error,
      (handle.opened.read sha256 readData errorString state call).1 = .error error := by
  cases h with
  | directory hkind hopened =>
    rw [hopened]
    exact ⟨_, rfl⟩
  | symlink _ _ hkind =>
    unfold PackageEntry.isSymlink at hsymlink
    rw [hkind] at hsymlink
    cases hsymlink
  | @file member digest entry _ _ _ hopened hindex =>
    rw [hopened]
    exact read_stale call (hstale.imp_right fun hmoved => hindex ▸ hmoved)

theorem Handle.Ok.symlink_read {state : SharedReadState} {target : Bytes}
    (h : handle.Ok headers left) (hkind : handle.entry.kind = .symlink target) (call : ReadCall) :
    (handle.opened.read sha256 readData errorString state call).1 =
      .ok ((target.drop handle.got.length).take call.size) := by
  cases h with
  | directory hkind' => cases hkind.symm.trans hkind'
  | file _ _ hkind' => cases hkind.symm.trans hkind'
  | @symlink _ target' offset _ _ hkind' hopened hgot =>
    cases hkind.symm.trans hkind'
    rw [hopened, hgot, List.length_take]
    by_cases hend : offset ≥ target.length
    · rw [Nat.min_eq_right hend, List.drop_length, List.take_nil]
      exact congrArg Prod.fst (if_pos hend)
    · have hlength : (target.drop offset).length = target.length - offset := List.length_drop
      rw [Nat.min_eq_left (Nat.le_of_not_ge hend)]
      refine (congrArg Prod.fst (if_neg hend)).trans ?_
      dsimp only
      rw [← hlength, ← List.take_eq_take_min]

theorem ReadSession.Invariant.sound (hlibrary : ReadsMember readData left)
    (h : s.Invariant headers left) : s.Sound sha256 readData errorString left headers := by
  constructor
  · intro handle hhandle call data opened state hread
    obtain ⟨i, hi⟩ := List.mem_iff_getElem?.mp hhandle
    have hafter := @ReadSession.Invariant.read sha256 readData errorString left headers s
      hlibrary h i call
    rw [ReadSession.read_some hi call hread] at hafter
    exact (h.ok handle hhandle).own hread
      (hafter.ok _ (List.mem_set (List.getElem?_eq_some_iff.mp hi).1 _))
  · exact fun handle hhandle => (h.ok handle hhandle).stale
  · exact fun handle hhandle target => (h.ok handle hhandle).symlink_read
  · intro entry reader hnext digest index hkind
    have hadvances := @ArchiveReader.next_advances sha256 s.reader
    have hplaced : ∃ done, s.reader.hasError = false →
        Placed headers done s.reader.entryStack s.reader := by
      by_cases herror : s.reader.hasError = true
      · exact ⟨[], fun hclean => absurd (herror.symm.trans hclean) (by decide)⟩
      · obtain ⟨done, hlive⟩ := h.live (Bool.eq_false_iff.mpr herror)
        exact ⟨done, fun _ => hlive.placed⟩
    obtain ⟨done, hplaced⟩ := hplaced
    have hadvanced := hadvances.advanced hplaced
    rw [hnext] at hadvanced
    rcases hadvanced.readable entry rfl with hdirectory | ⟨hclean, hopen⟩
    · cases hkind.symm.trans hdirectory
    obtain ⟨passed, hplaced', -, -⟩ := hadvanced.placed hclean
    refine checkReadState_ok_iff.mpr ⟨Option.not_isSome_iff_eq_none.mp
      (Bool.eq_false_iff.mp hclean), hopen, ?_⟩
    rcases hplaced'.pending_ok entry (by simp) with hdirectory | ⟨member, -, hmade⟩
    · cases hkind.symm.trans hdirectory
    · rw [hmade.fileIndex (fileIndex_of_file hkind)]
      exact hplaced'.index_eq

end

/-- In every session each read that gives data gives the next bytes of the entry's own member, a
stale entry that is no symlink gives none, a symlink gives its target at any time, and a file entry
is readable when it is returned. -/
theorem reads_sound (sha256 : Bytes → Bytes)
    (readData : LibarchiveReader → Nat → Option Bytes × LibarchiveReader)
    (errorString : LibarchiveReader → String) (left : List DataBlock → DataEnd → Bytes)
    (hlibrary : ReadsMember readData left) (headers : List Header)
    (digests : Option FileDigestMap) (actions : List ReadAction) :
    ((ReadSession.new headers digests).run sha256 readData errorString actions).Sound sha256
      readData errorString left headers :=
  ((ReadSession.new_invariant headers digests).run hlibrary actions).sound hlibrary

/-- The data of a member of one block. -/
def leftOfOneBlock (blocks : List DataBlock) (_ : DataEnd) : Bytes :=
  (blocks.head?.map DataBlock.bytes).getD []

theorem readOneBlock_readsMember :
    ReadsMember ArchiveFileEntry.readOneBlock leftOfOneBlock := by
  constructor
  · intro archive size data archive' hread
    unfold ArchiveFileEntry.readOneBlock at hread
    split at hread
    · next hblocks =>
      cases hread
      rw [hblocks]
      rfl
    · next block rest hblocks =>
      cases hread
      rw [hblocks]
      exact (List.take_append_drop size block.bytes).symm
  · intro archive size
    unfold ArchiveFileEntry.readOneBlock
    split
    · rfl
    · rfl

/-- A symlink to `b`, and a file in a directory that has no member. -/
def linkThenFile : List Header :=
  [.entry ⟨some [0x61], .symlink, 0, 0, 0, some [0x62], [], .eof⟩,
    .entry ⟨some [0x64, 0x2f, 0x63], .regular, 0, 0, 1, none, [⟨[0x78], 0⟩], .eof⟩]

/-- The theorem on an archive whose file is returned behind its directory. -/
theorem reads_sound_linkThenFile :
    ((ReadSession.new linkThenFile none).run id ArchiveFileEntry.readOneBlock (fun _ => "")
      [.next, .next, .read 0 ⟨true, 16⟩, .next, .read 2 ⟨true, 16⟩]).Sound id
        ArchiveFileEntry.readOneBlock (fun _ => "") leftOfOneBlock linkThenFile :=
  reads_sound id ArchiveFileEntry.readOneBlock (fun _ => "") leftOfOneBlock
    readOneBlock_readsMember linkThenFile none _

/-- A symlink that was returned before the reader went on to the next member still gives its
target. -/
theorem not_stale_read_fails :
    ¬ ∀ (sha256 : Bytes → Bytes)
      (readData : LibarchiveReader → Nat → Option Bytes × LibarchiveReader)
      (errorString : LibarchiveReader → String) (left : List DataBlock → DataEnd → Bytes),
      ReadsMember readData left → ∀ (headers : List Header) (digests : Option FileDigestMap)
        (actions : List ReadAction),
        let s := (ReadSession.new headers digests).run sha256 readData errorString actions
        ∀ handle ∈ s.handles, handle.Stale s.reader.readState → ∀ call, ∃ error,
          (handle.opened.read sha256 readData errorString s.reader.readState call).1 =
            .error error := by
  intro h
  have hrun := h id ArchiveFileEntry.readOneBlock (fun _ => "") leftOfOneBlock
    readOneBlock_readsMember linkThenFile none [.next, .next]
  obtain ⟨error, herror⟩ := hrun ⟨⟨FilePath.ofNames [[0x61]], .symlink [0x62], 1, 0o644, 0⟩,
    .symlink [0x62] 0, 1, []⟩ (List.mem_of_getElem? (i := 0) (by rfl))
    (.inr (by decide +kernel)) ⟨true, 16⟩
  cases herror

end Archive
