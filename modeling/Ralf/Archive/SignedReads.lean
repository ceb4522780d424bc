import Ralf.Archive.ReadSessions

/-!
# What is read with digests

A reader that has a digest map only returns entries of signed paths. A symlink has been compared
when its entry is made. The contents of a file are compared when its end is read, so that what was
read before may be anything: `reads_signed` says what a client has that read an entry to its end,
in any session, if no read of the entry failed.
-/

namespace Archive

open ArchiveReader

/-- What is known of an entry of a reader with digests: a directory has none, a symlink has the
digest of its path, and a file is to be compared with it. -/
inductive SignedEntry (sha256 : Bytes → Bytes) (digests : FileDigestMap) (entry : PackageEntry) :
    Prop
  | directory (hkind : entry.kind = .directory) : SignedEntry sha256 digests entry
  | symlink {target : Bytes} (hkind : entry.kind = .symlink target)
      (hdigest : digests.find entry.path = some (sha256 target)) :
    SignedEntry sha256 digests entry
  | file {digest : Bytes} {index : Nat} (hkind : entry.kind = .file (some digest) index)
      (hdigest : digests.find entry.path = some digest) : SignedEntry sha256 digests entry

section
variable {sha256 : Bytes → Bytes} {digests : FileDigestMap} {reader : ArchiveReader}
  {member : Member} {path : FilePath} {entry : PackageEntry}

theorem makeEntry_signedEntry {index : Nat} {digest : Option Bytes}
    (hfind : digests.find path = digest) (hsome : digest.isSome = true)
    (h : makeEntry sha256 path member index digest = .ok entry) :
    SignedEntry sha256 digests entry := by
  obtain ⟨signed, rfl⟩ := Option.isSome_iff_exists.mp hsome
  unfold makeEntry at h
  split at h
  · unfold createSymlinkEntry at h
    split at h
    · cases h
    · cases h
    next target _ _ =>
    split at h
    · cases h
    next hverify =>
    cases h
    have hequal : signed = sha256 target := by simpa using hverify
    exact .symlink rfl (hequal ▸ hfind)
  · unfold createFileEntry at h
    split at h
    · cases h
    · cases h
      exact .file rfl hfind
  · cases h

/-! ## Entries that are returned -/

/-- A reader that works with the digests, and what is queued in it. -/
structure Signing (sha256 : Bytes → Bytes) (digests : FileDigestMap) (reader : ArchiveReader) :
    Prop where
  map : reader.digests = some digests
  queued : ∀ entry ∈ reader.entryStack, SignedEntry sha256 digests entry

/-- Queueing directories leaves the map. -/
theorem updateParentEntryStack_digests (mtime : Int) (hchecked : Checked reader path) :
    (reader.updateParentEntryStack path mtime).digests = reader.digests :=
  (updateParentEntryStack_queues mtime hchecked.rooted hchecked.names_ok reader).digests

/-- A turn of the loop returns and queues signed entries, or fails. -/
theorem ArchiveReader.Turn.signing {entry : Option PackageEntry} {reader' : ArchiveReader}
    (h : Turn sha256 reader member (some entry, reader')) (hmap : reader.digests = some digests)
    (hstack : reader.entryStack = []) :
    (∀ e ∈ entry, SignedEntry sha256 digests e) ∧
      (reader'.hasError = false → Signing sha256 digests reader') := by
  cases h with
  | refused hfailed =>
    exact ⟨fun _ h => absurd h (Option.not_mem_none _),
      fun hclean => absurd (hfailed.hasError.symm.trans hclean) (by decide)⟩
  | @directory path queued first rest hpath htype hqueued hqueue =>
    obtain ⟨hdirectories, -⟩ := queued_for hpath.checked hstack hqueued
    have hsame : queued.digests = some digests := by
      rw [← hmap, ← updateParentEntryStack_digests member.mtime hpath.checked, hqueued]
    rw [hqueue] at hdirectories
    obtain ⟨hfirst, hrest⟩ := List.forall_mem_cons.mp hdirectories
    refine ⟨fun e he => ?_, fun _ => ⟨hsame, fun e he => .directory (hrest e he)⟩⟩
    cases he
    exact .directory hfirst
  | @file path queued digest made first rest _ _ hpath _ _ hqueued _ hmake hdigest hqueue =>
    obtain ⟨hdirectories, -⟩ := queued_for hpath.checked.parent hstack hqueued
    have hsame : queued.digests = some digests := by
      rw [← hmap, ← updateParentEntryStack_digests member.mtime hpath.checked.parent, hqueued]
    obtain ⟨hsome, hfind⟩ := hdigest digests hsame
    have hall : ∀ e ∈ queued.entryStack ++ [made], SignedEntry sha256 digests e := by
      intro e he
      rcases List.mem_append.mp he with he | he
      · exact .directory (hdirectories e he)
      · exact List.mem_singleton.mp he ▸ makeEntry_signedEntry hfind hsome hmake
    rw [hqueue] at hall
    obtain ⟨hfirst, hrest⟩ := List.forall_mem_cons.mp hall
    refine ⟨fun e he => ?_, fun _ => ⟨hsame, hrest⟩⟩
    cases he
    exact hfirst

theorem ArchiveReader.Advances.signing {result : Option PackageEntry × ArchiveReader}
    (h : Advances sha256 reader result)
    (hsigning : reader.hasError = false → Signing sha256 digests reader) :
    (∀ entry ∈ result.1, SignedEntry sha256 digests entry) ∧
      (result.2.hasError = false → Signing sha256 digests result.2) := by
  induction h with
  | stopped => exact ⟨fun _ h => absurd h (Option.not_mem_none _), hsigning⟩
  | @queued reader first rest hclean _ hstack =>
    obtain ⟨hmap, hqueued⟩ := hsigning hclean
    rw [hstack] at hqueued
    obtain ⟨hfirst, hrest⟩ := List.forall_mem_cons.mp hqueued
    refine ⟨fun entry hentry => ?_, fun _ => ⟨hmap, hrest⟩⟩
    cases hentry
    exact hfirst
  | atEnd hclean =>
    obtain ⟨hmap, hqueued⟩ := hsigning hclean
    exact ⟨fun _ h => absurd h (Option.not_mem_none _), fun _ => ⟨hmap, hqueued⟩⟩
  | missing _ _ _ _ _ herror =>
    exact ⟨fun _ h => absurd h (Option.not_mem_none _),
      fun hclean => absurd (herror.symm.trans hclean) (by decide)⟩
  | failed _ _ _ _ _ herror =>
    refine ⟨fun _ h => absurd h (Option.not_mem_none _), fun hclean => ?_⟩
    rw [hasError, herror] at hclean
    cases hclean
  | @member reader member rest entry reader' hclean _ hstack _ hturn =>
    exact hturn.signing (hsigning hclean).map hstack
  | @known reader member rest processed result hclean _ hstack _ hturn _ ih =>
    have hmap : (reader.atMember rest member).digests = some digests := (hsigning hclean).map
    cases hturn with
    | @known path _ hpath _ hqueued hempty =>
      refine ih fun _ => ⟨?_, ?_⟩
      · rw [← hmap, ← updateParentEntryStack_digests member.mtime hpath.checked, hqueued]
      · rw [hempty]
        exact fun _ h => absurd h List.not_mem_nil

end

/-! ## What a client has read -/

section
variable (sha256 : Bytes → Bytes)
  (readData : LibarchiveReader → Nat → Option Bytes × LibarchiveReader)
  (errorString : LibarchiveReader → String)

/-- What a read of an entry of the client gives. -/
def ReadSession.result (s : ReadSession) (i : Nat) (call : ReadCall) : Option (Result Bytes) :=
  s.handles[i]?.map fun handle =>
    (handle.opened.read sha256 readData errorString s.reader.readState call).1

/-- No read of an entry fails in a session. -/
def ReadSession.Unfailed (s : ReadSession) (i : Nat) (actions : List ReadAction) : Prop :=
  ∀ before call after error, actions = before ++ .read i call :: after →
    (s.run sha256 readData errorString before).result sha256 readData errorString i call ≠
      some (.error error)

variable (digests : FileDigestMap)

/-- What a reader with digests gives: signed entries, and contents with their digests to who reads
an entry to its end without an error. -/
structure ReadsSigned (reader : ArchiveReader) : Prop where
  entries : ∀ actions,
    ∀ handle ∈ ((ReadSession.mk reader []).run sha256 readData errorString actions).handles,
      SignedEntry sha256 digests handle.entry
  contents : ∀ actions i call handle,
    (ReadSession.mk reader []).Unfailed sha256 readData errorString i actions →
    ((ReadSession.mk reader []).run sha256 readData errorString actions).handles[i]? =
      some handle →
    call.size ≠ 0 →
    ((ReadSession.mk reader []).run sha256 readData errorString actions).result sha256 readData
      errorString i call = some (.ok []) →
    digests.find handle.entry.path = some (sha256 handle.got)

end

section
variable {sha256 : Bytes → Bytes}
  {readData : LibarchiveReader → Nat → Option Bytes × LibarchiveReader}
  {errorString : LibarchiveReader → String} {digests : FileDigestMap} {s : ReadSession}
  {handle : Handle} {state state' : SharedReadState} {call : ReadCall}

/-- What was read of an entry, if no read failed: at the end of a file its digest is right. -/
inductive Handle.Signed (sha256 : Bytes → Bytes) (digests : FileDigestMap) (handle : Handle) : Prop
  | directory (hopened : handle.opened = .directory) : Handle.Signed sha256 digests handle
  | symlink {target : Bytes} {offset : Nat} (hopened : handle.opened = .symlink target offset)
      (hgot : handle.got = target.take offset)
      (hdigest : digests.find handle.entry.path = some (sha256 target)) :
    Handle.Signed sha256 digests handle
  | file {entry : ArchiveFileEntry} {digest : Bytes} (hopened : handle.opened = .file entry)
      (hsigned : entry.digest = some digest) (hgot : entry.digestBuilder.getD [] = handle.got)
      (heof : entry.eof = true → sha256 handle.got = digest)
      (hdigest : digests.find handle.entry.path = some digest) :
    Handle.Signed sha256 digests handle

/-- A read of a file that does not fail. -/
theorem read_signed {entry entry' : ArchiveFileEntry} {digest data : Bytes}
    (hsigned : entry.digest = some digest)
    (hread : entry.read sha256 readData errorString state call = (.ok data, entry', state')) :
    entry'.digest = some digest ∧
      entry'.digestBuilder.getD [] = entry.digestBuilder.getD [] ++ data ∧
      (entry'.eof = true → (entry.eof = true ∧ data = []) ∨
        sha256 (entry.digestBuilder.getD [] ++ data) = digest) ∧
      (data = [] → entry'.eof = true) := by
  unfold ArchiveFileEntry.read at hread
  split at hread
  · cases hread
  split at hread
  · cases hread
  split at hread
  · next heof =>
    cases hread
    exact ⟨hsigned, (List.append_nil _).symm, fun _ => .inl ⟨heof, rfl⟩, fun _ => heof⟩
  split at hread
  · cases hread
  next bytes archive _ =>
  rw [hsigned] at hread
  dsimp only at hread
  split at hread
  · cases hread
  next hmatch =>
  cases hread
  refine ⟨rfl, rfl, fun heof => .inr ?_, fun hnil => by rw [hnil]; rfl⟩
  exact not_not.mp fun hne => hmatch ⟨heof, hne⟩

theorem Handle.Signed.read {data : Bytes} {opened : OpenEntry}
    (h : handle.Signed sha256 digests)
    (hread : handle.opened.read sha256 readData errorString state call =
      (.ok data, opened, state')) :
    Handle.Signed sha256 digests { handle with opened := opened, got := handle.got ++ data } ∧
      (call.size ≠ 0 → data = [] → digests.find handle.entry.path = some (sha256 handle.got)) := by
  cases h with
  | directory hopened =>
    rw [hopened] at hread
    cases hread
  | @symlink target offset hopened hgot hdigest =>
    rw [hopened] at hread
    unfold OpenEntry.read at hread
    dsimp only at hread
    split at hread
    · next hend =>
      cases hread
      refine ⟨.symlink rfl ((List.append_nil _).trans hgot) hdigest, fun _ _ => ?_⟩
      rw [hgot, List.take_of_length_le hend, hdigest]
    · next hinside =>
      cases hread
      refine ⟨.symlink rfl ?_ hdigest, fun hsize hnil => absurd (congrArg List.length hnil) ?_⟩
      · dsimp only
        rw [hgot, List.take_add]
      · rw [List.length_take, List.length_drop, List.length_nil]
        omega
  | @file entry digest hopened hsigned hgot heof hdigest =>
    rw [hopened] at hread
    unfold OpenEntry.read at hread
    dsimp only at hread
    rcases hfile : entry.read sha256 readData errorString state call with ⟨result, entry', state₁⟩
    rw [hfile] at hread
    cases hread
    obtain ⟨hsigned', hbuilder, hmatch, hend⟩ := read_signed hsigned hfile
    rw [hgot] at hbuilder hmatch
    have heof' : entry'.eof = true → sha256 (handle.got ++ data) = digest := by
      intro hset
      rcases hmatch hset with ⟨hbefore, rfl⟩ | hmatch
      · rw [List.append_nil]
        exact heof hbefore
      · exact hmatch
    refine ⟨.file rfl hsigned' hbuilder heof' hdigest, fun _ hnil => ?_⟩
    rw [hdigest, ← heof' (hend hnil), hnil, List.append_nil]

/-- An entry that was just returned. -/
theorem SignedEntry.new {entry : PackageEntry} (h : SignedEntry sha256 digests entry)
    (reader : ArchiveReader) : (Handle.new entry reader).Signed sha256 digests := by
  have hopened : (Handle.new entry reader).opened = entry.opened := rfl
  unfold PackageEntry.opened at hopened
  cases h with
  | directory hkind =>
    rw [hkind] at hopened
    exact .directory hopened
  | symlink hkind hdigest =>
    rw [hkind] at hopened
    exact .symlink hopened rfl hdigest
  | file hkind hdigest =>
    rw [hkind] at hopened
    exact .file hopened rfl rfl nofun hdigest

/-! ## Sessions -/

/-- A session of a reader with digests. -/
structure ReadSession.Signing (sha256 : Bytes → Bytes) (digests : FileDigestMap)
    (s : ReadSession) : Prop where
  reader : s.reader.hasError = false → Archive.Signing sha256 digests s.reader
  entries : ∀ handle ∈ s.handles, SignedEntry sha256 digests handle.entry

/-- Reading never takes an error back. -/
theorem read_error {opened : OpenEntry}
    (h : (opened.read sha256 readData errorString state call).2.2.error = none) :
    state.error = none := by
  cases opened with
  | directory => exact h
  | symlink target offset =>
    unfold OpenEntry.read at h
    dsimp only at h
    split at h
    · exact h
    · exact h
  | file entry =>
    have hreads := @read_fileReads sha256 readData errorString entry state call
    have h : (entry.read sha256 readData errorString state call).2.2.error = none := h
    generalize entry.read sha256 readData errorString state call = result at hreads h
    cases hreads with
    | kept => exact h
    | failed => cases h
    | data hclean => exact hclean

theorem ReadSession.Signing.next (h : s.Signing sha256 digests) :
    (s.next sha256).Signing sha256 digests := by
  obtain ⟨hreturned, hreader⟩ := (next_advances s.reader).signing h.reader
  unfold ReadSession.next
  rcases hnext : s.reader.next sha256 with ⟨entry, reader⟩
  rw [hnext] at hreturned hreader
  cases entry with
  | none => exact ⟨hreader, h.entries⟩
  | some entry =>
    refine ⟨hreader, fun handle hhandle => ?_⟩
    rcases List.mem_append.mp hhandle with hold | hnew
    · exact h.entries handle hold
    · cases List.mem_singleton.mp hnew
      exact hreturned entry rfl

theorem ReadSession.Signing.read (h : s.Signing sha256 digests) (i : Nat) (call : ReadCall) :
    (s.read sha256 readData errorString i call).Signing sha256 digests := by
  rcases hi : s.handles[i]? with _ | handle
  · unfold ReadSession.read
    rw [hi]
    exact h
  · rcases hread : handle.opened.read sha256 readData errorString s.reader.readState call with
      ⟨result, opened, state⟩
    rw [ReadSession.read_some hi call hread]
    refine ⟨fun hclean => ?_, fun other hother => ?_⟩
    · have herror : state.error = none := Option.not_isSome_iff_eq_none.mp
        (Bool.eq_false_iff.mp hclean)
      have hbefore := read_error (congrArg (·.2.2.error) hread |>.trans herror)
      obtain ⟨hmap, hqueued⟩ := h.reader (by rw [ArchiveReader.hasError, hbefore]; rfl)
      exact ⟨hmap, hqueued⟩
    · rcases List.mem_or_eq_of_mem_set hother with hold | rfl
      · exact h.entries other hold
      · exact h.entries handle (List.mem_of_getElem? hi)

theorem ReadSession.Signing.run (h : s.Signing sha256 digests) (actions : List ReadAction) :
    (s.run sha256 readData errorString actions).Signing sha256 digests := by
  induction actions generalizing s with
  | nil => exact h
  | cons action actions ih =>
    refine ih ?_
    cases action with
    | next => exact h.next
    | read i call => exact h.read i call

/-- One action keeps what is known of an entry that was read without an error. -/
theorem ReadSession.Signing.act (h : s.Signing sha256 digests) {i : Nat} (action : ReadAction)
    (hsigned : ∀ handle, s.handles[i]? = some handle → handle.Signed sha256 digests)
    (hread : ∀ call error, action = .read i call →
      s.result sha256 readData errorString i call ≠ some (.error error)) :
    ∀ handle, (s.act sha256 readData errorString action).handles[i]? = some handle →
      handle.Signed sha256 digests := by
  cases action with
  | next =>
    intro handle hhandle
    have hreturned := ((@next_advances sha256 s.reader).signing h.reader).1
    change (s.next sha256).handles[i]? = some handle at hhandle
    unfold ReadSession.next at hhandle
    rcases hnext : s.reader.next sha256 with ⟨_ | entry, reader⟩
    · rw [hnext] at hhandle
      exact hsigned handle hhandle
    · rw [hnext] at hhandle hreturned
      have hmem := List.mem_of_getElem? hhandle
      by_cases hi : i < s.handles.length
      · rw [List.getElem?_append_left hi] at hhandle
        exact hsigned handle hhandle
      · rw [List.getElem?_append_right (Nat.le_of_not_lt hi)] at hhandle
        cases List.mem_singleton.mp (List.mem_of_getElem? hhandle)
        exact (hreturned entry rfl).new reader
  | read j call =>
    intro handle hhandle
    change (s.read sha256 readData errorString j call).handles[i]? = some handle at hhandle
    rcases hj : s.handles[j]? with _ | other
    · unfold ReadSession.read at hhandle
      rw [hj] at hhandle
      exact hsigned handle hhandle
    rcases hother : other.opened.read sha256 readData errorString s.reader.readState call with
      ⟨result, opened, state⟩
    rw [ReadSession.read_some hj call hother] at hhandle
    by_cases hij : j = i
    · subst hij
      have hresult : s.result sha256 readData errorString j call = some result := by
        unfold ReadSession.result
        rw [hj, Option.map_some, hother]
      cases result with
      | error error => exact absurd hresult (hread call error rfl)
      | ok data =>
        rw [List.getElem?_set_self (List.getElem?_eq_some_iff.mp hj).1] at hhandle
        cases hhandle
        exact ((hsigned other hj).read hother).1
    · rw [List.getElem?_set_ne hij] at hhandle
      exact hsigned handle hhandle

/-- A session in which no read of an entry fails. -/
theorem ReadSession.Signing.run_signed (h : s.Signing sha256 digests) {i : Nat}
    {actions : List ReadAction}
    (hsigned : ∀ handle, s.handles[i]? = some handle → handle.Signed sha256 digests)
    (hunfailed : s.Unfailed sha256 readData errorString i actions) :
    ∀ handle, (s.run sha256 readData errorString actions).handles[i]? = some handle →
      handle.Signed sha256 digests := by
  induction actions generalizing s with
  | nil => exact hsigned
  | cons action actions ih =>
    have hact : (s.act sha256 readData errorString action).Signing sha256 digests :=
      h.run [action]
    refine ih hact (h.act action hsigned fun call error heq => ?_) ?_
    · exact hunfailed [] call actions error (by rw [heq]; rfl)
    · intro before call after error heq
      exact hunfailed (action :: before) call after error (by rw [heq]; rfl)

/-- A reader with digests gives signed entries, and contents with their digests. -/
theorem reads_signed (readData : LibarchiveReader → Nat → Option Bytes × LibarchiveReader)
    (errorString : LibarchiveReader → String) (headers : List Header) (digests : FileDigestMap) :
    ReadsSigned sha256 readData errorString digests (.new headers (some digests)) := by
  have hstart : (ReadSession.new headers (some digests)).Signing sha256 digests :=
    ⟨fun _ => ⟨rfl, nofun⟩, nofun⟩
  refine ⟨fun actions => (hstart.run actions).entries, ?_⟩
  intro actions i call handle hunfailed hhandle hsize hresult
  have hsigned := hstart.run_signed (i := i) (fun _ h => nomatch h) hunfailed handle hhandle
  unfold ReadSession.result at hresult
  rw [hhandle, Option.map_some] at hresult
  rcases hread : handle.opened.read sha256 readData errorString
    ((ReadSession.mk (.new headers (some digests)) []).run sha256 readData errorString
      actions).reader.readState call with ⟨result, opened, state⟩
  rw [hread] at hresult
  cases hresult
  exact (hsigned.read hread).2 hsize rfl

end

end Archive
