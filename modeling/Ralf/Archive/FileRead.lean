import Ralf.Archive.Entries

/-!
# Reading a file entry

`ArchiveFileEntry.read` gives the data of the current member piece by piece, and compares
its digest when the library has no more data. The library's `readData` is a parameter: it
gives at most some bytes, none at the end, or fails.

A mismatch is reported by the call that finds it, but the shared state of the reader does
not record it. `reads_verified_iff` says what that means for a sequence of calls.
-/

namespace Archive

/-- An entry for a file of an archive, with what it keeps between reads. -/
structure ArchiveFileEntry where
  path : FilePath
  digest : Option Bytes
  index : Nat
  digestBuilder : Option Bytes := none
  eof : Bool := false

/-- A call of `read`: whether there is a buffer, and its size. -/
structure ReadCall where
  hasBuffer : Bool := true
  size : Nat
  deriving DecidableEq, Repr

namespace ArchiveFileEntry

section
variable (sha256 : Bytes → Bytes)
  (readData : LibarchiveReader → Nat → Option Bytes × LibarchiveReader)
  (errorString : LibarchiveReader → String)

/-- The error for contents that do not match the digest. -/
def failedToVerify (path : FilePath) : Error :=
  .ralf .packageSignatureInvalid s!"File '{path.cStr}' in archive failed to verify"

/-- Reads the next bytes: none at the end of the entry. -/
def read (entry : ArchiveFileEntry) (state : SharedReadState) (call : ReadCall) :
    Result Bytes × ArchiveFileEntry × SharedReadState :=
  if ¬call.hasBuffer then (.error (.ralf .invalidArgument "Null buffer supplied"), entry, state)
  else
    match checkReadState entry.index state with
    | .error error => (.error error, entry, state)
    | .ok _ =>
      if entry.eof then (.ok [], entry, state)
      else
        match readData state.archive call.size with
        | (none, archive) =>
          let text := errorString archive
          let error : Error := .ralf .packageContentsInvalid s!"Error reading from archive - {text}"
          (.error error, entry, { state with archive := archive, error := some error })
        | (some data, archive) =>
          let state := { state with archive := archive }
          let entry := { entry with eof := data.isEmpty }
          match entry.digest with
          | none => (.ok data, entry, state)
          | some digest =>
            let digested := entry.digestBuilder.getD [] ++ data
            let entry := { entry with digestBuilder := some digested }
            if entry.eof ∧ sha256 digested ≠ digest then
              (.error (failedToVerify entry.path), entry, state)
            else (.ok data, entry, state)

/-- What a call gave, and whether the reader then has an error. -/
structure Event where
  call : ReadCall
  result : Result Bytes
  hasError : Bool

/-- A sequence of calls on an entry. -/
def readAll (entry : ArchiveFileEntry) (state : SharedReadState) : List ReadCall → List Event
  | [] => []
  | call :: rest =>
    match entry.read sha256 readData errorString state call with
    | (result, entry, state) =>
      ⟨call, result, state.error.isSome⟩ :: readAll entry state rest

end

/-- The bytes that calls returned. -/
def returned (events : List Event) : Bytes :=
  events.flatMap fun event =>
    match event.result with
    | .ok data => data
    | .error _ => []

/-- What reading a signed entry is to ensure: the end of the entry is only reported for
contents with the signed digest, and a mismatch is not forgotten. -/
structure ReadsVerified (sha256 : Bytes → Bytes) (digest : Bytes) (path : FilePath)
    (events : List Event) : Prop where
  endOfEntry : ∀ before event after, events = before ++ event :: after →
    event.call.size ≠ 0 → event.result = .ok [] → sha256 (returned (before ++ [event])) = digest
  mismatch : ∀ before event after, events = before ++ event :: after →
    event.result = .error (failedToVerify path) →
      event.hasError = true ∧ ∀ later ∈ after, later.hasError = true ∧
        ∃ error, later.result = .error error

/-- The bytes that the library gives up to the first time that it gives none, if it comes
to that, have the digest. -/
def DataMatches (sha256 : Bytes → Bytes)
    (readData : LibarchiveReader → Nat → Option Bytes × LibarchiveReader) (digest : Bytes) :
    LibarchiveReader → Bytes → List ReadCall → Prop
  | _, _, [] => True
  | archive, got, call :: rest =>
    if ¬call.hasBuffer then DataMatches sha256 readData digest archive got rest
    else
      match readData archive call.size with
      | (none, _) => True
      | (some [], _) => sha256 got = digest
      | (some (b :: data), archive) =>
        DataMatches sha256 readData digest archive (got ++ b :: data) rest

/-! ## One call -/

section
variable {sha256 : Bytes → Bytes}
  {readData : LibarchiveReader → Nat → Option Bytes × LibarchiveReader}
  {errorString : LibarchiveReader → String} {entry : ArchiveFileEntry} {state : SharedReadState}
  {call : ReadCall} {digest got : Bytes} {calls : List ReadCall}

/-- The entry is current, and there was no error. -/
structure Current (entry : ArchiveFileEntry) (state : SharedReadState) : Prop where
  error : state.error = none
  endOfArchive : state.endOfArchive = false
  index : state.entryIndex = entry.index

theorem Current.checkReadState (h : Current entry state) :
    checkReadState entry.index state = .ok () := by
  unfold Archive.checkReadState
  rw [h.error]
  exact if_neg (by simp [h.endOfArchive, h.index])

/-- What a call on a signed entry that is current can do. -/
inductive Reads (sha256 : Bytes → Bytes)
    (readData : LibarchiveReader → Nat → Option Bytes × LibarchiveReader) (digest : Bytes)
    (entry : ArchiveFileEntry) (state : SharedReadState) (call : ReadCall) :
    Result Bytes × ArchiveFileEntry × SharedReadState → Prop
  | noBuffer {error : Error} (h : call.hasBuffer = false)
      (herror : error.code = .ralf .invalidArgument) :
    Reads sha256 readData digest entry state call (.error error, entry, state)
  | atEnd (h : call.hasBuffer = true) (heof : entry.eof = true) :
    Reads sha256 readData digest entry state call (.ok [], entry, state)
  | failed {archive : LibarchiveReader} {error : Error} (h : call.hasBuffer = true)
      (heof : entry.eof = false) (hread : readData state.archive call.size = (none, archive))
      (herror : error.code = .ralf .packageContentsInvalid) :
    Reads sha256 readData digest entry state call
      (.error error, entry, { state with archive := archive, error := some error })
  | data {archive : LibarchiveReader} {b : UInt8} {bytes : Bytes} (h : call.hasBuffer = true)
      (heof : entry.eof = false)
      (hread : readData state.archive call.size = (some (b :: bytes), archive)) :
    Reads sha256 readData digest entry state call
      (.ok (b :: bytes),
        { entry with digestBuilder := some (entry.digestBuilder.getD [] ++ b :: bytes) },
        { state with archive := archive })
  | verified {archive : LibarchiveReader} (h : call.hasBuffer = true) (heof : entry.eof = false)
      (hread : readData state.archive call.size = (some [], archive))
      (hdigest : sha256 (entry.digestBuilder.getD []) = digest) :
    Reads sha256 readData digest entry state call
      (.ok [], { entry with eof := true, digestBuilder := some (entry.digestBuilder.getD []) },
        { state with archive := archive })
  | mismatch {archive : LibarchiveReader} (h : call.hasBuffer = true) (heof : entry.eof = false)
      (hread : readData state.archive call.size = (some [], archive))
      (hdigest : sha256 (entry.digestBuilder.getD []) ≠ digest) :
    Reads sha256 readData digest entry state call
      (.error (failedToVerify entry.path),
        { entry with eof := true, digestBuilder := some (entry.digestBuilder.getD []) },
        { state with archive := archive })

theorem read_cases (hdigest : entry.digest = some digest) (hcurrent : Current entry state) :
    Reads sha256 readData digest entry state call
      (entry.read sha256 readData errorString state call) := by
  obtain ⟨path, signed, index, builder, eof⟩ := entry
  obtain rfl : signed = some digest := hdigest
  unfold read
  split
  · next h => exact .noBuffer (by simpa using h) rfl
  next h =>
  have h : call.hasBuffer = true := by simpa using h
  rw [hcurrent.checkReadState]
  dsimp only
  cases eof with
  | true => exact .atEnd h rfl
  | false =>
    rw [if_neg Bool.false_ne_true]
    split
    · next hread => exact .failed h rfl hread rfl
    next bytes archive hread =>
    cases bytes with
    | cons b bytes =>
      rw [if_neg (by simp)]
      exact .data h rfl hread
    | nil =>
      rw [List.append_nil]
      split
      · next hne => exact .mismatch h rfl hread hne.2
      · next heq => exact .verified h rfl hread (not_not.mp fun hne => heq ⟨rfl, hne⟩)

/-! ## Sequences of calls -/

theorem failedToVerify_ne {error : Error} {path : FilePath} {code : ErrorCode}
    (herror : error.code = .ralf code) (hcode : code ≠ .packageSignatureInvalid) :
    error ≠ failedToVerify path := by
  rintro rfl
  exact hcode (StdErrorCode.ralf.inj herror).symm

/-- Calls with no mismatch, after some bytes were returned. -/
def Fine (sha256 : Bytes → Bytes) (digest : Bytes) (path : FilePath) (got : Bytes) :
    List Event → Prop
  | [] => True
  | event :: events =>
    event.result ≠ .error (failedToVerify path) ∧
      (event.result = .ok [] → sha256 got = digest) ∧
      Fine sha256 digest path (got ++ returned [event]) events

theorem returned_append (events events' : List Event) :
    returned (events ++ events') = returned events ++ returned events' := List.flatMap_append

theorem Fine.at {path : FilePath} {before after : List Event} {event : Event}
    (h : Fine sha256 digest path got (before ++ event :: after)) :
    event.result ≠ .error (failedToVerify path) ∧
      (event.result = .ok [] → sha256 (got ++ returned before) = digest) := by
  induction before generalizing got with
  | nil =>
    refine ⟨h.1, fun hresult => ?_⟩
    rw [show returned [] = [] from rfl, List.append_nil]
    exact h.2.1 hresult
  | cons first before ih =>
    have hrest := ih h.2.2
    rw [List.append_assoc, ← returned_append] at hrest
    exact hrest

theorem Fine.readsVerified {path : FilePath} {events : List Event}
    (h : Fine sha256 digest path [] events) : ReadsVerified sha256 digest path events := by
  constructor
  · rintro before event after rfl - hresult
    have hdigest := h.at.2 hresult
    rw [returned_append, show returned [event] = [] by simp [returned, hresult], List.append_nil]
    exact hdigest
  · rintro before event after rfl hresult
    exact absurd hresult h.at.1

/-- After an error of the reader no call returns anything, and none reports a mismatch. -/
theorem fine_of_error {path : FilePath} {error : Error} (hstate : state.error = some error)
    (herror : error ≠ failedToVerify path) :
    Fine sha256 digest path got (entry.readAll sha256 readData errorString state calls) := by
  induction calls generalizing got with
  | nil => trivial
  | cons call calls ih =>
    have hread : ∃ error, error ≠ failedToVerify path ∧
        entry.read sha256 readData errorString state call = (.error error, entry, state) := by
      unfold read
      split
      · exact ⟨_, @failedToVerify_ne _ _ .invalidArgument rfl (by decide), rfl⟩
      · refine ⟨error, herror, ?_⟩
        unfold checkReadState
        rw [hstate]
    obtain ⟨error', herror', hread⟩ := hread
    unfold readAll
    rw [hread]
    exact ⟨fun h => herror' (Except.error.inj h), (fun h => nomatch h), ih⟩

/-- After the end of the entry all calls report the end. -/
theorem fine_of_eof (hdigest : entry.digest = some digest) (hcurrent : Current entry state)
    (heof : entry.eof = true) (hmatch : sha256 got = digest) :
    Fine sha256 digest entry.path got (entry.readAll sha256 readData errorString state calls) := by
  induction calls with
  | nil => trivial
  | cons call calls ih =>
    unfold readAll
    have hread := @read_cases sha256 readData errorString entry state call digest hdigest hcurrent
    generalize entry.read sha256 readData errorString state call = result at hread
    cases hread with
    | noBuffer h herror =>
      exact ⟨fun heq => failedToVerify_ne herror (by decide) (Except.error.inj heq),
        (fun heq => nomatch heq), by simpa [returned] using ih⟩
    | atEnd h => exact ⟨(fun heq => nomatch heq), fun _ => hmatch, by simpa [returned] using ih⟩
    | failed h heof' => exact absurd (heof.symm.trans heof') (by decide)
    | data h heof' => exact absurd (heof.symm.trans heof') (by decide)
    | verified h heof' => exact absurd (heof.symm.trans heof') (by decide)
    | mismatch h heof' => exact absurd (heof.symm.trans heof') (by decide)

/-- As long as what was read is what the digest covers, matching data gives no mismatch. -/
theorem fine_of_dataMatches (hdigest : entry.digest = some digest) (hcurrent : Current entry state)
    (heof : entry.eof = false)
    (h : DataMatches sha256 readData digest state.archive (entry.digestBuilder.getD []) calls) :
    Fine sha256 digest entry.path (entry.digestBuilder.getD [])
      (entry.readAll sha256 readData errorString state calls) := by
  induction calls generalizing entry state with
  | nil => trivial
  | cons call calls ih =>
    unfold readAll
    unfold DataMatches at h
    have hread := @read_cases sha256 readData errorString entry state call digest hdigest hcurrent
    generalize entry.read sha256 readData errorString state call = result at hread
    cases hread with
    | noBuffer hbuffer herror =>
      rw [if_pos (by simp [hbuffer])] at h
      exact ⟨fun heq => failedToVerify_ne herror (by decide) (Except.error.inj heq),
        (fun heq => nomatch heq), by simpa [returned] using ih hdigest hcurrent heof h⟩
    | atEnd hbuffer heof' => exact absurd (heof.symm.trans heof') (by decide)
    | failed hbuffer heof' hdata herror =>
      have hne : ∀ path, _ ≠ failedToVerify path := fun path =>
        failedToVerify_ne herror (by decide)
      exact ⟨fun heq => hne _ (Except.error.inj heq), (fun heq => nomatch heq),
        fine_of_error rfl (hne _)⟩
    | @data archive b bytes hbuffer heof' hdata =>
      rw [if_neg (by simp [hbuffer]), hdata] at h
      refine ⟨(fun heq => nomatch heq), (fun heq => nomatch heq), ?_⟩
      have hnext := @ih
        { entry with digestBuilder := some (entry.digestBuilder.getD [] ++ b :: bytes) }
        { state with archive := archive } hdigest ⟨hcurrent.1, hcurrent.2, hcurrent.3⟩ heof h
      simpa [returned] using hnext
    | @verified archive hbuffer heof' hdata hsha =>
      refine ⟨(fun heq => nomatch heq), fun _ => hsha, ?_⟩
      have hnext := @fine_of_eof sha256 readData errorString
        { entry with eof := true, digestBuilder := some (entry.digestBuilder.getD []) }
        { state with archive := archive } digest (entry.digestBuilder.getD []) calls hdigest
        ⟨hcurrent.1, hcurrent.2, hcurrent.3⟩ rfl hsha
      simpa [returned] using hnext
    | mismatch hbuffer heof' hdata hsha =>
      rw [if_neg (by simp [hbuffer]), hdata] at h
      exact absurd h hsha

/-- Data that does not match is reported by a call that leaves the reader without an error. -/
theorem mismatch_of_not_dataMatches (hdigest : entry.digest = some digest)
    (hcurrent : Current entry state) (heof : entry.eof = false)
    (h : ¬ DataMatches sha256 readData digest state.archive (entry.digestBuilder.getD []) calls) :
    ∃ before event after, entry.readAll sha256 readData errorString state calls =
        before ++ event :: after ∧
      event.result = .error (failedToVerify entry.path) ∧ event.hasError = false := by
  induction calls generalizing entry state with
  | nil => exact absurd trivial h
  | cons call calls ih =>
    unfold readAll
    unfold DataMatches at h
    have hread := @read_cases sha256 readData errorString entry state call digest hdigest hcurrent
    generalize entry.read sha256 readData errorString state call = result at hread
    cases hread with
    | noBuffer hbuffer =>
      rw [if_pos (by simp [hbuffer])] at h
      obtain ⟨before, event, after, hevents, hevent⟩ := ih hdigest hcurrent heof h
      exact ⟨_ :: before, event, after, congrArg (List.cons _) hevents, hevent⟩
    | atEnd hbuffer heof' => exact absurd (heof.symm.trans heof') (by decide)
    | failed hbuffer heof' hdata =>
      rw [if_neg (by simp [hbuffer]), hdata] at h
      exact absurd trivial h
    | @data archive b bytes hbuffer heof' hdata =>
      rw [if_neg (by simp [hbuffer]), hdata] at h
      obtain ⟨before, event, after, hevents, hevent⟩ := @ih
        { entry with digestBuilder := some (entry.digestBuilder.getD [] ++ b :: bytes) }
        { state with archive := archive } hdigest ⟨hcurrent.1, hcurrent.2, hcurrent.3⟩ heof h
      exact ⟨_ :: before, event, after, congrArg (List.cons _) hevents, hevent⟩
    | verified hbuffer heof' hdata hsha =>
      rw [if_neg (by simp [hbuffer]), hdata] at h
      exact absurd hsha h
    | mismatch hbuffer heof' hdata hsha =>
      exact ⟨[], _, _, rfl, rfl, by rw [hcurrent.1]; rfl⟩

end

/-- The calls on a signed entry do what reading is to ensure exactly when the data that the
library gives matches. -/
theorem reads_verified_iff (sha256 : Bytes → Bytes)
    (readData : LibarchiveReader → Nat → Option Bytes × LibarchiveReader)
    (errorString : LibarchiveReader → String) (path : FilePath) (digest : Bytes) (index : Nat)
    (state : SharedReadState) (calls : List ReadCall)
    (hcurrent : Current { path := path, digest := some digest, index := index } state) :
    ReadsVerified sha256 digest path
        (readAll sha256 readData errorString { path := path, digest := some digest, index := index }
          state calls) ↔
      DataMatches sha256 readData digest state.archive [] calls := by
  constructor
  · intro hverified
    by_contra hmatch
    obtain ⟨before, event, after, hevents, hresult, herror⟩ :=
      @mismatch_of_not_dataMatches sha256 readData errorString
        { path := path, digest := some digest, index := index } state digest calls
        rfl hcurrent rfl hmatch
    have hsticky := (hverified.mismatch before event after hevents hresult).1
    rw [herror] at hsticky
    cases hsticky
  · exact fun hmatch => (@fine_of_dataMatches sha256 readData errorString
      { path := path, digest := some digest, index := index } state digest calls
      rfl hcurrent rfl hmatch).readsVerified

/-- What the library gives for a member of one block: the next bytes of the block. -/
def readOneBlock (archive : LibarchiveReader) (size : Nat) : Option Bytes × LibarchiveReader :=
  match archive.blocks with
  | [] => (some [], archive)
  | block :: _ =>
    (some (block.bytes.take size),
      { archive with blocks := [⟨block.bytes.drop size, block.offset + size⟩] })

/-- A reader at its first member, whose data is one byte. -/
def oneByteState : SharedReadState := ⟨⟨[], [⟨[0x78], 0⟩], .eof⟩, none, false, 1⟩

/-- With the contents in place of a digest: the mismatch is reported by the second call and
forgotten by the third, which returns the end of the entry. -/
theorem not_reads_verified :
    ¬ ∀ (sha256 : Bytes → Bytes)
      (readData : LibarchiveReader → Nat → Option Bytes × LibarchiveReader)
      (errorString : LibarchiveReader → String) (path : FilePath) (digest : Bytes) (index : Nat)
      (state : SharedReadState) (calls : List ReadCall),
      Current { path := path, digest := some digest, index := index } state →
      ReadsVerified sha256 digest path
        (readAll sha256 readData errorString { path := path, digest := some digest, index := index }
          state calls) := by
  intro h
  have hverified := h id readOneBlock (fun _ => "") (.ofNames [[0x61]]) [0x79] 1 oneByteState
    [{ size := 16 }, { size := 16 }, { size := 16 }] ⟨rfl, rfl, rfl⟩
  have hend := hverified.endOfEntry
    [⟨{ size := 16 }, .ok [0x78], false⟩,
      ⟨{ size := 16 }, .error (failedToVerify (.ofNames [[0x61]])), false⟩]
    ⟨{ size := 16 }, .ok [], false⟩ [] rfl (by decide) rfl
  exact absurd hend (by decide)

/-- The theorem on the same member with the right digest. -/
theorem reads_verified_iff_oneByte :
    ReadsVerified id [0x78] (.ofNames [[0x61]])
        (readAll id readOneBlock (fun _ => "")
          { path := .ofNames [[0x61]], digest := some [0x78], index := 1 } oneByteState
          [{ size := 16 }, { size := 16 }, { size := 16 }]) ↔
      DataMatches id readOneBlock [0x78] oneByteState.archive []
        [{ size := 16 }, { size := 16 }, { size := 16 }] :=
  reads_verified_iff id readOneBlock (fun _ => "") (.ofNames [[0x61]]) [0x78] 1 oneByteState
    [{ size := 16 }, { size := 16 }, { size := 16 }] ⟨rfl, rfl, rfl⟩

end ArchiveFileEntry

end Archive
