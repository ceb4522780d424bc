import Ralf.DmVerity.Caches
import Ralf.Erofs.FileMaps
import Ralf.Erofs.HostileImage
import Ralf.Oci.Mount

/-!
# Readers of EROFS image layers

An `OCIErofsImageLayerReader` opens the image that a layer is mapped at as a protected file, and
makes an EROFS reader over it. Its entries are read from their beginning on, through the same file.

`serve` is a whole session with a reader. It depends only on how the image file answers: two files
that behave alike are served alike (`serve_behaves`).
-/

namespace Oci

open DmVerity Erofs

variable {σ τ : Type}

/-! ## The reader -/

/-- An image file with its EROFS reader. -/
structure OpenImage (σ : Type) where
  file : IErofsImageFile σ
  reader : ErofsReader
  state : σ

structure OCIErofsImageLayerReader (σ : Type) where
  erofsReader : Option (OpenImage σ) := none
  error : Option Error := none

/-- An entry that was given out, with the place that its next read starts at. -/
structure OpenEntry where
  entry : ErofsEntry
  offset : Nat := 0

namespace OCIErofsImageLayerReader

section
variable (lz4 : Lz4)

/-- The end of the constructor: an EROFS reader is made over the image file. -/
def ofImage (file : IErofsImageFile σ) (s : σ) : Except Fault (OCIErofsImageLayerReader σ) :=
  match ErofsReader.new file lz4 s with
  | .error fault => .error fault
  | .ok (reader, s) =>
    match reader.error with
    | some error =>
      let what := error.what
      .ok { error := some
              ⟨error.code, s!"Failed to create EROFS reader for image layer: {what}"⟩ }
    | none => .ok { erofsReader := some ⟨file, reader, s⟩ }

/-- The next entry, to be read from its beginning on. -/
def next (layer : OCIErofsImageLayerReader σ) :
    Except Fault (Option ErofsEntry × OCIErofsImageLayerReader σ) :=
  match layer.erofsReader with
  | none => .ok (none, layer)
  | some image =>
    match image.reader.next image.file lz4 image.state with
    | .error fault => .error fault
    | .ok (entry, reader, s) =>
      .ok (entry, { layer with erofsReader := some ⟨image.file, reader, s⟩ })

/-- `OCIErofsImageEntry::read` into a buffer: the result, the buffer, and the entry after it. -/
def readEntry (layer : OCIErofsImageLayerReader σ) (entry : OpenEntry) (buffer : Bytes) :
    Except Fault (Int × Bytes × OpenEntry × OCIErofsImageLayerReader σ) :=
  match layer.erofsReader with
  | none => .ok (-1, buffer, entry, layer)
  | some image =>
    match entry.entry.inode.read image.file lz4 buffer entry.offset image.state with
    | .error fault => .error fault
    | .ok (bytesRead, data, inode, s) =>
      .ok (bytesRead, data,
        { entry := { entry.entry with inode := inode }
          offset := if bytesRead > 0 then entry.offset + bytesRead.toNat else entry.offset },
        { layer with erofsReader := some { image with state := s } })

def hasError (layer : OCIErofsImageLayerReader σ) : Bool :=
  layer.error.isSome || match layer.erofsReader with
    | none => true
    | some image => image.reader.hasError

/-- The error object, which may hold no error. -/
def currentError (layer : OCIErofsImageLayerReader σ) : Error :=
  match layer.error, layer.erofsReader with
  | some error, _ => error
  | none, some image => image.reader.error.getD (.ralf .noError "No error")
  | none, none => .ralf .noError "No error"

end

/-! ## Sessions -/

/-- A call of a program that reads a layer. A read is of the entry that call number `index` of
`next` with an entry gave. -/
inductive Call
  | next
  | read (index : Nat) (buffer : Bytes)
  | error
  deriving DecidableEq, Repr

/-- What a call gives. -/
inductive Answer
  | entry (entry : Option ErofsEntry)
  | data (bytesRead : Int) (buffer : Bytes)
  | noEntry
  | error (hasError : Bool) (error : Error)
  deriving DecidableEq, Repr

/-- Calls one after the other, with the entries that were given out so far. -/
def run (lz4 : Lz4) : List Call → List OpenEntry → OCIErofsImageLayerReader σ →
    Except Fault (List Answer)
  | [], _, _ => .ok []
  | .next :: calls, entries, layer =>
    match layer.next lz4 with
    | .error fault => .error fault
    | .ok (entry, layer) =>
      (run lz4 calls (entries ++ (entry.map fun entry => { entry := entry }).toList) layer).map
        (.entry entry :: ·)
  | .read index buffer :: calls, entries, layer =>
    match entries[index]? with
    | none => (run lz4 calls entries layer).map (.noEntry :: ·)
    | some entry =>
      match layer.readEntry lz4 entry buffer with
      | .error fault => .error fault
      | .ok (bytesRead, data, entry, layer) =>
        (run lz4 calls (entries.set index entry) layer).map (.data bytesRead data :: ·)
  | .error :: calls, entries, layer =>
    (run lz4 calls entries layer).map (.error layer.hasError layer.currentError :: ·)

/-- What a session with a reader gives, from its constructor on. -/
def serve (lz4 : Lz4) (calls : List Call) (made : Except Fault (OCIErofsImageLayerReader σ)) :
    Except Fault (List Answer) :=
  match made with
  | .error fault => .error fault
  | .ok layer => layer.run lz4 calls []

/-! ## Files that behave alike -/

section
variable {lz4 : Lz4} {φ : σ → τ}

/-- Two readers over files that answer alike, in corresponding states. -/
structure Corresponds (φ : σ → τ) (layer : OCIErofsImageLayerReader σ)
    (layer' : OCIErofsImageLayerReader τ) : Prop where
  error : layer'.error = layer.error
  image : layer.erofsReader = none ∧ layer'.erofsReader = none ∨
    ∃ image file', layer.erofsReader = some image ∧ Carries φ image.file file' ∧
      layer'.erofsReader = some ⟨file', image.reader, φ image.state⟩

theorem ofImage_corresponds {file : IErofsImageFile σ} {file' : IErofsImageFile τ}
    (h : Carries φ file file') (s : σ) :
    (∃ fault, ofImage lz4 file s = .error fault ∧ ofImage lz4 file' (φ s) = .error fault) ∨
      ∃ layer layer', ofImage lz4 file s = .ok layer ∧ ofImage lz4 file' (φ s) = .ok layer' ∧
        Corresponds φ layer layer' := by
  unfold ofImage
  rw [ErofsReader.new_carried h]
  rcases ErofsReader.new file lz4 s with fault | ⟨reader, s₁⟩
  · exact .inl ⟨fault, rfl, rfl⟩
  · simp only [Except.map, onState]
    cases reader.error with
    | some error => exact .inr ⟨_, _, rfl, rfl, rfl, .inl ⟨rfl, rfl⟩⟩
    | none => exact .inr ⟨_, _, rfl, rfl, rfl, .inr ⟨_, _, rfl, h, rfl⟩⟩

theorem Corresponds.next {layer : OCIErofsImageLayerReader σ}
    {layer' : OCIErofsImageLayerReader τ} (h : Corresponds φ layer layer') :
    (∃ fault, layer.next lz4 = .error fault ∧ layer'.next lz4 = .error fault) ∨
      ∃ entry layer₁ layer₁', layer.next lz4 = .ok (entry, layer₁) ∧
        layer'.next lz4 = .ok (entry, layer₁') ∧ Corresponds φ layer₁ layer₁' := by
  obtain ⟨herror, ⟨hnone, hnone'⟩ | ⟨image, file', hsome, hfile, hsome'⟩⟩ := h
  · unfold OCIErofsImageLayerReader.next
    rw [hnone, hnone']
    exact .inr ⟨_, _, _, rfl, rfl, herror, .inl ⟨hnone, hnone'⟩⟩
  · unfold OCIErofsImageLayerReader.next
    rw [hsome, hsome']
    dsimp only
    rw [ErofsReader.next_carried hfile]
    rcases image.reader.next image.file lz4 image.state with fault | ⟨entry, reader, s⟩
    · exact .inl ⟨fault, rfl, rfl⟩
    · exact .inr ⟨_, _, _, rfl, rfl, herror, .inr ⟨_, _, rfl, hfile, rfl⟩⟩

theorem Corresponds.readEntry {layer : OCIErofsImageLayerReader σ}
    {layer' : OCIErofsImageLayerReader τ} (h : Corresponds φ layer layer') (entry : OpenEntry)
    (buffer : Bytes) :
    (∃ fault, layer.readEntry lz4 entry buffer = .error fault ∧
        layer'.readEntry lz4 entry buffer = .error fault) ∨
      ∃ bytesRead data entry₁ layer₁ layer₁',
        layer.readEntry lz4 entry buffer = .ok (bytesRead, data, entry₁, layer₁) ∧
        layer'.readEntry lz4 entry buffer = .ok (bytesRead, data, entry₁, layer₁') ∧
        Corresponds φ layer₁ layer₁' := by
  obtain ⟨herror, ⟨hnone, hnone'⟩ | ⟨image, file', hsome, hfile, hsome'⟩⟩ := h
  · unfold OCIErofsImageLayerReader.readEntry
    rw [hnone, hnone']
    exact .inr ⟨_, _, _, _, _, rfl, rfl, herror, .inl ⟨hnone, hnone'⟩⟩
  · unfold OCIErofsImageLayerReader.readEntry
    rw [hsome, hsome']
    dsimp only
    rw [ErofsInode.read_carried hfile]
    rcases entry.entry.inode.read image.file lz4 buffer entry.offset image.state with
      fault | ⟨bytesRead, data, inode, s⟩
    · exact .inl ⟨fault, rfl, rfl⟩
    · exact .inr ⟨_, _, _, _, _, rfl, rfl, herror, .inr ⟨_, _, rfl, hfile, rfl⟩⟩

theorem Corresponds.errors {layer : OCIErofsImageLayerReader σ}
    {layer' : OCIErofsImageLayerReader τ} (h : Corresponds φ layer layer') :
    layer'.hasError = layer.hasError ∧ layer'.currentError = layer.currentError := by
  obtain ⟨herror, ⟨hnone, hnone'⟩ | ⟨image, file', hsome, hfile, hsome'⟩⟩ := h
  · unfold hasError currentError
    rw [herror, hnone, hnone']
    cases layer.error with
    | none => exact ⟨rfl, rfl⟩
    | some error => exact ⟨rfl, rfl⟩
  · unfold hasError currentError
    rw [herror, hsome, hsome']
    cases layer.error with
    | none => exact ⟨rfl, rfl⟩
    | some error => exact ⟨rfl, rfl⟩

theorem run_corresponds (calls : List Call) (entries : List OpenEntry)
    {layer : OCIErofsImageLayerReader σ} {layer' : OCIErofsImageLayerReader τ}
    (h : Corresponds φ layer layer') :
    run lz4 calls entries layer' = run lz4 calls entries layer := by
  induction calls generalizing entries layer layer' with
  | nil => rfl
  | cons call calls ih =>
    cases call with
    | next =>
      unfold run
      obtain ⟨fault, hx, hy⟩ | ⟨entry, layer₁, layer₁', hx, hy, h₁⟩ := @Corresponds.next _ _ lz4 _ _ _ h
      · rw [hx, hy]
      · rw [hx, hy]
        dsimp only
        rw [ih _ h₁]
    | read index buffer =>
      unfold run
      cases entries[index]? with
      | none =>
        dsimp only
        rw [ih _ h]
      | some entry =>
        dsimp only
        obtain ⟨fault, hx, hy⟩ | ⟨bytesRead, data, entry₁, layer₁, layer₁', hx, hy, h₁⟩ :=
          @Corresponds.readEntry _ _ lz4 _ _ _ h entry buffer
        · rw [hx, hy]
        · rw [hx, hy]
          dsimp only
          rw [ih _ h₁]
    | error =>
      unfold run
      obtain ⟨hhas, hcurrent⟩ := h.errors
      rw [ih _ h, hhas, hcurrent]

theorem serve_carried {file : IErofsImageFile σ} {file' : IErofsImageFile τ}
    (h : Carries φ file file') (s : σ) (calls : List Call) :
    serve lz4 calls (ofImage lz4 file' (φ s)) = serve lz4 calls (ofImage lz4 file s) := by
  obtain ⟨fault, hx, hy⟩ | ⟨layer, layer', hx, hy, hlayer⟩ := @ofImage_corresponds _ _ lz4 _ _ _ h s
  · rw [hx, hy]
    rfl
  · rw [hx, hy]
    exact run_corresponds calls [] hlayer

/-- A file that behaves as one without a state is served as that one is. -/
theorem serve_behaves {file : IErofsImageFile σ} {good : σ → Prop} {plain : IErofsImageFile Unit}
    (h : Behaves file good plain) {s : σ} (hs : good s) (calls : List Call) :
    serve lz4 calls (ofImage lz4 file s) = serve lz4 calls (ofImage lz4 plain ()) :=
  (serve_carried h.carries_val ⟨s, hs⟩ calls).trans (serve_carried h.carries_unit ⟨s, hs⟩ calls).symm

end

/-! ## The protected image -/

section
variable (sha256 : Bytes → Sha256Digest) (storage : Storage)

/-- A protected file as the file of an image. -/
def protectedImage (f : LiveFile) : IErofsImageFile (LiveFile × LiveState) :=
  liveImage (storage.source sha256) (wrap64 f.fileSize) (wrap64_lt _)

/-- The start of the constructor: its checks, and the protected file over the image. -/
def openImage (fds : ProtectedFds) (imageFile : Option MappedRange) (hashesOffset : Nat)
    (rootHash : Bytes) (memory : { bytes : Bytes // bytes.length = kBlockSize }) :
    Result (LiveFile × LiveState) :=
  match imageFile with
  | none =>
    .error (.ralf .packageContentsInvalid "EROFS image layer is missing or invalid")
  | some range =>
    if range.size < 8192 ∨ range.offset > sizeMax ∨
        wrap64 (range.offset + range.size) > sizeMax then
      .error (.ralf .packageContentsInvalid
        "EROFS image layer is too small, must be at least 8192 bytes")
    else if hashesOffset > range.size - 4096 then
      let size := range.size
      .error (.ralf .packageContentsInvalid <|
        s!"EROFS image layer hashes offset is invalid (offset:{hashesOffset}, " ++
        s!"image size:{size})")
    else
      match IDmVerityProtectedFile.open sha256 storage
          { fds with dataFileFd := range.fd, hashesFileFd := range.fd }
          (some range.offset) (some hashesOffset) (some (wrap64 (hashesOffset + range.offset)))
          (some (range.size - hashesOffset)) rootHash memory with
      | .error error =>
        let what := error.what
        .error ⟨error.code,
          s!"Failed to open dm-verity protected file for EROFS image layer: {what}"⟩
      | .ok opened => .ok opened

/-- The constructor. -/
def new (lz4 : Lz4) (fds : ProtectedFds) (imageFile : Option MappedRange) (hashesOffset : Nat)
    (rootHash : Bytes) (memory : { bytes : Bytes // bytes.length = kBlockSize }) :
    Except Fault (OCIErofsImageLayerReader (LiveFile × LiveState)) :=
  match openImage sha256 storage fds imageFile hashesOffset rootHash memory with
  | .error error => .ok { error := some error }
  | .ok (f, w) => ofImage lz4 (protectedImage sha256 storage f) (f, w)

end

end OCIErofsImageLayerReader

end Oci
