import Ralf.Archive.Turns
import Ralf.Oci.ArchiveImageLayerReader

/-!
# Polling an image layer after its end

An `OCIArchiveImageLayerReader` wraps an archive reader, and `ImageLayerReader` is the two
together: the archive reader decides when the archive library is called, and the library then
makes callbacks for bytes of the layer.

At the end of the archive the digest of the layer is asked for. The next call of `next` asks
the same digest context once more, and what it gives then is compared with the digest of the
descriptor: `Ended.next` says that the layer that was verified then has an error, and
`end_stable_iff` that the end is only stable as long as nobody looks.
-/

namespace Oci

open Archive

/-- The reader of a layer with the archive reader that it wraps. -/
structure ImageLayerReader where
  layer : OCIArchiveImageLayerReader
  archiveReader : ArchiveReader

/-- What a client does, with the callbacks that the archive library makes if it is called:
it takes the next entry, or reads data of the entry that was made at `index`. -/
inductive LayerCall
  | next (callbacks : List Callback)
  | readData (index : Nat) (callbacks : List Callback) (archive : LibarchiveReader)
      (error : Option Error)

def LayerCall.isNext : LayerCall → Bool
  | .next _ => true
  | .readData _ _ _ _ => false

namespace ImageLayerReader

section
variable (sha256 again : Bytes → Bytes) (descriptor : OCIDescriptor) (imageReader : IOCIFileReader)

/-- The constructor. The files of a layer are not signed one by one. -/
def new (headers : List Header) (opening : List Callback) (opened : Result Unit) :
    ImageLayerReader :=
  ⟨.new descriptor imageReader opening opened, .new headers none⟩

/-- The archive reader's own `next`, with the callbacks: none unless it takes a header. -/
def archiveNext (archiveReader : ArchiveReader) (callbacks : List Callback) :
    ArchiveNext PackageEntry × ArchiveReader :=
  match archiveReader.next sha256 with
  | (entry, archiveReader') =>
    let asked := ¬archiveReader.hasError ∧ ¬archiveReader.readState.endOfArchive ∧
      archiveReader.entryStack.isEmpty
    (⟨if asked then callbacks else [], entry, archiveReader'.readState.error⟩, archiveReader')

def next (reader : ImageLayerReader) (callbacks : List Callback) :
    Option PackageEntry × ImageLayerReader :=
  if reader.layer.hasError then (none, reader)
  else
    match archiveNext sha256 reader.archiveReader callbacks with
    | (archiveNext, archiveReader) =>
      match reader.layer.next sha256 again descriptor imageReader archiveNext with
      | (entry, layer) => (entry, ⟨layer, archiveReader⟩)

/-- Reading data of an entry that was returned: nothing happens unless it is current. -/
def readData (reader : ImageLayerReader) (index : Nat) (callbacks : List Callback)
    (archive : LibarchiveReader) (error : Option Error) : ImageLayerReader :=
  match checkReadState index reader.archiveReader.readState with
  | .error _ => reader
  | .ok _ =>
    { layer := callbacks.foldl (OCIArchiveImageLayerReader.callback descriptor imageReader)
        reader.layer
      archiveReader := { reader.archiveReader with readState :=
        { reader.archiveReader.readState with archive := archive, error := error } } }

/-- A call, and the entry that it gave. -/
def call (reader : ImageLayerReader) : LayerCall → Option PackageEntry × ImageLayerReader
  | .next callbacks => next sha256 again descriptor imageReader reader callbacks
  | .readData index callbacks archive error =>
    (none, readData descriptor imageReader reader index callbacks archive error)

/-- The reader after some calls. -/
def after (reader : ImageLayerReader) (calls : List LayerCall) : ImageLayerReader :=
  calls.foldl (fun reader made => (call sha256 again descriptor imageReader reader made).2) reader

/-- A call of `next` found the end of the archive, and no error. -/
def AtEnd (result : Option PackageEntry × ImageLayerReader) : Prop :=
  result.1 = none ∧ result.2.layer.hasError = false

/-- Every call of `next` among some calls finds the end again. -/
def StaysAtEnd (reader : ImageLayerReader) (calls : List LayerCall) : Prop :=
  ∀ before made rest, calls = before ++ made :: rest → made.isNext = true →
    AtEnd (call sha256 again descriptor imageReader
      (after sha256 again descriptor imageReader reader before) made)

end

/-! ## The phases of a reader -/

variable {sha256 again : Bytes → Bytes} {descriptor : OCIDescriptor} {imageReader : IOCIFileReader}
  {reader : ImageLayerReader} {callbacks : List Callback}

/-- The end was found: the archive reader stays there, and the digest was asked for. -/
structure Ended (sha256 : Bytes → Bytes) (descriptor : OCIDescriptor)
    (reader : ImageLayerReader) : Prop where
  clean : reader.archiveReader.hasError = false
  endOfArchive : reader.archiveReader.readState.endOfArchive = true
  offset : descriptor.size ≤ reader.layer.imageOffset
  finalised : reader.layer.digestBuilder.finalised = true
  digest : sha256 reader.layer.digestBuilder.digested = hexStringToBytes descriptor.digest

/-- Before the end the digest is that of the bytes so far, and after it the reader has ended,
unless there is an error. -/
def Phase (sha256 : Bytes → Bytes) (descriptor : OCIDescriptor) (imageReader : IOCIFileReader)
    (reader : ImageLayerReader) : Prop :=
  OCIArchiveImageLayerReader.Inv imageReader descriptor.size reader.layer ∨
    Ended sha256 descriptor reader

/-- An archive reader at its end is not asked for anything. -/
theorem archiveNext_of_endOfArchive {archiveReader : ArchiveReader}
    (hend : archiveReader.readState.endOfArchive = true) :
    archiveNext sha256 archiveReader callbacks =
      (⟨[], none, archiveReader.readState.error⟩, archiveReader) := by
  have hnext : archiveReader.next sha256 = (none, archiveReader) := by
    unfold ArchiveReader.next
    exact if_pos (.inr hend)
  unfold archiveNext
  rw [hnext]
  dsimp only
  rw [if_neg fun hasked => hasked.2.1 hend]

/-- A digest that was asked for is compared once more, and does not match. -/
theorem layer_next_again {layer : OCIArchiveImageLayerReader} (hclean : layer.hasError = false)
    (hoffset : descriptor.size ≤ layer.imageOffset)
    (hfinalised : layer.digestBuilder.finalised = true)
    (hmismatch : again layer.digestBuilder.digested ≠ hexStringToBytes descriptor.digest) :
    layer.next sha256 again descriptor imageReader (⟨[], none, none⟩ : ArchiveNext PackageEntry) =
      (none, layer.setError .invalidPackage "Digest mismatch for OCI image layer") := by
  obtain ⟨imageOffset, position, reads, ⟨digested, finalised⟩, error⟩ := layer
  obtain rfl : finalised = true := hfinalised
  unfold OCIArchiveImageLayerReader.next
  rw [hclean, if_neg Bool.false_ne_true]
  dsimp only [List.foldl_nil]
  rw [if_neg (Nat.not_lt.mpr hoffset)]
  exact if_pos hmismatch

/-- After the end the next call of `next` finds the wrong digest. -/
theorem Ended.next (h : Ended sha256 descriptor reader) (hagain : ∀ data, again data ≠ sha256 data)
    (callbacks : List Callback) :
    (reader.next sha256 again descriptor imageReader callbacks).1 = none ∧
      (reader.next sha256 again descriptor imageReader callbacks).2.layer.hasError = true ∧
      Ended sha256 descriptor
        (reader.next sha256 again descriptor imageReader callbacks).2 := by
  unfold ImageLayerReader.next
  split
  · next herror => exact ⟨rfl, herror, h⟩
  next hclean =>
  have hnone : reader.archiveReader.readState.error = none := by
    simpa [ArchiveReader.hasError] using h.clean
  rw [archiveNext_of_endOfArchive h.endOfArchive, hnone]
  dsimp only
  rw [layer_next_again (Bool.eq_false_iff.mpr hclean) h.offset h.finalised (h.digest ▸ hagain _)]
  exact ⟨rfl, rfl, h.clean, h.endOfArchive, h.offset, h.finalised, h.digest⟩

/-- After the end no data is read. -/
theorem Ended.readData (h : Ended sha256 descriptor reader) (index : Nat)
    (archive : LibarchiveReader) (error : Option Error) :
    readData descriptor imageReader reader index callbacks archive error = reader := by
  have hnone : reader.archiveReader.readState.error = none := by
    simpa [ArchiveReader.hasError] using h.clean
  unfold ImageLayerReader.readData checkReadState
  rw [hnone, h.endOfArchive]
  rfl

/-- A call of the reader of the layer that gives nothing, and no error. -/
theorem layer_next_ended {layer : OCIArchiveImageLayerReader}
    {archiveNext : ArchiveNext PackageEntry}
    (h : OCIArchiveImageLayerReader.Inv imageReader descriptor.size layer)
    (hnone : (layer.next sha256 again descriptor imageReader archiveNext).1 = none)
    (hclean : (layer.next sha256 again descriptor imageReader archiveNext).2.hasError = false) :
    archiveNext.error = none ∧ archiveNext.entry = none ∧
      (layer.next sha256 again descriptor imageReader archiveNext).2.imageOffset =
        descriptor.size ∧
      (layer.next sha256 again descriptor imageReader archiveNext).2.digestBuilder.finalised =
        true := by
  unfold OCIArchiveImageLayerReader.next at hnone hclean ⊢
  cases herror : layer.hasError with
  | true =>
    rw [herror, if_pos rfl] at hclean
    exact absurd herror (Bool.eq_false_iff.mp hclean)
  | false =>
    rw [herror, if_neg Bool.false_ne_true] at hnone hclean
    rw [if_neg Bool.false_ne_true]
    have hinv := OCIArchiveImageLayerReader.callbacks_inv archiveNext.callbacks h
    dsimp only at hnone hclean ⊢
    generalize archiveNext.callbacks.foldl (OCIArchiveImageLayerReader.callback descriptor
      imageReader) layer = fed at hinv hnone hclean ⊢
    cases hfailed : archiveNext.error with
    | some error =>
      rw [hfailed] at hclean
      cases hclean
    | none =>
      cases hentry : archiveNext.entry with
      | some entry =>
        rw [hfailed, hentry] at hnone
        cases hnone
      | none =>
        rw [hfailed, hentry] at hclean
        dsimp only at hclean ⊢
        generalize hdrain : (if fed.imageOffset < descriptor.size then _ else fed) = drained
          at hclean ⊢
        have hfinalised : (drained.digestBuilder.finalise sha256 again).2.finalised = true := rfl
        generalize drained.digestBuilder.finalise sha256 again = final at hfinalised hclean ⊢
        split
        · next hmismatch =>
          rw [if_pos hmismatch] at hclean
          cases hclean
        · next hmatch =>
          rw [if_neg hmatch] at hclean
          have hdrained := OCIArchiveImageLayerReader.drain_synced hinv hdrain.symm
          have hoffset := (hdrained.resolve_left (Bool.eq_false_iff.mp hclean)).2
          exact ⟨rfl, rfl, hoffset, hfinalised⟩

/-- At the end the layer was read to its end, and has the digest of the descriptor. -/
theorem next_ended (h : OCIArchiveImageLayerReader.Inv imageReader descriptor.size reader.layer)
    (hend : AtEnd (reader.next sha256 again descriptor imageReader callbacks)) :
    Ended sha256 descriptor (reader.next sha256 again descriptor imageReader callbacks).2 := by
  obtain ⟨hnone, hclean⟩ := hend
  have hstops := (@ArchiveReader.next_advances sha256 reader.archiveReader).none_stops
  unfold ImageLayerReader.next at hnone hclean ⊢
  split
  · next herror =>
    rw [if_pos herror] at hclean
    exact absurd herror (Bool.eq_false_iff.mp hclean)
  next hfresh =>
  rw [if_neg hfresh] at hnone hclean
  obtain ⟨hokay, hentry, hoffset, hfinalised⟩ := layer_next_ended h hnone hclean
  have hcases := @OCIArchiveImageLayerReader.next_cases sha256 again descriptor imageReader _ _ h
    (archiveNext sha256 reader.archiveReader callbacks).1
  have hverified := (hcases.resolve_left (Bool.eq_false_iff.mp hclean)).resolve_left
    fun hgiven => hgiven.1 hnone
  have hnoError : (reader.archiveReader.next sha256).2.hasError = false := by
    unfold ArchiveReader.hasError
    rw [show (reader.archiveReader.next sha256).2.readState.error = none from hokay]
    rfl
  refine ⟨hnoError, ?_, hoffset.ge, hfinalised, hverified.2.digest⟩
  exact (hstops hentry).resolve_left (Bool.eq_false_iff.mp hnoError)

theorem next_phase (h : Phase sha256 descriptor imageReader reader)
    (hagain : ∀ data, again data ≠ sha256 data) (callbacks : List Callback) :
    Phase sha256 descriptor imageReader
      (reader.next sha256 again descriptor imageReader callbacks).2 := by
  rcases h with hinv | hended
  · have hend := @next_ended sha256 again descriptor imageReader reader callbacks hinv
    have hcases := @OCIArchiveImageLayerReader.next_cases sha256 again descriptor imageReader _ _
      hinv (archiveNext sha256 reader.archiveReader callbacks).1
    unfold AtEnd at hend
    unfold ImageLayerReader.next at hend ⊢
    split at hend
    · next herror =>
      rw [if_pos herror]
      exact .inl hinv
    next hfresh =>
    rw [if_neg hfresh]
    rcases hcases with herror | ⟨-, hkept⟩ | ⟨hnone, -⟩
    · exact .inl fun hclean => absurd herror (Bool.eq_false_iff.mp hclean)
    · exact .inl hkept
    · by_cases hclean : (OCIArchiveImageLayerReader.next sha256 again descriptor imageReader
          reader.layer (archiveNext sha256 reader.archiveReader callbacks).1).2.hasError = false
      · exact .inr (hend ⟨hnone, hclean⟩)
      · exact .inl fun h => absurd h hclean
  · exact .inr (hended.next hagain callbacks).2.2

theorem call_phase (h : Phase sha256 descriptor imageReader reader)
    (hagain : ∀ data, again data ≠ sha256 data) (made : LayerCall) :
    Phase sha256 descriptor imageReader
      (reader.call sha256 again descriptor imageReader made).2 := by
  cases made with
  | next callbacks => exact next_phase h hagain callbacks
  | readData index callbacks archive error =>
    show Phase sha256 descriptor imageReader
      (readData descriptor imageReader reader index callbacks archive error)
    rcases h with hinv | hended
    · unfold ImageLayerReader.readData
      split
      · exact .inl hinv
      · exact .inl (OCIArchiveImageLayerReader.callbacks_inv callbacks hinv)
    · rw [hended.readData]
      exact .inr hended

theorem after_phase (h : Phase sha256 descriptor imageReader reader)
    (hagain : ∀ data, again data ≠ sha256 data) (calls : List LayerCall) :
    Phase sha256 descriptor imageReader
      (reader.after sha256 again descriptor imageReader calls) := by
  induction calls generalizing reader with
  | nil => exact h
  | cons made rest ih => exact ih (call_phase h hagain made)

/-- No call leaves the end. -/
theorem after_ended (h : Ended sha256 descriptor reader)
    (hagain : ∀ data, again data ≠ sha256 data) (calls : List LayerCall) :
    Ended sha256 descriptor (reader.after sha256 again descriptor imageReader calls) := by
  induction calls generalizing reader with
  | nil => exact h
  | cons made rest ih =>
    refine ih ?_
    cases made with
    | next callbacks => exact (h.next hagain callbacks).2.2
    | readData index callbacks archive error =>
      show Ended sha256 descriptor
        (readData descriptor imageReader reader index callbacks archive error)
      rw [h.readData]
      exact h

/-- The end of a layer that was found without an error is found by later calls exactly if
none of these is a call of `next`. -/
theorem end_stable_iff (hagain : ∀ data, again data ≠ sha256 data) (headers : List Header)
    (opening : List Callback) (opened : Result Unit) (before : List LayerCall)
    (callbacks : List Callback) (later : List LayerCall)
    (hend : AtEnd (next sha256 again descriptor imageReader
      (after sha256 again descriptor imageReader
        (new descriptor imageReader headers opening opened) before) callbacks)) :
    StaysAtEnd sha256 again descriptor imageReader
        (next sha256 again descriptor imageReader
          (after sha256 again descriptor imageReader
            (new descriptor imageReader headers opening opened) before) callbacks).2 later ↔
      ∀ made ∈ later, made.isNext = false := by
  have hphase := after_phase (.inl (OCIArchiveImageLayerReader.new_inv opening opened) :
    Phase sha256 descriptor imageReader (new descriptor imageReader headers opening opened))
    hagain before
  generalize after sha256 again descriptor imageReader
    (new descriptor imageReader headers opening opened) before = reader at hend hphase ⊢
  have hended : Ended sha256 descriptor
      (reader.next sha256 again descriptor imageReader callbacks).2 := by
    rcases hphase with hinv | hended
    · exact next_ended hinv hend
    · exact (hended.next hagain callbacks).2.2
  constructor
  · intro hstays made hmade
    rw [Bool.eq_false_iff]
    intro hnext
    obtain ⟨first, rest, rfl⟩ := List.append_of_mem hmade
    have hthere := hstays first made rest rfl hnext
    have hagainEnded := @after_ended _ _ _ imageReader _ hended hagain first
    cases made with
    | next callbacks =>
      exact absurd (hagainEnded.next hagain callbacks).2.1 (Bool.eq_false_iff.mp hthere.2)
    | readData => cases hnext
  · rintro hnone first made rest rfl hnext
    rw [hnone made (by simp)] at hnext
    cases hnext

/-! ### A layer of three bytes with one file -/

/-- The archive that the layer is taken to be. -/
def abcHeaders : List Header :=
  [.entry { pathname := some [0x61], type := .regular, perm := 0o644, mtime := 0, size := 0,
            symlink := none, blocks := [], dataEnd := .eof }]

/-- The file is returned, then the end is found. -/
theorem abc_atEnd :
    AtEnd (next OCIArchiveImageLayerReader.sha256Abc (fun _ => [0])
      OCIArchiveImageLayerReader.abcDescriptor OCIArchiveImageLayerReader.abcReader
      (after OCIArchiveImageLayerReader.sha256Abc (fun _ => [0])
        OCIArchiveImageLayerReader.abcDescriptor OCIArchiveImageLayerReader.abcReader
        (new OCIArchiveImageLayerReader.abcDescriptor OCIArchiveImageLayerReader.abcReader
          abcHeaders [] (.ok ())) [.next [.skip 1]]) [.read]) :=
  ⟨by decide +kernel, by decide +kernel⟩

theorem abc_again (data : Bytes) :
    (fun _ => [0] : Bytes → Bytes) data ≠ OCIArchiveImageLayerReader.sha256Abc data := by
  show ([0] : Bytes) ≠ OCIArchiveImageLayerReader.sha256Abc data
  unfold OCIArchiveImageLayerReader.sha256Abc
  split
  · decide
  · decide

/-- A second call at the end finds the wrong digest. -/
theorem not_end_stable :
    ¬ ∀ (sha256 again : Bytes → Bytes) (descriptor : OCIDescriptor)
      (imageReader : IOCIFileReader) (headers : List Header) (opening : List Callback)
      (opened : Result Unit) (before : List LayerCall) (callbacks : List Callback)
      (later : List LayerCall),
      (∀ data, again data ≠ sha256 data) →
      AtEnd (next sha256 again descriptor imageReader
        (after sha256 again descriptor imageReader
          (new descriptor imageReader headers opening opened) before) callbacks) →
      StaysAtEnd sha256 again descriptor imageReader
        (next sha256 again descriptor imageReader
          (after sha256 again descriptor imageReader
            (new descriptor imageReader headers opening opened) before) callbacks).2 later := by
  intro h
  have hstays := h _ _ _ _ abcHeaders [] (.ok ()) [.next [.skip 1]] [.read] [.next []] abc_again
    abc_atEnd
  have hthere := hstays [] (.next []) [] rfl rfl
  exact absurd hthere.2 (by decide +kernel)

/-- The theorem on the layer, when it is not polled again. -/
theorem end_stable_iff_abc :
    StaysAtEnd OCIArchiveImageLayerReader.sha256Abc (fun _ => [0])
        OCIArchiveImageLayerReader.abcDescriptor OCIArchiveImageLayerReader.abcReader
        (next OCIArchiveImageLayerReader.sha256Abc (fun _ => [0])
          OCIArchiveImageLayerReader.abcDescriptor OCIArchiveImageLayerReader.abcReader
          (after OCIArchiveImageLayerReader.sha256Abc (fun _ => [0])
            OCIArchiveImageLayerReader.abcDescriptor OCIArchiveImageLayerReader.abcReader
            (new OCIArchiveImageLayerReader.abcDescriptor OCIArchiveImageLayerReader.abcReader
              abcHeaders [] (.ok ())) [.next [.skip 1]]) [.read]).2
        [.readData 1 [] (.new []) none] ↔
      ∀ made ∈ [LayerCall.readData 1 [] (.new []) none], made.isNext = false :=
  end_stable_iff abc_again abcHeaders [] (.ok ()) [.next [.skip 1]] [.read]
    [.readData 1 [] (.new []) none] abc_atEnd

end ImageLayerReader

end Oci
