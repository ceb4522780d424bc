import Ralf.Core.Error

/-!
# Reading an OCI archive image layer

An `OCIArchiveImageLayerReader` hands the bytes of an image layer to the archive library
and to a digest at the same time, through a read and a skip callback. When the archive has no
more entries it reads what is left of the layer and compares the digest with the one of the
descriptor.

The archive library is an arbitrary client: it makes any callbacks, whether or not one of
them failed before, and then gives an entry, an error or neither. The reader of the layer may
give fewer bytes than it is asked for, or fail and then be anywhere. `Synced` is what holds
as long as there is no error: the digest covers the bytes in front of the offset, and the
reader is at it.
-/

/-! ## Digests -/

/-- The bytes that a digest covers, and whether it was asked for. -/
structure CryptoDigestBuilder where
  digested : Bytes
  finalised : Bool
  deriving DecidableEq, Repr

namespace CryptoDigestBuilder

def new : CryptoDigestBuilder := ⟨[], false⟩

def update (builder : CryptoDigestBuilder) (data : Bytes) : CryptoDigestBuilder :=
  { builder with digested := builder.digested ++ data }

/-- The digest of a context. A context is not made for more than one digest: what it gives
after that is `again`. -/
def finalise (sha256 again : Bytes → Bytes) (builder : CryptoDigestBuilder) :
    Bytes × CryptoDigestBuilder :=
  (if builder.finalised then again builder.digested else sha256 builder.digested,
    { builder with finalised := true })

end CryptoDigestBuilder

namespace Oci

/-! ## Hex strings -/

/-- `isxdigit`. -/
def isHexDigit (c : UInt8) : Bool :=
  48 ≤ c && c ≤ 57 || 97 ≤ c && c ≤ 102 || 65 ≤ c && c ≤ 70

def hexDigitToByte (c : UInt8) : UInt8 :=
  if 48 ≤ c ∧ c ≤ 57 then c - 48
  else if 97 ≤ c ∧ c ≤ 102 then c - 97 + 10
  else if 65 ≤ c ∧ c ≤ 70 then c - 65 + 10
  else 0

/-- The bytes of the pairs of digits, up to one that is not a pair of digits. -/
def hexStringToBytes : Bytes → Bytes
  | high :: low :: rest =>
    if isHexDigit high && isHexDigit low then
      (hexDigitToByte high <<< 4 ||| hexDigitToByte low) :: hexStringToBytes rest
    else []
  | _ => []

/-! ## The layer -/

/-- What is read of a descriptor. -/
structure OCIDescriptor where
  mediaType : String
  digest : Bytes
  size : Nat
  deriving DecidableEq, Repr

/-- What a call of `read` does: it gives up to so many bytes, or fails and leaves the reader
at some position. -/
inductive ReadOutcome
  | amount (n : Nat)
  | failure (position : Nat)
  deriving DecidableEq, Repr

/-- A file that is read from its start. The outcome of a call depends on the number of calls
before it and the size asked for. -/
structure IOCIFileReader where
  contents : Bytes
  outcome : Nat → Nat → ReadOutcome

/-- `MAX_IMAGE_SIZE`: 512 MiB. -/
def maxImageSize : Nat := 512 * 1024 * 1024

/-- The formats that are required of an archive. -/
inductive ArchiveFormats
  | tarball
  | tarballGzip
  | tarballZstd
  | zip
  deriving DecidableEq, Repr

/-- The format for a media type. -/
def requiredFormats (mediaType : String) : Option ArchiveFormats :=
  if mediaType = "application/vnd.rdk.package.content.layer.v1.tar" then some .tarball
  else if mediaType = "application/vnd.rdk.package.content.layer.v1.tar+gzip" then some .tarballGzip
  else if mediaType = "application/vnd.rdk.package.content.layer.v1.tar+zstd" then some .tarballZstd
  else if mediaType = "application/vnd.rdk.package.content.layer.v1.zip" then some .zip
  else none

/-- The reader of a layer: its offset in the layer, the position of the file reader and the
number of its calls, the digest and the error. -/
structure OCIArchiveImageLayerReader where
  imageOffset : Nat
  position : Nat
  reads : Nat
  digestBuilder : CryptoDigestBuilder
  error : Option Error
  deriving DecidableEq, Repr

/-- A callback that the archive library makes. -/
inductive Callback
  | read
  | skip (amount : Int)
  deriving DecidableEq, Repr

/-- What the archive reader does in a call of its `next`: the callbacks that are made, the
entry and the error. -/
structure ArchiveNext (Entry : Type) where
  callbacks : List Callback
  entry : Option Entry
  error : Option Error

namespace OCIArchiveImageLayerReader

def hasError (reader : OCIArchiveImageLayerReader) : Bool := reader.error.isSome

def setError (reader : OCIArchiveImageLayerReader) (code : ErrorCode) (what : String) :
    OCIArchiveImageLayerReader :=
  { reader with error := some (.ralf code what) }

/-- Passes bytes of the layer to the digest. -/
def feed (reader : OCIArchiveImageLayerReader) (data : Bytes) : OCIArchiveImageLayerReader :=
  { reader with
    digestBuilder := reader.digestBuilder.update data
    imageOffset := reader.imageOffset + data.length }

section
variable (sha256 again : Bytes → Bytes) (descriptor : OCIDescriptor) (imageReader : IOCIFileReader)
  {Entry : Type}

/-- Reads from the file reader. -/
def readImage (reader : OCIArchiveImageLayerReader) (amount : Nat) :
    Option Bytes × OCIArchiveImageLayerReader :=
  match imageReader.outcome reader.reads amount with
  | .failure position => (none, { reader with position := position, reads := reader.reads + 1 })
  | .amount n =>
    let data := (imageReader.contents.drop reader.position).take (min n amount)
    (some data,
      { reader with position := reader.position + data.length, reads := reader.reads + 1 })

/-- Reads at least one byte and passes it to the digest, for both callbacks. -/
def readAndFeed (reader : OCIArchiveImageLayerReader) (amount : Nat) :
    Option Bytes × OCIArchiveImageLayerReader :=
  match readImage imageReader reader amount with
  | (none, reader) =>
    (none, reader.setError .packageContentsInvalid "Failed to read from OCI image layer")
  | (some data, reader) =>
    if data = [] then
      (none, reader.setError .packageContentsInvalid "Failed to read from OCI image layer")
    else (some data, reader.feed data)

/-- The read callback. No bytes are the end of the layer. -/
def readCallback (reader : OCIArchiveImageLayerReader) :
    Option Bytes × OCIArchiveImageLayerReader :=
  if reader.imageOffset ≥ descriptor.size then (some [], reader)
  else readAndFeed imageReader reader (min (descriptor.size - reader.imageOffset) 8192)

/-- The loop of the skip callback. Every turn skips at least one byte. -/
def skipLoop (skip : Nat) : Nat → Nat → OCIArchiveImageLayerReader →
    Option Nat × OCIArchiveImageLayerReader
  | 0, skipped, reader => (some skipped, reader)
  | fuel + 1, skipped, reader =>
    if skipped < skip then
      match readAndFeed imageReader reader (min 4096 (skip - skipped)) with
      | (none, reader) => (none, reader)
      | (some data, reader) => skipLoop skip fuel (skipped + data.length) reader
    else (some skipped, reader)

/-- The skip callback. -/
def skipCallback (reader : OCIArchiveImageLayerReader) (skip : Int) :
    Option Nat × OCIArchiveImageLayerReader :=
  if reader.imageOffset ≥ descriptor.size then (some 0, reader)
  else
    let skip := (min skip ((descriptor.size : Int) - reader.imageOffset)).toNat
    skipLoop imageReader skip skip 0 reader

def callback (reader : OCIArchiveImageLayerReader) : Callback → OCIArchiveImageLayerReader
  | .read => (readCallback descriptor imageReader reader).2
  | .skip amount => (skipCallback descriptor imageReader reader amount).2

/-- The constructor. The archive library makes callbacks when the archive is opened. -/
def new (opening : List Callback) (opened : Result Unit) : OCIArchiveImageLayerReader :=
  let reader : OCIArchiveImageLayerReader := ⟨0, 0, 0, .new, none⟩
  if descriptor.size > maxImageSize then
    let imageSize := descriptor.size
    reader.setError .packageContentsInvalid s!"OCI image layer is too large ({imageSize})"
  else
    match requiredFormats descriptor.mediaType with
    | none =>
      let mediaType := descriptor.mediaType
      reader.setError .packageContentsInvalid
        s!"Unsupported OCI image layer media type '{mediaType}'"
    | some _ =>
      let reader := opening.foldl (callback descriptor imageReader) reader
      match opened with
      | .ok _ => reader
      | .error error =>
        let what := error.what
        reader.setError .packageContentsInvalid s!"Failed to create archive stream reader - {what}"

def next (reader : OCIArchiveImageLayerReader) (archiveNext : ArchiveNext Entry) :
    Option Entry × OCIArchiveImageLayerReader :=
  if reader.hasError then (none, reader)
  else
    let reader := archiveNext.callbacks.foldl (callback descriptor imageReader) reader
    match archiveNext.error with
    | some error => (none, { reader with error := some error })
    | none =>
      match archiveNext.entry with
      | some entry => (some entry, reader)
      | none =>
        -- what is left of the layer, such as the trailer of a tar file
        let reader :=
          if reader.imageOffset < descriptor.size then
            (skipCallback descriptor imageReader reader
              ((descriptor.size : Int) - reader.imageOffset)).2
          else reader
        let (actualDigest, digestBuilder) := reader.digestBuilder.finalise sha256 again
        let reader := { reader with digestBuilder := digestBuilder }
        if actualDigest ≠ hexStringToBytes descriptor.digest then
          (none, reader.setError .invalidPackage "Digest mismatch for OCI image layer")
        else (none, reader)

/-- The states of a reader up to the first time that the end is reached without an error.
Callbacks are also made between two calls of `next`, when the data of an entry is read. -/
inductive Reached (Entry : Type) : OCIArchiveImageLayerReader → Prop
  | new (opening : List Callback) (opened : Result Unit) :
      Reached Entry (new descriptor imageReader opening opened)
  | callback {reader : OCIArchiveImageLayerReader} (made : Callback) (h : Reached Entry reader) :
      Reached Entry (callback descriptor imageReader reader made)
  | next {reader : OCIArchiveImageLayerReader} (archiveNext : ArchiveNext Entry)
      (h : Reached Entry reader)
      (hnotEnd : (reader.next sha256 again descriptor imageReader archiveNext).1 ≠ none ∨
        (reader.next sha256 again descriptor imageReader archiveNext).2.hasError = true) :
      Reached Entry (reader.next sha256 again descriptor imageReader archiveNext).2

end

/-! ## What the digest covers -/

section
variable {sha256 again : Bytes → Bytes} {descriptor : OCIDescriptor} {imageReader : IOCIFileReader}
  {reader : OCIArchiveImageLayerReader} {Entry : Type}

/-- Without an error the digest covers the layer up to the offset, and the file reader is there. -/
structure Synced (imageReader : IOCIFileReader) (imageSize : Nat)
    (reader : OCIArchiveImageLayerReader) :
    Prop where
  position : reader.position = reader.imageOffset
  within : reader.imageOffset ≤ imageSize
  inLayer : reader.imageOffset ≤ imageReader.contents.length
  digested : reader.digestBuilder.digested = imageReader.contents.take reader.imageOffset
  fresh : reader.digestBuilder.finalised = false

/-- What holds of every state that is reached. -/
def Inv (imageReader : IOCIFileReader) (imageSize : Nat)
    (reader : OCIArchiveImageLayerReader) : Prop :=
  reader.hasError = false → Synced imageReader imageSize reader

theorem inv_setError {imageSize : Nat} (code : ErrorCode) (what : String) :
    Inv imageReader imageSize (reader.setError code what) :=
  fun h => nomatch h

/-- An error stays when bytes are read. -/
theorem readAndFeed_hasError {amount : Nat} (h : reader.hasError = true) :
    (readAndFeed imageReader reader amount).2.hasError = true := by
  unfold readAndFeed readImage
  cases imageReader.outcome reader.reads amount with
  | failure position => rfl
  | amount n =>
    dsimp only
    split
    · rfl
    · exact h

/-- Reading fails with an error, or passes on the next bytes. -/
theorem readAndFeed_cases (reader : OCIArchiveImageLayerReader) (amount : Nat) :
    (∃ reader', readAndFeed imageReader reader amount = (none, reader') ∧ reader'.hasError = true) ∨
      ∃ data reader', readAndFeed imageReader reader amount = (some data, reader') ∧
        0 < data.length ∧ data.length ≤ amount ∧
          data = (imageReader.contents.drop reader.position).take data.length ∧
        reader'.imageOffset = reader.imageOffset + data.length ∧
        reader'.position = reader.position + data.length ∧
        reader'.digestBuilder = reader.digestBuilder.update data ∧
          reader'.error = reader.error := by
  unfold readAndFeed readImage
  cases imageReader.outcome reader.reads amount with
  | failure position => exact .inl ⟨_, rfl, rfl⟩
  | amount n =>
    dsimp only
    split
    · exact .inl ⟨_, rfl, rfl⟩
    · next hdata =>
      refine .inr ⟨_, _, rfl, List.length_pos_of_ne_nil hdata, ?_, ?_, rfl, rfl, rfl, rfl⟩
      · rw [List.length_take]
        exact Nat.le_trans (Nat.min_le_left _ _) (Nat.min_le_right _ _)
      · rw [List.length_take, List.take_eq_take_iff]
        omega

theorem Synced.feed {reader' : OCIArchiveImageLayerReader} {imageSize : Nat} {data : Bytes}
    (h : Synced imageReader imageSize reader)
    (hroom : reader.imageOffset + data.length ≤ imageSize)
    (hdata : data = (imageReader.contents.drop reader.position).take data.length)
    (hoffset : reader'.imageOffset = reader.imageOffset + data.length)
    (hposition : reader'.position = reader.position + data.length)
    (hbuilder : reader'.digestBuilder = reader.digestBuilder.update data) :
    Synced imageReader imageSize reader' where
  position := by rw [hposition, hoffset, h.position]
  within := hoffset ▸ hroom
  inLayer := by
    have hlength := congrArg List.length hdata
    rw [List.length_take, List.length_drop, h.position] at hlength
    have hin := h.inLayer
    omega
  digested := by
    rw [hbuilder, hoffset, List.take_add, ← h.digested, ← h.position, ← hdata]
    rfl
  fresh := by
    rw [hbuilder]
    exact h.fresh

theorem skipLoop_hasError {skip fuel skipped : Nat} (h : reader.hasError = true) :
    (skipLoop imageReader skip fuel skipped reader).2.hasError = true := by
  induction fuel generalizing skipped reader with
  | zero => exact h
  | succ fuel ih =>
    have hread := @readAndFeed_hasError imageReader reader (min 4096 (skip - skipped)) h
    unfold skipLoop
    split
    · generalize readAndFeed imageReader reader (min 4096 (skip - skipped)) = read at hread
      obtain ⟨data, reader'⟩ := read
      cases data with
      | none => exact hread
      | some data => exact ih hread
    · exact h

/-- A skip goes as far as it should, or there is an error. -/
theorem skipLoop_synced {imageSize skip fuel skipped : Nat}
    (h : Synced imageReader imageSize reader)
    (hroom : reader.imageOffset + (skip - skipped) ≤ imageSize) (hfuel : skip ≤ skipped + fuel)
    (hskipped : skipped ≤ skip) :
    (skipLoop imageReader skip fuel skipped reader).2.hasError = true ∨
      Synced imageReader imageSize (skipLoop imageReader skip fuel skipped reader).2 ∧
        (skipLoop imageReader skip fuel skipped reader).2.imageOffset =
          reader.imageOffset + (skip - skipped) := by
  induction fuel generalizing skipped reader with
  | zero =>
    obtain rfl := Nat.le_antisymm hskipped hfuel
    exact .inr ⟨h, by rw [Nat.sub_self]; rfl⟩
  | succ fuel ih =>
    unfold skipLoop
    split
    · next hlt =>
      rcases @readAndFeed_cases imageReader reader (min 4096 (skip - skipped)) with
        ⟨reader', hread, herror⟩ |
          ⟨data, reader', hread, hpos, hamount, hdata, hoffset, hposition, hbuilder, -⟩
      · rw [hread]
        exact .inl herror
      · rw [hread]
        have hroom' : reader'.imageOffset + (skip - (skipped + data.length)) ≤ imageSize := by omega
        have hsynced := h.feed (by omega) hdata hoffset hposition hbuilder
        refine (ih hsynced hroom' (by omega) (by omega)).imp_right fun ⟨hsynced',
          hend⟩ => ⟨hsynced', ?_⟩
        refine hend.trans ?_
        omega
    · next hge =>
      obtain rfl := Nat.le_antisymm hskipped (Nat.not_lt.mp hge)
      exact .inr ⟨h, by rw [Nat.sub_self]; rfl⟩

theorem skipCallback_hasError {skip : Int} (h : reader.hasError = true) :
    (skipCallback descriptor imageReader reader skip).2.hasError = true := by
  unfold skipCallback
  split
  · exact h
  · exact skipLoop_hasError h

theorem skipCallback_inv {skip : Int} (h : Inv imageReader descriptor.size reader) :
    Inv imageReader descriptor.size (skipCallback descriptor imageReader reader skip).2 := by
  cases herror : reader.hasError with
  | true =>
    intro hnone
    rw [skipCallback_hasError herror] at hnone
    cases hnone
  | false =>
    unfold skipCallback
    split
    · exact h
    · next hlt =>
      intro hnone
      refine ((skipLoop_synced (h herror) ?_ (Nat.zero_add _).ge (Nat.zero_le _)).resolve_left ?_).1
      · omega
      · rw [hnone]
        exact Bool.false_ne_true

theorem readCallback_inv (h : Inv imageReader descriptor.size reader) :
    Inv imageReader descriptor.size (readCallback descriptor imageReader reader).2 := by
  unfold readCallback
  split
  · exact h
  · next hlt =>
    rcases @readAndFeed_cases imageReader reader
      (min (descriptor.size - reader.imageOffset) 8192) with
      ⟨reader', hread, herror⟩ |
        ⟨data, reader', hread, -, hamount, hdata, hoffset, hposition, hbuilder, hsame⟩
    · rw [hread]
      intro hnone
      rw [herror] at hnone
      cases hnone
    · rw [hread]
      intro hnone
      have hnone' : reader.hasError = false := by
        unfold hasError at hnone ⊢
        rwa [← hsame]
      exact (h hnone').feed (by omega) hdata hoffset hposition hbuilder

theorem callback_inv (made : Callback) (h : Inv imageReader descriptor.size reader) :
    Inv imageReader descriptor.size (callback descriptor imageReader reader made) := by
  cases made with
  | read => exact readCallback_inv h
  | skip amount => exact skipCallback_inv h

theorem callbacks_inv (made : List Callback) (h : Inv imageReader descriptor.size reader) :
    Inv imageReader descriptor.size (made.foldl (callback descriptor imageReader) reader) := by
  induction made generalizing reader with
  | nil => exact h
  | cons first rest ih => exact ih (callback_inv first h)

theorem new_inv (opening : List Callback) (opened : Result Unit) :
    Inv imageReader descriptor.size (new descriptor imageReader opening opened) := by
  unfold new
  dsimp only
  split
  · exact inv_setError _ _
  cases requiredFormats descriptor.mediaType with
  | none => exact inv_setError _ _
  | some _ =>
    cases opened with
    | error error => exact inv_setError _ _
    | ok _ =>
      refine callbacks_inv opening fun _ => ⟨rfl, Nat.zero_le _, Nat.zero_le _, ?_, rfl⟩
      rw [List.take_zero]
      rfl

/-- The digest was fed the bytes of the layer that the descriptor is for, and they have its
digest. -/
structure Verified (sha256 : Bytes → Bytes) (descriptor : OCIDescriptor)
    (imageReader : IOCIFileReader)
    (reader : OCIArchiveImageLayerReader) : Prop where
  inLayer : descriptor.size ≤ imageReader.contents.length
  digested : reader.digestBuilder.digested = imageReader.contents.take descriptor.size
  digest : sha256 reader.digestBuilder.digested = hexStringToBytes descriptor.digest

/-- At the end of the archive the rest of the layer is read, and then the digest compared. -/
theorem drain_synced (h : Inv imageReader descriptor.size reader)
    {reader' : OCIArchiveImageLayerReader}
    (hdrain : reader' =
      if reader.imageOffset < descriptor.size then
        (skipCallback descriptor imageReader reader
          ((descriptor.size : Int) - reader.imageOffset)).2
      else reader) :
    reader'.hasError = true ∨
      Synced imageReader descriptor.size reader' ∧ reader'.imageOffset = descriptor.size := by
  subst hdrain
  cases herror : reader.hasError with
  | true =>
    left
    split
    · exact skipCallback_hasError herror
    · exact herror
  | false =>
    have hsynced := h herror
    split
    · next hlt =>
      unfold skipCallback
      rw [if_neg (Nat.not_le.mpr hlt), min_self]
      dsimp only
      refine (skipLoop_synced hsynced ?_ (Nat.zero_add _).ge (Nat.zero_le _)).imp_right
        fun ⟨hskipped, hoffset⟩ => ⟨hskipped, ?_⟩
      · omega
      · rw [hoffset]
        omega
    · next hge => exact .inr ⟨hsynced, Nat.le_antisymm hsynced.within (Nat.not_lt.mp hge)⟩

/-- A call of `next` ends with an error, gives an entry or is at the verified end. -/
theorem next_cases (h : Inv imageReader descriptor.size reader) (archiveNext : ArchiveNext Entry) :
    (reader.next sha256 again descriptor imageReader archiveNext).2.hasError = true ∨
      (reader.next sha256 again descriptor imageReader archiveNext).1 ≠ none ∧
        Inv imageReader descriptor.size
          (reader.next sha256 again descriptor imageReader archiveNext).2 ∨
      (reader.next sha256 again descriptor imageReader archiveNext).1 = none ∧
        Verified sha256 descriptor imageReader
          (reader.next sha256 again descriptor imageReader archiveNext).2 := by
  unfold next
  cases herror : reader.hasError with
  | true => exact .inl herror
  | false =>
    dsimp only
    rw [if_neg Bool.false_ne_true]
    have hinv := callbacks_inv archiveNext.callbacks h
    generalize archiveNext.callbacks.foldl (callback descriptor imageReader) reader =
      reader₁ at hinv ⊢
    cases archiveNext.error with
    | some error => exact .inl rfl
    | none =>
      cases archiveNext.entry with
      | some entry => exact .inr (.inl ⟨(fun hnone => nomatch hnone), hinv⟩)
      | none =>
        dsimp only
        generalize hdrain : (if reader₁.imageOffset < descriptor.size then _ else reader₁) = reader₂
        rcases drain_synced hinv hdrain.symm with hfailed | ⟨hsynced, hoffset⟩
        · left
          split
          · rfl
          · exact hfailed
        · unfold CryptoDigestBuilder.finalise
          rw [hsynced.fresh]
          dsimp only
          rw [if_neg Bool.false_ne_true]
          split
          · exact .inl rfl
          · next hdigest =>
            refine .inr (.inr ⟨rfl, hoffset ▸ hsynced.inLayer, ?_, not_not.mp hdigest⟩)
            exact hsynced.digested.trans (congrArg imageReader.contents.take hoffset)

theorem reached_inv (h : Reached sha256 again descriptor imageReader Entry reader) :
    Inv imageReader descriptor.size reader := by
  induction h with
  | new opening opened => exact new_inv opening opened
  | callback made _ ih => exact callback_inv made ih
  | @next reader archiveNext _ hnotEnd ih =>
    rcases @next_cases sha256 again _ _ _ Entry ih archiveNext with hfailed | ⟨-, hinv⟩ | ⟨hend, -⟩
    · intro hnone
      rw [hfailed] at hnone
      cases hnone
    · exact hinv
    · intro hnone
      rw [hnotEnd.resolve_left (not_not.mpr hend)] at hnone
      cases hnone

/-- The first time that `next` gives nothing and there is no error, the digest was fed exactly
the layer, and it is the digest of the descriptor. -/
theorem verified_of_next (h : Reached sha256 again descriptor imageReader Entry reader)
    (archiveNext : ArchiveNext Entry)
    (hend : (reader.next sha256 again descriptor imageReader archiveNext).1 = none)
    (hnone : (reader.next sha256 again descriptor imageReader archiveNext).2.hasError = false) :
    Verified sha256 descriptor imageReader
      (reader.next sha256 again descriptor imageReader archiveNext).2 := by
  rcases @next_cases sha256 again _ _ _ Entry (reached_inv h) archiveNext with hfailed | ⟨hentry,
    -⟩ | ⟨-, hverified⟩
  · rw [hfailed] at hnone
    cases hnone
  · exact absurd hend hentry
  · exact hverified

end

/-! ### A layer of three bytes -/

/-- The layer `abc`, from which at most two bytes are read at once. -/
def abcReader : IOCIFileReader := ⟨[97, 98, 99], fun _ _ => .amount 2⟩

/-- SHA-256 at `abc`. -/
def sha256Abc (data : Bytes) : Bytes :=
  if data = [97, 98, 99] then
    [0xba, 0x78, 0x16, 0xbf, 0x8f, 0x01, 0xcf, 0xea, 0x41, 0x41, 0x40, 0xde, 0x5d, 0xae, 0x22, 0x23,
      0xb0, 0x03, 0x61, 0xa3, 0x96, 0x17, 0x7a, 0x9c, 0xb4, 0x10, 0xff, 0x61, 0xf2,
        0x00, 0x15, 0xad]
  else []

def abcDescriptor : OCIDescriptor where
  mediaType := "application/vnd.rdk.package.content.layer.v1.tar"
  digest :=
    [98, 97, 55, 56, 49, 54, 98, 102, 56, 102, 48, 49, 99, 102, 101, 97, 52, 49, 52, 49,
      52, 48, 100, 101,
      53, 100, 97, 101, 50, 50, 50, 51, 98, 48, 48, 51, 54, 49, 97, 51, 57, 54, 49,
        55, 55, 97, 57, 99,
      98, 52, 49, 48, 102, 102, 54, 49, 102, 50, 48, 48, 49, 53, 97, 100]
  size := 3

/-- One byte is skipped for an entry, and the end is found by reading. -/
theorem verified_of_next_abc :
    Verified sha256Abc abcDescriptor abcReader
      (((new abcDescriptor abcReader [] (.ok ())).next sha256Abc
        (fun _ => []) abcDescriptor abcReader
          (⟨[.skip 1], some (), none⟩ : ArchiveNext Unit)).2.next sha256Abc
            (fun _ => []) abcDescriptor
        abcReader (⟨[.read, .read], none, none⟩ : ArchiveNext Unit)).2 :=
  verified_of_next (.next _ (.new [] (.ok ())) (.inl (by decide))) _ (by decide) (by decide)

end OCIArchiveImageLayerReader

end Oci
