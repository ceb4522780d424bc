import Ralf.Erofs.ExtentTiling
import Ralf.Erofs.InodeData
import Ralf.Lib.PartialSequence

/-!
# Reading compressed data in any order

A compressed inode stands for a sequence of bytes, some of which cannot be had: the file may not
give the block of an extent, and LZ4 may not decompress it. `content` is this sequence. A read
gives a range of it, whatever was read before (`read_gives`).

What was read before is in the block that was decompressed last, which is kept with its address
alone. It is the right one for an extent with this address when extents that share a block have
one size. Reads of the file may fail at any time (`Faithful`): a read of the data that succeeds gives
the same range, and a read that fails leaves the block right too.
-/

namespace Erofs

open Intervals PartialSequence

/-- A read that is to give some bytes, or to fail. -/
structure Gives (expected : Option Bytes) (success : Bool) (data : Bytes) : Prop where
  success_eq : success = expected.isSome
  data_eq : ∀ bytes, expected = some bytes → data = bytes

/-- A file that does not change, given by the bytes that can be read. A read succeeds when all its
bytes can be read. -/
structure Steady {σ : Type} (file : IErofsImageFile σ) (byte : Nat → Option UInt8) : Prop where
  beyond : ∀ offset, file.size ≤ offset → byte offset = none
  read : ∀ s buffer offset, buffer ≠ [] → Gives (readRange byte offset buffer.length)
    (file.read s buffer offset).1 (file.read s buffer offset).2.1

/-- A read that gives some bytes if it succeeds, and fails if there are none. With `exact` that is the
only reason for which it fails. -/
structure Yields (exact : Prop) (expected : Option Bytes) (success : Bool) (data : Bytes) : Prop where
  data_eq : success = true → expected = some data
  success_eq : exact → success = expected.isSome

/-- A file, given by the bytes that can be read, whose reads may fail. With `exact` it does not
change. -/
structure Faithful {σ : Type} (exact : Prop) (file : IErofsImageFile σ)
    (byte : Nat → Option UInt8) : Prop where
  beyond : ∀ offset, file.size ≤ offset → byte offset = none
  read : ∀ s buffer offset, buffer ≠ [] → Yields exact (readRange byte offset buffer.length)
    (file.read s buffer offset).1 (file.read s buffer offset).2.1

section
variable {exact : Prop} {expected first rest : Option Bytes} {success : Bool} {data tail : Bytes}

theorem Gives.yields (h : Gives expected success data) : Yields True expected success data := by
  refine ⟨fun hsuccess => ?_, fun _ => h.success_eq⟩
  rw [h.success_eq] at hsuccess
  obtain ⟨bytes, rfl⟩ := Option.isSome_iff_exists.mp hsuccess
  rw [h.data_eq bytes rfl]

theorem Yields.gives (h : Yields True expected success data) : Gives expected success data := by
  refine ⟨h.success_eq trivial, ?_⟩
  rintro bytes rfl
  exact (Option.some.inj (h.data_eq (h.success_eq trivial))).symm

theorem Steady.faithful {σ : Type} {file : IErofsImageFile σ} {byte : Nat → Option UInt8}
    (h : Steady file byte) : Faithful True file byte :=
  ⟨h.beyond, fun s buffer offset hbuffer => (h.read s buffer offset hbuffer).yields⟩

theorem Yields.of_some (data : Bytes) : Yields exact (some data) true data :=
  ⟨fun _ => rfl, fun _ => rfl⟩

theorem Yields.of_none (data : Bytes) : Yields exact none false data :=
  ⟨fun h => absurd h Bool.false_ne_true, fun _ => rfl⟩

/-- What is expected behind a failed read is not given either. -/
theorem Yields.failed {expected' : Option Bytes} (h : Yields exact expected false data)
    (hnone : expected = none → expected' = none) (data' : Bytes) :
    Yields exact expected' false data' := by
  refine ⟨fun hsuccess => absurd hsuccess Bool.false_ne_true, fun hexact => ?_⟩
  rw [hnone (Option.not_isSome_iff_eq_none.mp (Bool.eq_false_iff.mp (h.success_eq hexact).symm))]
  rfl

/-- A range that is made of what one extent gives and what the others give. -/
theorem Yields.append (hfirst : Yields exact first true data) (hrest : Yields exact rest success tail) :
    Yields exact (first.bind fun xs => rest.map (xs ++ ·)) success (data ++ tail) := by
  rw [hfirst.data_eq rfl, Option.bind_some]
  refine ⟨fun hsuccess => ?_, fun hexact => ?_⟩
  · rw [hrest.data_eq hsuccess]
    rfl
  · rw [Option.isSome_map]
    exact hrest.success_eq hexact

end

namespace ErofsInodeCompressedDataReader

/-! ## The data of an inode -/

section
variable (lz4 : Lz4) (byte : Nat → Option UInt8) (reader : ErofsInodeCompressedDataReader)

/-- What the block of an LZ4 extent decompresses to. -/
def unpacked (extent : Extent) : Option Bytes :=
  (readRange byte extent.comprBlockAddr reader.blockSize).bind fun block =>
    match reader.decompressLz4 lz4 block (List.replicate extent.uncomprSize 0) with
    | (true, data) => some data
    | (false, _) => none

/-- The bytes of an extent. -/
def extentByte (extent : Extent) (i : Nat) : Option UInt8 :=
  match extent.compression with
  | .none => byte (wrap64 (extent.comprBlockAddr + i))
  | .lz4 => (reader.unpacked lz4 byte extent).bind fun data => data[i]?
  | _ => none

/-- The bytes of an inode. -/
def content (offset : Nat) : Option UInt8 :=
  (reader.extents.entries.find? fun extent =>
    extent.uncomprOffset ≤ offset ∧ offset < extent.uncomprOffset + extent.uncomprSize).bind
    fun extent => reader.extentByte lz4 byte extent (offset - extent.uncomprOffset)

end

/-! ## The cache -/

/-- A reader of an inode in use: the block that was decompressed last was so for one of some
extents. -/
structure InUse (lz4 : Lz4) (byte : Nat → Option UInt8) (fresh : ErofsInodeCompressedDataReader)
    (partials : List Extent) (reader : ErofsInodeCompressedDataReader) : Prop where
  extents : reader.extents = fresh.extents
  dataSize : reader.dataSize = fresh.dataSize
  blockSize : reader.blockSize = fresh.blockSize
  padding : reader.haveLz4ZeroPadding = fresh.haveLz4ZeroPadding
  cache : reader.lastDecompressedBlockAddr = sizeMax ∨ ∃ extent ∈ partials,
    extent.compression = .lz4 ∧ extent.comprBlockAddr = reader.lastDecompressedBlockAddr ∧
      ∃ data, fresh.unpacked lz4 byte extent = some data ∧ data <+: reader.decompressedBlock

/-- A read that gives the expected bytes if it succeeds, after which the reader is in use. -/
def Delivers {σ : Type} (exact : Prop) (lz4 : Lz4) (byte : Nat → Option UInt8)
    (fresh : ErofsInodeCompressedDataReader) (partials : List Extent) (expected : Option Bytes)
    (result : Except Fault (Bool × Bytes × ErofsInodeCompressedDataReader × σ)) : Prop :=
  ∃ success data reader s, result = .ok (success, data, reader, s) ∧
    InUse lz4 byte fresh partials reader ∧ Yields exact expected success data

section
variable {σ : Type} {exact : Prop} {file : IErofsImageFile σ} {lz4 : Lz4}
  {byte : Nat → Option UInt8} {fresh reader : ErofsInodeCompressedDataReader}
  {partials : List Extent} {extent : Extent} {out : Bytes} {offset : Nat} {s : σ}

theorem resize_length (buffer : Bytes) (size : Nat) : (resize buffer size).length = size := by
  unfold resize
  rw [List.length_append, List.length_take, List.length_replicate]
  omega

theorem decompressLz4_congr (hpadding : reader.haveLz4ZeroPadding = fresh.haveLz4ZeroPadding)
    (block out : Bytes) :
    reader.decompressLz4 lz4 block out = fresh.decompressLz4 lz4 block out := by
  unfold decompressLz4
  rw [hpadding]

/-- What decompressing the block of an extent into a buffer of its size gives. -/
theorem decompress_gives {block buffer : Bytes}
    (hblock : readRange byte extent.comprBlockAddr fresh.blockSize = some block)
    (hpadding : reader.haveLz4ZeroPadding = fresh.haveLz4ZeroPadding)
    (hbuffer : buffer.length = extent.uncomprSize) :
    Gives (fresh.unpacked lz4 byte extent) (reader.decompressLz4 lz4 block buffer).1
      (reader.decompressLz4 lz4 block buffer).2 := by
  obtain ⟨hsame, hdata⟩ := @decompressLz4_determined lz4 fresh block buffer
    (List.replicate extent.uncomprSize 0) (by rw [List.length_replicate, hbuffer])
  rw [decompressLz4_congr hpadding]
  unfold unpacked
  rw [hblock, Option.bind_some]
  generalize fresh.decompressLz4 lz4 block (List.replicate extent.uncomprSize 0) = expected
    at hsame hdata ⊢
  obtain ⟨_ | _, data⟩ := expected
  · exact ⟨hsame, (fun _ h => (nomatch h))⟩
  · refine ⟨hsame, fun bytes h => ?_⟩
    cases h
    exact hdata hsame

theorem unpacked_length {data : Bytes} (h : fresh.unpacked lz4 byte extent = some data) :
    data.length = extent.uncomprSize := by
  obtain ⟨block, -, hdata⟩ := Option.bind_eq_some_iff.mp h
  have hlength := @decompressLz4_length lz4 fresh block (List.replicate extent.uncomprSize 0)
  rw [List.length_replicate] at hlength
  generalize fresh.decompressLz4 lz4 block (List.replicate extent.uncomprSize 0) = result
    at hdata hlength
  obtain ⟨_ | _, found⟩ := result
  · cases hdata
  · cases hdata
    exact hlength

theorem copyDecompressed_of_begins {data : Bytes} {size : Nat}
    (hbegins : data <+: reader.decompressedBlock) (hfits : offset + size ≤ data.length) :
    reader.copyDecompressed size offset = .ok ((data.drop offset).take size) := by
  unfold copyDecompressed
  obtain ⟨rest, hrest⟩ := hbegins
  rw [← hrest, if_neg (by rw [List.length_append]; omega), Bytes.slice_append_left hfits]
  rfl

/-- A range of an LZ4 extent. -/
theorem readRange_extentByte {data : Bytes} {size : Nat} (hlz4 : extent.compression = .lz4)
    (hdata : fresh.unpacked lz4 byte extent = some data) (hfits : offset + size ≤ data.length) :
    readRange (fresh.extentByte lz4 byte extent) offset size =
      some ((data.drop offset).take size) := by
  rw [← readRange_getElem hfits]
  refine readRange_congr fun i _ => ?_
  unfold extentByte
  rw [hlz4, hdata]
  rfl

/-- A range of an LZ4 extent that cannot be had. -/
theorem yields_of_unpacked_none {size : Nat} (hlz4 : extent.compression = .lz4)
    (hdata : fresh.unpacked lz4 byte extent = none) (hsize : 0 < size) (buffer : Bytes) :
    Yields exact (readRange (fresh.extentByte lz4 byte extent) offset size) false buffer := by
  have hgap : fresh.extentByte lz4 byte extent (offset + 0) = none := by
    unfold extentByte
    rw [hlz4, hdata]
    rfl
  rw [readRange_eq_none hsize hgap]
  exact .of_none _

/-- Copying a range of the extent out of the buffer that starts with it. -/
theorem copyDecompressed_yields {data : Bytes} {size : Nat} (hlz4 : extent.compression = .lz4)
    (hdata : fresh.unpacked lz4 byte extent = some data)
    (hbegins : data <+: reader.decompressedBlock) (hfits : offset + size ≤ extent.uncomprSize) :
    ∃ found, reader.copyDecompressed size offset = .ok found ∧
      Yields exact (readRange (fresh.extentByte lz4 byte extent) offset size) true found := by
  have hfits' : offset + size ≤ data.length := by
    rw [unpacked_length hdata]
    exact hfits
  refine ⟨_, copyDecompressed_of_begins hbegins hfits', ?_⟩
  rw [readRange_extentByte hlz4 hdata hfits']
  exact .of_some _

/-- Decompressing a whole extent into the buffer of the caller. -/
theorem decompress_yields_whole {block : Bytes} (hlz4 : extent.compression = .lz4)
    (hblock : readRange byte extent.comprBlockAddr fresh.blockSize = some block)
    (hpadding : reader.haveLz4ZeroPadding = fresh.haveLz4ZeroPadding) (hout : 0 < out.length)
    (hsize : extent.uncomprSize = out.length) :
    Yields exact (readRange (fresh.extentByte lz4 byte extent) 0 out.length)
      (reader.decompressLz4 lz4 block out).1 (reader.decompressLz4 lz4 block out).2 := by
  have hgives := @decompress_gives lz4 byte fresh reader extent block out hblock hpadding hsize.symm
  cases hdata : fresh.unpacked lz4 byte extent with
  | none =>
    rw [hdata] at hgives
    have hfailed : (reader.decompressLz4 lz4 block out).1 = false := hgives.success_eq
    rw [hfailed]
    exact yields_of_unpacked_none hlz4 hdata hout _
  | some data =>
    have hwhole : data.length = out.length := (unpacked_length hdata).trans hsize
    rw [hdata] at hgives
    rw [readRange_extentByte hlz4 hdata (by rw [Nat.zero_add, hwhole]), List.drop_zero,
      List.take_of_length_le (Nat.le_of_eq hwhole)]
    exact ⟨hgives.yields.data_eq, fun _ => hgives.success_eq⟩

/-- Decompressing into the buffer that is kept. -/
theorem decompressBlock_gives (h : InUse lz4 byte fresh partials reader)
    (hlz4 : extent.compression = .lz4) (hmax : extent.uncomprSize ≤ maxVectorSize)
    (hmember : extent ∈ partials)
    (hblock : readRange byte extent.comprBlockAddr fresh.blockSize = some reader.blockBuffer) :
    ∃ success reader', reader.decompressBlock lz4 extent = .ok (success, reader') ∧
      InUse lz4 byte fresh partials reader' ∧
      success = (fresh.unpacked lz4 byte extent).isSome ∧
      ∀ data, fresh.unpacked lz4 byte extent = some data → data <+: reader'.decompressedBlock := by
  unfold decompressBlock
  rw [if_neg (Nat.not_lt.mpr hmax)]
  dsimp only
  generalize hbuffer : (if reader.decompressedBlock.length < extent.uncomprSize then
    resize reader.decompressedBlock extent.uncomprSize else reader.decompressedBlock) = buffer
  have hlength : (buffer.take extent.uncomprSize).length = extent.uncomprSize := by
    have hle : extent.uncomprSize ≤ buffer.length := by
      rw [← hbuffer]
      split
      · rw [resize_length]
      · next hge => exact Nat.not_lt.mp hge
    rw [List.length_take, Nat.min_eq_left hle]
  obtain ⟨hsuccess, hdata⟩ := @decompress_gives lz4 byte fresh reader extent _ _ hblock h.padding
    hlength
  refine ⟨_, _, rfl, ⟨h.extents, h.dataSize, h.blockSize, h.padding, ?_⟩, hsuccess, ?_⟩
  · dsimp only
    cases hunpacked : fresh.unpacked lz4 byte extent with
    | none =>
      rw [hsuccess, hunpacked]
      exact .inl rfl
    | some data =>
      rw [hsuccess, hunpacked]
      refine .inr ⟨extent, hmember, hlz4, rfl, data, hunpacked, ?_⟩
      rw [hdata data hunpacked]
      exact List.prefix_append _ _
  · intro data hunpacked
    rw [hdata data hunpacked]
    exact List.prefix_append _ _

/-- Filling the block buffer from the file. -/
theorem readBlock_yields (hfile : Faithful exact file byte) (hblockSize : 0 < fresh.blockSize)
    (h : InUse lz4 byte fresh partials reader) (address : Nat) (s : σ) :
    ∃ success block s', file.read s (if reader.blockBuffer.length ≠ reader.blockSize then
        resize reader.blockBuffer reader.blockSize else reader.blockBuffer) address =
          (success, block, s') ∧
      Yields exact (readRange byte address fresh.blockSize) success block ∧
      InUse lz4 byte fresh partials { reader with blockBuffer := block } := by
  have hlength : (if reader.blockBuffer.length ≠ reader.blockSize then
      resize reader.blockBuffer reader.blockSize else reader.blockBuffer).length =
      fresh.blockSize := by
    rw [← h.blockSize]
    split
    · exact resize_length _ _
    · next heq => exact not_not.mp heq
  have hgives := hfile.read s _ address (List.length_pos_iff.mp (hlength ▸ hblockSize))
  rw [hlength] at hgives
  exact ⟨_, _, _, rfl, hgives, h.extents, h.dataSize, h.blockSize, h.padding, h.cache⟩

/-- A read of a part of an LZ4 extent, when an extent that shares its block and was decompressed
for a part has its size. -/
theorem readLz4Compressed_delivers (hfile : Faithful exact file byte)
    (hblockSize : 0 < fresh.blockSize)
    (h : InUse lz4 byte fresh partials reader) (hlz4 : extent.compression = .lz4)
    (haddr : extent.comprBlockAddr ≠ sizeMax)
    (hsame : ∀ other ∈ partials, other.compression = .lz4 →
      other.comprBlockAddr = extent.comprBlockAddr → other.uncomprSize = extent.uncomprSize)
    (hmember : out.length ≠ extent.uncomprSize → extent ∈ partials) (hout : 0 < out.length)
    (hfits : offset + out.length ≤ extent.uncomprSize) (hmax : extent.uncomprSize ≤ maxVectorSize) :
    Delivers exact lz4 byte fresh partials
      (readRange (fresh.extentByte lz4 byte extent) offset out.length)
      (reader.readLz4Compressed file lz4 extent out offset s) := by
  unfold readLz4Compressed
  by_cases hhit : reader.lastDecompressedBlockAddr = extent.comprBlockAddr
  · rw [if_pos hhit]
    rcases h.cache with hmax' | ⟨other, hother, hother4, hotherAddr, data, hdata, hbegins⟩
    · exact absurd (hhit.symm.trans hmax') haddr
    rw [hhit] at hotherAddr
    -- the block was decompressed to the same size
    have hunpacked : fresh.unpacked lz4 byte extent = some data := by
      rw [← hdata]
      unfold unpacked
      rw [hotherAddr, hsame other hother hother4 hotherAddr]
    obtain ⟨found, hcopy, hyields⟩ := copyDecompressed_yields hlz4 hunpacked hbegins hfits
    rw [hcopy]
    exact ⟨_, _, _, _, rfl, h, hyields⟩
  · rw [if_neg hhit]
    obtain ⟨success, block, s', hfilled, hyields, huse⟩ :=
      readBlock_yields hfile hblockSize h extent.comprBlockAddr s
    simp only [hfilled]
    cases success with
    | false =>
      refine ⟨false, out, _, s', rfl, huse, hyields.failed (fun hblock => ?_) _⟩
      have hnone : fresh.unpacked lz4 byte extent = none := by
        unfold unpacked
        rw [hblock]
        rfl
      have hfailed : Yields True (readRange (fresh.extentByte lz4 byte extent) offset out.length)
          false out := yields_of_unpacked_none hlz4 hnone hout _
      exact Option.not_isSome_iff_eq_none.mp (Bool.eq_false_iff.mp (hfailed.success_eq trivial).symm)
    | true =>
      have hblock := hyields.data_eq rfl
      rw [if_neg (not_not.mpr rfl)]
      by_cases hdirect : offset = 0 ∧ extent.uncomprSize = out.length
      · rw [if_pos hdirect]
        obtain ⟨rfl, hsize⟩ := hdirect
        exact ⟨_, _, _, _, rfl, huse,
          decompress_yields_whole hlz4 hblock h.padding hout hsize⟩
      · rw [if_neg hdirect]
        have hmem : extent ∈ partials := hmember fun hsize => hdirect (by omega)
        obtain ⟨success, reader', hdecompress, huse', hsuccess, hbegins⟩ :=
          decompressBlock_gives huse hlz4 hmax hmem hblock
        rw [hdecompress]
        cases hunpacked : fresh.unpacked lz4 byte extent with
        | none =>
          rw [hunpacked] at hsuccess
          obtain rfl : success = false := hsuccess
          exact ⟨_, _, _, _, rfl, huse', yields_of_unpacked_none hlz4 hunpacked hout _⟩
        | some data =>
          rw [hunpacked] at hsuccess
          obtain rfl : success = true := hsuccess
          obtain ⟨found, hcopy, hyields'⟩ :=
            copyDecompressed_yields hlz4 hunpacked (hbegins data hunpacked) hfits
          dsimp only
          rw [hcopy]
          exact ⟨_, _, _, _, rfl, huse', hyields'⟩

/-- A range of the file, at a position that may have wrapped. -/
theorem readRange_wrap64 (hfile : Faithful exact file byte) {position size : Nat} :
    readRange byte (wrap64 position) size =
      readRange (fun i => byte (wrap64 (position + i))) 0 size := by
  by_cases hfits : wrap64 position + size ≤ 2 ^ 64
  · refine readRange_congr fun i hi => ?_
    have hwrap : wrap64 (position + (0 + i)) = wrap64 position + i := by
      unfold wrap64 at hfits ⊢
      omega
    rw [hwrap]
  · -- the range goes over the last position, which no file has
    have hlast : byte sizeMax = none := by
      refine hfile.beyond _ ?_
      have hsize := file.size_lt
      unfold sizeMax
      omega
    have hlt := wrap64_lt position
    have hgap : wrap64 position + (sizeMax - wrap64 position) = sizeMax := by
      unfold sizeMax
      omega
    have hin : sizeMax - wrap64 position < size := by
      unfold sizeMax
      omega
    rw [readRange_eq_none hin (by rw [hgap, hlast])]
    refine (readRange_eq_none hin ?_).symm
    have hwrap : wrap64 (position + (0 + (sizeMax - wrap64 position))) = sizeMax := by
      unfold wrap64 sizeMax
      omega
    rw [hwrap, hlast]

/-- What a read of a part of an extent needs: nothing of the reader, but for the block that it
kept. -/
structure Readable (partials : List Extent) (extent : Extent) (offset size : Nat) : Prop where
  fits : offset + size ≤ extent.uncomprSize
  max : extent.uncomprSize ≤ maxVectorSize
  staged : extent.compression = .lz4 → size ≠ extent.uncomprSize → extent ∈ partials
  address : extent.compression = .lz4 → extent.comprBlockAddr ≠ sizeMax
  same : extent.compression = .lz4 → ∀ other ∈ partials, other.compression = .lz4 →
    other.comprBlockAddr = extent.comprBlockAddr → other.uncomprSize = extent.uncomprSize

theorem readExtent_delivers (hfile : Faithful exact file byte) (hblockSize : 0 < fresh.blockSize)
    (h : InUse lz4 byte fresh partials reader) (hout : 0 < out.length)
    (hreadable : Readable partials extent offset out.length) :
    Delivers exact lz4 byte fresh partials
      (readRange (fresh.extentByte lz4 byte extent) offset out.length)
      (reader.readExtent file lz4 extent out offset s) := by
  unfold readExtent
  have hother : extent.compression ≠ .none → extent.compression ≠ .lz4 →
      Delivers exact lz4 byte fresh partials
        (readRange (fresh.extentByte lz4 byte extent) offset out.length)
        (.ok (false, out, reader, s)) := by
    intro hnone hlz4
    refine ⟨_, _, _, _, rfl, h, ?_⟩
    have hgap : fresh.extentByte lz4 byte extent (offset + 0) = none := by
      unfold extentByte
      split
      · next heq => exact absurd heq hnone
      · next heq => exact absurd heq hlz4
      · rfl
    rw [readRange_eq_none hout hgap]
    exact .of_none _
  split
  · next hplain =>
    have hrange : readRange (fresh.extentByte lz4 byte extent) offset out.length =
        readRange byte (wrap64 (extent.comprBlockAddr + offset)) out.length := by
      rw [readRange_wrap64 hfile]
      refine readRange_congr fun i _ => ?_
      unfold extentByte
      rw [hplain, Nat.zero_add, Nat.add_assoc]
    rw [hrange]
    exact ⟨_, _, _, _, rfl, h, hfile.read s out _ (List.length_pos_iff.mp hout)⟩
  · next hlz4 =>
    exact readLz4Compressed_delivers hfile hblockSize h hlz4 (hreadable.address hlz4)
      (hreadable.same hlz4) (hreadable.staged hlz4) hout hreadable.fits hreadable.max
  · next hnone hlz4 => exact hother hnone hlz4

theorem readExtents_cons {rest : List Extent} {clusterOffset : Nat} (hout : out ≠ []) :
    readExtents file lz4 (extent :: rest) clusterOffset out reader s =
      match reader.readExtent file lz4 extent
        (out.take (min (wrapSub64 extent.uncomprSize clusterOffset) out.length))
          clusterOffset s with
      | .error fault => .error fault
      | .ok (false, data, reader, s) =>
        .ok (false,
          data ++ out.drop (min (wrapSub64 extent.uncomprSize clusterOffset) out.length), reader, s)
      | .ok (true, data, reader, s) =>
        match readExtents file lz4 rest 0
          (out.drop (min (wrapSub64 extent.uncomprSize clusterOffset) out.length)) reader s with
        | .error fault => .error fault
        | .ok (success, tail, reader, s) => .ok (success, data ++ tail, reader, s) := by
  cases out with
  | nil => exact absurd rfl hout
  | cons b out => rfl

theorem readExtents_nil (extents : List Extent) (clusterOffset : Nat) :
    readExtents file lz4 extents clusterOffset [] reader s = .ok (true, [], reader, s) := by
  cases extents with
  | nil => rfl
  | cons extent rest => rfl

/-- A read of nothing. -/
theorem readExtents_nil_delivers {f : Nat → Option UInt8} {position : Nat}
    (h : InUse lz4 byte fresh partials reader) (extents : List Extent) (clusterOffset : Nat) :
    Delivers exact lz4 byte fresh partials (readRange f position ([] : Bytes).length)
      (readExtents file lz4 extents clusterOffset [] reader s) := by
  rw [readExtents_nil]
  exact ⟨_, _, _, _, rfl, h, .of_some _⟩

/-- The part of an extent that a read of a range goes over can be read. -/
def PartReadable (partials : List Extent) (position stop : Nat) (extent : Extent) : Prop :=
  extent.uncomprOffset < stop → position < extent.uncomprOffset + extent.uncomprSize →
    Readable partials extent (max position extent.uncomprOffset - extent.uncomprOffset)
      (min stop (extent.uncomprOffset + extent.uncomprSize) - max position extent.uncomprOffset)

/-- The part of the extent that the range starts in. -/
theorem PartReadable.first {position size : Nat}
    (h : PartReadable partials position (position + size) extent) (hsize : 0 < size)
    (hbefore : extent.uncomprOffset ≤ position)
    (hinside : position < extent.uncomprOffset + extent.uncomprSize) :
    Readable partials extent (position - extent.uncomprOffset)
      (min (extent.uncomprSize - (position - extent.uncomprOffset)) size) := by
  convert h (by omega) hinside using 1
  · omega
  · omega

/-- An extent behind the first one, for the rest of the range. -/
theorem PartReadable.later {position position' stop : Nat}
    (h : PartReadable partials position stop extent) (hle : position ≤ position')
    (hbehind : position' ≤ extent.uncomprOffset) :
    PartReadable partials position' stop extent := by
  intro hlt hgt
  convert h hlt (by omega) using 1
  · omega
  · omega

/-- An extent gives its part of a sequence. -/
theorem readExtent_delivers_part {f : Nat → Option UInt8} {position : Nat}
    (hfile : Faithful exact file byte) (hblockSize : 0 < fresh.blockSize)
    (h : InUse lz4 byte fresh partials reader) (hout : 0 < out.length)
    (hstart : extent.uncomprOffset ≤ position)
    (hf : ∀ i < extent.uncomprSize,
      f (extent.uncomprOffset + i) = fresh.extentByte lz4 byte extent i)
    (hreadable : Readable partials extent (position - extent.uncomprOffset) out.length) :
    Delivers exact lz4 byte fresh partials (readRange f position out.length)
      (reader.readExtent file lz4 extent out (position - extent.uncomprOffset) s) := by
  have hrange : readRange f position out.length =
      readRange (fresh.extentByte lz4 byte extent) (position - extent.uncomprOffset)
        out.length := by
    refine readRange_congr fun i hi => ?_
    have hfits := hreadable.fits
    rw [← hf _ (by omega)]
    congr 1
    omega
  rw [hrange]
  exact readExtent_delivers hfile hblockSize h hout hreadable

/-- One turn of the loop of `read`: the amount that the extent has, and then the rest. -/
theorem readExtents_cons_delivers {rest : List Extent} {clusterOffset position amount : Nat}
    {f : Nat → Option UInt8} (hout : out ≠ [])
    (hamount : min (wrapSub64 extent.uncomprSize clusterOffset) out.length = amount)
    (hfirst : Delivers exact lz4 byte fresh partials (readRange f position amount)
      (reader.readExtent file lz4 extent (out.take amount) clusterOffset s))
    (hrest : ∀ reader' s', InUse lz4 byte fresh partials reader' →
      Delivers exact lz4 byte fresh partials (readRange f (position + amount) (out.drop amount).length)
        (readExtents file lz4 rest 0 (out.drop amount) reader' s')) :
    Delivers exact lz4 byte fresh partials (readRange f position out.length)
      (readExtents file lz4 (extent :: rest) clusterOffset out reader s) := by
  have hsplit := readRange_add f position amount (out.drop amount).length
  rw [List.length_drop, Nat.add_sub_cancel' (hamount ▸ Nat.min_le_right _ _)] at hsplit
  rw [readExtents_cons hout, hamount, hsplit, ← List.length_drop]
  obtain ⟨success, data, reader', s', hread, huse, hgives⟩ := hfirst
  rw [hread]
  cases success with
  | false =>
    refine ⟨_, _, _, _, rfl, huse, hgives.failed (fun hnone => ?_) _⟩
    rw [hnone]
    rfl
  | true =>
    obtain ⟨success, tail, reader'', s'', hread', huse', hgives'⟩ := hrest reader' s' huse
    dsimp only
    rw [hread']
    exact ⟨_, _, _, _, rfl, huse', hgives.append hgives'⟩

/-- The first part is not empty. -/
theorem inside_head {extents : List Extent} {start stop : Nat}
    (h : Tiles start stop (extents.map fun e => (e.uncomprOffset, e.uncomprSize))) :
    ∀ first ∈ extents.head?, start < first.uncomprOffset + first.uncomprSize := by
  intro first hfirst
  cases extents with
  | nil => cases hfirst
  | cons e rest =>
    cases hfirst
    obtain ⟨hoffset, hsize, -⟩ : first.uncomprOffset = start ∧ 0 < first.uncomprSize ∧ _ := h
    omega

/-- The loop of `read` gives a range of a sequence that the extents are parts of. -/
theorem readExtents_delivers {extents : List Extent} {start position stop : Nat}
    {f : Nat → Option UInt8} (hfile : Faithful exact file byte) (hblockSize : 0 < fresh.blockSize)
    (h : InUse lz4 byte fresh partials reader)
    (htiles : Tiles start stop (extents.map fun e => (e.uncomprOffset, e.uncomprSize)))
    (hstop : stop < 2 ^ 64) (hstart : start ≤ position)
    (hfirst : ∀ first ∈ extents.head?, out ≠ [] →
      position < first.uncomprOffset + first.uncomprSize)
    (hfits : position + out.length ≤ stop)
    (hf : ∀ e ∈ extents, ∀ i < e.uncomprSize,
      f (e.uncomprOffset + i) = fresh.extentByte lz4 byte e i)
    (hreadable : ∀ e ∈ extents, PartReadable partials position (position + out.length) e) :
    Delivers exact lz4 byte fresh partials (readRange f position out.length)
      (readExtents file lz4 extents (position - start) out reader s) := by
  induction extents generalizing start position out reader s with
  | nil =>
    cases out with
    | nil => exact readExtents_nil_delivers h _ _
    | cons b out =>
      have hempty : start = stop := htiles
      simp only [List.length_cons] at hfits
      omega
  | cons extent rest ih =>
    by_cases hout : out = []
    · subst hout
      exact readExtents_nil_delivers h _ _
    have hpos : 0 < out.length := List.length_pos_iff.mpr hout
    obtain ⟨hoffset, hsize, hrest⟩ : extent.uncomprOffset = start ∧ 0 < extent.uncomprSize ∧
      Tiles (start + extent.uncomprSize) stop
        (rest.map fun e : Extent => (e.uncomprOffset, e.uncomprSize)) := htiles
    subst hoffset
    have hle := hrest.le
    have hbefore := hfirst extent rfl hout
    have hpart := (hreadable extent List.mem_cons_self).first hpos hstart hbefore
    generalize hamount : min (extent.uncomprSize - (position - extent.uncomprOffset)) out.length =
      amount at hpart
    have hamountLe : amount ≤ out.length := hamount ▸ Nat.min_le_right _ _
    have htake : (out.take amount).length = amount := by
      rw [List.length_take, Nat.min_eq_left hamountLe]
    have hdrop : (out.drop amount).length = out.length - amount := List.length_drop
    have hwrap : wrapSub64 extent.uncomprSize (position - extent.uncomprOffset) =
        extent.uncomprSize - (position - extent.uncomprOffset) :=
      wrapSub64_of_le (by omega) (by omega)
    refine readExtents_cons_delivers hout (hwrap.symm ▸ hamount) ?_ ?_
    · have hone := @readExtent_delivers_part σ exact file lz4 byte fresh reader partials extent
        (out.take amount) s f position hfile hblockSize h (by omega) hstart
        (hf extent List.mem_cons_self) (htake.symm ▸ hpart)
      rwa [htake] at hone
    · intro reader' s' huse
      by_cases hend : out.drop amount = []
      · rw [hend]
        exact readExtents_nil_delivers huse _ _
      -- more is left, so the extent was read to its end
      have hlong : 0 < (out.drop amount).length := List.length_pos_iff.mpr hend
      have hposition : position + amount = extent.uncomprOffset + extent.uncomprSize := by
        omega
      rw [hposition]
      have hnext := @ih reader' (out.drop amount) s' (extent.uncomprOffset + extent.uncomprSize)
        (extent.uncomprOffset + extent.uncomprSize) huse hrest le_rfl
        (fun first hhead _ => inside_head hrest first hhead) (by omega)
        (fun e he => hf e (List.mem_cons_of_mem _ he)) ?_
      · rwa [Nat.sub_self] at hnext
      intro e he
      have hbehind : extent.uncomprOffset + extent.uncomprSize ≤ e.uncomprOffset :=
        (hrest.mem_le (List.mem_map.mpr ⟨e, he, rfl⟩)).1
      have hsame : extent.uncomprOffset + extent.uncomprSize + (out.drop amount).length =
          position + out.length := by
        omega
      rw [hsame]
      exact (hreadable e (List.mem_cons_of_mem _ he)).later (by omega) hbehind

/-- The data of an inode has the bytes of its extents. -/
theorem content_of_mem (htiles : Tiles 0 fresh.dataSize fresh.extents.spans)
    (hextent : extent ∈ fresh.extents.entries) {i : Nat} (hi : i < extent.uncomprSize) :
    fresh.content lz4 byte (extent.uncomprOffset + i) = fresh.extentByte lz4 byte extent i := by
  unfold content
  cases hfind : fresh.extents.entries.find? (fun other =>
      other.uncomprOffset ≤ extent.uncomprOffset + i ∧
        extent.uncomprOffset + i < other.uncomprOffset + other.uncomprSize) with
  | none =>
    have hnone := List.find?_eq_none.mp hfind extent hextent
    exact absurd (by simpa using hi) hnone
  | some other =>
    have hholds := List.find?_some hfind
    obtain ⟨hstart, hend⟩ := of_decide_eq_true hholds
    have hmem := List.mem_of_find?_eq_some hfind
    obtain ⟨before, after, hentries⟩ := List.append_of_mem hextent
    unfold ErofsExtentMap.spans at htiles
    rw [hentries, List.map_append, List.map_cons] at htiles
    obtain ⟨hbefore, hafter⟩ := htiles.apart
    rw [hentries] at hmem
    -- no other extent has an offset of this one
    have hsame : other = extent := by
      rcases List.mem_append.mp hmem with hother | hother
      · have hle := hbefore _ (List.mem_map.mpr ⟨other, hother, rfl⟩)
        dsimp only at hle
        omega
      · rcases List.mem_cons.mp hother with heq | hother
        · exact heq
        · have hle := (hafter.mem_le (List.mem_map.mpr ⟨other, hother, rfl⟩)).1
          dsimp only at hle
          omega
    rw [hsame, Option.bind_some, Nat.add_sub_cancel_left]

/-- A read gives a range of the data, whatever was read before. -/
theorem read_delivers (hfile : Faithful exact file byte) (hblockSize : 0 < fresh.blockSize)
    (hdataSize : fresh.dataSize < 2 ^ 64) (hpartitions : fresh.extents.Partitions fresh.dataSize)
    (h : InUse lz4 byte fresh partials reader) (hoffset : offset < fresh.dataSize)
    (hfits : offset + out.length ≤ fresh.dataSize)
    (hreadable : ∀ e ∈ fresh.extents.entries,
    PartReadable partials offset (offset + out.length) e) :
    Delivers exact lz4 byte fresh partials (readRange (fresh.content lz4 byte) offset out.length)
      (reader.read file lz4 out offset s) := by
  unfold read
  rw [h.dataSize, if_neg (by omega), h.extents]
  obtain ⟨i, extent, hfind, hget, hstart, hend⟩ := hpartitions.find offset hoffset
  rw [hfind]
  dsimp only
  rw [hget]
  dsimp only
  have htiles := hpartitions.tiles
  have hmem : extent ∈ fresh.extents.entries := List.mem_of_getElem? hget
  have hdrop : fresh.extents.entries.drop i = extent :: fresh.extents.entries.drop (i + 1) := by
    obtain ⟨hlt, rfl⟩ := List.getElem?_eq_some_iff.mp hget
    exact List.drop_eq_getElem_cons hlt
  have hle : extent.uncomprOffset + extent.uncomprSize ≤ fresh.dataSize :=
    (htiles.mem_le (List.mem_map.mpr ⟨extent, hmem, rfl⟩)).2.2
  have hsuffix : Tiles extent.uncomprOffset fresh.dataSize ((fresh.extents.entries.drop i).map
      fun e => (e.uncomprOffset, e.uncomprSize)) := by
    have hsplit := htiles
    unfold ErofsExtentMap.spans at hsplit
    rw [← List.take_append_drop i fresh.extents.entries, List.map_append, hdrop,
      List.map_cons] at hsplit
    rw [hdrop, List.map_cons]
    exact ⟨rfl, by omega, hsplit.apart.2⟩
  rw [wrapSub64_of_le hstart (by omega)]
  refine readExtents_delivers hfile hblockSize h hsuffix hdataSize hstart ?_ hfits ?_ ?_
  · intro first hfirst _
    rw [hdrop] at hfirst
    cases hfirst
    exact hend
  · exact fun e he i hi => content_of_mem htiles (List.mem_of_mem_drop he) hi
  · exact fun e he => hreadable e (List.mem_of_mem_drop he)

end

/-! ## Sequences of reads -/

end ErofsInodeCompressedDataReader

/-- A read into a buffer. -/
structure ReadAt where
  out : Bytes
  offset : Nat
  deriving DecidableEq, Repr

/-- A read with what it gave. -/
structure ReadResult where
  call : ReadAt
  success : Bool
  data : Bytes
  deriving DecidableEq, Repr

namespace ErofsExtentMap

/-- The extents that a read goes over. -/
def touched (map : ErofsExtentMap) (call : ReadAt) : List Extent :=
  map.entries.filter fun extent => extent.uncomprOffset < call.offset + call.out.length ∧
    call.offset < extent.uncomprOffset + extent.uncomprSize

/-- The extents of which a read takes a part only. -/
def takenInPart (map : ErofsExtentMap) (call : ReadAt) : List Extent :=
  (map.touched call).filter fun extent => ¬(call.offset ≤ extent.uncomprOffset ∧
    extent.uncomprOffset + extent.uncomprSize ≤ call.offset + call.out.length)

/-- Extents that share a block have one size, if one is taken in part, and no block is at the
address that stands for none. -/
structure OneSize (map : ErofsExtentMap) (calls : List ReadAt) : Prop where
  address : ∀ call ∈ calls, ∀ extent ∈ map.touched call, extent.compression = .lz4 →
    extent.comprBlockAddr ≠ sizeMax
  same : ∀ call ∈ calls, ∀ extent ∈ map.takenInPart call, extent.compression = .lz4 →
    ∀ call' ∈ calls, ∀ extent' ∈ map.touched call', extent'.compression = .lz4 →
      extent.comprBlockAddr = extent'.comprBlockAddr → extent.uncomprSize = extent'.uncomprSize

end ErofsExtentMap

namespace ErofsInodeCompressedDataReader

/-- A reader for an extent map, which has not read anything. -/
def fresh (extents : ErofsExtentMap) (dataSize blockSize : Nat) (haveLz4ZeroPadding : Bool) :
    ErofsInodeCompressedDataReader :=
  { extents := extents
    dataSize := dataSize
    blockSize := blockSize
    haveLz4ZeroPadding := haveLz4ZeroPadding }

/-- One read after the other. -/
def readAll {σ : Type} (file : IErofsImageFile σ) (lz4 : Lz4) :
    List ReadAt → ErofsInodeCompressedDataReader → σ → Except Fault (List ReadResult)
  | [], _, _ => .ok []
  | call :: rest, reader, s =>
    match reader.read file lz4 call.out call.offset s with
    | .error fault => .error fault
    | .ok (success, data, reader, s) =>
      match readAll file lz4 rest reader s with
      | .error fault => .error fault
      | .ok results => .ok (⟨call, success, data⟩ :: results)

/-- What reads are to give: no access is outside a buffer or the extents, each read gives what it
gives as the first read, and a read gives what two reads of its parts give. -/
def Determined {σ : Type} (file : IErofsImageFile σ) (lz4 : Lz4)
    (reader : ErofsInodeCompressedDataReader) (s : σ) (calls : List ReadAt) : Prop :=
  ∃ results, readAll file lz4 calls reader s = .ok results ∧
    (∀ result ∈ results, ∀ s, ∃ data reader' s',
      reader.read file lz4 result.call.out result.call.offset s =
        .ok (result.success, data, reader', s') ∧ (result.success = true → result.data = data)) ∧
    ∀ whole ∈ results, ∀ first ∈ results, ∀ second ∈ results,
      first.call.offset = whole.call.offset →
      second.call.offset = whole.call.offset + first.call.out.length →
      whole.call.out.length = first.call.out.length + second.call.out.length →
      whole.success = (first.success && second.success) ∧
        (whole.success = true → whole.data = first.data ++ second.data)

section
variable {σ : Type} {exact : Prop} {file : IErofsImageFile σ} {lz4 : Lz4}
  {byte : Nat → Option UInt8} {initial reader : ErofsInodeCompressedDataReader} {calls : List ReadAt} {s : σ}

/-- What a sequence of reads of an inode needs. -/
structure Orderly (initial : ErofsInodeCompressedDataReader) (calls : List ReadAt) : Prop where
  blockSize : 0 < initial.blockSize
  dataSize : initial.dataSize ≤ maxVectorSize
  partitions : initial.extents.Partitions initial.dataSize
  inBounds : ∀ call ∈ calls, call.offset < initial.dataSize ∧
    call.offset + call.out.length ≤ initial.dataSize
  oneSize : initial.extents.OneSize calls

theorem Orderly.partReadable {call : ReadAt} {extent : Extent} (h : Orderly initial calls)
    (hcall : call ∈ calls) (hextent : extent ∈ initial.extents.entries) :
    PartReadable (calls.flatMap initial.extents.takenInPart) call.offset
      (call.offset + call.out.length) extent := by
  intro hlt hgt
  have htouched : extent ∈ initial.extents.touched call :=
    List.mem_filter.mpr ⟨hextent, decide_eq_true ⟨hlt, hgt⟩⟩
  have hsize := (h.partitions.tiles.mem_le (List.mem_map.mpr ⟨extent, hextent, rfl⟩)).2.2
  have hmax := h.dataSize
  dsimp only at hsize
  constructor
  · omega
  · omega
  · intro hlz4 hpart
    refine List.mem_flatMap.mpr ⟨call, hcall, List.mem_filter.mpr ⟨htouched, decide_eq_true ?_⟩⟩
    omega
  · exact fun hlz4 => h.oneSize.address call hcall extent htouched hlz4
  · intro hlz4 other hother hother4 haddr
    obtain ⟨call', hcall', hpart⟩ := List.mem_flatMap.mp hother
    exact h.oneSize.same call' hcall' other hpart hother4 call hcall extent htouched hlz4 haddr

theorem Orderly.read {call : ReadAt} (hfile : Faithful exact file byte) (h : Orderly initial calls)
    (hcall : call ∈ calls)
    (huse : InUse lz4 byte initial (calls.flatMap initial.extents.takenInPart) reader) :
    Delivers exact lz4 byte initial (calls.flatMap initial.extents.takenInPart)
      (readRange (initial.content lz4 byte) call.offset call.out.length)
      (reader.read file lz4 call.out call.offset s) := by
  have hmax := h.dataSize
  unfold maxVectorSize at hmax
  exact read_delivers hfile h.blockSize (by omega) h.partitions huse (h.inBounds call hcall).1
    (h.inBounds call hcall).2 fun e he => h.partReadable hcall he

/-- Each of the reads gives its range of the data. -/
theorem Orderly.readAll (hfile : Steady file byte) (h : Orderly initial calls)
    {rest : List ReadAt} (hrest : rest ⊆ calls)
    (huse : InUse lz4 byte initial (calls.flatMap initial.extents.takenInPart) reader) :
    ∃ results, ErofsInodeCompressedDataReader.readAll file lz4 rest reader s = .ok results ∧
      ∀ result ∈ results, result.call ∈ calls ∧
        Gives (readRange (initial.content lz4 byte) result.call.offset result.call.out.length)
          result.success result.data := by
  induction rest generalizing reader s with
  | nil => exact ⟨[], rfl, fun _ hmem => absurd hmem List.not_mem_nil⟩
  | cons call rest ih =>
    have hcall := hrest List.mem_cons_self
    obtain ⟨success, data, reader', s', hread, huse', hyields⟩ := @Orderly.read σ True file lz4 byte
      initial reader calls s call hfile.faithful h hcall huse
    obtain ⟨results, hresults, hall⟩ := @ih reader' s' (fun _ hmem =>
      hrest (List.mem_cons_of_mem _ hmem)) huse'
    refine ⟨⟨call, success, data⟩ :: results, ?_, List.forall_mem_cons.mpr ⟨⟨hcall, hyields.gives⟩, hall⟩⟩
    unfold ErofsInodeCompressedDataReader.readAll
    rw [hread]
    dsimp only
    rw [hresults]

theorem Orderly.determined (hfile : Steady file byte) (h : Orderly initial calls)
    (hfresh : initial.lastDecompressedBlockAddr = sizeMax) :
    Determined file lz4 initial s calls := by
  have huse : InUse lz4 byte initial (calls.flatMap initial.extents.takenInPart) initial :=
    ⟨rfl, rfl, rfl, rfl, .inl hfresh⟩
  obtain ⟨results, hresults, hall⟩ := @Orderly.readAll σ file lz4 byte initial initial calls s
    hfile h calls (List.Subset.refl _) huse
  refine ⟨results, hresults, ?_, ?_⟩
  · intro result hresult s'
    obtain ⟨hcall, hgives⟩ := hall result hresult
    obtain ⟨success, data, reader', s'', hread, -, hyields'⟩ := @Orderly.read σ True file lz4 byte
      initial initial calls s' result.call hfile.faithful h hcall huse
    have hgives' := hyields'.gives
    refine ⟨data, reader', s'', ?_, fun hsuccess => ?_⟩
    · rw [hgives.success_eq, ← hgives'.success_eq]
      exact hread
    · rw [hgives.success_eq] at hsuccess
      obtain ⟨bytes, hbytes⟩ := Option.isSome_iff_exists.mp hsuccess
      rw [hgives.data_eq bytes hbytes, hgives'.data_eq bytes hbytes]
  · intro whole hwhole first hfirst second hsecond hstart hnext hlength
    have hwhole' := (hall whole hwhole).2
    have hfirst' := (hall first hfirst).2
    have hsecond' := (hall second hsecond).2
    rw [hlength, readRange_add, ← hnext] at hwhole'
    rw [hstart] at hfirst'
    cases hsuccess : first.success with
    | true =>
      rw [hsuccess] at hfirst'
      have hboth := (hfirst'.yields.append hsecond'.yields).gives
      refine ⟨?_, fun hdone => ?_⟩
      · rw [hwhole'.success_eq, ← hboth.success_eq, Bool.true_and]
      · rw [hwhole'.success_eq] at hdone
        obtain ⟨bytes, hbytes⟩ := Option.isSome_iff_exists.mp hdone
        rw [hwhole'.data_eq bytes hbytes, hboth.data_eq bytes hbytes]
    | false =>
      have hnone : readRange (initial.content lz4 byte) whole.call.offset first.call.out.length =
          none := by
        have hsome := hfirst'.success_eq
        rw [hsuccess] at hsome
        exact Option.not_isSome_iff_eq_none.mp (Bool.eq_false_iff.mp hsome.symm)
      rw [hnone] at hwhole'
      have hfailed : whole.success = false := hwhole'.success_eq
      rw [hfailed]
      exact ⟨rfl, fun hdone => absurd hdone Bool.false_ne_true⟩

/-- A map without extents gives nothing. -/
theorem read_of_empty (hempty : reader.extents.entries = []) (out : Bytes) (offset : Nat) :
    reader.read file lz4 out offset s = .ok (false, out, reader, s) := by
  have hfind : ∃ i, reader.extents.find offset = .ok i := by
    unfold ErofsExtentMap.find
    rw [hempty]
    exact ⟨_, rfl⟩
  obtain ⟨i, hfind⟩ := hfind
  unfold ErofsInodeCompressedDataReader.read
  rw [hfind, hempty]
  split
  · rfl
  · rfl

theorem determined_of_empty (hempty : initial.extents.entries = []) :
    Determined file lz4 initial s calls := by
  have hall : ∃ results, ErofsInodeCompressedDataReader.readAll file lz4 calls initial s =
      .ok results ∧ ∀ result ∈ results, result.success = false := by
    induction calls generalizing s with
    | nil => exact ⟨[], rfl, fun _ hmem => absurd hmem List.not_mem_nil⟩
    | cons call rest ih =>
      obtain ⟨results, hresults, hfailed⟩ := @ih s
      refine ⟨⟨call, false, call.out⟩ :: results, ?_, List.forall_mem_cons.mpr ⟨rfl, hfailed⟩⟩
      unfold ErofsInodeCompressedDataReader.readAll
      rw [read_of_empty hempty]
      dsimp only
      rw [hresults]
  obtain ⟨results, hresults, hfailed⟩ := hall
  refine ⟨results, hresults, fun result hresult s => ?_, ?_⟩
  · rw [read_of_empty hempty, hfailed result hresult]
    exact ⟨_, _, _, rfl, fun h => absurd h Bool.false_ne_true⟩
  · intro whole hwhole first hfirst second hsecond _ _ _
    rw [hfailed whole hwhole, hfailed first hfirst]
    exact ⟨rfl, fun h => absurd h Bool.false_ne_true⟩

end

/-- A map is only made for a block size that is not 0 and for data that is not too large. -/
theorem blockSize_of_fromIndexes {σ : Type} {file : IErofsImageFile σ}
    {extentsOffset compressedBlocks blockSize uncompressedSize : Nat} {map : ErofsExtentMap}
    {s s' : σ}
    (h : ErofsExtentMap.fromLegacyIndexes file extentsOffset compressedBlocks blockSize
        uncompressedSize s = .ok (some map, s') ∨
      ErofsExtentMap.fromCompactIndexes file extentsOffset compressedBlocks blockSize
        uncompressedSize s = .ok (some map, s')) :
    0 < blockSize ∧ uncompressedSize ≤ kMaxUncompressedSize := by
  rcases h with h | h
  · unfold ErofsExtentMap.fromLegacyIndexes at h
    rcases hread : ErofsExtentMap.readLegacyIndexes file extentsOffset compressedBlocks blockSize
      uncompressedSize s with fault | ⟨_ | table, s₁⟩
    · rw [hread] at h
      cases h
    · rw [hread] at h
      cases h
    · refine ⟨Nat.pos_of_ne_zero ?_, (ErofsExtentMap.readLegacyIndexes_ok file hread).size_le⟩
      rintro rfl
      cases hread
  · unfold ErofsExtentMap.fromCompactIndexes at h
    rcases hread : ErofsExtentMap.readCompactIndexes file extentsOffset compressedBlocks blockSize
      uncompressedSize s with fault | ⟨_ | table, s₁⟩
    · rw [hread] at h
      cases h
    · rw [hread] at h
      cases h
    · refine ⟨Nat.pos_of_ne_zero ?_, (ErofsExtentMap.readCompactIndexes_ok file hread).size_le⟩
      rintro rfl
      cases hread

/-- For every map that is made, every image and every sequence of reads in bounds: the reads are
determined by the data when the extents partition it and those that share a block have one size.
A map without extents gives nothing. -/
theorem reads_determined {σ : Type} (file : IErofsImageFile σ) (byte : Nat → Option UInt8)
    (hfile : Steady file byte) (lz4 : Lz4) (haveLz4ZeroPadding : Bool)
    (extentsOffset compressedBlocks blockSize uncompressedSize : Nat) (map : ErofsExtentMap)
    (s s' s₀ : σ)
    (hmap : ErofsExtentMap.fromLegacyIndexes file extentsOffset compressedBlocks blockSize
        uncompressedSize s = .ok (some map, s') ∨
      ErofsExtentMap.fromCompactIndexes file extentsOffset compressedBlocks blockSize
        uncompressedSize s = .ok (some map, s'))
    (calls : List ReadAt)
    (hcalls : ∀ call ∈ calls, call.offset < uncompressedSize ∧
      call.offset + call.out.length ≤ uncompressedSize)
    (hextents : map.entries = [] ∨ map.Partitions uncompressedSize ∧ map.OneSize calls) :
    Determined file lz4 (fresh map uncompressedSize blockSize haveLz4ZeroPadding) s₀ calls := by
  obtain ⟨hblockSize, hsize⟩ := blockSize_of_fromIndexes hmap
  rcases hextents with hempty | ⟨hpartitions, honeSize⟩
  · exact determined_of_empty hempty
  · have hmax : uncompressedSize ≤ maxVectorSize := by
      unfold kMaxUncompressedSize at hsize
      unfold maxVectorSize
      omega
    exact Orderly.determined hfile ⟨hblockSize, hmax, hpartitions, hcalls, honeSize⟩ rfl

/-- A file that is given by its bytes does not change. -/
theorem imageOf_steady {size : Nat} (hsize : size < 2 ^ 64) (byte : Nat → UInt8) :
    Steady (imageOf size hsize byte) fun offset =>
      if offset < size then some (byte offset) else none := by
  constructor
  · exact fun offset hoffset => if_neg (Nat.not_lt.mpr hoffset)
  · intro s buffer offset hbuffer
    have hlength : 0 < buffer.length := List.length_pos_iff.mpr hbuffer
    unfold imageOf
    dsimp only
    by_cases hout : offset ≥ size ∨ buffer.length > size - offset
    · rw [if_pos hout]
      have hnone : readRange (fun offset => if offset < size then some (byte offset) else none)
          offset buffer.length = none := by
        have hgap : size - offset < buffer.length := by omega
        exact readRange_eq_none hgap (if_neg (by omega))
      rw [hnone]
      exact ⟨rfl, (fun _ h => (nomatch h))⟩
    · rw [if_neg hout, @readRange_map _ _ byte _ _ fun i hi => if_pos (by omega)]
      exact ⟨rfl, fun bytes hbytes => Option.some.inj hbytes⟩

/-- LZ4 that gives the same byte for every block. -/
def constantLz4 : Lz4 where
  decompress _ _ dst := (true, List.replicate dst.length 7)
  decompress_length _ _ dst := List.length_replicate
  decompress_determined _ _ dst dst' h := ⟨rfl, fun _ => by rw [h]⟩

theorem sharedBlockImage_size_lt : 8192 < 2 ^ 64 := by decide

/-- An image of two blocks. Its index table has two heads, of LZ4 extents, for its second block. -/
def sharedBlockImage : IErofsImageFile Unit :=
  imageOf 8192 sharedBlockImage_size_lt fun offset => if offset ∈ [16, 20, 24, 28] then 1 else 0

/-- The theorem on extents that share a block and have one size. -/
theorem reads_determined_sharedBlock :
    Determined sharedBlockImage constantLz4
      (fresh ⟨4096, 8192, (.lz4, .lz4), [⟨.lz4, 0, 4096, 4096⟩, ⟨.lz4, 4096, 4096, 4096⟩], 1⟩
        8192 4096 false) () [⟨[0, 0], 4095⟩, ⟨[0], 4095⟩, ⟨[0], 4096⟩] := by
  refine reads_determined sharedBlockImage _ (imageOf_steady _ _) constantLz4 false 0 2 4096 8192 _
    () () () (.inl (by decide +kernel)) _ (by decide) (.inr ⟨?_, ⟨by decide, by decide⟩⟩)
  refine ErofsExtentMap.partitions_of_tiles (by decide) ?_
  exact ⟨rfl, by decide, rfl, by decide, rfl⟩

/-- Two extents share a block, the first of 4096 bytes and the second of 2. After a read of one
byte of the second, a read of the first copies from behind the two bytes that were decompressed. -/
theorem not_reads_determined :
    ¬ ∀ {σ : Type} (file : IErofsImageFile σ) (byte : Nat → Option UInt8), Steady file byte →
      ∀ (lz4 : Lz4) (haveLz4ZeroPadding : Bool)
        (extentsOffset compressedBlocks blockSize uncompressedSize : Nat) (map : ErofsExtentMap)
        (s s' s₀ : σ),
        (ErofsExtentMap.fromLegacyIndexes file extentsOffset compressedBlocks blockSize
            uncompressedSize s = .ok (some map, s') ∨
          ErofsExtentMap.fromCompactIndexes file extentsOffset compressedBlocks blockSize
            uncompressedSize s = .ok (some map, s')) →
        ∀ calls : List ReadAt, (∀ call ∈ calls, call.offset < uncompressedSize ∧
          call.offset + call.out.length ≤ uncompressedSize) →
          Determined file lz4 (fresh map uncompressedSize blockSize haveLz4ZeroPadding) s₀
            calls := by
  intro h
  obtain ⟨results, hresults, -⟩ := h sharedBlockImage _ (imageOf_steady _ _) constantLz4 false 0 2
    4096 4098 ⟨4096, 4098, (.lz4, .lz4), [⟨.lz4, 0, 4096, 4096⟩, ⟨.lz4, 4096, 2, 4096⟩], 1⟩
    () () () (.inl (by decide +kernel)) [⟨[0], 4096⟩, ⟨[0], 100⟩] (by decide)
  have hfault : readAll sharedBlockImage constantLz4 [⟨[0], 4096⟩, ⟨[0], 100⟩]
      (fresh ⟨4096, 4098, (.lz4, .lz4), [⟨.lz4, 0, 4096, 4096⟩, ⟨.lz4, 4096, 2, 4096⟩], 1⟩
        4098 4096 false) () = .error .overread := by decide +kernel
  rw [hfault] at hresults
  cases hresults

end ErofsInodeCompressedDataReader

end Erofs
