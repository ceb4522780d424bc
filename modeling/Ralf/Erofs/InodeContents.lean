import Ralf.Erofs.CompressedReads
import Ralf.Erofs.ReadFailures

/-!
# The contents of an inode

What the data of an inode is, apart from the readers: the bytes of an image at the addresses of flat
data, or what the extents of compressed data stand for. `Used.read` says that a read of the data
gives a range of it if it succeeds, although the inode keeps its data reader, with the block that was
decompressed last, from one read to the next, and although any read of the file may fail.
-/

namespace Erofs

open PartialSequence
open ErofsInodeCompressedDataReader (InUse imageOf_steady readRange_wrap64 read_of_empty
  blockSize_of_fromIndexes)

/-- The bytes of an image. -/
def imageByte (size : Nat) (byte : Nat → UInt8) (offset : Nat) : Option UInt8 :=
  if offset < size then some (byte offset) else none

/-- A file whose reads give the bytes of an image, if they succeed. -/
abbrev GivesBytes {σ : Type} (file : IErofsImageFile σ) (byte : Nat → UInt8) : Prop :=
  Covers (fun _ _ => True) file (imageOf file.size file.size_lt byte)

theorem GivesBytes.faithful {σ : Type} {file : IErofsImageFile σ} {byte : Nat → UInt8}
    (h : GivesBytes file byte) : Faithful False file (imageByte file.size byte) where
  beyond _ hoffset := if_neg (Nat.not_lt.mpr hoffset)
  read s buffer offset hbuffer := by
    refine ⟨fun hsuccess => ?_, False.elim⟩
    have hread : file.read s buffer offset =
        (true, (file.read s buffer offset).2.1, (file.read s buffer offset).2.2) := by
      rw [← hsuccess]
    obtain ⟨t, hread', -⟩ := h.read trivial rfl hread
    have hyields := (imageOf_steady file.size_lt byte).faithful.read () buffer offset hbuffer
    rw [hread'] at hyields
    exact hyields.data_eq rfl

theorem imageOf_gives {size : Nat} (hsize : size < 2 ^ 64) (byte : Nat → UInt8) :
    GivesBytes (imageOf size hsize byte) byte where
  size := rfl
  read := by
    intro s t buffer buffer' offset data s' _ hlength hread
    unfold imageOf at hread ⊢
    dsimp only at hread ⊢
    rw [← hlength]
    split at hread
    · cases hread
    · next hinside => exact ⟨s', by rw [if_neg hinside, hread], trivial⟩

/-! ## Contents -/

namespace ErofsInode

section
variable (inode : ErofsInode) (lz4 : Lz4) {size : Nat} (hsize : size < 2 ^ 64) (byte : Nat → UInt8)

/-- The extent map of compressed data in an image, if it can be made. -/
def extentMap : Option ErofsExtentMap :=
  let tailAddress := wrap64 (inode.inodeFileOffset + inode.inodeHeaderSize)
  let blockSize := inode.superBlock.blockSize
  let made :=
    if inode.dataFormat = .compressedFull then
      ErofsExtentMap.fromLegacyIndexes (imageOf size hsize byte) tailAddress inode.compressedBlocks
        blockSize inode.size ()
    else if inode.dataFormat = .compressedCompact then
      ErofsExtentMap.fromCompactIndexes (imageOf size hsize byte) tailAddress
        inode.compressedBlocks blockSize inode.size ()
    else .ok (none, ())
  made.toOption.bind Prod.fst

/-- The reader of compressed data with an extent map, which has not read anything. -/
def freshReader (map : ErofsExtentMap) : ErofsInodeCompressedDataReader :=
  .fresh map inode.size inode.superBlock.blockSize (inode.superBlock.hasFeature .zeroPadding)

/-- The bytes of the data of an inode in an image. -/
def content (i : Nat) : Option UInt8 :=
  match inode.dataFormat with
  | .flatPlain | .flatInline => imageByte size byte (wrap64 (inode.address i))
  | .compressedFull | .compressedCompact =>
    (inode.extentMap hsize byte).bind fun map =>
      (inode.freshReader map).content lz4 (imageByte size byte) i
  | .chunkBased | .invalid => none

/-- The contents, if all of it is there. -/
def contents : Option Bytes := readRange (inode.content lz4 hsize byte) 0 inode.size

/-- The read that a client's read of some size asks the data reader for. -/
def readAt (buffer : Bytes) (offset : Nat) : List ReadAt :=
  if offset ≥ inode.size ∨ buffer.length = 0 then []
  else [⟨buffer.take (min buffer.length (inode.size - offset)), offset⟩]

/-- The extent map, if there is one, has no extents, or its extents partition the data and those
that share a block have one size as far as the reads take a part of one. -/
def Ordered (calls : List ReadAt) : Prop :=
  ∀ map, inode.extentMap hsize byte = some map → map.entries = [] ∨
    map.Partitions inode.size ∧ map.OneSize calls

end

/-! ## Flat data -/

section
variable {σ : Type} {exact : Prop} {file : IErofsImageFile σ} {byte : Nat → Option UInt8}
  {f : Nat → Option UInt8} {out data : Bytes} {offset : Nat} {s s' : σ}

/-- A read of the file at the place of a part of the data. -/
theorem readRange_of_read (hfile : Faithful exact file byte) (hout : out ≠ []) {position : Nat}
    (hf : ∀ i < out.length, f (offset + i) = byte (wrap64 (position + i)))
    (hread : file.read s out (wrap64 position) = (true, data, s')) :
    readRange f offset out.length = some data := by
  have hdata := (hfile.read s out (wrap64 position) hout).data_eq (by rw [hread])
  rw [hread, readRange_wrap64 hfile] at hdata
  rw [← hdata]
  refine readRange_congr fun i hi => ?_
  rw [hf i hi, Nat.zero_add]

theorem plain_read {reader : ErofsInodeFlatPlainDataReader} (hfile : Faithful exact file byte)
    (hout : out ≠ [])
    (hf : ∀ i < reader.dataSize, f i = byte (wrap64 (reader.blocksAddress + i)))
    (hread : reader.read file out offset s = (true, data, s')) :
    readRange f offset out.length = some data := by
  unfold ErofsInodeFlatPlainDataReader.read at hread
  split at hread
  · cases hread
  next hfits =>
  refine readRange_of_read hfile hout (fun i hi => ?_) hread
  rw [hf _ (by omega), Nat.add_assoc]

theorem inline_read {reader : ErofsInodeFlatInlineDataReader} (hfile : Faithful exact file byte)
    (hout : out ≠ [])
    (hblocks : ∀ i < reader.contigBlocksSize, f i = byte (wrap64 (reader.contigBlocksAddress + i)))
    (htail : ∀ i < reader.dataSize, reader.contigBlocksSize ≤ i →
      f i = byte (wrap64 (reader.tailBlockAddress + (i - reader.contigBlocksSize))))
    (haddress : wrap64 reader.tailBlockAddress = reader.tailBlockAddress)
    (hread : reader.read file out offset s = (true, data, s')) :
    readRange f offset out.length = some data := by
  have hpos := List.length_pos_of_ne_nil hout
  unfold ErofsInodeFlatInlineDataReader.read at hread
  split at hread
  · cases hread
  next hfits =>
  split at hread
  · split at hread
    · refine readRange_of_read hfile hout (fun i hi => ?_) hread
      rw [htail _ (by omega) (by omega)]
      congr 2
      omega
    next hbefore =>
    -- a part in the blocks, and a part in the tail, which may be empty
    generalize hfirst : reader.contigBlocksSize - offset = first at hread
    have htake : (out.take first).length = first := by
      rw [List.length_take]
      omega
    rcases hread₁ : file.read s (out.take first) (wrap64 (reader.contigBlocksAddress + offset)) with
      ⟨_ | _, head, s₁⟩
    · simp only [hread₁] at hread
      cases hread
    have hhead : readRange f offset first = some head := by
      have hne : out.take first ≠ [] := List.ne_nil_of_length_pos (by omega)
      have hrange := @readRange_of_read _ _ _ _ f _ _ offset _ _ hfile hne _ (fun i hi => by
        rw [hblocks _ (by omega), Nat.add_assoc]) hread₁
      rwa [htake] at hrange
    rcases hread₂ : file.read s₁ (out.drop first) reader.tailBlockAddress with ⟨_ | _, rest, s₂⟩
    · simp only [hread₁, hread₂] at hread
      cases hread
    have hdrop : (out.drop first).length = out.length - first := List.length_drop
    have hrest : readRange f (offset + first) (out.length - first) = some rest := by
      by_cases hempty : out.drop first = []
      · have hlength := file.read_length s₁ (out.drop first) reader.tailBlockAddress
        rw [hread₂, hempty] at hlength
        obtain rfl : rest = [] := List.eq_nil_of_length_eq_zero hlength
        rw [← hdrop, hempty]
        rfl
      · rw [← haddress] at hread₂
        have hrange := @readRange_of_read _ _ _ _ f _ _ (offset + first) _ _ hfile hempty _
          (fun i hi => by
            rw [htail _ (by omega) (by omega)]
            congr 3
            omega) hread₂
        rwa [hdrop] at hrange
    simp only [hread₁, hread₂] at hread
    cases hread
    have hsplit := readRange_add f offset first (out.length - first)
    rw [Nat.add_sub_cancel' (by omega : first ≤ out.length), hhead, hrest] at hsplit
    exact hsplit
  · refine readRange_of_read hfile hout (fun i hi => ?_) hread
    rw [hblocks _ (by omega), Nat.add_assoc]

end

/-! ## Data readers -/

section
variable {σ : Type} {file : IErofsImageFile σ} {lz4 : Lz4} {size : Nat} {hsize : size < 2 ^ 64}
  {byte : Nat → UInt8} {made inode inode' : ErofsInode} {calls : List ReadAt}
  {map : ErofsExtentMap} {reader reader' : IErofsInodeDataReader} {out data : Bytes} {offset : Nat}
  {s s' : σ}

theorem extentMap_eq_some (h : inode.extentMap hsize byte = some map) :
    (inode.dataFormat = .compressedFull ∨ inode.dataFormat = .compressedCompact) ∧
      0 < inode.superBlock.blockSize ∧ inode.size ≤ kMaxUncompressedSize := by
  unfold extentMap at h
  dsimp only at h
  split at h
  · next hformat =>
    rcases hmade : ErofsExtentMap.fromLegacyIndexes (imageOf size hsize byte)
        (wrap64 (inode.inodeFileOffset + inode.inodeHeaderSize)) inode.compressedBlocks
        inode.superBlock.blockSize inode.size () with _ | ⟨made, _⟩
    · rw [hmade] at h
      cases h
    · rw [hmade] at h
      obtain rfl : made = some map := h
      exact ⟨.inl hformat, blockSize_of_fromIndexes (.inl hmade)⟩
  split at h
  · next hformat =>
    rcases hmade : ErofsExtentMap.fromCompactIndexes (imageOf size hsize byte)
        (wrap64 (inode.inodeFileOffset + inode.inodeHeaderSize)) inode.compressedBlocks
        inode.superBlock.blockSize inode.size () with _ | ⟨made, _⟩
    · rw [hmade] at h
      cases h
    · rw [hmade] at h
      obtain rfl : made = some map := h
      exact ⟨.inr hformat, blockSize_of_fromIndexes (.inr hmade)⟩
  · cases h

theorem content_of_extentMap (h : inode.extentMap hsize byte = some map) :
    inode.content lz4 hsize byte = (inode.freshReader map).content lz4 (imageByte size byte) := by
  funext i
  unfold content
  rcases (extentMap_eq_some h).1 with hformat | hformat
  · rw [hformat, h]
    rfl
  · rw [hformat, h]
    rfl

/-- A data reader of an inode that has given some of its data: for compressed data, the block that
it kept is right. -/
def Serves (lz4 : Lz4) (hsize : size < 2 ^ 64) (byte : Nat → UInt8) (made : ErofsInode)
    (calls : List ReadAt) : IErofsInodeDataReader → Prop
  | .flatPlain flat => made.dataFormat = .flatPlain ∧ flat = ⟨made.rawBlockAddress, made.size⟩
  | .flatInline flat => made.dataFormat = .flatInline ∧
      flat = .new made.rawBlockAddress (wrap64 (made.inodeFileOffset + made.inodeHeaderSize))
        made.superBlock.blockSize made.size
  | .compressed compr => ∃ map, made.extentMap hsize byte = some map ∧
      InUse lz4 (imageByte size byte) (made.freshReader map) (calls.flatMap map.takenInPart) compr

/-- The bytes of flat data. -/
theorem content_of_flat (h : inode.dataFormat = .flatPlain ∨ inode.dataFormat = .flatInline)
    (i : Nat) :
    inode.content lz4 hsize byte i = imageByte size byte (wrap64 (inode.address i)) := by
  unfold content
  rcases h with hformat | hformat
  · rw [hformat]
  · rw [hformat]

/-- What a made data reader has read before is right. -/
theorem createReader_serves (hfile : GivesBytes file byte)
    (hcreate : made.createReader file s = .ok (some reader, s')) :
    Serves lz4 file.size_lt byte made calls reader := by
  have hcompressed : ∀ {built : Except Fault (Option ErofsExtentMap × σ)},
      (∀ map s', built = .ok (some map, s') → made.extentMap file.size_lt byte = some map) →
      made.createCompressed built = .ok (some reader, s') →
        Serves lz4 file.size_lt byte made calls reader := by
    intro built hbuilt hmade
    unfold createCompressed at hmade
    rcases built with fault | ⟨_ | map, s₁⟩
    · cases hmade
    · cases hmade
    dsimp only at hmade
    split at hmade
    · cases hmade
    next made' hnew =>
    cases hmade
    unfold newCompressedReader at hnew
    split at hnew
    · cases hnew
    cases hnew
    exact ⟨map, hbuilt map _ rfl, rfl, rfl, rfl, rfl, .inl rfl⟩
  unfold createReader at hcreate
  dsimp only at hcreate
  split at hcreate
  · next hformat =>
    cases hcreate
    exact ⟨hformat, rfl⟩
  · next hformat =>
    cases hcreate
    exact ⟨hformat, rfl⟩
  · next hformat =>
    refine hcompressed (fun map s₁ hmap => ?_) hcreate
    obtain ⟨_, hmap', -⟩ := ErofsExtentMap.fromLegacyIndexes_covered hfile (t := ()) trivial hmap
    unfold extentMap
    dsimp only
    rw [if_pos hformat, hmap']
    rfl
  · next hformat =>
    refine hcompressed (fun map s₁ hmap => ?_) hcreate
    obtain ⟨_, hmap', -⟩ := ErofsExtentMap.fromCompactIndexes_covered hfile (t := ()) trivial hmap
    unfold extentMap
    dsimp only
    rw [if_neg (by rw [hformat]; decide), if_pos hformat, hmap']
    rfl
  · cases hcreate
  · cases hcreate

/-- What a sequence of reads of an inode stays in. -/
def InBounds (made : ErofsInode) (calls : List ReadAt) : Prop :=
  ∀ call ∈ calls, call.offset < made.size ∧ call.offset + call.out.length ≤ made.size

/-- A read of a data reader: it gives a range of the contents if it succeeds, and what the reader
keeps is right in any case. -/
theorem Serves.read (hfile : GivesBytes file byte) (hordered : made.Ordered file.size_lt byte calls)
    (hbounds : made.InBounds calls) (h : Serves lz4 file.size_lt byte made calls reader)
    (hcall : ⟨out, offset⟩ ∈ calls) (hout : out ≠ []) {success : Bool}
    (hread : reader.read file lz4 out offset s = .ok (success, data, reader', s')) :
    Serves lz4 file.size_lt byte made calls reader' ∧
      (success = true →
        readRange (made.content lz4 file.size_lt byte) offset out.length = some data) := by
  cases reader with
  | flatPlain flat =>
    obtain ⟨hformat, rfl⟩ := h
    unfold IErofsInodeDataReader.read at hread
    rcases hflat : ErofsInodeFlatPlainDataReader.read file ⟨made.rawBlockAddress, made.size⟩ out
      offset s with ⟨success', data', s₁⟩
    simp only [hflat] at hread
    cases hread
    refine ⟨⟨hformat, rfl⟩, ?_⟩
    rintro rfl
    refine plain_read hfile.faithful hout (fun i _ => ?_) hflat
    have haddress : made.address i = made.rawBlockAddress + i := by
      unfold address
      dsimp only
      rw [if_neg (by rw [hformat]; exact fun h => nomatch h.1)]
    rw [content_of_flat (.inl hformat), haddress]
  | flatInline flat =>
    obtain ⟨hformat, rfl⟩ := h
    unfold IErofsInodeDataReader.read at hread
    rcases hflat : (ErofsInodeFlatInlineDataReader.new made.rawBlockAddress
      (wrap64 (made.inodeFileOffset + made.inodeHeaderSize)) made.superBlock.blockSize
      made.size).read file out offset s with ⟨success', data', s₁⟩
    simp only [hflat] at hread
    cases hread
    refine ⟨⟨hformat, rfl⟩, ?_⟩
    rintro rfl
    refine inline_read hfile.faithful hout (fun i hi => ?_) (fun i _ hi => ?_) (wrap64_of_lt (wrap64_lt _))
      hflat
    · have haddress : made.address i = made.rawBlockAddress + i := by
        unfold address
        dsimp only
        rw [if_neg fun h => Nat.not_lt.mpr h.2 hi]
      rw [content_of_flat (.inr hformat), haddress]
      rfl
    · have haddress : made.address i =
          wrap64 (made.inodeFileOffset + made.inodeHeaderSize) +
            (i - made.size / made.superBlock.blockSize * made.superBlock.blockSize) := by
        unfold address
        dsimp only
        rw [if_pos ⟨hformat, hi⟩]
      rw [content_of_flat (.inr hformat), haddress]
      rfl
  | compressed compr =>
    obtain ⟨map, hmap, huse⟩ := h
    unfold IErofsInodeDataReader.read at hread
    dsimp only at hread
    obtain ⟨-, hblockSize, hmax⟩ := extentMap_eq_some hmap
    rcases hordered map hmap with hempty | ⟨hpartitions, honeSize⟩
    · have hextents : compr.extents = map := huse.extents
      rw [read_of_empty (hextents.symm ▸ hempty)] at hread
      cases hread
      exact ⟨⟨map, hmap, huse⟩, fun h => absurd h Bool.false_ne_true⟩
    · have horderly : (made.freshReader map).Orderly calls := by
        refine ⟨hblockSize, ?_, hpartitions, hbounds, honeSize⟩
        have hle : made.size ≤ maxVectorSize := by
          unfold kMaxUncompressedSize at hmax
          unfold maxVectorSize
          omega
        exact hle
      obtain ⟨success', data', compr', s₁, hcompr, huse', hyields⟩ :=
        horderly.read (s := s) hfile.faithful hcall huse
      dsimp only at hcompr
      rw [hcompr] at hread
      cases hread
      refine ⟨⟨map, hmap, huse'⟩, fun hsuccess => ?_⟩
      rw [content_of_extentMap hmap]
      exact hyields.data_eq hsuccess

/-! ## Inodes -/

/-- An inode after reads of its data, with the reads that its data reader was asked for. Each read
finds the image file in some state. -/
inductive Used (file : IErofsImageFile σ) (lz4 : Lz4) (made : ErofsInode) :
    List ReadAt → ErofsInode → Prop
  | made : Used file lz4 made [] made
  | read {calls : List ReadAt} {inode inode' : ErofsInode} {buffer data : Bytes} {offset : Nat}
      {s s' : σ} {rd : Int} (hused : Used file lz4 made calls inode)
      (hread : inode.read file lz4 buffer offset s = .ok (rd, data, inode', s')) :
      Used file lz4 made (calls ++ made.readAt buffer offset) inode'

/-- What an inode keeps while it is read. -/
structure Keeps (lz4 : Lz4) (hsize : size < 2 ^ 64) (byte : Nat → UInt8) (made : ErofsInode)
    (calls : List ReadAt) (inode : ErofsInode) : Prop where
  same : inode = { made with inodeReader := inode.inodeReader }
  serves : ∀ reader, inode.inodeReader = some reader → Serves lz4 hsize byte made calls reader

theorem Keeps.size_eq (h : Keeps lz4 hsize byte made calls inode) : inode.size = made.size := by
  rw [h.same]

theorem keeps_made (h : made.inodeReader = none) : Keeps lz4 hsize byte made calls made :=
  ⟨rfl, fun reader hreader => by rw [h] at hreader; cases hreader⟩

theorem inBounds_readAt (made : ErofsInode) (buffer : Bytes) (offset : Nat) :
    made.InBounds (made.readAt buffer offset) := by
  intro call hcall
  unfold readAt at hcall
  split at hcall
  · cases hcall
  · obtain rfl := List.mem_singleton.mp hcall
    dsimp only
    rw [List.length_take]
    omega

/-- Reading the data of an inode: it gives a range of the contents if it succeeds. -/
theorem Keeps.read (hfile : GivesBytes file byte) (hordered : made.Ordered file.size_lt byte calls)
    (hbounds : made.InBounds calls) (h : Keeps lz4 file.size_lt byte made calls inode)
    {buffer : Bytes} (hcalls : made.readAt buffer offset ⊆ calls) {rd : Int}
    (hread : inode.read file lz4 buffer offset s = .ok (rd, data, inode', s')) :
    Keeps lz4 file.size_lt byte made calls inode' ∧
      (rd ≠ -1 → rd = (min buffer.length (made.size - offset) : Nat) ∧
        readRange (made.content lz4 file.size_lt byte) offset
          (min buffer.length (made.size - offset)) =
            some (data.take (min buffer.length (made.size - offset)))) := by
  have hsame := h.same
  unfold readAt at hcalls
  unfold ErofsInode.read at hread
  rw [h.size_eq] at hread
  split at hread
  · next hend =>
    have hnone : min buffer.length (made.size - offset) = 0 := by omega
    cases hread
    rw [hnone]
    exact ⟨h, fun _ => ⟨rfl, rfl⟩⟩
  next hinside =>
  rw [if_neg hinside] at hcalls
  dsimp only at hread
  generalize hn : min buffer.length (made.size - offset) = n at hread hcalls ⊢
  have hcall := hcalls List.mem_cons_self
  have htake : (buffer.take n).length = n := by
    rw [List.length_take]
    omega
  have hreader : ∀ reader s₁, inode.dataReader file s = .ok (some reader, s₁) →
      Serves lz4 file.size_lt byte made calls reader := by
    intro reader s₁ hreader
    unfold dataReader at hreader
    split at hreader
    · next hkept =>
      cases hreader
      exact h.serves _ hkept
    · rw [hsame] at hreader
      exact createReader_serves hfile hreader
  split at hread
  · cases hread
  · cases hread
    exact ⟨h, fun hok => absurd rfl hok⟩
  next reader s₁ hmade =>
  split at hread
  · cases hread
  next success filled reader' s₂ hfilled =>
  obtain ⟨hserves, hrange⟩ := (hreader reader s₁ hmade).read hfile hordered hbounds hcall
    (List.ne_nil_of_length_pos (by omega)) hfilled
  have hlength := IErofsInodeDataReader.read_length hfilled
  rw [htake] at hlength hrange
  cases hread
  refine ⟨⟨?_, fun reader hreader => ?_⟩, fun hok => ?_⟩
  · dsimp only
    rw [hsame]
  · cases hreader
    exact hserves
  · cases success with
    | false => exact absurd rfl hok
    | true =>
      rw [List.take_left' hlength]
      exact ⟨rfl, hrange rfl⟩

theorem Used.same {prior : List ReadAt} (h : Used file lz4 made prior inode) :
    inode = { made with inodeReader := inode.inodeReader } := by
  induction h with
  | made => rfl
  | read _ hread ih =>
    rw [read_same hread]
    rw [ih]

/-- All reads keep it. -/
theorem Used.keeps {prior : List ReadAt} (hfile : GivesBytes file byte)
    (hordered : made.Ordered file.size_lt byte calls) (hbounds : made.InBounds calls)
    (hfresh : made.inodeReader = none) (h : Used file lz4 made prior inode) (hprior : prior ⊆ calls) :
    Keeps lz4 file.size_lt byte made calls inode := by
  induction h with
  | made => exact keeps_made hfresh
  | read _ hread ih =>
    obtain ⟨hbefore, hlast⟩ := List.append_subset.mp hprior
    exact ((ih hbefore).read hfile hordered hbounds hlast hread).1

theorem Used.inBounds {prior : List ReadAt} (h : Used file lz4 made prior inode) :
    made.InBounds prior := by
  induction h with
  | made => exact fun _ hcall => nomatch hcall
  | read _ _ ih =>
    intro call hcall
    rcases List.mem_append.mp hcall with hcall | hcall
    · exact ih call hcall
    · exact inBounds_readAt _ _ _ call hcall

end

end ErofsInode

end Erofs
