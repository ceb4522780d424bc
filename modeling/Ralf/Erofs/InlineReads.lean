import Ralf.Erofs.ImageFiles
import Ralf.Erofs.InodeData
import Mathlib.Tactic.MkIffOfInductiveProp

/-!
# Reads of inline data

The data of a flat inode with a tail is a run of whole blocks and the bytes behind the
inode. A read is one read of the blocks, one of the tail, or one of each; the last also
when its part in the tail is empty (`read_straddling`). The image refuses an empty read
at its end, so a read up to the end of data without a tail fails when the inode is the
last thing in the image. `read_serves` says so for any image that serves its contents,
`InlineInode.read_exact_iff` for raw and protected images.
-/

namespace Erofs

open DmVerity

/-- An inode whose data is whole blocks and a tail. -/
structure InlineInode where
  blockAddr : Nat
  tailBlockAddr : Nat
  blockSize : Nat
  dataSize : Nat
  deriving DecidableEq, Repr

namespace InlineInode

/-- The reader that is made for the inode. -/
def reader (inode : InlineInode) : ErofsInodeFlatInlineDataReader :=
  .new inode.blockAddr inode.tailBlockAddr inode.blockSize inode.dataSize

/-- The size of the whole blocks. -/
def contigSize (inode : InlineInode) : Nat := inode.dataSize / inode.blockSize * inode.blockSize

/-- The size of the tail. -/
def tailSize (inode : InlineInode) : Nat := inode.dataSize - inode.contigSize

/-- The whole blocks and the tail lie inside an image. -/
structure Inside (inode : InlineInode) (imageSize : Nat) : Prop where
  contig : 0 < inode.contigSize → inode.blockAddr + inode.contigSize ≤ imageSize
  tail : 0 < inode.tailSize → inode.tailBlockAddr + inode.tailSize ≤ imageSize

/-- The data of the inode: its whole blocks and its tail. -/
def data (inode : InlineInode) (contents : Bytes) : Bytes :=
  contents.slice inode.blockAddr inode.contigSize ++
    contents.slice inode.tailBlockAddr inode.tailSize

/-- The read ends with the data, the data has no tail, and the image ends where the tail
would start. -/
@[mk_iff] structure EmptyTailAtEnd (inode : InlineInode) (imageSize offset size : Nat) : Prop where
  ends : offset + size = inode.dataSize
  no_tail : inode.blockSize ∣ inode.dataSize
  at_end : imageSize ≤ inode.tailBlockAddr

/-- The part of the read in the whole blocks and the part in the tail are at most `limit`
bytes each. -/
@[mk_iff] structure PartsWithin (inode : InlineInode) (limit offset size : Nat) : Prop where
  contig : min size (inode.contigSize - offset) ≤ limit
  tail : size - (inode.contigSize - offset) ≤ limit

variable {inode : InlineInode}

theorem contigSize_le : inode.contigSize ≤ inode.dataSize := Nat.div_mul_le_self _ _

theorem contigSize_add_tailSize : inode.contigSize + inode.tailSize = inode.dataSize :=
  Nat.add_sub_cancel' contigSize_le

@[simp] theorem reader_dataSize : inode.reader.dataSize = inode.dataSize := rfl

@[simp] theorem reader_contigBlocksSize : inode.reader.contigBlocksSize = inode.contigSize := rfl

@[simp] theorem reader_contigBlocksAddress :
    inode.reader.contigBlocksAddress = inode.blockAddr := rfl

@[simp] theorem reader_tailBlockAddress :
    inode.reader.tailBlockAddress = inode.tailBlockAddr := rfl

/-- The data has no tail exactly when it is a multiple of the block size. -/
theorem dvd_iff_tailSize : inode.blockSize ∣ inode.dataSize ↔ inode.tailSize = 0 := by
  have hsum := @contigSize_add_tailSize inode
  constructor
  · intro hdvd
    have heq : inode.contigSize = inode.dataSize := Nat.div_mul_cancel hdvd
    omega
  · intro htail
    have heq : inode.contigSize = inode.dataSize := by omega
    exact heq ▸ Nat.dvd_mul_left _ _

end InlineInode

/-- A call succeeds and gives these bytes. -/
def ReadsExactly {σ : Type} (outcome : Bool × Bytes × σ) (bytes : Bytes) : Prop :=
  outcome.1 = true ∧ outcome.2.1 = bytes

theorem readsExactly_append {σ : Type} {outcome : Bool × Bytes × σ} {first bytes : Bytes} :
    ReadsExactly (outcome.1, first ++ outcome.2.1, outcome.2.2) (first ++ bytes) ↔
      ReadsExactly outcome bytes :=
  and_congr_right fun _ => List.append_right_inj _

section
variable {σ : Type} {file : IErofsImageFile σ} {good : σ → Prop} {contents : Bytes} {limit : Nat}
  {s : σ}

theorem Serves.readsExactly_iff (h : Serves file good contents limit) (hs : good s)
    {buffer : Bytes} {offset : Nat} :
    ReadsExactly (file.read s buffer offset) (contents.slice offset buffer.length) ↔
      offset < contents.length ∧ offset + buffer.length ≤ contents.length ∧
      buffer.length ≤ limit := by
  rw [← h.ok_iff hs]
  exact ⟨And.left, fun hok => ⟨hok, h.data_eq hs hok⟩⟩

/-! ## The three kinds of reads -/

namespace InlineInode

variable {inode : InlineInode} {offset size : Nat}

theorem blocks_length (h : inode.Inside contents.length) :
    (contents.slice inode.blockAddr inode.contigSize).length = inode.contigSize := by
  rcases Nat.eq_zero_or_pos inode.contigSize with hzero | hpos
  · rw [hzero, Bytes.slice_size_zero, List.length_nil]
  · exact Bytes.slice_length (h.contig hpos)

theorem data_blocks (h : inode.Inside contents.length) (hsize : offset + size ≤ inode.contigSize) :
    (inode.data contents).slice offset size = contents.slice (inode.blockAddr + offset) size := by
  rw [data, Bytes.slice_append_left (by rw [blocks_length h]; exact hsize), Bytes.slice_slice hsize]

theorem data_tail (h : inode.Inside contents.length) (hoffset : inode.contigSize ≤ offset)
    (hsize : offset + size ≤ inode.dataSize) :
    (inode.data contents).slice offset size =
      contents.slice (inode.tailBlockAddr + (offset - inode.contigSize)) size := by
  have hsum := @contigSize_add_tailSize inode
  have hlength := blocks_length h
  rw [data, Bytes.slice_append_of_le (by rw [hlength]; exact hoffset), hlength,
    Bytes.slice_slice (by omega)]

theorem data_straddling (h : inode.Inside contents.length) (hoffset : offset ≤ inode.contigSize)
    (hend : inode.contigSize ≤ offset + size) (hsize : offset + size ≤ inode.dataSize) :
    (inode.data contents).slice offset size =
      contents.slice (inode.blockAddr + offset) (inode.contigSize - offset) ++
        contents.slice inode.tailBlockAddr (size - (inode.contigSize - offset)) := by
  have hsplit := Bytes.slice_append_slice (inode.data contents) offset (inode.contigSize - offset)
    (size - (inode.contigSize - offset))
  rw [Nat.add_sub_cancel' (by omega : inode.contigSize - offset ≤ size)] at hsplit
  have htail : inode.contigSize ≤ offset + (inode.contigSize - offset) := by omega
  rw [← hsplit, data_blocks h (by omega), data_tail h htail (by omega),
    Nat.add_sub_cancel' hoffset, Nat.sub_self, Nat.add_zero]

end InlineInode

variable {inode : InlineInode} {out : Bytes} {offset : Nat}

/-- The addresses of an image do not wrap. -/
theorem Serves.wrap64_eq (h : Serves file good contents limit) {address : Nat}
    (haddress : address ≤ contents.length) : wrap64 address = address :=
  wrap64_of_lt (Nat.lt_of_le_of_lt haddress (h.size_eq ▸ file.size_lt))

/-- A read that starts in the tail. -/
theorem read_tail (h : Serves file good contents limit) (hs : good s)
    (hinside : inode.Inside contents.length) (hsize : 0 < out.length)
    (hrange : offset + out.length ≤ inode.dataSize) (hoffset : inode.contigSize ≤ offset) :
    ReadsExactly (inode.reader.read file out offset s)
      ((inode.data contents).slice offset out.length) ↔ out.length ≤ limit := by
  have hsum := @InlineInode.contigSize_add_tailSize inode
  have htail := hinside.tail (by omega)
  have hread : inode.reader.read file out offset s =
      file.read s out (wrap64 (inode.tailBlockAddr + (offset - inode.contigSize))) := by
    have hdataSize := @InlineInode.reader_dataSize inode
    have hcontigSize := @InlineInode.reader_contigBlocksSize inode
    rw [ErofsInodeFlatInlineDataReader.read, if_neg (by omega), if_pos (by omega),
      if_pos (by omega), InlineInode.reader_contigBlocksSize, InlineInode.reader_tailBlockAddress]
  rw [hread, h.wrap64_eq (by omega), InlineInode.data_tail hinside hoffset hrange,
    h.readsExactly_iff hs]
  omega

/-- A read that ends before the tail. -/
theorem read_blocks (h : Serves file good contents limit) (hs : good s)
    (hinside : inode.Inside contents.length) (hsize : 0 < out.length)
    (hend : offset + out.length < inode.contigSize) :
    ReadsExactly (inode.reader.read file out offset s)
      ((inode.data contents).slice offset out.length) ↔ out.length ≤ limit := by
  have hle := @InlineInode.contigSize_le inode
  have hcontig := hinside.contig (by omega)
  have hread : inode.reader.read file out offset s =
      file.read s out (wrap64 (inode.blockAddr + offset)) := by
    have hdataSize := @InlineInode.reader_dataSize inode
    have hcontigSize := @InlineInode.reader_contigBlocksSize inode
    rw [ErofsInodeFlatInlineDataReader.read, if_neg (by omega), if_neg (by omega),
      InlineInode.reader_contigBlocksAddress]
  rw [hread, h.wrap64_eq (by omega), InlineInode.data_blocks hinside (by omega),
    h.readsExactly_iff hs]
  omega

/-- A read of blocks and tail: it is two reads, and the second may be empty. -/
theorem read_straddling (h : Serves file good contents limit) (hs : good s)
    (hinside : inode.Inside contents.length)
    (hrange : offset + out.length ≤ inode.dataSize) (hoffset : offset < inode.contigSize)
    (hend : inode.contigSize ≤ offset + out.length) :
    ReadsExactly (inode.reader.read file out offset s)
      ((inode.data contents).slice offset out.length) ↔
      inode.contigSize - offset ≤ limit ∧
      inode.tailBlockAddr < contents.length ∧
      out.length - (inode.contigSize - offset) ≤ limit := by
  have hsum := @InlineInode.contigSize_add_tailSize inode
  have hcontig := hinside.contig (by omega)
  have hdataSize := @InlineInode.reader_dataSize inode
  have hcontigBlocksSize := @InlineInode.reader_contigBlocksSize inode
  rw [ErofsInodeFlatInlineDataReader.read, if_neg (by omega), if_pos (by omega),
    if_neg (by omega), InlineInode.reader_contigBlocksSize, InlineInode.reader_contigBlocksAddress,
    InlineInode.reader_tailBlockAddress, h.wrap64_eq (by omega),
    InlineInode.data_straddling hinside (Nat.le_of_lt hoffset) hend hrange]
  dsimp only
  set contigSize := inode.contigSize - offset with hcontigSize
  have htake : (out.take contigSize).length = contigSize := List.length_take_of_le (by omega)
  have hdrop : (out.drop contigSize).length = out.length - contigSize := List.length_drop
  have hok : (file.read s (out.take contigSize) (inode.blockAddr + offset)).1 = true ↔ _ :=
    h.ok_iff hs
  have hdata : _ → (file.read s (out.take contigSize) (inode.blockAddr + offset)).2.1 = _ :=
    h.data_eq hs
  have hs₁ : good (file.read s (out.take contigSize) (inode.blockAddr + offset)).2.2 := h.keeps hs
  rw [htake] at hok hdata
  rcases hfirst : file.read s (out.take contigSize) (inode.blockAddr + offset) with
    ⟨_ | _, data, s₁⟩
  · -- The blocks are read alone, so they fail only at the limit.
    rw [hfirst] at hok
    have hlimit : ¬contigSize ≤ limit := fun hlimit =>
      Bool.false_ne_true (hok.mpr ⟨by omega, by omega, hlimit⟩)
    exact iff_of_false (fun hall => Bool.false_ne_true hall.1) (fun hall => hlimit hall.1)
  · rw [hfirst] at hok hdata hs₁
    obtain rfl : data = _ := hdata rfl
    obtain ⟨-, -, hlimit⟩ := hok.mp rfl
    have hsecond : ReadsExactly (file.read s₁ (out.drop contigSize) inode.tailBlockAddr) _ ↔ _ :=
      h.readsExactly_iff hs₁
    rw [hdrop] at hsecond
    have htail : 0 < inode.tailSize → _ := hinside.tail
    refine (readsExactly_append.trans hsecond).trans ?_
    omega

/-- On any image that serves its contents, a read inside the data fails in two cases: it
ends with data that has no tail where the image ends, or a part of it is over the limit. -/
theorem read_serves (h : Serves file good contents limit) (hs : good s)
    (hinside : inode.Inside contents.length) (hsize : 0 < out.length)
    (hrange : offset + out.length ≤ inode.dataSize) :
    ReadsExactly (inode.reader.read file out offset s)
      ((inode.data contents).slice offset out.length) ↔
      ¬inode.EmptyTailAtEnd contents.length offset out.length ∧
      inode.PartsWithin limit offset out.length := by
  have hsum := @InlineInode.contigSize_add_tailSize inode
  rw [InlineInode.emptyTailAtEnd_iff, InlineInode.dvd_iff_tailSize, InlineInode.partsWithin_iff]
  have htail : 0 < inode.tailSize → _ := hinside.tail
  rcases Nat.lt_or_ge offset inode.contigSize with hoffset | hoffset
  · rcases Nat.lt_or_ge (offset + out.length) inode.contigSize with hend | hend
    · refine (read_blocks h hs hinside hsize hend).trans ?_
      omega
    · refine (read_straddling h hs hinside hrange hoffset hend).trans ?_
      omega
  · refine (read_tail h hs hinside hsize hrange hoffset).trans ?_
    omega

end

/-! ## Raw and protected images -/

/-- The states of a protected file that reads lead to. -/
inductive Reachable {file : DataFile} (verify : Nat → Bytes → Bool)
    (opened : DmVerityProtectedFile file) : DmVerityProtectedFile file → Prop
  | opened : Reachable verify opened opened
  | read {f : DmVerityProtectedFile file} (buffer : Bytes) (offset : Nat) :
      Reachable verify opened f →
      Reachable verify opened (f.read verify buffer buffer.length offset).2.2

theorem Reachable.coherent {file : DataFile} {verify : Nat → Bytes → Bool}
    {opened f : DmVerityProtectedFile file} {fileOffset fileSize : Nat}
    (hf : Reachable verify opened f)
    (hopened : DmVerityProtectedFile.Coherent verify fileOffset fileSize opened) :
    DmVerityProtectedFile.Coherent verify fileOffset fileSize f := by
  induction hf with
  | opened => exact hopened
  | read buffer offset _ ih => exact DmVerityProtectedFile.read_coherent ih rfl

/-- A read inside the data of an inode that lies inside the image gives exactly its
bytes, on a raw image as on an intact protected one, unless it ends with data that has no
tail where the image ends. On a raw image each part of it is also one `pread`. -/
theorem InlineInode.read_exact_iff {file : DataFile} (inode : InlineInode) (out : Bytes)
    (offset : Nat) (hsize : 0 < out.length) (hrange : offset + out.length ≤ inode.dataSize) :
    (∀ (lseek dup imageOffset imageSize : Option Nat) (limit : Nat)
      (image : ErofsRawImageFile file),
      ErofsRawImageFile.open file lseek dup imageOffset imageSize = .ok image →
      GivesUpTo file limit → inode.Inside image.size →
      (ReadsExactly (inode.reader.read image.toImageFile out offset ())
        ((inode.data image.contents).slice offset out.length) ↔
        ¬inode.EmptyTailAtEnd image.size offset out.length ∧
        inode.PartsWithin limit offset out.length)) ∧
    (∀ (dataFileOffset dataFileSize : Option Nat) (verifier : IDmVerityVerifier) (directIo : Bool)
      (memory : { bytes : Bytes // bytes.length = kBlockSize })
      (opened f : DmVerityProtectedFile file),
      DmVerityProtectedFile.open file dataFileOffset dataFileSize (.ok verifier) directIo memory =
        .ok opened →
      Reachable verifier.verify opened f →
      Intact verifier.verify opened → inode.Inside opened.fileSize →
      (ReadsExactly
        (inode.reader.read (DmVerityErofsImageFile verifier.verify opened) out offset f)
        ((inode.data (DmVerityErofsImageFile.contents opened)).slice offset out.length) ↔
        ¬inode.EmptyTailAtEnd opened.fileSize offset out.length)) := by
  constructor
  · intro lseek dup imageOffset imageSize limit image _ hfile hinside
    rw [← image.contents_length] at hinside ⊢
    exact read_serves (image.serves hfile) trivial hinside hsize hrange
  · intro dataFileOffset dataFileSize verifier directIo memory opened f hopen hf hintact hinside
    have hsum := @contigSize_add_tailSize inode
    have hparts : inode.PartsWithin opened.fileSize offset out.length := by
      have hcontig : 0 < inode.contigSize → _ := hinside.contig
      have htail : 0 < inode.tailSize → _ := hinside.tail
      constructor <;> omega
    have hcoherent := hf.coherent (DmVerityProtectedFile.open_coherent hopen)
    rw [← DmVerityErofsImageFile.contents_length] at hinside ⊢
    refine (read_serves (DmVerityErofsImageFile.serves hintact) hcoherent hinside hsize
      hrange).trans ?_
    exact and_iff_left hparts

/-- A file of three blocks that every `pread` is answered from in full. -/
def threeBlockFile : DataFile where
  contents := List.replicate 12288 7
  length_lt := by
    rw [List.length_replicate]
    decide
  pread offset size := .data (Bytes.slice (List.replicate 12288 7) offset size)
  pread_prefix := by
    rintro offset size bytes ⟨⟩
    exact List.prefix_rfl

theorem threeBlockFile_length : threeBlockFile.contents.length = 12288 := List.length_replicate

theorem threeBlockFile_givesUpTo : GivesUpTo threeBlockFile 12288 := by
  intro offset size hfits
  rw [threeBlockFile_length] at hfits
  rw [Nat.min_eq_left (by omega)]
  rfl

theorem threeBlockFile_intact {opened : DmVerityProtectedFile threeBlockFile}
    (hoffset : opened.fileOffset = 0) (hsize : opened.fileSize = 12288) :
    Intact (fun _ _ => true) opened := by
  intro n hn
  rw [hsize] at hn
  refine ⟨threeBlockFile.contents.slice (n * kBlockSize) kBlockSize, ?_, ?_, rfl⟩
  · rw [hoffset, Nat.zero_add, wrap64_of_lt (by omega)]
    rfl
  · refine Bytes.slice_length ?_
    rw [threeBlockFile_length]
    simp only [kBlockSize] at *
    omega

/-- A block of data in the middle of the image, and a tail of 100 bytes behind the inode. -/
def tailInode : InlineInode := ⟨4096, 8256, 4096, 4196⟩

/-- A read across the end of the blocks, on the raw image and on the protected one. -/
theorem InlineInode.read_exact_iff_tailInode :
    ∃ (image : ErofsRawImageFile threeBlockFile) (opened : DmVerityProtectedFile threeBlockFile),
      ErofsRawImageFile.open threeBlockFile none none none none = .ok image ∧
      DmVerityProtectedFile.open threeBlockFile none none (.ok ⟨4096, 3, fun _ _ => true⟩) false
        ⟨List.replicate 4096 0, List.length_replicate⟩ = .ok opened ∧
      ReadsExactly (tailInode.reader.read image.toImageFile (List.replicate 196 0) 4000 ())
        ((tailInode.data image.contents).slice 4000 196) ∧
      ReadsExactly (tailInode.reader.read (DmVerityErofsImageFile (fun _ _ => true) opened)
        (List.replicate 196 0) 4000 opened)
        ((tailInode.data (DmVerityErofsImageFile.contents opened)).slice 4000 196) := by
  have hrange : checkAndCalcFileRange threeBlockFile.contents.length none none =
      .ok (0, 12288) := by
    rw [threeBlockFile_length]
    rfl
  obtain ⟨opened, hopened, hoffset, hsize⟩ :=
    @DmVerityProtectedFile.open_succeeds threeBlockFile none none ⟨4096, 3, fun _ _ => true⟩ false
      ⟨List.replicate 4096 0, List.length_replicate⟩ _ hrange rfl (by decide)
  obtain ⟨image, himage, himageSize⟩ := ErofsRawImageFile.open_whole threeBlockFile
  rw [threeBlockFile_length] at himageSize
  have hinside : tailInode.Inside 12288 := ⟨by decide, by decide⟩
  have hend : ¬tailInode.EmptyTailAtEnd 12288 4000 196 := fun h => absurd h.at_end (by decide)
  have hparts : tailInode.PartsWithin 12288 4000 196 := ⟨by decide, by decide⟩
  obtain ⟨hraw, hdmVerity⟩ :=
    @InlineInode.read_exact_iff threeBlockFile tailInode (List.replicate 196 0) 4000
      (by rw [List.length_replicate]; decide) (by rw [List.length_replicate]; decide)
  have hraw := hraw none none none none 12288 image himage threeBlockFile_givesUpTo
    (himageSize ▸ hinside)
  have hdmVerity := hdmVerity none none _ false _ opened opened hopened .opened
    (threeBlockFile_intact hoffset hsize) (hsize ▸ hinside)
  rw [List.length_replicate] at hraw hdmVerity
  exact ⟨image, opened, himage, hopened, hraw.mpr ⟨himageSize ▸ hend, hparts⟩,
    hdmVerity.mpr (hsize ▸ hend)⟩

/-- A block of data, and an inode that ends with the image. -/
def lastInode : InlineInode := ⟨4096, 12288, 4096, 4096⟩

/-- Reading all data of an inode that ends with the image fails. -/
theorem InlineInode.not_read_exact :
    ¬∀ (file : DataFile) (image : ErofsRawImageFile file) (inode : InlineInode) (out : Bytes)
      (offset : Nat), GivesUpTo file file.contents.length →
      inode.Inside image.size →
      0 < out.length → offset + out.length ≤ inode.dataSize →
      ReadsExactly (inode.reader.read image.toImageFile out offset ())
        ((inode.data image.contents).slice offset out.length) := by
  intro hall
  obtain ⟨image, -, himageSize⟩ := ErofsRawImageFile.open_whole threeBlockFile
  rw [threeBlockFile_length] at himageSize
  have hinside : lastInode.Inside image.contents.length := by
    rw [image.contents_length, himageSize]
    exact ⟨by decide, by decide⟩
  have hout : (List.replicate 4096 (0 : UInt8)).length = 4096 := List.length_replicate
  have hsize : 0 < (List.replicate 4096 (0 : UInt8)).length := by omega
  have hrange : 0 + (List.replicate 4096 (0 : UInt8)).length ≤ lastInode.dataSize := by
    rw [hout]
    decide
  have hread := hall threeBlockFile image lastInode (List.replicate 4096 0) 0
    (threeBlockFile_length ▸ threeBlockFile_givesUpTo) (image.contents_length ▸ hinside) hsize
    hrange
  obtain ⟨hend, -⟩ := (read_serves (image.serves threeBlockFile_givesUpTo) trivial hinside hsize
    hrange).mp hread
  rw [image.contents_length, himageSize, hout] at hend
  exact hend ⟨rfl, by decide, le_rfl⟩

end Erofs
