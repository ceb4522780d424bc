import Ralf.DmVerity.ProtectedRead
import Ralf.Erofs.ImageFile

/-!
# Raw images and protected images

An EROFS image is a range of a file, read as it is (`ErofsRawImageFile`) or through
dm-verity (`DmVerityErofsImageFile`). Both refuse a read that starts at their end,
even a read of no bytes.

`Serves` is what a reader of the image may rely on. A raw image serves its bytes as far
as one `pread` does (`ErofsRawImageFile.serves`); a protected image whose blocks all
verify serves them without a limit (`DmVerityErofsImageFile.serves`).
-/

namespace Erofs

open DmVerity

/-! ## Raw images -/

/-- A range of a file that is read as it is. -/
structure ErofsRawImageFile (file : DataFile) where
  offset : Nat
  size : Nat
  range_le : offset + size ≤ file.contents.length

namespace ErofsRawImageFile

theorem range_le_of {file : DataFile} {offset size : Nat} (hoffset : ¬offset > file.contents.length)
    (hsize : ¬size > file.contents.length - offset) : offset + size ≤ file.contents.length := by
  omega

/-- Makes the image for a range of a file. The `lseek` to its end and the `dup` of its
descriptor may fail. -/
def «open» (file : DataFile) (lseek dup : Option Nat) (offset size : Option Nat) :
    Result (ErofsRawImageFile file) :=
  match lseek with
  | some errno => .error (.system errno "Failed to seek to end of file")
  | none =>
    let fileSize := file.contents.length
    let actualOffset := offset.getD 0
    if hoffset : actualOffset > fileSize then
      .error (.ralf .erofsError
        s!"File offset is outside of the file size (offset {actualOffset}, size {fileSize})")
    else
      let actualSize := size.getD (fileSize - actualOffset)
      if hsize : actualSize > fileSize - actualOffset then
        .error (.ralf .erofsError <|
          s!"Supplied file range is outside of the file size (offset {actualOffset}, " ++
          s!"size {actualSize}, actual size {fileSize})")
      else
        match dup with
        | some errno => .error (.system errno "Failed to dup file descriptor")
        | none =>
          .ok { offset := actualOffset, size := actualSize, range_le := range_le_of hoffset hsize }

variable {file : DataFile}

/-- `open` succeeds on a range inside the file. -/
theorem open_succeeds {offset size : Option Nat} (hoffset : offset.getD 0 ≤ file.contents.length)
    (hsize : size.getD (file.contents.length - offset.getD 0) ≤
      file.contents.length - offset.getD 0) :
    ∃ image, «open» file none none offset size = .ok image ∧ image.offset = offset.getD 0 ∧
      image.size = size.getD (file.contents.length - offset.getD 0) := by
  unfold «open»
  dsimp only
  rw [dif_neg (Nat.not_lt.mpr hoffset), dif_neg (Nat.not_lt.mpr hsize)]
  exact ⟨_, rfl, rfl, rfl⟩

/-- The image of a whole file. -/
theorem open_whole (file : DataFile) :
    ∃ image, «open» file none none none none = .ok image ∧ image.size = file.contents.length := by
  obtain ⟨image, hopen, -, hsize⟩ :=
    @open_succeeds file none none (Nat.zero_le _) (Nat.le_refl _)
  exact ⟨image, hopen, hsize⟩

/-- Fills a buffer with one `pread`. -/
def read (image : ErofsRawImageFile file) (buffer : Bytes) (offset : Nat) : Bool × Bytes :=
  if offset ≥ image.size ∨ buffer.length > image.size - offset then (false, buffer)
  else
    match file.pread (wrap64 (image.offset + offset)) buffer.length with
    | .error _ => (false, buffer)
    | .data bytes => (bytes.length = buffer.length, buffer.overwrite 0 bytes)

theorem read_length (image : ErofsRawImageFile file) (buffer : Bytes) (offset : Nat) :
    (image.read buffer offset).2.length = buffer.length := by
  unfold read
  split_ifs
  · rfl
  · split
    · rfl
    · next bytes hread =>
      have hle := (file.pread_prefix _ _ _ hread).length_le
      have hslice := Bytes.slice_length_le file.contents (wrap64 (image.offset + offset))
        buffer.length
      exact Bytes.overwrite_length (by omega)

theorem size_lt (image : ErofsRawImageFile file) : image.size < 2 ^ 64 := by
  have hrange := image.range_le
  have hlength := file.length_lt
  omega

/-- A raw image as a file that an EROFS image is read from. -/
def toImageFile (image : ErofsRawImageFile file) : IErofsImageFile Unit where
  size := image.size
  size_lt := image.size_lt
  read _ buffer offset := ((image.read buffer offset).1, (image.read buffer offset).2, ())
  read_length _ buffer offset := image.read_length buffer offset

/-- The bytes of the image. -/
def contents (image : ErofsRawImageFile file) : Bytes :=
  file.contents.slice image.offset image.size

end ErofsRawImageFile

/-! ## Protected images -/

theorem fileSize_lt {file : DataFile} (f : DmVerityProtectedFile file) : f.fileSize < 2 ^ 64 := by
  have hrange := f.range_le
  have hlength := file.length_lt
  omega

/-- A protected file as a file that an EROFS image is read from. The size is taken once. -/
def DmVerityErofsImageFile {file : DataFile} (verify : Nat → Bytes → Bool)
    (dmverityFile : DmVerityProtectedFile file) :
    IErofsImageFile (DmVerityProtectedFile file) where
  size := dmverityFile.fileSize
  size_lt := fileSize_lt dmverityFile
  read f buffer offset := f.read verify buffer buffer.length offset
  read_length _ _ _ := DmVerityProtectedFile.read_length le_rfl

/-! ## What an image serves -/

/-- In the states `good`, the file gives the bytes of `contents` for every read that
starts before their end, stays inside them and is for at most `limit` bytes. It fails
every other read. -/
structure Serves {σ : Type} (file : IErofsImageFile σ) (good : σ → Prop) (contents : Bytes)
    (limit : Nat) : Prop where
  size_eq : file.size = contents.length
  keeps : ∀ {s buffer offset}, good s → good (file.read s buffer offset).2.2
  ok_iff : ∀ {s buffer offset}, good s → ((file.read s buffer offset).1 = true ↔
    offset < contents.length ∧ offset + buffer.length ≤ contents.length ∧ buffer.length ≤ limit)
  data_eq : ∀ {s buffer offset}, good s → (file.read s buffer offset).1 = true →
    (file.read s buffer offset).2.1 = contents.slice offset buffer.length

/-- A file that refuses every read outside its contents serves them, if it does inside. -/
theorem serves_of_inside {σ : Type} {file : IErofsImageFile σ} {good : σ → Prop} {contents : Bytes}
    {limit : Nat} (hsize : file.size = contents.length)
    (hkeeps : ∀ {s buffer offset}, good s → good (file.read s buffer offset).2.2)
    (houtside : ∀ {s buffer offset}, good s →
      offset ≥ file.size ∨ buffer.length > file.size - offset →
      (file.read s buffer offset).1 = false)
    (hinside : ∀ {s buffer offset}, good s → offset < file.size →
      offset + buffer.length ≤ file.size →
      ((file.read s buffer offset).1 = true ↔ buffer.length ≤ limit) ∧
      ((file.read s buffer offset).1 = true →
        (file.read s buffer offset).2.1 = contents.slice offset buffer.length)) :
    Serves file good contents limit := by
  refine ⟨hsize, hkeeps, fun {s buffer offset} hs => ?_, fun {s buffer offset} hs hok => ?_⟩
  · by_cases hrange : offset ≥ file.size ∨ buffer.length > file.size - offset
    · rw [houtside hs hrange]
      exact iff_of_false Bool.false_ne_true (by omega)
    · refine (hinside hs (by omega) (by omega)).1.trans ?_
      omega
  · by_cases hrange : offset ≥ file.size ∨ buffer.length > file.size - offset
    · exact absurd ((houtside hs hrange).symm.trans hok) Bool.false_ne_true
    · exact (hinside hs (by omega) (by omega)).2 hok

/-- A `pread` inside the file gives what it is asked for, but never more than `limit` bytes. -/
def GivesUpTo (file : DataFile) (limit : Nat) : Prop :=
  ∀ offset size, offset + size ≤ file.contents.length →
    file.pread offset size = .data (file.contents.slice offset (min size limit))

/-- Every block of a protected file can be read in full and verifies. -/
def Intact {file : DataFile} (verify : Nat → Bytes → Bool) (f : DmVerityProtectedFile file) :
    Prop :=
  ∀ n, n * kBlockSize < f.fileSize → DmVerityProtectedFile.Verifies file verify f.fileOffset n

namespace ErofsRawImageFile

variable {file : DataFile} {image : ErofsRawImageFile file}

theorem contents_length : image.contents.length = image.size := Bytes.slice_length image.range_le

/-- One read inside the image: it is short when it is for more bytes than the limit. -/
theorem read_inside {limit offset : Nat} {buffer : Bytes} (hfile : GivesUpTo file limit)
    (hoffset : offset < image.size) (hfits : offset + buffer.length ≤ image.size) :
    ((image.read buffer offset).1 = true ↔ buffer.length ≤ limit) ∧
    ((image.read buffer offset).1 = true →
      (image.read buffer offset).2 = image.contents.slice offset buffer.length) := by
  have hrange := image.range_le
  have hlength := file.length_lt
  have hslice : (file.contents.slice (image.offset + offset) (min buffer.length limit)).length =
      min buffer.length limit := Bytes.slice_length (by omega)
  rw [read, if_neg (by omega), wrap64_of_lt (by omega), hfile _ _ (by omega)]
  simp only [decide_eq_true_eq, hslice, min_eq_left_iff, true_and]
  intro hlimit
  rw [Nat.min_eq_left hlimit] at hslice ⊢
  rw [contents, Bytes.slice_slice hfits, Bytes.overwrite, hslice, Nat.zero_add, List.take_zero,
    List.nil_append, List.drop_length, List.append_nil]

theorem serves {limit : Nat} (hfile : GivesUpTo file limit) :
    Serves image.toImageFile (fun _ => True) image.contents limit := by
  refine serves_of_inside image.contents_length.symm (fun _ => trivial) ?_ ?_
  · intro _ buffer offset _ (hrange : offset ≥ image.size ∨ buffer.length > image.size - offset)
    show (image.read buffer offset).1 = false
    rw [read, if_pos hrange]
  · exact fun _ hoffset hfits => read_inside hfile hoffset hfits

end ErofsRawImageFile

namespace DmVerityErofsImageFile

open DmVerityProtectedFile

variable {file : DataFile} {verify : Nat → Bytes → Bool} {dmverityFile : DmVerityProtectedFile file}

/-- The bytes of the image. -/
def contents (dmverityFile : DmVerityProtectedFile file) : Bytes :=
  file.contents.slice dmverityFile.fileOffset dmverityFile.fileSize

theorem contents_length : (contents dmverityFile).length = dmverityFile.fileSize :=
  Bytes.slice_length dmverityFile.range_le

/-- One read inside the image, also one of no bytes. -/
theorem read_inside {f : DmVerityProtectedFile file} {buffer : Bytes} {offset : Nat}
    (hintact : Intact verify dmverityFile)
    (hf : Coherent verify dmverityFile.fileOffset dmverityFile.fileSize f)
    (hoffset : offset < dmverityFile.fileSize)
    (hfits : offset + buffer.length ≤ dmverityFile.fileSize) :
    (f.read verify buffer buffer.length offset).1 = true ∧
    (f.read verify buffer buffer.length offset).2.1 =
      (contents dmverityFile).slice offset buffer.length := by
  rw [contents, Bytes.slice_slice hfits]
  rcases Nat.eq_zero_or_pos buffer.length with hempty | hpos
  · obtain rfl := List.eq_nil_of_length_eq_zero hempty
    rcases hread : f.read verify [] 0 offset with ⟨ok, data, f'⟩
    obtain ⟨-, rfl, hok⟩ := read_empty hf hoffset hread
    have hblock : offset / kBlockSize * kBlockSize < dmverityFile.fileSize :=
      Nat.lt_of_le_of_lt (Nat.div_mul_le_self _ _) hoffset
    rw [List.length_nil, Bytes.slice_size_zero]
    exact ⟨hok (hintact _ hblock), rfl⟩
  · obtain ⟨-, hread⟩ := read_spec hf hpos hfits rfl rfl
    have hok := hread.ok_iff.mpr fun n hn _ => hintact n (Nat.lt_of_lt_of_le hn hfits)
    exact ⟨hok, hread.buffer_eq hok⟩

/-- An intact protected image serves its bytes, whatever was read before. -/
theorem serves (hintact : Intact verify dmverityFile) :
    Serves (DmVerityErofsImageFile verify dmverityFile)
      (Coherent verify dmverityFile.fileOffset dmverityFile.fileSize) (contents dmverityFile)
      dmverityFile.fileSize := by
  refine serves_of_inside contents_length.symm (fun hf => read_coherent hf rfl) ?_ ?_
  · intro f buffer offset hf hrange
    have hrange : offset ≥ f.fileSize ∨ buffer.length > f.fileSize - offset := by
      rw [hf.size_eq]
      exact hrange
    show (f.read verify buffer buffer.length offset).1 = false
    rw [DmVerityProtectedFile.read, if_pos hrange]
  · intro f buffer offset hf hoffset hfits
    obtain ⟨hok, hdata⟩ := read_inside hintact hf hoffset hfits
    exact ⟨iff_of_true hok (Nat.le_trans (Nat.le_add_left _ _) hfits), fun _ => hdata⟩

end DmVerityErofsImageFile

end Erofs
