import Ralf.Erofs.SuperBlock
import Ralf.Lib.Numeral

/-!
# The data of an entry in a tarball

An entry of an uncompressed tarball can be mapped. Its data is behind its header, and in
front of that there may be extension headers with payloads of their own.
`getTarArchiveEntryMappableFile` goes over them from the position that libarchive has for
the entry.

`getTarArchiveEntryMappableFile_exact` says that it finds the data, if no payload is larger
than the files that may be mapped, and that it never gives a range that is not behind a
header of a regular file that it came to.
-/

namespace Oci

open Numeral

/-! ## The archive -/

/-- `MAX_MMAP_FILE_SIZE`, 2 GiB. -/
def maxMmapFileSize : Nat := 2 * 1024 * 1024 * 1024

/-- The largest `off_t` and `la_int64_t`. -/
def offMax : Nat := 2 ^ 63 - 1

def roundUp (n s : Nat) : Nat := (n + s - 1) / s * s

/-- The size of a `TarFileHeader`. -/
def tarHeaderSize : Nat := 512

/-- The field `fileSize` of a header. -/
def headerFileSize (header : Bytes) : Bytes := header.slice 124 12

/-- The field `fileType` of a header. -/
def headerFileType (header : Bytes) : UInt8 := header.getD 156 0

def isRegular (fileType : UInt8) : Bool := fileType = 48 ∨ fileType = 0

/-- The types `x`, `g`, `K` and `L` of PAX and GNU extended headers. -/
def isExtension (fileType : UInt8) : Bool :=
  fileType = 120 ∨ fileType = 103 ∨ fileType = 75 ∨ fileType = 76

/-- An archive file with its descriptor, the header position of the entry, and what the calls of the
system give: the errors of reads at an offset, and a copy of the descriptor. -/
structure TarArchive where
  fd : Int
  file : Bytes
  headerOffset : Int
  readError : Nat → Option Nat
  /-- What `errno` is when a read is short. -/
  errno : Nat
  dup : Except Nat Nat

/-- A range of a file. -/
structure OCIMappableFile where
  fd : Nat
  offset : Nat
  size : Nat
  deriving DecidableEq, Repr

namespace TarArchive

/-- Reads a header, or gives the error number. -/
def pread (archive : TarArchive) (offset : Nat) : Except Nat Bytes :=
  match archive.readError offset with
  | some errno => .error errno
  | none =>
    if archive.file.length < offset + tarHeaderSize then .error archive.errno
    else .ok (archive.file.slice offset tarHeaderSize)

theorem pread_inside {archive : TarArchive} {offset : Nat} {header : Bytes}
    (h : archive.pread offset = .ok header) : offset + tarHeaderSize ≤ archive.file.length := by
  unfold pread at h
  split at h
  · cases h
  · split at h
    · cases h
    · next hle => exact Nat.not_lt.mp hle

/-- The range behind the header of a regular file. -/
def mapped (archive : TarArchive) (entrySize offset : Nat) : Result OCIMappableFile :=
  let imageOffset := wrap64 (offset + 512)
  if wrap64 (imageOffset + entrySize) < imageOffset then
    .error (.ralf .packageContentsInvalid "Tar entry size overflow")
  else if wrap64 (imageOffset + entrySize) > offMax then
    .error (.ralf .packageContentsInvalid "Tar entry size out of bounds")
  else
    match archive.dup with
    | .error errno => .error (.system errno "Failed to dup archive fd")
    | .ok duppedFd => .ok ⟨duppedFd, imageOffset, entrySize⟩

/-- A type in a text, as the signed character that it is. -/
def shownType (fileType : UInt8) : String :=
  Erofs.ErofsSuperBlock.hex 2
    (if fileType.toNat < 128 then fileType.toNat else 2 ^ 32 - 256 + fileType.toNat)

/-- The loop over the headers. There is no value when the offset leaves its range. -/
def walkHeaders (archive : TarArchive) (entrySize offset : Nat) : Option (Result OCIMappableFile) :=
  match _hread : archive.pread offset with
  | .error errno => some (.error (.system errno "Failed to read tar header"))
  | .ok header =>
    let dataSize := (strtoul 8 (headerFileSize header)).toNat
    if dataSize = 0 ∨ dataSize > maxMmapFileSize then
      some (.error (.ralf .packageContentsInvalid "Found invalid file size in tar header"))
    else if isRegular (headerFileType header) then some (archive.mapped entrySize offset)
    else if isExtension (headerFileType header) then
      let next := offset + (512 + roundUp dataSize 512)
      if next > offMax then none else archive.walkHeaders entrySize next
    else
      let shown := shownType (headerFileType header)
      some (.error (.ralf .packageContentsInvalid
        s!"Unsupported file type (0x{shown}) in tar archive"))
termination_by archive.file.length - offset
decreasing_by
  have hinside := pread_inside _hread
  unfold tarHeaderSize at hinside
  omega

end TarArchive

/-- The range of the data of an entry, given the size that libarchive has for it. -/
def getTarArchiveEntryMappableFile (archive : TarArchive) (entrySize : Int) :
    Option (Result OCIMappableFile) :=
  if archive.fd < 0 then
    some (.error (.ralf .internalError "Failed to get archive file descriptor"))
  else if entrySize ≤ 0 ∨ entrySize > maxMmapFileSize then
    some (.error (.ralf .packageFileTooLarge "File is too large"))
  else if archive.headerOffset < 0 ∨ archive.headerOffset ≥ offMax - entrySize then
    some (.error (.ralf .internalError
      "Failed to get archive header offset or out of bounds"))
  else if archive.headerOffset % 512 ≠ 0 then
    some (.error (.ralf .internalError "Archive header offset is not aligned to 512 bytes"))
  else archive.walkHeaders entrySize.toNat archive.headerOffset.toNat

/-! ## Entries as they are stored -/

/-- A size field: octal digits, perhaps behind blanks, up to a blank, a NUL or the end. -/
def OctalField (field : Bytes) (n : Nat) : Prop :=
  ∃ blanks digits rest, field = blanks ++ (digits ++ rest) ∧ (∀ c ∈ blanks, c = 32) ∧
    (∀ c ∈ digits, isDigit 8 c = true) ∧ digits ≠ [] ∧ (∀ c ∈ rest.head?, c = 32 ∨ c = 0) ∧
    ofDigits 8 digits = n

/-- An extension header with its payload, padded to blocks of 512 bytes. -/
structure Extension where
  header : Bytes
  payload : Bytes
  padding : Bytes
  header_length : header.length = tarHeaderSize
  header_type : isExtension (headerFileType header) = true
  header_size : OctalField (headerFileSize header) payload.length
  payload_ne_nil : payload ≠ []
  padding_length : payload.length + padding.length = roundUp payload.length 512

def Extension.bytes (extension : Extension) : Bytes :=
  extension.header ++ (extension.payload ++ extension.padding)

/-- A tarball around an entry: extension headers, the header and the data. -/
structure TarEntry where
  before : Bytes
  extensions : List Extension
  header : Bytes
  data : Bytes
  after : Bytes
  before_aligned : before.length % 512 = 0
  header_length : header.length = tarHeaderSize
  header_type : isRegular (headerFileType header) = true
  header_size : OctalField (headerFileSize header) data.length

namespace TarEntry

/-- The bytes from the regular header on. -/
def last (entry : TarEntry) : Bytes := entry.header ++ (entry.data ++ entry.after)

def bytes (entry : TarEntry) : Bytes :=
  entry.before ++ ((entry.extensions.map Extension.bytes).flatten ++ entry.last)

/-- The offset of the first byte of the data. -/
def dataOffset (entry : TarEntry) : Nat :=
  entry.before.length + (entry.extensions.map Extension.bytes).flatten.length + tarHeaderSize

end TarEntry

theorem OctalField.strtoul {field : Bytes} {n : Nat} (h : OctalField field n) (hn : n < 2 ^ 64) :
    (Numeral.strtoul 8 field).toNat = n := by
  obtain ⟨blanks, digits, rest, rfl, hblanks, hdigits, hnonempty, hrest, rfl⟩ := h
  refine strtoul_digits (by decide) (by decide) (fun c hc => ?_) hdigits hnonempty (fun c hc => ?_) hn
  · rw [hblanks c hc]
    rfl
  · rcases hrest c hc with rfl | rfl
    · rfl
    · rfl

theorem Extension.bytes_length (extension : Extension) :
    extension.bytes.length = 512 + roundUp extension.payload.length 512 := by
  unfold bytes
  rw [List.length_append, List.length_append, extension.header_length, extension.padding_length]
  rfl

namespace TarArchive

variable {archive : TarArchive} {entrySize : Nat}

/-- The header at a position of the file. -/
theorem pread_header {before header rest : Bytes}
    (hfile : archive.file = before ++ (header ++ rest))
    (hheader : header.length = tarHeaderSize) (hread : archive.readError before.length = none) :
    archive.pread before.length = .ok header := by
  unfold pread
  rw [hread]
  dsimp only
  rw [if_neg, hfile, Bytes.slice_append_of_le (Nat.le_refl _), Nat.sub_self,
    Bytes.slice_append_left (by omega), ← hheader, Bytes.slice_zero_self]
  rw [hfile, List.length_append, List.length_append]
  omega

/-- The loop goes over one extension header. -/
theorem walkHeaders_extension {before rest : Bytes} {extension : Extension}
    (hfile : archive.file = before ++ (extension.bytes ++ rest))
    (hlen : archive.file.length < 2 ^ 63)
    (hread : archive.readError before.length = none)
    (hpayload : extension.payload.length ≤ maxMmapFileSize) :
    archive.walkHeaders entrySize before.length =
      archive.walkHeaders entrySize (before ++ extension.bytes).length := by
  have hheader : archive.pread before.length = .ok extension.header := by
    refine @pread_header _ _ _ (extension.payload ++ extension.padding ++ rest) ?_
      extension.header_length hread
    rw [hfile, Extension.bytes, List.append_assoc]
  have hpos := List.length_pos_of_ne_nil extension.payload_ne_nil
  have hsize : (strtoul 8 (headerFileSize extension.header)).toNat = extension.payload.length :=
    extension.header_size.strtoul (by unfold maxMmapFileSize at hpayload; omega)
  have hregular : ¬ isRegular (headerFileType extension.header) = true := by
    have htype := extension.header_type
    unfold isExtension at htype
    unfold isRegular
    rw [decide_eq_true_eq] at htype ⊢
    rcases htype with htype | htype | htype | htype <;> rw [htype] <;> decide
  have hnext : before.length + (512 + roundUp extension.payload.length 512) =
      (before ++ extension.bytes).length := by
    rw [List.length_append, extension.bytes_length]
  have hfits : ¬ (before ++ extension.bytes).length > offMax := by
    rw [hfile, ← List.append_assoc, List.length_append] at hlen
    unfold offMax
    omega
  rw [walkHeaders]
  split
  · next h => cases hheader.symm.trans h
  · next header h =>
    cases hheader.symm.trans h
    dsimp only
    rw [hsize, if_neg (by omega), if_neg hregular, if_pos extension.header_type, hnext,
      if_neg hfits]

/-- The loop goes over any number of extension headers. -/
theorem walkHeaders_extensions {extensions : List Extension} {before rest : Bytes}
    (hfile : archive.file = before ++ ((extensions.map Extension.bytes).flatten ++ rest))
    (hlen : archive.file.length < 2 ^ 63) (hread : ∀ offset, archive.readError offset = none)
    (hpayload : ∀ extension ∈ extensions, extension.payload.length ≤ maxMmapFileSize) :
    archive.walkHeaders entrySize before.length =
      archive.walkHeaders entrySize
        (before.length + (extensions.map Extension.bytes).flatten.length) := by
  induction extensions generalizing before with
  | nil => rfl
  | cons extension extensions ih =>
    rw [List.map_cons, List.flatten_cons, List.append_assoc] at hfile
    rw [walkHeaders_extension hfile hlen (hread _) (hpayload _ List.mem_cons_self),
      ih (by rw [hfile, List.append_assoc]) fun other hother =>
        hpayload other (List.mem_cons_of_mem _ hother),
      List.map_cons, List.flatten_cons, List.length_append, List.length_append, Nat.add_assoc]

/-- The loop ends at the header of a regular file, and the range is behind it. -/
theorem walkHeaders_regular {before header data after : Bytes} {fd : Nat}
    (hfile : archive.file = before ++ (header ++ (data ++ after)))
    (hlen : archive.file.length < 2 ^ 63) (hread : archive.readError before.length = none)
    (hheader : header.length = tarHeaderSize) (htype : isRegular (headerFileType header) = true)
    (hsize : OctalField (headerFileSize header) data.length) (hdup : archive.dup = .ok fd)
    (hpos : 0 < data.length) (hmax : data.length ≤ maxMmapFileSize) :
    archive.walkHeaders data.length before.length =
      some (.ok ⟨fd, before.length + 512, data.length⟩) := by
  have hfits : before.length + 512 + data.length ≤ archive.file.length := by
    rw [hfile, List.length_append, List.length_append, List.length_append, hheader]
    unfold tarHeaderSize
    omega
  have hmapped : archive.mapped data.length before.length =
      .ok ⟨fd, before.length + 512, data.length⟩ := by
    have hoffset : wrap64 (before.length + 512) = before.length + 512 := wrap64_of_lt (by omega)
    have hend : wrap64 (before.length + 512 + data.length) = before.length + 512 + data.length :=
      wrap64_of_lt (by omega)
    unfold mapped
    dsimp only
    rw [hoffset, hend, if_neg (by omega), if_neg (by unfold offMax; omega), hdup]
  rw [walkHeaders]
  split
  · next h => cases (pread_header hfile hheader hread).symm.trans h
  · next h =>
    cases (pread_header hfile hheader hread).symm.trans h
    dsimp only
    rw [hsize.strtoul (by unfold maxMmapFileSize at hmax; omega), if_neg (by omega), if_pos htype,
      hmapped]

/-- The offsets of the headers that are read: the first one, and the ones behind the payloads of
extension headers. -/
inductive Visited (archive : TarArchive) (start : Nat) : Nat → Prop
  | first : Visited archive start start
  | next {offset : Nat} {header : Bytes} (h : Visited archive start offset)
      (hread : archive.pread offset = .ok header)
      (htype : isExtension (headerFileType header) = true) :
      Visited archive start (offset + (512 + roundUp (strtoul 8 (headerFileSize header)).toNat 512))

/-- The range starts behind the header of a regular file that was read. -/
def BehindRegular (archive : TarArchive) (start : Nat) (file : OCIMappableFile) : Prop :=
  ∃ offset header, Visited archive start offset ∧ archive.pread offset = .ok header ∧
    isRegular (headerFileType header) = true ∧ file.offset = offset + tarHeaderSize

theorem roundUp_le {n : Nat} (h : n ≤ maxMmapFileSize) : roundUp n 512 ≤ maxMmapFileSize := by
  unfold roundUp maxMmapFileSize at *
  omega

theorem mapped_ok {offset : Nat} {file : OCIMappableFile}
    (hinside : offset + tarHeaderSize ≤ archive.file.length) (hlen : archive.file.length < 2 ^ 63)
    (h : archive.mapped entrySize offset = .ok file) :
    file.offset = offset + tarHeaderSize ∧ file.size = entrySize := by
  unfold mapped at h
  dsimp only at h
  split at h
  · cases h
  split at h
  · cases h
  split at h
  · cases h
  · cases h
    unfold tarHeaderSize at hinside ⊢
    exact ⟨wrap64_of_lt (by omega), rfl⟩

/-- A header whose size is too large. -/
theorem walkHeaders_tooLarge {offset : Nat} {header : Bytes}
    (hread : archive.pread offset = .ok header)
    (hsize : (strtoul 8 (headerFileSize header)).toNat > maxMmapFileSize) :
    archive.walkHeaders entrySize offset =
      some (.error (.ralf .packageContentsInvalid "Found invalid file size in tar header")) := by
  rw [walkHeaders]
  split
  · next h => cases hread.symm.trans h
  · next h =>
    cases hread.symm.trans h
    exact if_pos (.inr hsize)

/-- Whatever the headers are, the loop ends. -/
theorem walkHeaders_ends {start offset : Nat} (hlen : archive.file.length + 2 ^ 31 < 2 ^ 63)
    (hvisited : Visited archive start offset) :
    ∃ result, archive.walkHeaders entrySize offset = some result ∧
      ∀ file, result = .ok file → BehindRegular archive start file ∧ file.size = entrySize := by
  fun_induction walkHeaders archive entrySize offset with
  | case1 => exact ⟨_, rfl, fun _ hfile => (nomatch hfile)⟩
  | case2 => exact ⟨_, rfl, fun _ hfile => (nomatch hfile)⟩
  | case3 offset header hread dataSize hsize htype =>
    refine ⟨_, rfl, fun file hfile => ?_⟩
    obtain ⟨hoffset, hfileSize⟩ := mapped_ok (pread_inside hread) (by omega) hfile
    exact ⟨⟨offset, header, hvisited, hread, htype, hoffset⟩, hfileSize⟩
  | case4 offset header hread dataSize hsize _ _ next hmore =>
    -- the payload is too small to leave the range
    have hinside := pread_inside hread
    have hround := roundUp_le (Nat.not_lt.mp (not_or.mp hsize).2)
    unfold tarHeaderSize at hinside
    unfold maxMmapFileSize at hround
    unfold offMax at hmore
    omega
  | case5 offset header hread dataSize hsize _ htype next hle ih =>
    exact ih (hvisited.next hread htype)
  | case6 => exact ⟨_, rfl, fun _ hfile => (nomatch hfile)⟩

end TarArchive

/-- The archive is the tarball of an entry, at the position of its first header. It can be read, and
its descriptor copied. -/
structure TarArchive.Holds (archive : TarArchive) (entry : TarEntry) (fd : Nat) : Prop where
  file : archive.file = entry.bytes
  length : archive.file.length < 2 ^ 63
  headerOffset : archive.headerOffset = entry.before.length
  descriptor : 0 ≤ archive.fd
  readError : ∀ offset, archive.readError offset = none
  dup : archive.dup = .ok fd

theorem TarArchive.Holds.last {entry : TarEntry} {archive : TarArchive} {fd : Nat}
    (h : archive.Holds entry fd) :
    archive.file = (entry.before ++ (entry.extensions.map Extension.bytes).flatten) ++
      (entry.header ++ (entry.data ++ entry.after)) := by
  rw [h.file, TarEntry.bytes, ← List.append_assoc]
  rfl

/-- The checks in front of the loop are passed. -/
theorem getTarArchiveEntryMappableFile_walks {entry : TarEntry} {archive : TarArchive} {fd : Nat}
    (h : archive.Holds entry fd) (hpos : 0 < entry.data.length)
    (hmax : entry.data.length ≤ maxMmapFileSize) :
    getTarArchiveEntryMappableFile archive entry.data.length =
      archive.walkHeaders entry.data.length entry.before.length := by
  have hlength : entry.before.length + 512 + entry.data.length ≤ archive.file.length := by
    rw [h.last, List.length_append, List.length_append, List.length_append, List.length_append,
      entry.header_length]
    unfold tarHeaderSize
    omega
  have hlt := h.length
  have haligned := entry.before_aligned
  unfold getTarArchiveEntryMappableFile
  rw [h.headerOffset, if_neg (not_lt.mpr h.descriptor), if_neg (by omega),
    if_neg (by unfold offMax; omega), if_neg (by omega), Int.toNat_natCast, Int.toNat_natCast]

theorem getTarArchiveEntryMappableFile_of_holds {entry : TarEntry} {archive : TarArchive} {fd : Nat}
    (h : archive.Holds entry fd) (hpos : 0 < entry.data.length)
    (hmax : entry.data.length ≤ maxMmapFileSize)
    (hpayload : ∀ extension ∈ entry.extensions, extension.payload.length ≤ maxMmapFileSize) :
    getTarArchiveEntryMappableFile archive entry.data.length =
      some (.ok ⟨fd, entry.dataOffset, entry.data.length⟩) := by
  have hwalk := TarArchive.walkHeaders_regular h.last h.length (h.readError _) entry.header_length
    entry.header_type entry.header_size h.dup hpos hmax
  rw [getTarArchiveEntryMappableFile_walks h hpos hmax,
    TarArchive.walkHeaders_extensions h.file h.length h.readError hpayload, ← List.length_append,
    hwalk, List.length_append]
  rfl

/-- The data is found, if no payload is larger than the files that may be mapped. Whatever
the headers are, there is an error or a range behind the header of a regular file that was
read. -/
theorem getTarArchiveEntryMappableFile_exact :
    (∀ (entry : TarEntry) (archive : TarArchive) (fd : Nat), archive.Holds entry fd →
      0 < entry.data.length → entry.data.length ≤ maxMmapFileSize →
      (∀ extension ∈ entry.extensions, extension.payload.length ≤ maxMmapFileSize) →
      getTarArchiveEntryMappableFile archive entry.data.length =
        some (.ok ⟨fd, entry.dataOffset, entry.data.length⟩)) ∧
    ∀ (archive : TarArchive) (entrySize : Int), archive.file.length + 2 ^ 31 < 2 ^ 63 →
      ∃ result, getTarArchiveEntryMappableFile archive entrySize = some result ∧
        ∀ file, result = .ok file →
          TarArchive.BehindRegular archive archive.headerOffset.toNat file ∧
            file.size = entrySize := by
  refine ⟨fun entry archive fd h hpos hmax hpayload =>
    getTarArchiveEntryMappableFile_of_holds h hpos hmax hpayload, fun archive entrySize hlen => ?_⟩
  unfold getTarArchiveEntryMappableFile
  split
  · exact ⟨_, rfl, fun _ hfile => (nomatch hfile)⟩
  split
  · exact ⟨_, rfl, fun _ hfile => (nomatch hfile)⟩
  next hsize =>
  split
  · exact ⟨_, rfl, fun _ hfile => (nomatch hfile)⟩
  split
  · exact ⟨_, rfl, fun _ hfile => (nomatch hfile)⟩
  · obtain ⟨result, hresult, hok⟩ :=
      @TarArchive.walkHeaders_ends archive entrySize.toNat _ _ hlen .first
    refine ⟨result, hresult, fun file hfile => ?_⟩
    obtain ⟨hbehind, hfileSize⟩ := hok file hfile
    exact ⟨hbehind, by omega⟩

/-! ### Entries with one extension header -/

/-- A header with a size field and a type. -/
def tarHeader (fileSize : Bytes) (fileType : UInt8) : Bytes :=
  List.replicate 124 0 ++ (fileSize ++ (List.replicate 20 0 ++ fileType :: List.replicate 355 0))

theorem tarHeader_length {fileSize : Bytes} (h : fileSize.length = 12) (fileType : UInt8) :
    (tarHeader fileSize fileType).length = tarHeaderSize := by
  unfold tarHeader tarHeaderSize
  rw [List.length_append, List.length_append, List.length_append, List.length_cons, h,
    List.length_replicate, List.length_replicate, List.length_replicate]

/-- The size field of one byte, `00000000001`. -/
def oneByteField : Bytes := [48, 48, 48, 48, 48, 48, 48, 48, 48, 48, 49, 0]

theorem octalField_oneByteField : OctalField oneByteField 1 :=
  ⟨[], [48, 48, 48, 48, 48, 48, 48, 48, 48, 48, 49], [0], rfl, by simp,
    List.all_eq_true.mp (by decide), by decide, by simp, by decide⟩

/-- An entry of one byte behind an extension header. -/
def oneByteEntry (extension : Extension) : TarEntry where
  before := []
  extensions := [extension]
  header := tarHeader oneByteField 48
  data := [65]
  after := []
  before_aligned := rfl
  header_length := tarHeader_length (by decide) _
  header_type := by decide +kernel
  header_size := octalField_oneByteField

def archiveOf (entry : TarEntry) : TarArchive where
  fd := 3
  file := entry.bytes
  headerOffset := entry.before.length
  readError _ := none
  errno := 0
  dup := .ok 4

theorem archiveOf_holds {extension : Extension} (h : extension.bytes.length < 2 ^ 62) :
    (archiveOf (oneByteEntry extension)).Holds (oneByteEntry extension) 4 where
  file := rfl
  length := by
    have hlast : (oneByteEntry extension).last.length = 513 := by
      unfold TarEntry.last
      rw [List.length_append, (oneByteEntry extension).header_length]
      rfl
    have hbytes : (archiveOf (oneByteEntry extension)).file =
        extension.bytes ++ [] ++ (oneByteEntry extension).last := rfl
    rw [hbytes, List.append_nil, List.length_append, hlast]
    omega
  headerOffset := rfl
  descriptor := Int.natCast_nonneg 3
  readError _ := rfl
  dup := rfl

/-- A PAX header with a payload of one byte. -/
def smallExtension : Extension where
  header := tarHeader oneByteField 120
  payload := [10]
  padding := List.replicate 511 0
  header_length := tarHeader_length (by decide) _
  header_type := by decide +kernel
  header_size := octalField_oneByteField
  payload_ne_nil := List.cons_ne_nil _ _
  padding_length := by decide +kernel

theorem getTarArchiveEntryMappableFile_exact_small :
    getTarArchiveEntryMappableFile (archiveOf (oneByteEntry smallExtension)) 1 =
      some (.ok ⟨4, 1536, 1⟩) ∧
    ∃ result, getTarArchiveEntryMappableFile (archiveOf (oneByteEntry smallExtension)) 1 =
      some result := by
  have hbytes : smallExtension.bytes.length = 1024 := by decide +kernel
  have hholds := archiveOf_holds (show smallExtension.bytes.length < 2 ^ 62 by omega)
  have hlength : (archiveOf (oneByteEntry smallExtension)).file.length = 1537 := by decide +kernel
  have hoffset : (oneByteEntry smallExtension).dataOffset = 1536 := by decide +kernel
  constructor
  · rw [← hoffset]
    exact getTarArchiveEntryMappableFile_exact.1 _ _ _ hholds (by decide) (by decide) (by decide)
  · obtain ⟨result, hresult, -⟩ := getTarArchiveEntryMappableFile_exact.2
      (archiveOf (oneByteEntry smallExtension)) 1 (by omega)
    exact ⟨result, hresult⟩

/-- A payload of more than 2 GiB. -/
def largePayload : Bytes := List.replicate (2 ^ 31 + 1) 0

theorem largePayload_length : largePayload.length = 2 ^ 31 + 1 := List.length_replicate

/-- The size field of the payload, `20000000001`. -/
def largeField : Bytes := [50, 48, 48, 48, 48, 48, 48, 48, 48, 48, 49, 0]

theorem octalField_largeField : OctalField largeField largePayload.length := by
  rw [largePayload_length]
  exact ⟨[], [50, 48, 48, 48, 48, 48, 48, 48, 48, 48, 49], [0], rfl, by simp,
    List.all_eq_true.mp (by decide), by decide, by simp, by decide⟩

def largeExtension : Extension where
  header := tarHeader largeField 120
  payload := largePayload
  padding := List.replicate 511 0
  header_length := tarHeader_length (by decide) _
  header_type := by decide +kernel
  header_size := octalField_largeField
  payload_ne_nil := by
    rw [← List.length_pos_iff, largePayload_length]
    decide
  padding_length := by
    rw [largePayload_length, List.length_replicate]
    decide

/-- A larger payload is refused. -/
theorem not_getTarArchiveEntryMappableFile_exact :
    ¬ ∀ (entry : TarEntry) (archive : TarArchive) (fd : Nat), archive.Holds entry fd →
      0 < entry.data.length → entry.data.length ≤ maxMmapFileSize →
      getTarArchiveEntryMappableFile archive entry.data.length =
        some (.ok ⟨fd, entry.dataOffset, entry.data.length⟩) := by
  intro hexact
  have hbytes : largeExtension.bytes.length < 2 ^ 62 := by
    have hpayload : largeExtension.payload.length = 2 ^ 31 + 1 := largePayload_length
    rw [largeExtension.bytes_length, hpayload]
    decide
  have hholds := archiveOf_holds hbytes
  have hfile : (archiveOf (oneByteEntry largeExtension)).file =
      [] ++ (largeExtension.header ++ (largeExtension.payload ++ largeExtension.padding ++
        (oneByteEntry largeExtension).last)) := by
    have hextensions : (archiveOf (oneByteEntry largeExtension)).file =
        [] ++ (([largeExtension].map Extension.bytes).flatten ++
          (oneByteEntry largeExtension).last) := hholds.file
    rw [hextensions, List.map_singleton, List.flatten_singleton, Extension.bytes, List.append_assoc]
  have hread := TarArchive.pread_header hfile largeExtension.header_length rfl
  have hfield := largeExtension.header_size
  have hpayload : largeExtension.payload.length = 2 ^ 31 + 1 := largePayload_length
  rw [hpayload] at hfield
  have hsize : (strtoul 8 (headerFileSize largeExtension.header)).toNat > maxMmapFileSize := by
    rw [hfield.strtoul (by decide)]
    decide
  have hwalk := @TarArchive.walkHeaders_tooLarge _ 1 _ _ hread hsize
  have hget := getTarArchiveEntryMappableFile_walks hholds (by decide) (by decide)
  have hok := hexact (oneByteEntry largeExtension) _ 4 hholds (by decide) (by decide)
  cases hok.symm.trans (hget.trans hwalk)

end Oci
