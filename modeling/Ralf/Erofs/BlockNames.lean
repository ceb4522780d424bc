import Ralf.Erofs.DirectoryBlocks

/-!
# The bytes of a directory block

The offsets of the names come from the block itself. `Inside.processDirectoryBlock` is
`processDirectoryBlock` with every byte read on its own from the block alone, and a fault
where there is none. No such fault occurs: the checks of an entry put the next name into
the block.

The names of an accepted block are slices behind the entries, one after another.
-/

namespace Erofs

/-! ## Reads of single bytes -/

namespace Inside

/-- The byte with an index. There is nothing behind the block. -/
def byte (block : Bytes) (index : Nat) : Except Fault UInt8 :=
  match block[index]? with
  | some byte => .ok byte
  | none => .error .overread

/-- The next `size` bytes from an offset on. -/
def bytes (block : Bytes) : Nat → Nat → Except Fault Bytes
  | _, 0 => .ok []
  | offset, size + 1 => do
    let first ← byte block offset
    let rest ← bytes block (offset + 1) size
    .ok (first :: rest)

/-- A little-endian number. -/
def uint (block : Bytes) (offset width : Nat) : Except Fault Nat := do
  let word ← bytes block offset width
  .ok word.le

def strnlen (block : Bytes) : Nat → Nat → Except Fault Nat
  | _, 0 => .ok 0
  | offset, maxLength + 1 => do
    let ch ← byte block offset
    if ch = 0 then .ok 0
    else do
      let rest ← strnlen block (offset + 1) maxLength
      .ok (rest + 1)

/-- The field `nameOffset` of entry `i`. -/
def nameOffset (block : Bytes) (i : Nat) : Except Fault Nat := uint block (i * dirEntrySize + 8) 2

def nameLength (block : Bytes) (dataSize nEntries i nameOff : Nat) : Except Fault Nat :=
  if i + 1 = nEntries then strnlen block nameOff (wrapSub64 dataSize nameOff)
  else do
    let next ← nameOffset block (i + 1)
    .ok (wrapSub64 next nameOff)

def processDirent (block : Bytes) (dataSize nEntries i : Nat) :
    Except Fault (Option (Option DirEntry)) := do
  let nid ← uint block (i * dirEntrySize) 8
  let fileType ← uint block (i * dirEntrySize + 10) 1
  if nid > 2 ^ 32 - 1 ∨ fileType = 0 ∨ fileType ≥ 8 then .ok none
  else do
    let nameOff ← nameOffset block i
    let nameLen ← nameLength block dataSize nEntries i nameOff
    if nameLen = 0 ∨ nameLen > erofsMaxNameLen ∨ nameOff + nameLen > dataSize then .ok none
    else do
      -- the comparison with the dots reads bytes of the name, too
      let fileName ← bytes block nameOff nameLen
      if fileName = FilePath.dot ∨ fileName = FilePath.dotdot then .ok (some none)
      else if ¬validateFileName fileName then .ok none
      else .ok (some (some ⟨nid, fileName, fileTypeOf fileType⟩))

def processDirents (block : Bytes) (dataSize nEntries : Nat) :
    Nat → Nat → List DirEntry → Attempt (List DirEntry)
  | 0, _, entries => .ok (some entries)
  | count + 1, i, entries =>
    Attempt.andThen (processDirent block dataSize nEntries i) fun entry =>
      processDirents block dataSize nEntries count (i + 1) (entries ++ entry.toList)

def processDirectoryBlock (block : Bytes) (dataSize : Nat) (entries : List DirEntry) :
    Except Fault (Option (List DirEntry)) := do
  let first ← nameOffset block 0
  if first < dirEntrySize ∨ first ≥ dataSize then .ok none
  else processDirents block dataSize (first / dirEntrySize) (first / dirEntrySize) 0 entries

/-! ### They read what is there -/

variable {block : Bytes}

theorem byte_ok {index : Nat} (h : index < block.length) : byte block index = .ok block[index] := by
  unfold byte
  rw [List.getElem?_eq_getElem h]

theorem bytes_ok {offset size : Nat} (h : offset + size ≤ block.length) :
    bytes block offset size = .ok (block.slice offset size) := by
  induction size generalizing offset with
  | zero => rw [Bytes.slice_size_zero, bytes]
  | succ size ih =>
    have hslice : block.slice offset (size + 1) =
        block[offset] :: block.slice (offset + 1) size := by
      unfold Bytes.slice
      rw [List.drop_eq_getElem_cons (by omega), List.take_succ_cons]
    rw [bytes, byte_ok (by omega), ih (by omega), hslice]
    rfl

theorem uint_ok {offset width : Nat} (h : offset + width ≤ block.length) :
    uint block offset width = .ok (block.slice offset width).le := by
  rw [uint, bytes_ok h]
  rfl

theorem strnlen_ok {offset maxLength : Nat} (h : offset + maxLength ≤ block.length) :
    strnlen block offset maxLength =
      .ok ((block.slice offset maxLength).takeWhile (· ≠ 0)).length := by
  induction maxLength generalizing offset with
  | zero => rw [Bytes.slice_size_zero, strnlen, List.takeWhile_nil, List.length_nil]
  | succ maxLength ih =>
    have hslice : block.slice offset (maxLength + 1) =
        block[offset] :: block.slice (offset + 1) maxLength := by
      unfold Bytes.slice
      rw [List.drop_eq_getElem_cons (by omega), List.take_succ_cons]
    rw [strnlen, byte_ok (by omega), ih (by omega), hslice, List.takeWhile_cons]
    by_cases hzero : block[offset] = 0
    · simp [hzero, bind, Except.bind]
    · simp [hzero, bind, Except.bind]

variable {data : Bytes} {dataSize : Nat}

/-- What is in the block is what is in the buffer. -/
theorem slice_take {offset size : Nat} (h : offset + size ≤ dataSize) :
    Bytes.slice (data.take dataSize) offset size = data.slice offset size :=
  Bytes.slice_congr (by rw [List.take_take, Nat.min_self]) h

theorem field_take {i field width : Nat} (hlength : dataSize ≤ data.length)
    (hi : (i + 1) * dirEntrySize ≤ dataSize) (hfield : field + width ≤ dirEntrySize) :
    uint (data.take dataSize) (i * dirEntrySize + field) width =
      .ok ((data.slice (i * dirEntrySize) dirEntrySize).uint field width) := by
  rw [Nat.add_mul, Nat.one_mul] at hi
  rw [uint_ok (by rw [List.length_take]; omega), slice_take (by omega), Bytes.uint,
    Bytes.slice_slice hfield]

theorem nameOffset_take {i : Nat} (hlength : dataSize ≤ data.length)
    (hi : (i + 1) * dirEntrySize ≤ dataSize) :
    nameOffset (data.take dataSize) i = .ok (ErofsDirEntry.ofBlock data i).nameOffset :=
  field_take hlength hi (by decide)

end Inside

section
variable {data : Bytes} {dataSize nEntries i : Nat}

/-- The length of a name, read byte by byte. -/
theorem nameLength_inside {dirent : ErofsDirEntry} (hlength : dataSize ≤ data.length)
    (hentries : nEntries * dirEntrySize ≤ dataSize) (hi : i < nEntries)
    (hoffset : dirent.nameOffset ≤ dataSize) (hbound : dirent.nameOffset ≤ 2 ^ 64) :
    ∃ nameLen, nameLength data dataSize nEntries i dirent = .ok nameLen ∧
      Inside.nameLength (data.take dataSize) dataSize nEntries i dirent.nameOffset =
        .ok nameLen := by
  unfold nameLength Inside.nameLength
  split
  · have hfits : dirent.nameOffset + wrapSub64 dataSize dirent.nameOffset ≤ dataSize := by
      have hle := wrapSub64_le hoffset hbound
      omega
    rw [Inside.strnlen_ok (by rw [List.length_take]; omega), Inside.slice_take hfits]
    exact ⟨_, strnlen_inside (hfits.trans hlength), rfl⟩
  · have hnext : (i + 1 + 1) * dirEntrySize ≤ dataSize :=
      (Nat.mul_le_mul_right _ (by omega)).trans hentries
    rw [Inside.nameOffset_take hlength hnext]
    exact ⟨_, rfl, rfl⟩

/-- An entry whose name does not start behind the block. -/
theorem processDirent_inside (hlength : dataSize ≤ data.length)
    (hentries : nEntries * dirEntrySize ≤ dataSize) (hi : i < nEntries)
    (hoffset : (ErofsDirEntry.ofBlock data i).nameOffset ≤ dataSize) :
    ∃ entry, processDirent data dataSize nEntries i = .ok entry ∧
      Inside.processDirent (data.take dataSize) dataSize nEntries i = .ok entry := by
  have hdirent : (i + 1) * dirEntrySize ≤ dataSize := (Nat.mul_le_mul_right _ hi).trans hentries
  have hbound : (ErofsDirEntry.ofBlock data i).nameOffset ≤ 2 ^ 64 :=
    (Bytes.uint_lt _ 8 2).le.trans (by decide)
  obtain ⟨nameLen, hname, hinside⟩ := nameLength_inside hlength hentries hi hoffset hbound
  have hnid : Inside.uint (data.take dataSize) (i * dirEntrySize) 8 =
      .ok (ErofsDirEntry.ofBlock data i).nid := by
    rw [← Nat.add_zero (i * dirEntrySize)]
    exact Inside.field_take hlength hdirent (by decide)
  have htype : Inside.uint (data.take dataSize) (i * dirEntrySize + 10) 1 =
      .ok (ErofsDirEntry.ofBlock data i).fileType :=
    Inside.field_take hlength hdirent (by decide)
  unfold processDirent Inside.processDirent
  rw [hnid, htype, Inside.nameOffset_take hlength hdirent]
  generalize ErofsDirEntry.ofBlock data i = dirent at *
  dsimp only [bind, Except.bind]
  by_cases hvalid : dirent.nid > 2 ^ 32 - 1 ∨ dirent.fileType = 0 ∨ dirent.fileType ≥ 8
  · rw [if_pos hvalid, if_pos hvalid]
    exact ⟨_, rfl, rfl⟩
  rw [if_neg hvalid, if_neg hvalid, hname, hinside]
  dsimp only
  by_cases hlong : nameLen = 0 ∨ nameLen > erofsMaxNameLen ∨ dirent.nameOffset + nameLen > dataSize
  · rw [if_pos hlong, if_pos hlong]
    exact ⟨_, rfl, rfl⟩
  have hfits : dirent.nameOffset + nameLen ≤ dataSize := by omega
  rw [if_neg hlong, if_neg hlong, Inside.bytes_ok (by rw [List.length_take]; omega),
    Inside.slice_take hfits]
  dsimp only
  split
  · exact ⟨_, rfl, rfl⟩
  split
  · exact ⟨_, rfl, rfl⟩
  · exact ⟨_, rfl, rfl⟩

/-! ## The names -/

/-- A name of a file in a directory. -/
structure ValidName (fileName : Bytes) : Prop where
  nonempty : fileName ≠ []
  short : fileName.length ≤ 255
  noSeparator : FilePath.separator ∉ fileName
  noNul : 0 ∉ fileName
  notDot : fileName ≠ FilePath.dot
  notDotdot : fileName ≠ FilePath.dotdot

theorem validName_of_validateFileName {fileName : Bytes}
    (h : validateFileName fileName = true) : ValidName fileName := by
  unfold validateFileName at h
  simp only [Bool.and_eq_true, decide_eq_true_eq, List.all_eq_true, Bool.not_eq_true',
    List.isEmpty_eq_false_iff] at h
  obtain ⟨⟨⟨⟨hnonempty, hshort⟩, hdot⟩, hdotdot⟩, hchars⟩ := h
  exact ⟨hnonempty, hshort, fun hmem => (hchars _ hmem).1 rfl, fun hmem => (hchars _ hmem).2 rfl,
    hdot, hdotdot⟩

/-- What entry `i` adds, given where the names end. -/
def blockEntry (data : Bytes) (ends : Nat → Nat) (i : Nat) : Option DirEntry :=
  let dirent := ErofsDirEntry.ofBlock data i
  let fileName := data.slice dirent.nameOffset (ends i - dirent.nameOffset)
  if fileName = FilePath.dot ∨ fileName = FilePath.dotdot then none
  else some ⟨dirent.nid, fileName, fileTypeOf dirent.fileType⟩

/-- The names of the entries of a block are slices behind the entries, one after another, and those
that are added are valid. -/
structure NameSlices (data : Bytes) (dataSize nEntries : Nat) (ends : Nat → Nat) : Prop where
  behind : ∀ i < nEntries, nEntries * dirEntrySize ≤ (ErofsDirEntry.ofBlock data i).nameOffset
  nonempty : ∀ i < nEntries, (ErofsDirEntry.ofBlock data i).nameOffset < ends i
  short : ∀ i < nEntries, ends i ≤ (ErofsDirEntry.ofBlock data i).nameOffset + 255
  inside : ∀ i < nEntries, ends i ≤ dataSize
  ordered : ∀ i j, i < j → j < nEntries → ends i ≤ (ErofsDirEntry.ofBlock data j).nameOffset
  valid : ∀ i < nEntries, ∀ entry, blockEntry data ends i = some entry → ValidName entry.fileName

/-- Where the name of entry `i` ends. -/
def nameEnd (data : Bytes) (dataSize nEntries i : Nat) : Nat :=
  let dirent := ErofsDirEntry.ofBlock data i
  match nameLength data dataSize nEntries i dirent with
  | .ok nameLen => dirent.nameOffset + nameLen
  | .error _ => 0

/-- What the checks of entry `i` say about its name. -/
structure NameChecked (data : Bytes) (dataSize nEntries i : Nat) : Prop where
  nonempty : (ErofsDirEntry.ofBlock data i).nameOffset < nameEnd data dataSize nEntries i
  short : nameEnd data dataSize nEntries i ≤ (ErofsDirEntry.ofBlock data i).nameOffset + 255
  inside : nameEnd data dataSize nEntries i ≤ dataSize
  next : i + 1 < nEntries →
    (ErofsDirEntry.ofBlock data (i + 1)).nameOffset = nameEnd data dataSize nEntries i
  valid : ∀ entry, blockEntry data (nameEnd data dataSize nEntries) i = some entry →
    ValidName entry.fileName

/-- A length that does not wrap around ends where the next name starts. -/
theorem nameOffset_next {nameLen : Nat} (hi : i + 1 < nEntries)
    (hname : nameLength data dataSize nEntries i (ErofsDirEntry.ofBlock data i) = .ok nameLen)
    (hshort : nameLen ≤ 255) :
    (ErofsDirEntry.ofBlock data (i + 1)).nameOffset =
      (ErofsDirEntry.ofBlock data i).nameOffset + nameLen := by
  have hbound : (ErofsDirEntry.ofBlock data i).nameOffset < 2 ^ 16 := Bytes.uint_lt _ 8 2
  have hnext : (ErofsDirEntry.ofBlock data (i + 1)).nameOffset < 2 ^ 16 := Bytes.uint_lt _ 8 2
  unfold nameLength at hname
  rw [if_neg (by omega)] at hname
  cases hname
  unfold wrapSub64 wrap64 at hshort ⊢
  omega

theorem processDirent_checked {entry : Option DirEntry}
    (h : processDirent data dataSize nEntries i = .ok (some entry)) :
    NameChecked data dataSize nEntries i ∧
      entry = blockEntry data (nameEnd data dataSize nEntries) i := by
  unfold processDirent at h
  dsimp only at h
  split at h
  · cases h
  split at h
  · cases h
  next nameLen hname =>
  split at h
  · cases h
  next hlong =>
  rw [not_or, not_or] at hlong
  obtain ⟨hpos, hshort, hfits⟩ := hlong
  have hend : nameEnd data dataSize nEntries i =
      (ErofsDirEntry.ofBlock data i).nameOffset + nameLen := by
    unfold nameEnd
    dsimp only
    rw [hname]
  have hentry : entry = blockEntry data (nameEnd data dataSize nEntries) i ∧
      ∀ found, entry = some found → ValidName found.fileName := by
    unfold blockEntry
    dsimp only
    rw [hend, Nat.add_sub_cancel_left]
    split at h
    · next hdots =>
      cases h
      rw [if_pos hdots]
      exact ⟨rfl, fun _ hfound => (nomatch hfound)⟩
    next hdots =>
    rw [if_neg hdots]
    split at h
    · cases h
    next hvalid =>
    cases h
    refine ⟨rfl, fun found hfound => ?_⟩
    cases hfound
    exact validName_of_validateFileName (not_not.mp hvalid)
  refine ⟨⟨?_, ?_, ?_, fun hi => ?_, fun found hfound => ?_⟩, hentry.1⟩
  · rw [hend]
    exact Nat.lt_add_of_pos_right (Nat.pos_of_ne_zero hpos)
  · rw [hend]
    exact Nat.add_le_add_left (Nat.not_lt.mp hshort) _
  · rw [hend]
    exact Nat.not_lt.mp hfits
  · rw [hend]
    exact nameOffset_next hi hname (Nat.not_lt.mp hshort)
  · exact hentry.2 found (hentry.1.trans hfound)

/-- The loop, whose invariant is that the next name starts in the block. -/
theorem processDirents_inside {count : Nat} {entries : List DirEntry}
    (hlength : dataSize ≤ data.length) (hentries : nEntries * dirEntrySize ≤ dataSize)
    (hcount : i + count = nEntries)
    (hoffset : i < nEntries → (ErofsDirEntry.ofBlock data i).nameOffset ≤ dataSize) :
    ∃ outcome, processDirents data dataSize nEntries count i entries = .ok outcome ∧
      Inside.processDirents (data.take dataSize) dataSize nEntries count i entries = .ok outcome ∧
      ∀ results, outcome = some results →
        (∀ j, i ≤ j → j < nEntries → NameChecked data dataSize nEntries j) ∧
          results = entries ++
            (List.range' i count).filterMap (blockEntry data (nameEnd data dataSize nEntries)) := by
  induction count generalizing i entries with
  | zero =>
    refine ⟨_, rfl, rfl, fun results hresults => ⟨fun j hle hlt => by omega, ?_⟩⟩
    cases hresults
    exact (List.append_nil _).symm
  | succ count ih =>
    obtain ⟨entry, hentry, hinside⟩ :=
      processDirent_inside hlength hentries (by omega) (hoffset (by omega))
    unfold processDirents Inside.processDirents
    rw [hentry, hinside]
    cases entry with
    | none =>
      refine ⟨none, rfl, rfl, fun _ hresults => ?_⟩
      cases hresults
    | some entry =>
      obtain ⟨hchecked, rfl⟩ := processDirent_checked hentry
      have hstart : i + 1 < nEntries →
          (ErofsDirEntry.ofBlock data (i + 1)).nameOffset ≤ dataSize := by
        intro hi
        rw [hchecked.next hi]
        exact hchecked.inside
      obtain ⟨outcome, hrun, hrunInside, hall⟩ := ih (by omega) hstart
      refine ⟨outcome, hrun, hrunInside, fun results hresults => ?_⟩
      obtain ⟨hrest, hadded⟩ := hall results hresults
      refine ⟨fun j hle hlt => ?_, ?_⟩
      · rcases Nat.eq_or_lt_of_le hle with rfl | hmore
        · exact hchecked
        · exact hrest j hmore hlt
      · rw [hadded, List.append_assoc, List.range'_succ, List.filterMap_cons]
        cases blockEntry data (nameEnd data dataSize nEntries) i <;> rfl

/-- The names follow each other. -/
theorem nameSlices_of_checked
    (hall : ∀ j < nEntries, NameChecked data dataSize nEntries j)
    (hfirst : nEntries * dirEntrySize ≤ (ErofsDirEntry.ofBlock data 0).nameOffset) :
    NameSlices data dataSize nEntries (nameEnd data dataSize nEntries) := by
  have hordered : ∀ i j, i < j → j < nEntries →
      nameEnd data dataSize nEntries i ≤ (ErofsDirEntry.ofBlock data j).nameOffset := by
    intro i j hlt hj
    induction j, hlt using Nat.le_induction with
    | base => exact ((hall i (by omega)).next hj).ge
    | succ j hle ih =>
      have hj' := hall j (by omega)
      rw [hj'.next hj]
      exact (ih (by omega)).trans hj'.nonempty.le
  refine ⟨fun i hi => ?_, fun i hi => (hall i hi).nonempty, fun i hi => (hall i hi).short,
    fun i hi => (hall i hi).inside, hordered, fun i hi => (hall i hi).valid⟩
  rcases Nat.eq_zero_or_pos i with rfl | hpos
  · exact hfirst
  · exact hfirst.trans ((hall 0 (by omega)).nonempty.le.trans (hordered 0 i hpos hi))

/-- A block of at least one entry: the outcome, and the names if it is accepted. -/
theorem processDirectoryBlock_inside (hsize : dirEntrySize ≤ dataSize)
    (hlength : dataSize ≤ data.length) (entries : List DirEntry) :
    ∃ outcome, Inside.processDirectoryBlock (data.take dataSize) dataSize entries = .ok outcome ∧
      processDirectoryBlock data dataSize entries = .ok outcome ∧
      ∀ results, outcome = some results → ∃ ends,
        let nEntries := (ErofsDirEntry.ofBlock data 0).nameOffset / dirEntrySize
        NameSlices data dataSize nEntries ends ∧
          results = entries ++ (List.range nEntries).filterMap (blockEntry data ends) := by
  unfold Inside.processDirectoryBlock processDirectoryBlock
  rw [Inside.nameOffset_take hlength (by rw [Nat.zero_add, Nat.one_mul]; exact hsize)]
  dsimp only [bind, Except.bind]
  by_cases hfirst : (ErofsDirEntry.ofBlock data 0).nameOffset < dirEntrySize ∨
      (ErofsDirEntry.ofBlock data 0).nameOffset ≥ dataSize
  · rw [if_pos hfirst, if_pos hfirst]
    exact ⟨none, rfl, rfl, fun _ hresults => (nomatch hresults)⟩
  rw [if_neg hfirst, if_neg hfirst]
  rw [not_or, Nat.not_lt, ge_iff_le, Nat.not_le] at hfirst
  have hentries := Nat.div_mul_le_self (ErofsDirEntry.ofBlock data 0).nameOffset dirEntrySize
  obtain ⟨outcome, hrun, hinside, hall⟩ :=
    @processDirents_inside data dataSize _ 0 _ entries hlength
      (hentries.trans hfirst.2.le) (Nat.zero_add _) fun _ => hfirst.2.le
  refine ⟨outcome, hinside, hrun, fun results hresults => ?_⟩
  obtain ⟨hchecked, hadded⟩ := hall results hresults
  rw [← List.range_eq_range'] at hadded
  exact ⟨_, nameSlices_of_checked (fun j hj => hchecked j (Nat.zero_le j) hj) hentries, hadded⟩

end

/-! ## The blocks of a directory -/

namespace ErofsReader

section
variable {σ : Type} (file : IErofsImageFile σ) (lz4 : Lz4)

/-- The calls of `processDirectoryBlock` that `readDirectory` makes. -/
def blockCalls (superBlock : ErofsSuperBlock) (dirInode : Nat) (reader : ErofsReader) (s : σ) :
    List BlockCall :=
  let (inode, s) := ErofsInode.new file superBlock dirInode 0 s
  if inode.type ≠ .directory then []
  else
    let blocks := inode.size / superBlock.blockSize + 1
    (readDirectoryCalls file lz4 superBlock.blockSize blocks 0 [] inode reader s).1

end

variable {σ : Type} {file : IErofsImageFile σ} {lz4 : Lz4}

/-- A call that is refused is the last one, and the loop returns nothing. -/
theorem readDirectoryCalls_refused {blockSize blocks offset : Nat} {results : List DirEntry}
    {inode : ErofsInode} {reader : ErofsReader} {s : σ} {call : BlockCall}
    (hcall : call ∈ (readDirectoryCalls file lz4 blockSize blocks offset results inode reader s).1)
    (hrefused : call.outcome = .ok none) :
    ∃ reader' s', (readDirectoryCalls file lz4 blockSize blocks offset results inode reader s).2 =
      .ok (none, reader', s') := by
  induction blocks generalizing offset results inode reader s with
  | zero => cases hcall
  | succ blocks ih =>
    rw [readDirectoryCalls] at hcall ⊢
    split at hcall
    swap
    · cases hcall
    next hoffset =>
    rw [if_pos hoffset]
    dsimp only at hcall ⊢
    split at hcall
    · cases hcall
    next hamount =>
    rw [if_neg hamount]
    rcases hread : inode.read file lz4
      (reader.dirBlockBuffer.take (min blockSize (inode.size - offset))) offset s with
      fault | ⟨rd, data, inode', s'⟩
    · rw [hread] at hcall
      cases hcall
    rw [hread] at hcall
    dsimp only at hcall ⊢
    split at hcall
    · cases hcall
    next hrd =>
    rw [if_neg hrd]
    rcases hblock : BlockCall.outcome
      ⟨data ++ reader.dirBlockBuffer.drop (min blockSize (inode.size - offset)),
        min blockSize (inode.size - offset), results⟩ with fault | _ | results'
    · rw [hblock] at hcall
      obtain rfl := List.mem_singleton.mp hcall
      rw [hblock] at hrefused
      cases hrefused
    · exact ⟨_, _, rfl⟩
    · rw [hblock] at hcall
      rcases List.mem_cons.mp hcall with rfl | hlater
      · rw [hblock] at hrefused
        cases hrefused
      · exact ih hlater

theorem readDirectory_refused {superBlock : ErofsSuperBlock} {dirInode : Nat}
    {reader : ErofsReader} {s : σ} {call : BlockCall}
    (hcall : call ∈ blockCalls file lz4 superBlock dirInode reader s)
    (hrefused : call.outcome = .ok none) :
    ∃ reader' s', readDirectory file lz4 superBlock dirInode reader s =
      .ok (none, reader', s') := by
  unfold blockCalls at hcall
  unfold readDirectory
  dsimp only at hcall ⊢
  split at hcall
  · cases hcall
  · next htype =>
    rw [if_neg htype]
    exact readDirectoryCalls_refused hcall hrefused

end ErofsReader

/-- A block is read only up to its size. The names of an accepted block are slices of it, in the
order of the entries, and a directory with a refused block has no entries. -/
theorem processDirectoryBlock_safe :
    (∀ (data : Bytes) (dataSize : Nat) (entries : List DirEntry),
      dirEntrySize ≤ dataSize → dataSize ≤ data.length →
      ∃ outcome, Inside.processDirectoryBlock (data.take dataSize) dataSize entries = .ok outcome ∧
        processDirectoryBlock data dataSize entries = .ok outcome ∧
        ∀ results, outcome = some results → ∃ ends,
          let nEntries := (ErofsDirEntry.ofBlock data 0).nameOffset / dirEntrySize
          NameSlices data dataSize nEntries ends ∧
            results = entries ++ (List.range nEntries).filterMap (blockEntry data ends)) ∧
    ∀ {σ : Type} (file : IErofsImageFile σ) (lz4 : Lz4) (superBlock : ErofsSuperBlock)
      (dirInode : Nat) (reader : ErofsReader) (s : σ),
      ∀ call ∈ ErofsReader.blockCalls file lz4 superBlock dirInode reader s,
        call.outcome = .ok none →
          ∃ reader' s', ErofsReader.readDirectory file lz4 superBlock dirInode reader s =
            .ok (none, reader', s') :=
  ⟨fun _ _ entries hsize hlength => processDirectoryBlock_inside hsize hlength entries,
    fun _ _ _ _ _ _ _ hcall hrefused => ErofsReader.readDirectory_refused hcall hrefused⟩

/-- The inode 1 is a directory of the first twelve bytes, which are zero. -/
def zeroDirectoryImage : IErofsImageFile Unit :=
  imageOf 4096 (by decide) fun
    | 36 => 0xed
    | 37 => 0x41
    | 40 => 12
    | _ => 0

/-- A block with the names `.`, `ab` and `c`, and two NUL bytes behind them. -/
def threeEntryBlock : Bytes :=
  [64, 0, 0, 0, 0, 0, 0, 0, 36, 0, 2, 0, 66, 0, 0, 0, 0, 0, 0, 0, 37, 0, 1, 0,
    67, 0, 0, 0, 0, 0, 0, 0, 39, 0, 1, 0, 0x2e, 97, 98, 99, 0, 0]

/-- A block with three entries, and a directory whose block is refused. -/
theorem processDirectoryBlock_safe_examples :
    (∃ results ends, processDirectoryBlock threeEntryBlock 42 [] = .ok (some results) ∧
      Inside.processDirectoryBlock (threeEntryBlock.take 42) 42 [] = .ok (some results) ∧
      NameSlices threeEntryBlock 42 3 ends ∧
      results = (List.range 3).filterMap (blockEntry threeEntryBlock ends) ∧
      results.map DirEntry.fileName = [[97, 98], [99]]) ∧
    ∃ reader' s', ErofsReader.readDirectory zeroDirectoryImage ErofsReader.noLz4
      ⟨.ofBytes [], 4096⟩ 1 { dirBlockBuffer := List.replicate 12 0 } () =
        .ok (none, reader', s') := by
  constructor
  · have hresults : processDirectoryBlock threeEntryBlock 42 [] =
        .ok (some [⟨66, [97, 98], .regular⟩, ⟨67, [99], .regular⟩]) := by decide +kernel
    obtain ⟨outcome, hinside, hrun, hnames⟩ :=
      processDirectoryBlock_safe.1 threeEntryBlock 42 [] (by decide) (by decide)
    obtain rfl := Except.ok.inj (hresults.symm.trans hrun)
    obtain ⟨ends, hslices, hentries⟩ := hnames _ rfl
    exact ⟨_, ends, hrun, hinside, hslices, hentries, rfl⟩
  · refine processDirectoryBlock_safe.2 _ _ _ _ _ _ ⟨List.replicate 12 0, 12, []⟩ ?_ ?_
    · decide +kernel
    · decide +kernel

end Erofs
