import Ralf.Erofs.Inode

/-!
# The EROFS reader

`ErofsReader.next` goes through the directories of an image breadth first: it returns
the entries of one directory, puts the directories among them on a stack, and then goes
on with the first of these that is not empty. The bytes of directory blocks are read
into one buffer that is kept for the whole run.

`readDirectoryCalls` is the loop over the blocks of a directory, with the calls of
`processDirectoryBlock` that it makes; `readDirectoryLoop` is what it returns.
-/

namespace Erofs

/-- An entry of an image: a path and an inode. -/
structure ErofsEntry where
  path : FilePath
  inode : ErofsInode
  deriving DecidableEq, Repr

/-- The size of the data; for a directory it is 0. -/
def ErofsEntry.size (entry : ErofsEntry) : Nat :=
  if entry.inode.type = .directory then 0 else entry.inode.size

/-- An entry of a directory. -/
structure DirEntry where
  inode : Nat
  fileName : Bytes
  fileType : FileType
  deriving DecidableEq, Repr

/-- A directory that is still to be read. -/
structure Directory where
  path : FilePath
  inode : Nat
  deriving DecidableEq, Repr

structure ErofsReader where
  superBlock : Option ErofsSuperBlock := none
  dirBlockBuffer : Bytes := []
  error : Option Error := none
  dirStack : List Directory := []
  currentDir : List DirEntry := []
  currentDirIndex : Nat := 0
  readAllOnce : Bool := false
  deriving DecidableEq, Repr

/-! ## Directory blocks -/

/-- `sizeof(ErofsDirEntry)`. -/
def dirEntrySize : Nat := 12

/-- `EROFS_MAX_NAME_LEN`. -/
def erofsMaxNameLen : Nat := 255

/-- `NAME_MAX`. -/
def nameMax : Nat := 255

/-- An on-disk `ErofsDirEntry`. -/
structure ErofsDirEntry where
  nid : Nat
  nameOffset : Nat
  fileType : Nat
  deriving DecidableEq, Repr

/-- The structure with index `i` in a block. -/
def ErofsDirEntry.ofBlock (data : Bytes) (i : Nat) : ErofsDirEntry :=
  let bytes := data.slice (i * dirEntrySize) dirEntrySize
  { nid := bytes.uint 0 8, nameOffset := bytes.uint 8 2, fileType := bytes.uint 10 1 }

/-- The file type that a number stands for. -/
def fileTypeOf (fileType : Nat) : FileType :=
  match fileType with
  | 1 => .regular
  | 2 => .directory
  | 3 => .character
  | 4 => .block
  | 5 => .fifo
  | 6 => .socket
  | 7 => .symlink
  | _ => .unknown

/-- `strnlen` of the bytes from an offset on. It may not leave the buffer. -/
def strnlen (data : Bytes) (offset maxLength : Nat) : Except Fault Nat :=
  let rest := data.drop offset
  let length := (rest.takeWhile (· ≠ 0)).length
  if maxLength ≤ length then .ok maxLength
  else if length < rest.length then .ok length
  else .error .overread

def validateFileName (fileName : Bytes) : Bool :=
  !fileName.isEmpty && fileName.length ≤ nameMax && fileName ≠ FilePath.dot &&
    fileName ≠ FilePath.dotdot && fileName.all fun ch => ch ≠ FilePath.separator ∧ ch ≠ 0

/-- The length of the name of entry `i`: up to the name of the next entry, or for the
last entry up to a NUL byte or the end of the block. -/
def nameLength (data : Bytes) (dataSize nEntries i : Nat) (dirent : ErofsDirEntry) :
    Except Fault Nat :=
  if i + 1 = nEntries then strnlen data dirent.nameOffset (wrapSub64 dataSize dirent.nameOffset)
  else .ok (wrapSub64 (ErofsDirEntry.ofBlock data (i + 1)).nameOffset dirent.nameOffset)

/-- Entry `i` of a block: none when it is invalid, and no entry for `.` and `..`. -/
def processDirent (data : Bytes) (dataSize nEntries i : Nat) : Attempt (Option DirEntry) :=
  let dirent := ErofsDirEntry.ofBlock data i
  if dirent.nid > 2 ^ 32 - 1 ∨ dirent.fileType = 0 ∨ dirent.fileType ≥ 8 then .ok none
  else
    match nameLength data dataSize nEntries i dirent with
    | .error fault => .error fault
    | .ok nameLen =>
      if nameLen = 0 ∨ nameLen > erofsMaxNameLen ∨
        dirent.nameOffset + nameLen > dataSize then .ok none
      else
        let fileName := data.slice dirent.nameOffset nameLen
        if fileName = FilePath.dot ∨ fileName = FilePath.dotdot then .ok (some none)
        else if ¬validateFileName fileName then .ok none
        else .ok (some (some ⟨dirent.nid, fileName, fileTypeOf dirent.fileType⟩))

/-- The loop over `count` entries from entry `i` on. -/
def processDirents (data : Bytes) (dataSize nEntries : Nat) :
    Nat → Nat → List DirEntry → Attempt (List DirEntry)
  | 0, _, entries => .ok (some entries)
  | count + 1, i, entries =>
    (processDirent data dataSize nEntries i).andThen fun entry =>
      processDirents data dataSize nEntries count (i + 1) (entries ++ entry.toList)

/-- Adds the entries of a block, the first `dataSize` bytes of `data`. The offset of the
first name says how many there are. -/
def processDirectoryBlock (data : Bytes) (dataSize : Nat) (entries : List DirEntry) :
    Attempt (List DirEntry) :=
  let nameOffset := (ErofsDirEntry.ofBlock data 0).nameOffset
  if nameOffset < dirEntrySize ∨ nameOffset ≥ dataSize then .ok none
  else
    let nEntries := nameOffset / dirEntrySize
    processDirents data dataSize nEntries nEntries 0 entries

/-- The arguments of a call of `processDirectoryBlock`. -/
structure BlockCall where
  data : Bytes
  dataSize : Nat
  entries : List DirEntry
  deriving DecidableEq, Repr

def BlockCall.outcome (call : BlockCall) : Attempt (List DirEntry) :=
  processDirectoryBlock call.data call.dataSize call.entries

namespace ErofsReader

def hasError (reader : ErofsReader) : Bool := reader.error.isSome

def setError (reader : ErofsReader) (what : String) : ErofsReader :=
  { reader with error := some (.ralf .erofsError what) }

section
variable {σ : Type} (file : IErofsImageFile σ) (lz4 : Lz4)

/-! ## Directories -/

/-- The loop of `readDirectory`, for at most `blocks` blocks: the calls of
`processDirectoryBlock`, and the result. -/
def readDirectoryCalls (blockSize : Nat) :
    Nat → Nat → List DirEntry → ErofsInode → ErofsReader → σ →
      List BlockCall × Except Fault (Option (List DirEntry) × ErofsReader × σ)
  | 0, _, results, _, reader, s => ([], .ok (some results, reader, s))
  | blocks + 1, offset, results, inode, reader, s =>
    if offset < inode.size then
      let amount := min blockSize (inode.size - offset)
      if amount < dirEntrySize then ([], .ok (none, reader, s))
      else
        match inode.read file lz4 (reader.dirBlockBuffer.take amount) offset s with
        | .error fault => ([], .error fault)
        | .ok (rd, data, inode, s) =>
          let buffer := data ++ reader.dirBlockBuffer.drop amount
          let reader := { reader with dirBlockBuffer := buffer }
          -- `!inode.read(..)`: the value -1 counts as a success
          if rd = 0 then ([], .ok (none, reader, s))
          else
            let call : BlockCall := ⟨buffer, amount, results⟩
            match call.outcome with
            | .error fault => ([call], .error fault)
            | .ok none => ([call], .ok (none, reader, s))
            | .ok (some results) =>
              let rest := readDirectoryCalls blockSize blocks (offset + amount) results inode reader s
              (call :: rest.1, rest.2)
    else ([], .ok (some results, reader, s))

/-- What the loop of `readDirectory` returns. -/
def readDirectoryLoop (blockSize blocks offset : Nat) (results : List DirEntry)
    (inode : ErofsInode) (reader : ErofsReader) (s : σ) :
    Except Fault (Option (List DirEntry) × ErofsReader × σ) :=
  (readDirectoryCalls file lz4 blockSize blocks offset results inode reader s).2

/-- The entries of the directory with an inode number. -/
def readDirectory (superBlock : ErofsSuperBlock) (dirInode : Nat) (reader : ErofsReader) (s : σ) :
    Except Fault (Option (List DirEntry) × ErofsReader × σ) :=
  let (inode, s) := ErofsInode.new file superBlock dirInode 0 s
  if inode.type ≠ .directory then .ok (none, reader, s)
  else
    let blocks := inode.size / superBlock.blockSize + 1
    readDirectoryLoop file lz4 superBlock.blockSize blocks 0 [] inode reader s

/-! ## The walk -/

/-- The size of the first block, as it is assumed before the superblock is read. -/
def firstBlockSize : Nat := 4096

/-- The constructor. It reads the superblock and the root directory. -/
def new (s : σ) : Except Fault (ErofsReader × σ) :=
  let reader : ErofsReader := {}
  match file.readBytes firstBlockSize 0 s with
  | (none, s) => .ok (reader.setError "Failed to read first block of EROFS image", s)
  | (some buf, s) =>
    match ErofsSuperBlock.parse buf with
    | .error fault => .error fault
    | .ok (.error error) =>
      let what := error.what
      .ok (reader.setError s!"Failed to parse EROFS superblock - {what}", s)
    | .ok (.ok superBlock) =>
      -- other block sizes are not supported, and this is only logged
      if superBlock.blockSize ≠ 4096 then .ok (reader, s)
      else
        let reader := { reader with
          superBlock := some superBlock
          dirBlockBuffer := List.replicate superBlock.blockSize 0 }
        match reader.readDirectory file lz4 superBlock superBlock.rootInode s with
        | .error fault => .error fault
        | .ok (none, reader, s) =>
          let reader := reader.setError "Failed to read root directory entries"
          .ok ({ reader with superBlock := none }, s)
        | .ok (some [], reader, s) => .ok (reader, s)
        | .ok (some (entry :: rest), reader, s) =>
          .ok ({ reader with
            currentDir := entry :: rest
            currentDirIndex := 0
            dirStack := [⟨FilePath.empty, superBlock.rootInode⟩] }, s)

/-- The superblock of an image, if it can be read. -/
def superBlockOf (s : σ) : Option ErofsSuperBlock :=
  match (file.readBytes firstBlockSize 0 s).1 with
  | none => none
  | some buf =>
    match ErofsSuperBlock.parse buf with
    | .ok (.ok superBlock) => some superBlock
    | _ => none

/-- The loop of `next` that finds the next directory that is not empty. The result says
whether all directories could be read. -/
def nextDirectory (superBlock : ErofsSuperBlock) :
    List Directory → ErofsReader → σ → Except Fault (Bool × ErofsReader × σ)
  | [], reader, s => .ok (true, { reader with dirStack := [] }, s)
  | front :: rest, reader, s =>
    match reader.readDirectory file lz4 superBlock front.inode s with
    | .error fault => .error fault
    | .ok (none, reader, s) =>
      .ok (false, { reader with dirStack := front :: rest }.setError
        s!"Error processing directory '{front.path.cStr}'", s)
    | .ok (some [], reader, s) => nextDirectory superBlock rest reader s
    | .ok (some (entry :: others), reader, s) =>
      .ok (true, { reader with dirStack := front :: rest, currentDir := entry :: others }, s)

/-- The hints for an inode that is to be read once. -/
def readOnceHints : Nat := 3

/-- The next entry, or none at the end and after an error. -/
def next (reader : ErofsReader) (s : σ) : Except Fault (Option ErofsEntry × ErofsReader × σ) :=
  match reader.superBlock, reader.dirStack with
  | some superBlock, front :: rest =>
    if reader.hasError then .ok (none, reader, s)
    else
      match reader.currentDir[reader.currentDirIndex]? with
      | none => .error .outOfBounds
      | some dirEntry =>
        let currentPath := front.path.append dirEntry.fileName
        let dirStack :=
          if dirEntry.fileType = .directory then front :: rest ++ [⟨currentPath, dirEntry.inode⟩]
          else front :: rest
        let reader := { reader with
          currentDirIndex := reader.currentDirIndex + 1, dirStack := dirStack }
        let hints := if reader.readAllOnce ∧ dirEntry.fileType = .regular then readOnceHints else 0
        let (inode, s) := ErofsInode.new file superBlock dirEntry.inode hints s
        if ¬inode.isValid then
          let name := Bytes.cString dirEntry.fileName
          .ok (none, reader.setError
            s!"Error processing directory / file '{front.path.cStr}/{name}'", s)
        else if reader.currentDirIndex ≥ reader.currentDir.length then
          match nextDirectory file lz4 superBlock reader.dirStack.tail
              { reader with currentDir := [], currentDirIndex := 0 } s with
          | .error fault => .error fault
          | .ok (false, reader, s) => .ok (none, reader, s)
          | .ok (true, reader, s) => .ok (some ⟨currentPath, inode⟩, reader, s)
        else .ok (some ⟨currentPath, inode⟩, reader, s)
  | none, _ :: _ => .error .nullPointer
  | _, [] => .ok (none, reader, s)

/-- `next` called a number of times: what the calls return. -/
def takeNext : Nat → ErofsReader → σ → Except Fault (List (Option ErofsEntry) × ErofsReader × σ)
  | 0, reader, s => .ok ([], reader, s)
  | calls + 1, reader, s =>
    match reader.next file lz4 s with
    | .error fault => .error fault
    | .ok (entry, reader, s) =>
      match takeNext calls reader s with
      | .error fault => .error fault
      | .ok (entries, reader, s) => .ok (entry :: entries, reader, s)

end

/-! ## One turn of the loop -/

section
variable {σ : Type} {file : IErofsImageFile σ} {lz4 : Lz4} {blockSize blocks offset : Nat}
  {results : List DirEntry} {inode : ErofsInode} {reader : ErofsReader} {s : σ}

theorem readDirectoryLoop_succ :
    readDirectoryLoop file lz4 blockSize (blocks + 1) offset results inode reader s =
      if offset < inode.size then
        let amount := min blockSize (inode.size - offset)
        if amount < dirEntrySize then .ok (none, reader, s)
        else
          match inode.read file lz4 (reader.dirBlockBuffer.take amount) offset s with
          | .error fault => .error fault
          | .ok (rd, data, inode, s) =>
            let buffer := data ++ reader.dirBlockBuffer.drop amount
            let reader := { reader with dirBlockBuffer := buffer }
            if rd = 0 then .ok (none, reader, s)
            else
              match processDirectoryBlock buffer amount results with
              | .error fault => .error fault
              | .ok none => .ok (none, reader, s)
              | .ok (some results) =>
                readDirectoryLoop file lz4 blockSize blocks (offset + amount) results inode reader s
      else .ok (some results, reader, s) := by
  unfold readDirectoryLoop
  rw [readDirectoryCalls]
  dsimp only [BlockCall.outcome]
  split
  swap
  · rfl
  split
  · rfl
  cases inode.read file lz4 (reader.dirBlockBuffer.take (min blockSize (inode.size - offset)))
    offset s with
  | error fault => rfl
  | ok read =>
    dsimp only
    split
    · rfl
    rcases processDirectoryBlock _ _ results with fault | _ | results <;> rfl

end

/-! ## What `next` can do -/

/-- The reader after it took an entry of the current directory. -/
def advance (reader : ErofsReader) (front : Directory) (dirEntry : DirEntry) : ErofsReader :=
  { reader with
    currentDirIndex := reader.currentDirIndex + 1
    dirStack :=
      if dirEntry.fileType = .directory then
        reader.dirStack ++ [⟨front.path.append dirEntry.fileName, dirEntry.inode⟩]
      else reader.dirStack }

/-- The hints for the inode of an entry. -/
def hintsFor (reader : ErofsReader) (dirEntry : DirEntry) : Nat :=
  if reader.readAllOnce ∧ dirEntry.fileType = .regular then readOnceHints else 0

/-- The text for an entry whose inode cannot be used. -/
def invalidEntry (front : Directory) (dirEntry : DirEntry) : String :=
  let name := Bytes.cString dirEntry.fileName
  s!"Error processing directory / file '{front.path.cStr}/{name}'"

/-- The reader is at an entry of the directory `front`. -/
structure AtEntry (reader : ErofsReader) (superBlock : ErofsSuperBlock) (front : Directory)
    (dirEntry : DirEntry) : Prop where
  superBlock : reader.superBlock = some superBlock
  front : reader.dirStack.head? = some front
  error : reader.error = none
  dirEntry : reader.currentDir[reader.currentDirIndex]? = some dirEntry

section
variable {σ : Type} {file : IErofsImageFile σ} {lz4 : Lz4} {reader : ErofsReader} {s : σ}

theorem next_idle (h : reader.dirStack = [] ∨ reader.superBlock.isSome = true ∧
    reader.error.isSome = true) :
    reader.next file lz4 s = .ok (none, reader, s) := by
  obtain ⟨superBlock, buffer, error, dirStack, currentDir, index, readAllOnce⟩ := reader
  rcases h with hstack | ⟨hsuper, herror⟩
  · obtain rfl : dirStack = [] := hstack
    cases superBlock <;> rfl
  · obtain ⟨superBlock, rfl⟩ := Option.isSome_iff_exists.mp hsuper
    obtain ⟨error, rfl⟩ := Option.isSome_iff_exists.mp herror
    cases dirStack <;> rfl

/-- A call of `next` at an entry. -/
theorem next_at {superBlock : ErofsSuperBlock} {front : Directory} {dirEntry : DirEntry}
    {inode : ErofsInode} {s₁ : σ} (hat : reader.AtEntry superBlock front dirEntry)
    (hinode : ErofsInode.new file superBlock dirEntry.inode
    (reader.hintsFor dirEntry) s = (inode, s₁)) :
    reader.next file lz4 s =
      if ¬inode.isValid then
        .ok (none, (reader.advance front dirEntry).setError (invalidEntry front dirEntry), s₁)
      else if reader.currentDirIndex + 1 ≥ reader.currentDir.length then
        match nextDirectory file lz4 superBlock (reader.advance front dirEntry).dirStack.tail
            { reader.advance front dirEntry with currentDir := [], currentDirIndex := 0 } s₁ with
        | .error fault => .error fault
        | .ok (false, reader, s) => .ok (none, reader, s)
        | .ok (true, reader, s) =>
          .ok (some ⟨front.path.append dirEntry.fileName, inode⟩, reader, s)
      else
        .ok (some ⟨front.path.append dirEntry.fileName, inode⟩,
          reader.advance front dirEntry, s₁) := by
  obtain ⟨hsuper, hfront, herror, hentry⟩ := hat
  obtain ⟨_, buffer, _, dirStack, currentDir, index, readAllOnce⟩ := reader
  cases hsuper
  cases herror
  obtain ⟨rest, rfl⟩ := List.head?_eq_some_iff.mp hfront
  unfold hintsFor at hinode
  unfold next hasError
  dsimp only at hentry hinode ⊢
  rw [if_neg (by decide), hentry]
  dsimp only
  rw [hinode]
  rfl

/-- The ways in which a call of `next` returns. -/
inductive Next (file : IErofsImageFile σ) (lz4 : Lz4) (reader : ErofsReader) (s : σ) :
    Option ErofsEntry × ErofsReader × σ → Prop
  | idle (h : reader.dirStack = [] ∨ reader.superBlock.isSome = true ∧ reader.error.isSome = true) :
      Next file lz4 reader s (none, reader, s)
  | invalid {superBlock : ErofsSuperBlock} {front : Directory} {dirEntry : DirEntry}
      {inode : ErofsInode} {s₁ : σ} (hat : reader.AtEntry superBlock front dirEntry)
      (hinode : ErofsInode.new file superBlock dirEntry.inode
        (reader.hintsFor dirEntry) s = (inode, s₁))
      (hinvalid : ¬ inode.isValid = true) :
      Next file lz4 reader s
        (none, (reader.advance front dirEntry).setError (invalidEntry front dirEntry), s₁)
  | within {superBlock : ErofsSuperBlock} {front : Directory} {dirEntry : DirEntry}
      {inode : ErofsInode} {s₁ : σ} (hat : reader.AtEntry superBlock front dirEntry)
      (hinode : ErofsInode.new file superBlock dirEntry.inode
        (reader.hintsFor dirEntry) s = (inode, s₁))
      (hvalid : inode.isValid = true)
        (hmore : reader.currentDirIndex + 1 < reader.currentDir.length) :
      Next file lz4 reader s
        (some ⟨front.path.append dirEntry.fileName, inode⟩, reader.advance front dirEntry, s₁)
  | across {superBlock : ErofsSuperBlock} {front : Directory} {dirEntry : DirEntry}
      {inode : ErofsInode} {s₁ s₂ : σ} {reader₁ : ErofsReader} {found : Bool}
      (hat : reader.AtEntry superBlock front dirEntry)
      (hinode : ErofsInode.new file superBlock dirEntry.inode
        (reader.hintsFor dirEntry) s = (inode, s₁))
      (hvalid : inode.isValid = true)
        (hlast : reader.currentDir.length ≤ reader.currentDirIndex + 1)
      (hnext : nextDirectory file lz4 superBlock (reader.advance front dirEntry).dirStack.tail
        { reader.advance front dirEntry with currentDir := [], currentDirIndex := 0 } s₁ =
          .ok (found, reader₁, s₂)) :
      Next file lz4 reader s
        (if found then some ⟨front.path.append dirEntry.fileName, inode⟩ else none, reader₁, s₂)

theorem next_cases {result : Option ErofsEntry × ErofsReader × σ}
    (h : reader.next file lz4 s = .ok result) : Next file lz4 reader s result := by
  by_cases hidle : reader.dirStack = [] ∨ reader.superBlock.isSome = true ∧
    reader.error.isSome = true
  · rw [next_idle hidle] at h
    cases h
    exact .idle hidle
  rw [not_or, not_and'] at hidle
  obtain ⟨hstack, hgo⟩ := hidle
  obtain ⟨front, rest, hstack⟩ := List.exists_cons_of_ne_nil hstack
  cases hsuper : reader.superBlock with
  | none =>
    unfold next at h
    rw [hstack, hsuper] at h
    cases h
  | some superBlock =>
    have herror : reader.error = none := by
      rw [← Option.not_isSome_iff_eq_none]
      exact fun herror => hgo herror (by rw [hsuper]; rfl)
    cases hentry : reader.currentDir[reader.currentDirIndex]? with
    | none =>
      unfold next hasError at h
      rw [hstack, hsuper, herror, hentry] at h
      cases h
    | some dirEntry =>
      have hat : reader.AtEntry superBlock front dirEntry :=
        ⟨hsuper, by rw [hstack]; rfl, herror, hentry⟩
      rcases hinode : ErofsInode.new file superBlock dirEntry.inode
        (reader.hintsFor dirEntry) s with
        ⟨inode, s₁⟩
      rw [next_at hat hinode] at h
      split at h
      · next hinvalid =>
        cases h
        exact .invalid hat hinode hinvalid
      next hvalid =>
      split at h
      · next hlast =>
        split at h
        · cases h
        · next hnext =>
          cases h
          exact .across hat hinode (not_not.mp hvalid) hlast hnext
        · next hnext =>
          cases h
          exact .across hat hinode (not_not.mp hvalid) hlast hnext
      · next hmore =>
        cases h
        exact .within hat hinode (not_not.mp hvalid) (Nat.lt_of_not_le hmore)

end

end ErofsReader

end Erofs
