import Ralf.Erofs.DirectoryData

/-!
# Failed reads and directories

The reader of directories over two files that agree: they give the same bytes, but for what
their failed reads leave in a buffer. As long as the data of the directories that are reached
can be read, both runs read the same entries, whichever other reads fail: the bytes behind a
block, which an earlier directory left in the buffer, do not matter. A fault can depend on
them, so that the two runs are compared where neither has one.
-/

namespace Erofs

variable {σ τ : Type}

/-- The results are related if neither run has a fault. -/
def Lockstep {α β : Type} (R : α → β → Prop) (x : Except Fault α) (y : Except Fault β) : Prop :=
  ∀ a b, x = .ok a → y = .ok b → R a b

theorem Lockstep.ok {α β : Type} {R : α → β → Prop} {a : α} {b : β} (h : R a b) :
    Lockstep R (.ok a) (.ok b) := by
  intro _ _ hx hy
  cases hx
  cases hy
  exact h

theorem Lockstep.fault_left {α β : Type} {R : α → β → Prop} {fault : Fault} {y : Except Fault β} :
    Lockstep R (.error fault) y := fun _ _ hx => nomatch hx

theorem Lockstep.fault_right {α β : Type} {R : α → β → Prop} {x : Except Fault α} {fault : Fault} :
    Lockstep R x (.error fault) := fun _ _ _ hy => nomatch hy

theorem Lockstep.refl {α : Type} (x : Except Fault α) : Lockstep Eq x x := by
  intro a b hx hy
  rw [hx] at hy
  exact Except.ok.inj hy

/-! ## Directory blocks -/

section
variable {data data' : Bytes} {dataSize : Nat}

/-- The length of a name is the same, unless it starts behind the block. -/
theorem nameLength_lockstep {nEntries i : Nat} (h : data.take dataSize = data'.take dataSize)
    (hentries : nEntries * dirEntrySize ≤ dataSize) (hi : i < nEntries) {dirent : ErofsDirEntry}
    (hoffset : dirent.nameOffset ≤ 2 ^ 64) :
    Lockstep (fun n n' => dirent.nameOffset ≤ dataSize → n = n')
      (nameLength data dataSize nEntries i dirent)
        (nameLength data' dataSize nEntries i dirent) := by
  unfold nameLength
  split
  · intro n n' hn hn' hle
    have hslice := @Bytes.slice_congr data data' dataSize dirent.nameOffset
      (wrapSub64 dataSize dirent.nameOffset) h (by
        have hfits := wrapSub64_le hle hoffset
        omega)
    unfold Bytes.slice at hslice
    rw [strnlen_ok hn, strnlen_ok hn', hslice]
  · rw [ofBlock_congr h (Nat.le_trans (Nat.mul_le_mul_right _ (by omega)) hentries)]
    exact Lockstep.ok fun _ => rfl

/-- The bytes behind the block do not matter for an entry. -/
theorem processDirent_lockstep {nEntries i : Nat} (h : data.take dataSize = data'.take dataSize)
    (hentries : nEntries * dirEntrySize ≤ dataSize) (hi : i < nEntries) :
    Lockstep Eq (processDirent data dataSize nEntries i)
      (processDirent data' dataSize nEntries i) := by
  have hdirent : ErofsDirEntry.ofBlock data i = ErofsDirEntry.ofBlock data' i :=
    ofBlock_congr h (Nat.le_trans (Nat.mul_le_mul_right _ hi) hentries)
  have hoffset : (ErofsDirEntry.ofBlock data' i).nameOffset ≤ 2 ^ 64 :=
    (Bytes.uint_lt _ 8 2).le.trans (by decide)
  unfold processDirent
  rw [hdirent]
  generalize ErofsDirEntry.ofBlock data' i = dirent at hoffset
  dsimp only
  split
  · exact Lockstep.refl _
  have hname := nameLength_lockstep h hentries hi hoffset
  cases hn : nameLength data dataSize nEntries i dirent with
  | error fault => exact Lockstep.fault_left
  | ok n =>
    cases hn' : nameLength data' dataSize nEntries i dirent with
    | error fault => exact Lockstep.fault_right
    | ok n' =>
      dsimp only
      by_cases hle : dirent.nameOffset ≤ dataSize
      · obtain rfl := hname n n' hn hn' hle
        split
        · exact Lockstep.refl _
        · next hfits =>
          rw [Bytes.slice_congr h (by omega)]
          exact Lockstep.refl _
      · -- a name behind the block is rejected, whatever its length
        rw [if_pos (by omega), if_pos (by omega)]
        exact Lockstep.refl _

theorem processDirents_lockstep {nEntries : Nat} (h : data.take dataSize = data'.take dataSize)
    (hentries : nEntries * dirEntrySize ≤ dataSize) (count i : Nat) (hi : i + count = nEntries)
    (entries : List DirEntry) :
    Lockstep Eq (processDirents data dataSize nEntries count i entries)
      (processDirents data' dataSize nEntries count i entries) := by
  induction count generalizing i entries with
  | zero => exact Lockstep.refl _
  | succ count ih =>
    unfold processDirents
    have hentry := processDirent_lockstep h hentries (show i < nEntries by omega)
    cases hx : processDirent data dataSize nEntries i with
    | error fault => exact Lockstep.fault_left
    | ok entry =>
      cases hy : processDirent data' dataSize nEntries i with
      | error fault => exact Lockstep.fault_right
      | ok entry' =>
        obtain rfl := hentry entry entry' hx hy
        cases entry with
        | none => exact Lockstep.refl _
        | some entry => exact ih (i + 1) (by omega) _

theorem processDirectoryBlock_lockstep (h : data.take dataSize = data'.take dataSize)
    (hsize : dirEntrySize ≤ dataSize) (entries : List DirEntry) :
    Lockstep Eq (processDirectoryBlock data dataSize entries)
      (processDirectoryBlock data' dataSize entries) := by
  unfold processDirectoryBlock
  rw [ofBlock_congr h (by rw [Nat.zero_add, Nat.one_mul]; exact hsize)]
  dsimp only
  split
  · exact Lockstep.refl _
  · next hoffset =>
    refine processDirents_lockstep h ?_ _ 0 (Nat.zero_add _) entries
    exact (Nat.div_mul_le_self _ _).trans (by omega)

end

/-! ## Directories -/

/-- The data of an inode can be read if it is a directory, with the image file in a state. -/
def DataReadable (file : IErofsImageFile σ) (lz4 : Lz4) (superBlock : ErofsSuperBlock) (s : σ)
    (n : Nat) : Prop :=
  (ErofsInode.new file superBlock n 0 s).1.type = .directory →
    ∃ blocks, DirectoryData file lz4 superBlock s n blocks

/-- The directories that entries of the type of a directory lead to, from the root on. `S` says in
which states the image file can be. -/
inductive Reached (S : σ → τ → Prop) (file : IErofsImageFile σ) (lz4 : Lz4)
    (superBlock : ErofsSuperBlock) : Nat → Prop
  | root : Reached S file lz4 superBlock superBlock.rootInode
  | sub {n : Nat} {s : σ} {t : τ} {entries : List DirEntry} {entry : DirEntry}
      (hn : Reached S file lz4 superBlock n) (hs : S s t)
      (hentries : DirectoryEntries file lz4 superBlock s n entries) (hentry : entry ∈ entries)
      (htype : entry.fileType = .directory) :
      Reached S file lz4 superBlock entry.inode

/-- The data of all directories that are reached can be read. -/
def ReachedReadable (S : σ → τ → Prop) (file : IErofsImageFile σ) (lz4 : Lz4)
    (superBlock : ErofsSuperBlock) : Prop :=
  ∀ n, Reached S file lz4 superBlock n → ∀ s t, S s t → DataReadable file lz4 superBlock s n

namespace ErofsReader

section
variable {file : IErofsImageFile σ} {file' : IErofsImageFile τ} {lz4 : Lz4}
  {S : σ → τ → Prop} {s : σ} {t : τ}

/-- Reading a directory changes the buffer. -/
theorem readDirectoryLoop_frame {blockSize blocks offset : Nat} {results : List DirEntry}
    {inode : ErofsInode} {reader reader' : ErofsReader} {entries : Option (List DirEntry)} {s' : σ}
    (h : readDirectoryLoop file lz4 blockSize blocks offset results inode reader s =
      .ok (entries, reader', s')) :
    ∃ buffer, buffer.length = reader.dirBlockBuffer.length ∧
      reader' = { reader with dirBlockBuffer := buffer } := by
  induction blocks generalizing offset results inode reader s with
  | zero =>
    cases h
    exact ⟨_, rfl, rfl⟩
  | succ blocks ih =>
    rw [readDirectoryLoop_succ] at h
    split at h
    · dsimp only at h
      split at h
      · cases h
        exact ⟨_, rfl, rfl⟩
      split at h
      · cases h
      · next rd data inode s hread =>
        have hfilled := length_take_append_drop _ (ErofsInode.read_length hread)
        split at h
        · cases h
          exact ⟨_, hfilled, rfl⟩
        split at h
        · cases h
        · cases h
          exact ⟨_, hfilled, rfl⟩
        · obtain ⟨buffer, hbuffer, rfl⟩ := ih h
          exact ⟨buffer, hbuffer.trans hfilled, rfl⟩
    · cases h
      exact ⟨_, rfl, rfl⟩

theorem readDirectory_frame {superBlock : ErofsSuperBlock} {dirInode : Nat}
    {reader reader' : ErofsReader} {entries : Option (List DirEntry)} {s' : σ}
    (h : reader.readDirectory file lz4 superBlock dirInode s = .ok (entries, reader', s')) :
    ∃ buffer, buffer.length = reader.dirBlockBuffer.length ∧
      reader' = { reader with dirBlockBuffer := buffer } := by
  unfold readDirectory at h
  dsimp only at h
  split at h
  · cases h
    exact ⟨_, rfl, rfl⟩
  · exact readDirectoryLoop_frame h

/-- The results of reading a directory in two runs: both give the same, with buffers of one
length. -/
def DirectoryAlike (S : σ → τ → Prop) (x : Option (List DirEntry) × ErofsReader × σ)
    (y : Option (List DirEntry) × ErofsReader × τ) : Prop :=
  ∃ buffer', buffer'.length = x.2.1.dirBlockBuffer.length ∧
    y.2.1 = { x.2.1 with dirBlockBuffer := buffer' } ∧ x.1 = y.1 ∧ (x.1 ≠ none → S x.2.2 y.2.2)

/-- The first bytes of a buffer that was filled. -/
theorem take_filled {data buffer buffer' : Bytes} {amount : Nat}
    (hdata : data.length = (buffer.take amount).length) (hlength : buffer'.length = buffer.length) :
    (data ++ buffer.drop amount).take amount = (data ++ buffer'.drop amount).take amount := by
  rw [List.length_take] at hdata
  rcases Nat.le_total amount buffer.length with hle | hle
  · rw [Nat.min_eq_left hle] at hdata
    rw [List.take_append_of_le_length hdata.ge, List.take_append_of_le_length hdata.ge]
  · rw [List.drop_of_length_le hle, List.drop_of_length_le (hlength ▸ hle)]

theorem readDirectoryLoop_lockstep (h : Agree S file file') {blockSize offset : Nat}
    {inode : ErofsInode} {blocks : List Bytes}
    (hdata : ReadsBlocks file' lz4 blockSize inode offset t blocks) (hs : S s t) (count : Nat)
    (results : List DirEntry) (reader : ErofsReader) {buffer' : Bytes}
    (hsize : blockSize ≤ reader.dirBlockBuffer.length)
    (hbuffer : buffer'.length = reader.dirBlockBuffer.length) :
    Lockstep (DirectoryAlike S)
      (readDirectoryLoop file lz4 blockSize count offset results inode reader s)
      (readDirectoryLoop file' lz4 blockSize count offset results inode
        { reader with dirBlockBuffer := buffer' } t) := by
  induction count generalizing offset results inode reader buffer' s t blocks with
  | zero => exact Lockstep.ok ⟨_, hbuffer, rfl, rfl, fun _ => hs⟩
  | succ count ih =>
    rw [readDirectoryLoop_succ, readDirectoryLoop_succ]
    split
    swap
    · exact Lockstep.ok ⟨_, hbuffer, rfl, rfl, fun _ => hs⟩
    next hlt =>
    dsimp only
    generalize hamount : min blockSize (inode.size - offset) = amount
    split
    · exact Lockstep.ok ⟨_, hbuffer, rfl, rfl, fun hne => absurd rfl hne⟩
    next hsmall =>
    have hlength : (reader.dirBlockBuffer.take amount).length = amount := by
      rw [List.length_take]
      omega
    have hlength' : (buffer'.take amount).length = (reader.dirBlockBuffer.take amount).length := by
      rw [List.length_take, List.length_take, hbuffer]
    obtain ⟨block, rest, inode₁, s₁, t₁, rfl, hs₁, hx, hy, hrest⟩ :=
      hdata.next h hs hlt (hlength.trans hamount.symm) hlength'
    rw [hx, hy]
    dsimp only
    rw [hlength] at hrest
    split
    · next hzero =>
      exact absurd hzero (by
        unfold dirEntrySize at hsmall
        omega)
    have hblock := ErofsInode.read_length hx
    have hfilled := length_take_append_drop amount hblock
    have hfilled' : (block ++ buffer'.drop amount).length =
        (block ++ reader.dirBlockBuffer.drop amount).length := by
      rw [List.length_append, List.length_append, List.length_drop, List.length_drop, hbuffer]
    have hsame := processDirectoryBlock_lockstep (take_filled hblock hbuffer)
      (Nat.not_lt.mp hsmall) results
    cases hp : processDirectoryBlock (block ++ reader.dirBlockBuffer.drop amount)
      amount results with
    | error fault => exact Lockstep.fault_left
    | ok entries =>
      cases hq : processDirectoryBlock (block ++ buffer'.drop amount) amount results with
      | error fault => exact Lockstep.fault_right
      | ok entries' =>
        obtain rfl := hsame _ _ hp hq
        cases entries with
        | none => exact Lockstep.ok ⟨_, hfilled', rfl, rfl, fun hne => absurd rfl hne⟩
        | some results =>
          refine ih hrest hs₁ _ _ ?_ hfilled'
          rw [hfilled]
          exact hsize

theorem readDirectory_lockstep (h : Agree S file file') (hs : S s t)
    {superBlock : ErofsSuperBlock} {n : Nat}
    (hdata : DataReadable file lz4 superBlock s n) (reader : ErofsReader) {buffer' : Bytes}
    (hsize : superBlock.blockSize ≤ reader.dirBlockBuffer.length)
    (hbuffer : buffer'.length = reader.dirBlockBuffer.length) :
    Lockstep (DirectoryAlike S) (reader.readDirectory file lz4 superBlock n s)
      (readDirectory file' lz4 superBlock n { reader with dirBlockBuffer := buffer' } t) := by
  obtain ⟨hinode, hstate⟩ := ErofsInode.new_alike h hs superBlock n 0
  unfold readDirectory
  dsimp only
  rw [← hinode]
  split
  · exact Lockstep.ok ⟨_, hbuffer, rfl, rfl, fun hne => absurd rfl hne⟩
  · next htype =>
    obtain ⟨blocks, hdata⟩ := hdata (not_not.mp htype)
    obtain ⟨-, hblocks⟩ := hdata.alike h hs
    rw [← hinode] at hblocks
    refine readDirectoryLoop_lockstep h hblocks (hstate fun hunknown => ?_) _ _ reader hsize hbuffer
    rw [hunknown] at htype
    exact htype (by decide)

/-! ## The walk -/

/-- A reader that goes through directories that are reached, all of which can be read. -/
structure Along (S : σ → τ → Prop) (file : IErofsImageFile σ) (lz4 : Lz4)
    (superBlock : ErofsSuperBlock) (reader : ErofsReader) : Prop where
  readable : ReachedReadable S file lz4 superBlock
  block : superBlock.blockSize = 4096
  buffer : reader.dirBlockBuffer.length = 4096
  stack : ∀ dir ∈ reader.dirStack, Reached S file lz4 superBlock dir.inode
  entries : ∀ entry ∈ reader.currentDir, entry.fileType = .directory →
    Reached S file lz4 superBlock entry.inode

/-- The results of a step in two runs: both give the same, and as long as there is no error, can
go on. -/
def StepAlike {α : Type} (S : σ → τ → Prop) (file : IErofsImageFile σ) (lz4 : Lz4)
    (x : α × ErofsReader × σ) (y : α × ErofsReader × τ) : Prop :=
  ∃ buffer', buffer'.length = x.2.1.dirBlockBuffer.length ∧
    y.2.1 = { x.2.1 with dirBlockBuffer := buffer' } ∧ x.1 = y.1 ∧
    (x.2.1.error = none →
      (∀ superBlock, x.2.1.superBlock = some superBlock → Along S file lz4 superBlock x.2.1) ∧
        S x.2.2 y.2.2)

/-- Only a directory gives entries. -/
theorem readDirectory_type {superBlock : ErofsSuperBlock} {n : Nat} {reader reader' : ErofsReader}
    {entries : List DirEntry} {s' : σ}
    (hread : reader.readDirectory file lz4 superBlock n s = .ok (some entries, reader', s')) :
    (ErofsInode.new file superBlock n 0 s).1.type = .directory := by
  unfold readDirectory at hread
  dsimp only at hread
  split at hread
  · cases hread
  · next htype => exact not_not.mp htype

/-- The directories among the entries of a directory that is reached are reached. -/
theorem reached_of_read (h : Agree S file file') (hs : S s t) {superBlock : ErofsSuperBlock}
    (hreadable : ReachedReadable S file lz4 superBlock) (hblock : superBlock.blockSize = 4096)
    {n : Nat} (hn : Reached S file lz4 superBlock n) {reader reader' : ErofsReader}
    (hbuffer : reader.dirBlockBuffer.length = 4096) {entries : List DirEntry} {s' : σ}
    (hread : reader.readDirectory file lz4 superBlock n s = .ok (some entries, reader', s')) :
    ∀ entry ∈ entries, entry.fileType = .directory → Reached S file lz4 superBlock entry.inode := by
  obtain ⟨blocks, hdata⟩ := hreadable n hn s t hs (readDirectory_type hread)
  obtain ⟨-, hentries⟩ :=
    readDirectory_dirents h hs (hdata.alike h hs) (hblock.trans hbuffer.symm).le hread
  have hsame := DirectoryEntries.eq ⟨blocks, hdata, rfl⟩ h hs (hentries (by omega) (by omega))
  exact fun entry hentry htype => .sub hn hs ⟨blocks, hdata, hsame.symm⟩ hentry htype

theorem nextDirectory_lockstep (h : Agree S file file') {superBlock : ErofsSuperBlock}
    (hreadable : ReachedReadable S file lz4 superBlock) (hblock : superBlock.blockSize = 4096)
    (stack : List Directory) (hstack : ∀ dir ∈ stack, Reached S file lz4 superBlock dir.inode)
    (reader : ErofsReader) (hparsed : reader.superBlock = some superBlock)
    (hsize : reader.dirBlockBuffer.length = 4096) (hempty : reader.currentDir = [])
    {buffer' : Bytes} (hs : S s t) (hbuffer : buffer'.length = reader.dirBlockBuffer.length) :
    Lockstep (StepAlike S file lz4) (nextDirectory file lz4 superBlock stack reader s)
      (nextDirectory file' lz4 superBlock stack { reader with dirBlockBuffer := buffer' } t) := by
  induction stack generalizing reader buffer' s t with
  | nil =>
    refine Lockstep.ok ⟨_, hbuffer, rfl, rfl, fun _ => ⟨fun superBlock' hsome => ?_, hs⟩⟩
    obtain rfl := Option.some.inj (hsome.symm.trans hparsed)
    refine ⟨hreadable, hblock, hsize, fun _ hmem => (nomatch hmem), fun entry hentry => ?_⟩
    rw [show _ = [] from hempty] at hentry
    cases hentry
  | cons front rest ih =>
    have hfront := hstack front List.mem_cons_self
    have hread := readDirectory_lockstep h hs (hreadable _ hfront s t hs) reader
      (hblock.trans hsize.symm).le hbuffer
    unfold nextDirectory
    cases hx : reader.readDirectory file lz4 superBlock front.inode s with
    | error fault => exact Lockstep.fault_left
    | ok x =>
      cases hy : readDirectory file' lz4 superBlock front.inode
          { reader with dirBlockBuffer := buffer' } t with
      | error fault => exact Lockstep.fault_right
      | ok y =>
        have halike := hread x y hx hy
        obtain ⟨entries, reader₁, s₁⟩ := x
        obtain ⟨entries', reader₂, t₁⟩ := y
        obtain ⟨buffer₁, hbuffer₁, rfl, rfl, hstate⟩ := halike
        obtain ⟨buffer, hlength, rfl⟩ := readDirectory_frame hx
        rcases entries with _ | _ | ⟨entry, others⟩
        · exact Lockstep.ok ⟨_, hbuffer₁, rfl, rfl, fun hnone => nomatch hnone⟩
        · exact ih (fun dir hdir => hstack dir (List.mem_cons_of_mem _ hdir))
            { reader with dirBlockBuffer := buffer } hparsed (hlength.trans hsize) hempty
            (hstate fun hnone => nomatch hnone) hbuffer₁
        · refine Lockstep.ok ⟨_, hbuffer₁, rfl, rfl, fun _ =>
            ⟨fun superBlock' hsome => ?_, hstate fun hnone => nomatch hnone⟩⟩
          obtain rfl := Option.some.inj (hsome.symm.trans hparsed)
          exact ⟨hreadable, hblock, hlength.trans hsize, hstack,
            reached_of_read h hs hreadable hblock hfront hsize hx⟩

/-- Taking an entry keeps to directories that are reached. -/
theorem Along.advance {superBlock superBlock' : ErofsSuperBlock} {reader : ErofsReader}
    {front : Directory} {dirEntry : DirEntry} (halong : Along S file lz4 superBlock reader)
    (hat : reader.AtEntry superBlock' front dirEntry) :
    Along S file lz4 superBlock (reader.advance front dirEntry) := by
  refine ⟨halong.readable, halong.block, halong.buffer, fun dir hdir => ?_, halong.entries⟩
  unfold ErofsReader.advance at hdir
  dsimp only at hdir
  split at hdir
  · next htype =>
    rcases List.mem_append.mp hdir with hdir | hdir
    · exact halong.stack dir hdir
    · obtain rfl := List.mem_singleton.mp hdir
      exact halong.entries _ (List.mem_of_getElem? hat.dirEntry) htype
  · exact halong.stack dir hdir

theorem next_lockstep (h : Agree S file file') (reader : ErofsReader) {buffer' : Bytes}
    (hbuffer : buffer'.length = reader.dirBlockBuffer.length)
    (hgo : reader.error = none →
      (∀ superBlock, reader.superBlock = some superBlock → Along S file lz4 superBlock reader) ∧
        S s t) :
    Lockstep (StepAlike S file lz4) (reader.next file lz4 s)
      (next file' lz4 { reader with dirBlockBuffer := buffer' } t) := by
  intro a b ha hb
  have hat' : ∀ superBlock front dirEntry, reader.AtEntry superBlock front dirEntry →
      AtEntry { reader with dirBlockBuffer := buffer' } superBlock front dirEntry :=
    fun _ _ _ hat => ⟨hat.superBlock, hat.front, hat.error, hat.dirEntry⟩
  cases next_cases ha with
  | idle hidle =>
    have hidle' := @next_idle τ file' lz4 { reader with dirBlockBuffer := buffer' } t hidle
    rw [hidle'] at hb
    cases hb
    exact ⟨_, hbuffer, rfl, rfl, hgo⟩
  | @invalid superBlock' front dirEntry inode s₁ hat hinode hinvalid =>
    obtain ⟨-, hs⟩ := hgo hat.error
    obtain ⟨t₁, hinode', -⟩ := ErofsInode.new_alike_of_eq h hs hinode
    rw [next_at (hat' _ _ _ hat) hinode', if_pos hinvalid] at hb
    cases hb
    exact ⟨buffer', hbuffer, rfl, rfl, fun hnone => nomatch hnone⟩
  | @within superBlock' front dirEntry inode s₁ hat hinode hvalid hmore =>
    obtain ⟨halong, hs⟩ := hgo hat.error
    obtain ⟨t₁, hinode', hstate⟩ := ErofsInode.new_alike_of_eq h hs hinode
    rw [next_at (hat' _ _ _ hat) hinode', if_neg (not_not.mpr hvalid),
      if_neg (Nat.not_le.mpr hmore)] at hb
    cases hb
    exact ⟨buffer', hbuffer, rfl, rfl, fun _ =>
      ⟨fun superBlock hsome => (halong superBlock hsome).advance hat, hstate hvalid⟩⟩
  | @across superBlock' front dirEntry inode s₁ s₂ reader₁ found hat hinode hvalid hlast hnext =>
    obtain ⟨halong, hs⟩ := hgo hat.error
    obtain ⟨t₁, hinode', hstate⟩ := ErofsInode.new_alike_of_eq h hs hinode
    rw [next_at (hat' _ _ _ hat) hinode', if_neg (not_not.mpr hvalid), if_pos hlast] at hb
    have halong := halong superBlock' hat.superBlock
    have hwalk := @nextDirectory_lockstep _ _ file file' lz4 S s₁ t₁ h superBlock'
      halong.readable halong.block (reader.advance front dirEntry).dirStack.tail
      (fun dir hdir => (halong.advance hat).stack dir (List.mem_of_mem_tail hdir))
      { reader.advance front dirEntry with currentDir := [], currentDirIndex := 0 }
      hat.superBlock halong.buffer rfl buffer' (hstate hvalid) hbuffer
    split at hb
    · cases hb
    · next reader₂ t₂ hnext' =>
      cases hb
      obtain ⟨buffer₁, hbuffer₁, rfl, hfound, hrest⟩ := hwalk _ _ hnext hnext'
      obtain rfl : found = false := hfound
      exact ⟨buffer₁, hbuffer₁, rfl, rfl, hrest⟩
    · next reader₂ t₂ hnext' =>
      cases hb
      obtain ⟨buffer₁, hbuffer₁, rfl, hfound, hrest⟩ := hwalk _ _ hnext hnext'
      obtain rfl : found = true := hfound
      exact ⟨buffer₁, hbuffer₁, rfl, rfl, hrest⟩

/-- Calls of `next` in two runs. -/
theorem takeNext_lockstep (h : Agree S file file') (calls : Nat) (reader : ErofsReader)
    {buffer' : Bytes} (hbuffer : buffer'.length = reader.dirBlockBuffer.length)
    (hgo : reader.error = none →
      (∀ superBlock, reader.superBlock = some superBlock → Along S file lz4 superBlock reader) ∧
        S s t) :
    Lockstep (StepAlike S file lz4) (takeNext file lz4 calls reader s)
      (takeNext file' lz4 calls { reader with dirBlockBuffer := buffer' } t) := by
  induction calls generalizing reader buffer' s t with
  | zero => exact Lockstep.ok ⟨_, hbuffer, rfl, rfl, hgo⟩
  | succ calls ih =>
    intro a b ha hb
    unfold takeNext at ha hb
    split at ha
    · cases ha
    next entry reader₁ s₁ hnext =>
    split at hb
    · cases hb
    next entry' reader₂ t₁ hnext' =>
    split at ha
    · cases ha
    next entries reader₃ s₂ hrest =>
    split at hb
    · cases hb
    next entries' reader₄ t₂ hrest' =>
    cases ha
    cases hb
    obtain ⟨buffer₁, hbuffer₁, rfl, rfl, hgo'⟩ :=
      next_lockstep h reader hbuffer hgo _ _ hnext hnext'
    obtain ⟨buffer₂, hbuffer₂, rfl, rfl, hgo''⟩ := ih reader₁ hbuffer₁ hgo' _ _ hrest hrest'
    exact ⟨buffer₂, hbuffer₂, rfl, rfl, hgo''⟩

/-- Opening the image in two runs. -/
theorem new_lockstep (h : Agree S file file') (hs : S s t)
    (hreadable : ∀ superBlock, superBlockOf file s = some superBlock →
      ReachedReadable S file lz4 superBlock) {reader reader' : ErofsReader} {s₁ : σ} {t₁ : τ}
    (hnew : ErofsReader.new file lz4 s = .ok (reader, s₁))
    (hnew' : ErofsReader.new file' lz4 t = .ok (reader', t₁)) :
    StepAlike S file lz4 ((), reader, s₁) ((), reader', t₁) := by
  unfold superBlockOf at hreadable
  unfold ErofsReader.new at hnew hnew'
  dsimp only at hnew hnew'
  obtain ⟨_, _, hx, hy⟩ | ⟨buf, s, t, hx, hy, hs⟩ := (h.readBytes hs firstBlockSize 0).cases
  · rw [hx] at hnew
    rw [hy] at hnew'
    cases hnew
    cases hnew'
    exact ⟨_, rfl, rfl, rfl, fun hnone => nomatch hnone⟩
  rw [hx] at hnew hreadable
  rw [hy] at hnew'
  dsimp only at hnew hnew' hreadable
  cases hparse : ErofsSuperBlock.parse buf with
  | error fault =>
    rw [hparse] at hnew
    cases hnew
  | ok parsed =>
    rw [hparse] at hnew hnew' hreadable
    cases parsed with
    | error error =>
      cases hnew
      cases hnew'
      exact ⟨_, rfl, rfl, rfl, fun hnone => nomatch hnone⟩
    | ok superBlock =>
      have hreadable := hreadable superBlock rfl
      dsimp only at hnew hnew'
      split at hnew
      · next hsize =>
        rw [if_pos hsize] at hnew'
        cases hnew
        cases hnew'
        exact ⟨_, rfl, rfl, rfl, fun _ => ⟨fun _ hsome => (nomatch hsome), hs⟩⟩
      next hsize =>
      rw [if_neg hsize] at hnew'
      have hblock := not_not.mp hsize
      have hread := @readDirectory_lockstep _ _ file file' lz4 S s t h hs superBlock
        superBlock.rootInode (hreadable _ .root s t hs)
        { superBlock := some superBlock, dirBlockBuffer := List.replicate superBlock.blockSize 0 }
        (List.replicate superBlock.blockSize 0) List.length_replicate.ge rfl
      rcases hx : readDirectory file lz4 superBlock superBlock.rootInode
        { superBlock := some superBlock,
          dirBlockBuffer := List.replicate superBlock.blockSize 0 } s with
        fault | ⟨entries, reader₁, s₂⟩
      · rw [hx] at hnew
        cases hnew
      rcases hy : readDirectory file' lz4 superBlock superBlock.rootInode
        { superBlock := some superBlock,
          dirBlockBuffer := List.replicate superBlock.blockSize 0 } t with
        fault | ⟨entries', reader₂, t₂⟩
      · rw [hy] at hnew'
        cases hnew'
      rw [hx] at hnew
      rw [hy] at hnew'
      obtain ⟨buffer', hbuffer', rfl, rfl, hrest⟩ := hread _ _ hx hy
      obtain ⟨buffer, hbuffer, rfl⟩ := readDirectory_frame hx
      have hlength : buffer.length = 4096 := hbuffer.trans (List.length_replicate.trans hblock)
      rcases entries with _ | _ | ⟨entry, others⟩
      · cases hnew
        cases hnew'
        exact ⟨buffer', hbuffer', rfl, rfl, fun hnone => nomatch hnone⟩
      · cases hnew
        cases hnew'
        refine ⟨buffer', hbuffer', rfl, rfl, fun _ => ⟨fun superBlock' hsome => ?_,
          hrest fun hnone => nomatch hnone⟩⟩
        obtain rfl := Option.some.inj hsome
        exact ⟨hreadable, hblock, hlength, fun _ hmem => (nomatch hmem), fun _ hmem => nomatch hmem⟩
      · cases hnew
        cases hnew'
        refine ⟨buffer', hbuffer', rfl, rfl, fun _ => ⟨fun superBlock' hsome => ?_,
          hrest fun hnone => nomatch hnone⟩⟩
        obtain rfl := Option.some.inj hsome
        refine ⟨hreadable, hblock, hlength, fun dir hdir => ?_,
          reached_of_read h hs hreadable hblock .root (List.length_replicate.trans hblock) hx⟩
        obtain rfl := List.mem_singleton.mp hdir
        exact .root

end

end ErofsReader

end Erofs
