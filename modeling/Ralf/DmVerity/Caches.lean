import Ralf.DmVerity.SignedBlocks

/-!
# Caches are not seen

A verifier keeps hash blocks that it has verified, and a protected file keeps the block that it read
last. On storage that does not change nothing of this is seen: `readAll_stateless` says of every
sequence of reads that each succeeds if and only if the blocks it touches are accepted by the
verifier without state.

Two sources that answer alike give the same reads (`Simulates`). The storage with its verifier is
related to a source that has neither a cache nor a state.
-/

namespace DmVerity

variable {ω ω' : Type}

/-! ## Sources that answer alike -/

/-- Two sources give the same answers from related states, which stay related. -/
structure Simulates (src : BlockSource ω) (src' : BlockSource ω') (R : ω → ω' → Prop) : Prop where
  pread : ∀ {w w'} (offset size : Nat), R w w' →
    (src.pread w offset size).1 = (src'.pread w' offset size).1 ∧
      R (src.pread w offset size).2 (src'.pread w' offset size).2
  verify : ∀ {w w'} (n : Nat) (data : Bytes), R w w' →
    (src.verify w n data).1 = (src'.verify w' n data).1 ∧
      R (src.verify w n data).2 (src'.verify w' n data).2

namespace LiveFile

variable {src : BlockSource ω} {src' : BlockSource ω'} {R : ω → ω' → Prop} {w : ω} {w' : ω'}

theorem readAndVerifyBlock_simulates (h : Simulates src src' R) (hw : R w w') (f : LiveFile)
    (nblock pos : Nat) (buffer : Bytes) :
    ∃ ok data w₁ w₁', f.readAndVerifyBlock src nblock buffer pos w = (ok, data, w₁) ∧
      f.readAndVerifyBlock src' nblock buffer pos w' = (ok, data, w₁') ∧ R w₁ w₁' := by
  obtain ⟨hread, hw₁⟩ := h.pread (wrap64 (f.fileOffset + nblock * kBlockSize)) kBlockSize hw
  unfold readAndVerifyBlock
  rcases hx : src.pread w (wrap64 (f.fileOffset + nblock * kBlockSize)) kBlockSize with ⟨result, w₁⟩
  rcases hy : src'.pread w' (wrap64 (f.fileOffset + nblock * kBlockSize)) kBlockSize with
    ⟨result', w₁'⟩
  rw [hx, hy] at hread hw₁
  obtain rfl : result = result' := hread
  cases result with
  | error errno => exact ⟨_, _, _, _, rfl, rfl, hw₁⟩
  | data bytes =>
    dsimp only
    by_cases hlen : bytes.length = kBlockSize
    · rw [if_neg (not_not.mpr hlen), if_neg (not_not.mpr hlen)]
      obtain ⟨hverify, hw₂⟩ :=
        h.verify nblock ((buffer.overwrite pos bytes).slice pos kBlockSize) hw₁
      refine ⟨_, _, _, _, rfl, ?_, hw₂⟩
      rw [hverify]
    · rw [if_pos hlen, if_pos hlen]
      exact ⟨_, _, _, _, rfl, rfl, hw₁⟩

theorem loadBlock_simulates (h : Simulates src src' R) (hw : R w w') (f : LiveFile)
    (nblock : Nat) :
    ∃ ok f₁ w₁ w₁', f.loadBlock src nblock w = (ok, f₁, w₁) ∧
      f.loadBlock src' nblock w' = (ok, f₁, w₁') ∧ R w₁ w₁' := by
  obtain ⟨ok, data, w₁, w₁', hx, hy, hw₁⟩ :=
    readAndVerifyBlock_simulates h hw f nblock 0 f.blockBuffer
  unfold loadBlock
  by_cases hcached : nblock = f.blockBufferNumber
  · rw [if_pos hcached, if_pos hcached]
    exact ⟨_, _, _, _, rfl, rfl, hw⟩
  · rw [if_neg hcached, if_neg hcached]
    refine ⟨_, _, _, _, rfl, Prod.ext ?_ (Prod.ext (LiveFile.ext rfl rfl rfl ?_ ?_) rfl), ?_⟩
    · dsimp only
      rw [hx, hy]
    · dsimp only
      rw [hx, hy]
    · dsimp only
      rw [hx, hy]
    · rw [hx, hy]
      exact hw₁

theorem readPartialBlock_simulates (h : Simulates src src' R) (hw : R w w') (f : LiveFile)
    (buffer : Bytes) (pos nblock offset size : Nat) :
    ∃ ok data f₁ w₁ w₁', f.readPartialBlock src buffer pos nblock offset size w = (ok, data, f₁, w₁) ∧
      f.readPartialBlock src' buffer pos nblock offset size w' = (ok, data, f₁, w₁') ∧
      R w₁ w₁' := by
  unfold readPartialBlock
  by_cases hrange : offset ≥ kBlockSize ∨ size > kBlockSize - offset
  · rw [if_pos hrange, if_pos hrange]
    exact ⟨_, _, _, _, _, rfl, rfl, hw⟩
  · obtain ⟨ok, f₁, w₁, w₁', hx, hy, hw₁⟩ := loadBlock_simulates h hw f nblock
    rw [if_neg hrange, if_neg hrange, hx, hy]
    cases ok with
    | false => exact ⟨_, _, _, _, _, rfl, rfl, hw₁⟩
    | true => exact ⟨_, _, _, _, _, rfl, rfl, hw₁⟩

theorem readBlocks_simulates (h : Simulates src src' R) (f : LiveFile) (size : Nat) :
    ∀ {w : ω} {w' : ω'} (buffer : Bytes) (pos blkNumber : Nat), R w w' →
    ∃ ok data left w₁ w₁', f.readBlocks src buffer pos size blkNumber w = (ok, data, left, w₁) ∧
      f.readBlocks src' buffer pos size blkNumber w' = (ok, data, left, w₁') ∧ R w₁ w₁' := by
  induction size using Nat.strong_induction_on with
  | _ size ih =>
    intro w w' buffer pos blkNumber hw
    rw [readBlocks, readBlocks]
    by_cases hmore : size ≥ kBlockSize
    · obtain ⟨ok, data, w₁, w₁', hx, hy, hw₁⟩ :=
        readAndVerifyBlock_simulates h hw f blkNumber pos buffer
      rw [if_pos hmore, if_pos hmore, hx, hy]
      cases ok with
      | false => exact ⟨_, _, _, _, _, rfl, rfl, hw₁⟩
      | true =>
        have hpos : 0 < kBlockSize := by decide
        exact ih (size - kBlockSize) (Nat.sub_lt (Nat.lt_of_lt_of_le hpos hmore) hpos) data
          (pos + kBlockSize) (blkNumber + 1) hw₁
    · rw [if_neg hmore, if_neg hmore]
      exact ⟨_, _, _, _, _, rfl, rfl, hw⟩

theorem readBody_simulates (h : Simulates src src' R) (hw : R w w') (f : LiveFile)
    (buffer : Bytes) (pos size blkNumber : Nat) :
    ∃ ok data f₁ w₁ w₁', f.readBody src buffer pos size blkNumber w = (ok, data, f₁, w₁) ∧
      f.readBody src' buffer pos size blkNumber w' = (ok, data, f₁, w₁') ∧ R w₁ w₁' := by
  obtain ⟨ok, data, ⟨pos₁, size₁, blkNumber₁⟩, w₁, w₁', hx, hy, hw₁⟩ :=
    readBlocks_simulates h f size buffer pos blkNumber hw
  rw [readBody, readBody, hx, hy]
  cases ok with
  | false => exact ⟨_, _, _, _, _, rfl, rfl, hw₁⟩
  | true =>
    dsimp only
    by_cases htail : size₁ > 0
    · rw [if_pos htail, if_pos htail]
      exact readPartialBlock_simulates h hw₁ f data pos₁ blkNumber₁ 0 size₁
    · rw [if_neg htail, if_neg htail]
      exact ⟨_, _, _, _, _, rfl, rfl, hw₁⟩

theorem readDirectLoop_simulates (h : Simulates src src' R) (size : Nat) :
    ∀ {w : ω} {w' : ω'} (f : LiveFile) (buffer : Bytes) (pos offset blkNumber : Nat), R w w' →
    ∃ ok data f₁ w₁ w₁',
      f.readDirectLoop src buffer pos size offset blkNumber w = (ok, data, f₁, w₁) ∧
      f.readDirectLoop src' buffer pos size offset blkNumber w' = (ok, data, f₁, w₁') ∧
      R w₁ w₁' := by
  induction size using Nat.strong_induction_on with
  | _ size ih =>
    intro w w' f buffer pos offset blkNumber hw
    rw [readDirectLoop, readDirectLoop]
    by_cases hmore : size > 0
    · obtain ⟨ok, f₁, w₁, w₁', hx, hy, hw₁⟩ := loadBlock_simulates h hw f blkNumber
      rw [if_pos hmore, if_pos hmore, hx, hy]
      cases ok with
      | false => exact ⟨_, _, _, _, _, rfl, rfl, hw₁⟩
      | true =>
        have hoffset := Nat.mod_lt offset (by decide : 0 < kBlockSize)
        exact ih _ (by omega) f₁ _ _ _ _ hw₁
    · rw [if_neg hmore, if_neg hmore]
      exact ⟨_, _, _, _, _, rfl, rfl, hw⟩

/-- A read gives the same from both sources. -/
theorem read_simulates (h : Simulates src src' R) (hw : R w w') (f : LiveFile) (buffer : Bytes)
    (size offset : Nat) :
    ∃ ok data f₁ w₁ w₁', f.read src buffer size offset w = (ok, data, f₁, w₁) ∧
      f.read src' buffer size offset w' = (ok, data, f₁, w₁') ∧ R w₁ w₁' := by
  unfold read
  by_cases hrange : offset ≥ f.fileSize ∨ size > f.fileSize - offset
  · rw [if_pos hrange, if_pos hrange]
    exact ⟨_, _, _, _, _, rfl, rfl, hw⟩
  rw [if_neg hrange, if_neg hrange]
  by_cases hdirect : f.directIo = true
  · rw [if_pos hdirect, if_pos hdirect]
    exact readDirectLoop_simulates h size f buffer 0 offset (offset / kBlockSize) hw
  rw [if_neg hdirect, if_neg hdirect]
  dsimp only
  by_cases hhead : offset % kBlockSize ≠ 0
  · rw [if_pos hhead, if_pos hhead]
    obtain ⟨ok, data, f₁, w₁, w₁', hx, hy, hw₁⟩ :=
      readPartialBlock_simulates h hw f buffer 0 (offset / kBlockSize) (offset % kBlockSize)
        (min size (kBlockSize - offset % kBlockSize))
    rw [hx, hy]
    cases ok with
    | false => exact ⟨_, _, _, _, _, rfl, rfl, hw₁⟩
    | true => exact readBody_simulates h hw₁ f₁ data _ _ _
  · rw [if_neg hhead, if_neg hhead]
    exact readBody_simulates h hw f buffer 0 size _

/-- A sequence of reads gives the same from both sources. -/
theorem readAll_simulates (h : Simulates src src' R) (reads : List (Bytes × Nat)) (f : LiveFile)
    (hw : R w w') : f.readAll src reads w = f.readAll src' reads w' := by
  induction reads generalizing f w w' with
  | nil => rfl
  | cons read reads ih =>
    obtain ⟨buffer, offset⟩ := read
    obtain ⟨ok, data, f₁, w₁, w₁', hx, hy, hw₁⟩ :=
      read_simulates h hw f buffer buffer.length offset
    rw [readAll, readAll, hx, hy]
    exact congrArg _ (ih f₁ hw₁)

end LiveFile

/-! ## Opening a protected file -/

/-- `lseek` to the end of a file, and the range that is read of it. -/
def fileRange (fileSize : Except Nat Nat) (offset size : Option Nat) : Result (Nat × Nat) :=
  match fileSize with
  | .error errno => .error (.system errno "Failed to seek to end of file")
  | .ok fileSize => checkAndCalcFileRange fileSize offset size

/-- The descriptors of a data file and of a hashes file, what `lseek` says about the data file, and
what a `dup` fails with. The error of the first has the text of the system. -/
structure ProtectedFds where
  dataFileFd : Int
  hashesFileFd : Int
  dataSize : Except Nat Nat
  dupHashes : Option Error := none
  dupData : Option Nat := none
  directIo : Bool := false

/-- Opens a data file that is protected by a hash tree in a hashes file. -/
def IDmVerityProtectedFile.«open» (sha256 : Bytes → Sha256Digest) (storage : Storage)
    (fds : ProtectedFds)
    (dataFileOffset dataFileSize hashesFileOffset hashesFileSize : Option Nat) (rootHash : Bytes)
    (memory : { bytes : Bytes // bytes.length = kBlockSize }) : Result (LiveFile × LiveState) :=
  if fds.dataFileFd < 0 ∨ fds.hashesFileFd < 0 then
    .error (.ralf .invalidArgument "Invalid file descriptor(s) supplied")
  else
    match fileRange fds.dataSize dataFileOffset dataFileSize with
    | .error error => .error error
    | .ok dataFileRange =>
      match fileRange storage.hashes.size hashesFileOffset hashesFileSize with
      | .error error => .error error
      | .ok hashesFileRange =>
        match fds.dupHashes with
        | some error => .error error
        | none =>
          match DmVerityVerifier.open sha256 storage.hashes rootHash (some hashesFileRange.1)
              (some hashesFileRange.2) .init with
          | (.error error, _) => .error error
          | (.ok verifier, io) =>
            if verifier.dataBlockSize ≠ 4096 then
              .error (.ralf .dmVerityError "Only support 4k dm-verity block sizes")
            else if dataFileRange.2 > wrap64 (verifier.dataBlockCount * verifier.dataBlockSize) then
              .error (.ralf .dmVerityError
                "dm-verity hashes doesn't cover all the data in the file")
            else
              match fds.dupData with
              | some _ => .error (.ralf .invalidArgument "Failed to dup data file fd")
              | none =>
                .ok ({ fileOffset := dataFileRange.1, fileSize := dataFileRange.2,
                       directIo := fds.directIo, blockBuffer := memory.val,
                       blockBuffer_length := LiveFile.memory_length memory }, ⟨verifier, io, 0⟩)

variable {sha256 : Bytes → Sha256Digest}

/-- What a protected file that was opened has checked. -/
structure OpenedFile (sha256 : Bytes → Sha256Digest) (storage : Storage) (fds : ProtectedFds)
    (dataFileOffset dataFileSize hashesFileOffset hashesFileSize : Option Nat) (rootHash : Bytes)
    (f : LiveFile) (w : LiveState) : Prop where
  range : fileRange fds.dataSize dataFileOffset dataFileSize = .ok (f.fileOffset, f.fileSize)
  verifier : ∃ range, fileRange storage.hashes.size hashesFileOffset hashesFileSize = .ok range ∧
    DmVerityVerifier.open sha256 storage.hashes rootHash (some range.1) (some range.2) .init =
      (.ok w.verifier, w.io)
  covers : f.fileSize ≤ wrap64 (w.verifier.dataBlockCount * kBlockSize)
  reads_eq : w.reads = 0
  empty : f.blockBufferNumber = sizeMax
  directIo_eq : f.directIo = fds.directIo

theorem IDmVerityProtectedFile.open_ok {storage : Storage} {fds : ProtectedFds}
    {dataFileOffset dataFileSize hashesFileOffset hashesFileSize : Option Nat} {rootHash : Bytes}
    {memory : { bytes : Bytes // bytes.length = kBlockSize }} {f : LiveFile} {w : LiveState}
    (h : «open» sha256 storage fds dataFileOffset dataFileSize hashesFileOffset hashesFileSize
      rootHash memory = .ok (f, w)) :
    OpenedFile sha256 storage fds dataFileOffset dataFileSize hashesFileOffset hashesFileSize
      rootHash f w := by
  unfold «open» at h
  split_ifs at h with hfds
  rcases hdata : fileRange fds.dataSize dataFileOffset dataFileSize with error | dataFileRange
  · rw [hdata] at h
    cases h
  rcases hhashes : fileRange storage.hashes.size hashesFileOffset hashesFileSize with
    error | hashesFileRange
  · rw [hdata, hhashes] at h
    cases h
  rcases hdup : fds.dupHashes with _ | error
  · rcases hverifier : DmVerityVerifier.open sha256 storage.hashes rootHash
      (some hashesFileRange.1) (some hashesFileRange.2) .init with ⟨error | verifier, io⟩
    · rw [hdata, hhashes, hdup] at h
      dsimp only at h
      rw [hverifier] at h
      cases h
    · rw [hdata, hhashes, hdup] at h
      dsimp only at h
      rw [hverifier] at h
      dsimp only at h
      split_ifs at h with hblock hcovers
      rw [not_not.mp hblock] at hcovers
      cases hdupData : fds.dupData with
      | some errno =>
        rw [hdupData] at h
        cases h
      | none =>
        rw [hdupData] at h
        cases h
        exact ⟨hdata, ⟨_, hhashes, hverifier⟩, Nat.not_lt.mp hcovers, rfl, rfl, rfl⟩
  · rw [hdata, hhashes, hdup] at h
    cases h

/-- `open` with ranges inside the two files, a verifier that covers the data, and no failing call. -/
theorem IDmVerityProtectedFile.open_succeeds {storage : Storage} {fds : ProtectedFds}
    {dataFileOffset dataFileSize hashesFileOffset hashesFileSize : Option Nat} {rootHash : Bytes}
    (memory : { bytes : Bytes // bytes.length = kBlockSize }) {dataRange hashesRange : Nat × Nat}
    {v : DmVerityVerifier} {io : Io} (hdataFd : 0 ≤ fds.dataFileFd)
    (hhashesFd : 0 ≤ fds.hashesFileFd) (hdupHashes : fds.dupHashes = none)
    (hdupData : fds.dupData = none)
    (hdata : fileRange fds.dataSize dataFileOffset dataFileSize = .ok dataRange)
    (hhashes : fileRange storage.hashes.size hashesFileOffset hashesFileSize = .ok hashesRange)
    (hverifier : DmVerityVerifier.open sha256 storage.hashes rootHash (some hashesRange.1)
      (some hashesRange.2) .init = (.ok v, io))
    (hcovers : dataRange.2 ≤ wrap64 (v.dataBlockCount * kBlockSize)) :
    «open» sha256 storage fds dataFileOffset dataFileSize hashesFileOffset hashesFileSize rootHash
      memory = .ok ({ fileOffset := dataRange.1, fileSize := dataRange.2, directIo := fds.directIo,
                      blockBuffer := memory.val,
                      blockBuffer_length := LiveFile.memory_length memory }, ⟨v, io, 0⟩) := by
  have hfds : ¬(fds.dataFileFd < 0 ∨ fds.hashesFileFd < 0) :=
    not_or.mpr ⟨Int.not_lt.mpr hdataFd, Int.not_lt.mpr hhashesFd⟩
  have hblock := DmVerityVerifier.open_dataBlockSize hverifier
  have hlimit : ¬dataRange.2 > wrap64 (v.dataBlockCount * v.dataBlockSize) := by
    rw [hblock]
    exact Nat.not_lt.mpr hcovers
  unfold «open»
  rw [if_neg hfds, hdata, hhashes, hdupHashes]
  dsimp only
  rw [hverifier]
  dsimp only
  rw [if_neg (not_not.mpr hblock), if_neg hlimit, hdupData]

/-- The range of a hash area in its file, for any offset and size that it is opened with. -/
theorem Embedded.fileRange_ok {salt uuid : Bytes} {blocks : List Bytes} {before after : Bytes}
    {hashesOffset hashesSize : Option Nat}
    (h : Embedded sha256 salt uuid blocks before after hashesOffset hashesSize) :
    ∃ range, fileRange h.file.size hashesOffset hashesSize = .ok range ∧
      Embedded sha256 salt uuid blocks before after (some range.1) (some range.2) := by
  have harea := @hashArea_length sha256 salt uuid blocks h.wellFormed
  have hlength : (before ++ (hashArea sha256 salt uuid blocks ++ after)).length =
      before.length + ((hashArea sha256 salt uuid blocks).length + after.length) := by
    rw [List.length_append, List.length_append]
  have hsize : fileRange h.file.size hashesOffset hashesSize =
      checkAndCalcFileRange (before ++ (hashArea sha256 salt uuid blocks ++ after)).length
        hashesOffset hashesSize := rfl
  have hstart : ¬before.length ≥ (before ++ (hashArea sha256 salt uuid blocks ++ after)).length := by
    omega
  rw [hsize, checkAndCalcFileRange]
  dsimp only
  rw [h.offset_eq, if_neg hstart]
  cases hashesSize with
  | none =>
    rw [Option.getD_none, if_neg (lt_irrefl _)]
    refine ⟨_, rfl, { h with offset_eq := rfl, size_ge := ?_, size_le := ?_ }⟩
    · rintro size ⟨⟩
      omega
    · rintro size ⟨⟩
      omega
  | some size =>
    have hle := h.size_le size rfl
    rw [Option.getD_some, if_neg (by omega)]
    refine ⟨_, rfl, { h with offset_eq := rfl }⟩

/-- A range of a file is opened with a hash area that covers it. -/
theorem Embedded.protects {salt uuid : Bytes} {blocks : List Bytes} {before after : Bytes}
    {hashesOffset hashesSize : Option Nat}
    (h : Embedded sha256 salt uuid blocks before after hashesOffset hashesSize) (storage : Storage)
    (hstorage : storage.hashes = h.file) (fds : ProtectedFds)
    (memory : { bytes : Bytes // bytes.length = kBlockSize }) (hdataFd : 0 ≤ fds.dataFileFd)
    (hhashesFd : 0 ≤ fds.hashesFileFd) (hdupHashes : fds.dupHashes = none)
    (hdupData : fds.dupData = none) {dataFileOffset dataFileSize : Option Nat}
    {dataRange : Nat × Nat}
    (hdata : fileRange fds.dataSize dataFileOffset dataFileSize = .ok dataRange)
    (hcovers : dataRange.2 ≤ blocks.length * kBlockSize) :
    ∃ f w, IDmVerityProtectedFile.open sha256 storage fds dataFileOffset dataFileSize hashesOffset
        hashesSize (treeRoot sha256 salt blocks).val memory = .ok (f, w) ∧
      f.fileOffset = dataRange.1 ∧ f.fileSize = dataRange.2 ∧
      w.verifier.dataBlockCount = blocks.length ∧ w.verifier.hashesOffset = before.length ∧
      w.verifier.salt = salt := by
  obtain ⟨range, hrange, harea⟩ := h.fileRange_ok
  obtain ⟨v, io, hopen, hcount, hoffset, hsalt⟩ := harea.opens .init
  have hlimit : dataRange.2 ≤ wrap64 (v.dataBlockCount * kBlockSize) := by
    have hle := h.blocks_le
    rw [hcount, kBlockSize, wrap64_of_lt (by omega)]
    exact hcovers
  rw [← hstorage] at hrange
  exact ⟨_, _, IDmVerityProtectedFile.open_succeeds memory hdataFd hhashesFd hdupHashes hdupData
    hdata hrange (hstorage ▸ hopen) hlimit, rfl, rfl, hcount, hoffset, hsalt⟩

/-! ## Storage that does not change -/

/-- Storage with a data file that stays as it is, and with a hashes file that gives the same
whenever it is read. -/
structure Storage.Unchanging (storage : Storage) (file : DataFile) : Prop where
  data : ∀ time offset size, storage.pread time offset size = file.pread offset size
  hashes : storage.hashes.Unchanging

/-- The verifier is `v`, up to what its layers keep. -/
structure SameTree (sha256 : Bytes → Sha256Digest) (fd : HashesFile) (v v' : DmVerityVerifier) :
    Prop where
  refines : v'.RefinesFile sha256 fd
  eq : ∃ layer0, v' = { v with layer0 := layer0 }

/-- Opened with a root hash that is not zero, no call of a verifier faults. -/
theorem Opened.not_faultsAt {fd : HashesFile} (hfile : fd.Unchanging) {rootHash : Bytes}
    {v : DmVerityVerifier} {io : Io} (h : Opened sha256 fd rootHash v io)
    (hroot : v.rootHash ≠ .zero) (block : Nat) : ¬v.FaultsAt fd block := by
  rintro ⟨hblock, hfaults⟩
  cases h.layered with
  | single hone hlayer =>
    rw [treeOffsets, if_pos hone] at hfaults
    exact hfaults
  | @tree top lower topLayer io₁ hone hdetails hnew hdigest hlayer =>
    rw [treeOffsets, if_neg hone, faults_levelOffsets_iff (levelSizes_ne_nil _)] at hfaults
    obtain ⟨-, -, ⟨-, -, hzero⟩ | ⟨bytes, io₂, hread, -⟩⟩ := TopMostHashTreeLayer.new_cases hnew
    · exact hroot (hdigest.symm.trans hzero)
    · have hblock := hfile.preadFull_eq (wrap64 (v.hashesOffset + 4096)) io₁
      rw [hread, hfaults.1] at hblock
      cases hblock

/-- The storage with a verifier gives what the file gives with the verifier without state. -/
theorem source_simulates {storage : Storage} {file : DataFile} (h : storage.Unchanging file)
    {v : DmVerityVerifier} (hfaults : ∀ block, ¬v.FaultsAt storage.hashes block) :
    Simulates (storage.source sha256)
      (.still file fun n data => v.stateless sha256 storage.hashes (n, data))
      (fun w _ => SameTree sha256 storage.hashes v w.verifier) where
  pread offset size hw := ⟨h.data _ offset size, hw⟩
  verify {w _} n data hw := by
    obtain ⟨hrefines, layer0, heq⟩ := hw
    have hcount : w.verifier.FaultsAt storage.hashes n ↔ v.FaultsAt storage.hashes n := by
      rw [heq]
      rfl
    obtain ⟨layer1, io', hverify, hrefines'⟩ :=
      (verify_refines h.hashes hrefines n data w.io).2 (hcount.not.mpr (hfaults n))
    have hcall : (storage.source sha256).verify w n data =
        (w.verifier.stateless sha256 storage.hashes (n, data),
          ⟨{ w.verifier with layer0 := layer1 }, io', w.reads⟩) := by
      simp only [Storage.source, hverify]
    rw [hcall]
    refine ⟨?_, hrefines', layer1, ?_⟩
    · rw [heq]
      rfl
    · rw [heq]

/-! ## Sequences of reads -/

/-- A read of some bytes of a file where every block is accepted or not, whatever was read before.
-/
structure ReadsAccepted (file : DataFile) (accepts : Nat → Bytes → Bool) (fileOffset fileSize : Nat)
    (read : Bytes × Nat) (result : Bool × Bytes) : Prop where
  ok_iff : result.1 = true ↔ read.2 + read.1.length ≤ fileSize ∧
    ∀ n, n * kBlockSize < read.2 + read.1.length → read.2 < (n + 1) * kBlockSize →
      DmVerityProtectedFile.Verifies file accepts fileOffset n
  data_eq : result.1 = true →
    result.2 = file.contents.slice (fileOffset + read.2) read.1.length

namespace DmVerityProtectedFile

variable {file : DataFile} {accepts : Nat → Bytes → Bool} {fileOffset fileSize : Nat}

theorem read_accepted {f : DmVerityProtectedFile file} (hf : Coherent accepts fileOffset fileSize f)
    {buffer : Bytes} (hne : buffer ≠ []) (offset : Nat) :
    ReadsAccepted file accepts fileOffset fileSize (buffer, offset)
      ((f.read accepts buffer buffer.length offset).1,
        (f.read accepts buffer buffer.length offset).2.1) := by
  have hpos := List.length_pos_iff.mpr hne
  have hsize := hf.size_eq
  by_cases hrange : offset + buffer.length ≤ fileSize
  · obtain ⟨-, hread⟩ := @read_spec _ _ _ _ f _ buffer _ _ _ offset hf hpos hrange rfl rfl
    exact ⟨hread.ok_iff.trans (iff_and_self.mpr fun _ => hrange), hread.buffer_eq⟩
  · have hout : offset ≥ f.fileSize ∨ buffer.length > f.fileSize - offset := by omega
    rw [read, if_pos hout]
    exact ⟨iff_of_false Bool.false_ne_true fun h => hrange h.1,
      fun hok => absurd hok Bool.false_ne_true⟩

theorem live_readAll {f : DmVerityProtectedFile file} (hf : Coherent accepts fileOffset fileSize f)
    (reads : List (Bytes × Nat)) :
    List.Forall₂ (fun read result => read.1 ≠ [] →
        ReadsAccepted file accepts fileOffset fileSize read result)
      reads (f.live.readAll (.still file accepts) reads ()) := by
  induction reads generalizing f with
  | nil => exact .nil
  | cons read reads ih =>
    obtain ⟨buffer, offset⟩ := read
    rw [LiveFile.readAll, LiveFile.read_eq]
    exact .cons (fun hne => read_accepted hf hne offset) (ih (read_coherent hf rfl))

end DmVerityProtectedFile

/-- The reader of a range of a file. -/
theorem OpenedFile.live {storage : Storage} {fds : ProtectedFds} {file : DataFile}
    {dataFileOffset dataFileSize hashesFileOffset hashesFileSize : Option Nat} {rootHash : Bytes}
    {f : LiveFile} {w : LiveState} (h : OpenedFile sha256 storage fds dataFileOffset dataFileSize
      hashesFileOffset hashesFileSize rootHash f w)
    (hsize : fds.dataSize = .ok file.contents.length) (accepts : Nat → Bytes → Bool) :
    ∃ g : DmVerityProtectedFile file, g.live = f ∧
      DmVerityProtectedFile.Coherent accepts f.fileOffset f.fileSize g := by
  have hrange := h.range
  rw [hsize] at hrange
  have hle : f.fileOffset + f.fileSize ≤ file.contents.length := checkAndCalcFileRange_le hrange
  exact ⟨⟨f.fileOffset, f.fileSize, hle, f.directIo, f.blockBuffer, f.blockBuffer_length,
    f.blockBufferNumber⟩, rfl, rfl, rfl, .inl h.empty⟩

/-- On storage that does not change, every read of some bytes succeeds if and only if the verifier
without state accepts the blocks that it touches, whatever was read before. -/
theorem readAll_stateless {storage : Storage} {fds : ProtectedFds} {file : DataFile}
    {dataFileOffset dataFileSize hashesFileOffset hashesFileSize : Option Nat} {rootHash : Bytes}
    {memory : { bytes : Bytes // bytes.length = kBlockSize }} {f : LiveFile} {w : LiveState}
    (hstorage : storage.Unchanging file) (hsize : fds.dataSize = .ok file.contents.length)
    (hroot : rootHash ≠ Sha256Digest.zero.val)
    (hopen : IDmVerityProtectedFile.open sha256 storage fds dataFileOffset dataFileSize
      hashesFileOffset hashesFileSize rootHash memory = .ok (f, w)) (reads : List (Bytes × Nat)) :
    List.Forall₂ (fun read result => read.1 ≠ [] →
        ReadsAccepted file (fun n data => w.verifier.stateless sha256 storage.hashes (n, data))
          f.fileOffset f.fileSize read result)
      reads (f.readAll (storage.source sha256) reads w) := by
  have hopened := IDmVerityProtectedFile.open_ok hopen
  obtain ⟨range, -, hverifier⟩ := hopened.verifier
  have hv := DmVerityVerifier.open_ok hverifier
  have hne : w.verifier.rootHash ≠ .zero := fun hzero =>
    hroot (hv.rootHash.symm.trans (congrArg Subtype.val hzero))
  have hsimulates := @source_simulates sha256 _ _ hstorage w.verifier
    (hv.not_faultsAt hstorage.hashes hne)
  have hsame : SameTree sha256 storage.hashes w.verifier w.verifier :=
    ⟨hv.refinesFile hstorage.hashes, w.verifier.layer0, rfl⟩
  obtain ⟨g, rfl, hg⟩ := @OpenedFile.live _ _ _ file _ _ _ _ _ _ _ hopened hsize
    fun n data => w.verifier.stateless sha256 storage.hashes (n, data)
  rw [@LiveFile.readAll_simulates _ _ _ _ _ w () hsimulates reads g.live hsame]
  exact DmVerityProtectedFile.live_readAll hg reads

/-- The image of two blocks, with its hash area in a file of its own. -/
def twoBlockStorage : Storage where
  pread _ offset size := .data (Bytes.slice twoDataBlocks.flatten offset size)
  pread_le _ _ _ _ h := by
    cases h
    exact Bytes.slice_length_le _ _ _
  hashes := (twoDataBlocks_area prefixHash).file

theorem twoDataBlocks_length : twoDataBlocks.flatten.length = 8192 :=
  Bytes.length_flatten twoDataBlocks_block_length

theorem twoDataBlocks_lt : twoDataBlocks.flatten.length < 2 ^ 63 := by
  rw [twoDataBlocks_length]
  decide

/-- Its descriptors. -/
def twoBlockFds : ProtectedFds where
  dataFileFd := 3
  hashesFileFd := 4
  dataSize := .ok 8192

/-- Reads of this storage. -/
theorem readAll_stateless_twoBlocks :
    ∃ (f : LiveFile) (w : LiveState), f.fileSize = 8192 ∧
      ∀ reads, List.Forall₂ (fun read result => read.1 ≠ [] →
          ReadsAccepted (signedFile twoDataBlocks twoDataBlocks_lt)
            (fun n data => w.verifier.stateless prefixHash twoBlockStorage.hashes (n, data))
            f.fileOffset f.fileSize read result)
        reads (f.readAll (twoBlockStorage.source prefixHash) reads w) := by
  obtain ⟨bytes, hroot⟩ := treeRoot_eq_hash prefixHash [] twoDataBlocks
  obtain ⟨f, w, hopen, -, hsize, -⟩ := (twoDataBlocks_area prefixHash).protects
    twoBlockStorage rfl twoBlockFds ⟨List.replicate 4096 0, List.length_replicate⟩ (by decide)
    (by decide) rfl rfl (show fileRange (.ok 8192) none none = .ok (0, 8192) from rfl) (le_refl 8192)
  have hne : (treeRoot prefixHash [] twoDataBlocks).val ≠ Sha256Digest.zero.val := by
    rw [hroot]
    exact fun h => prefixHash_ne_zero bytes (Subtype.ext h)
  exact ⟨f, w, hsize, readAll_stateless
    ⟨fun _ _ _ => rfl, HashesFile.ofBytes_unchanging _⟩
    (congrArg Except.ok twoDataBlocks_length.symm) hne hopen⟩

end DmVerity
