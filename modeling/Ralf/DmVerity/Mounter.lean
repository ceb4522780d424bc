import Ralf.DmVerity.HashArea

/-!
# The checks before mounting

`DmVerityMounterLinux::checkImageFile` checks the ranges of an image file that is about to be
mounted, and the superblock at the start of the hashes range. It counts the hash blocks of the tree
itself: `calcRequiredHashBlocks` agrees with the levels that the verifier lays out for every
superblock. The ranges and products are 64-bit numbers. `checkImageFile_iff` says when what is
accepted is right in exact numbers: when neither the data size nor the end of the data range wraps.
-/

namespace DmVerity

/-- A range of a file. -/
structure FileRange where
  offset : Nat
  size : Nat
  offset_lt : offset < 2 ^ 64
  size_lt : size < 2 ^ 64

/-! ## The number of hash blocks -/

/-- The loop over the levels above the first. The first argument bounds the number of levels. -/
def addLayers (hashesPerBlock : Nat) : Nat → Nat → Nat → Nat
  | 0, _, requiredHashBlocks => requiredHashBlocks
  | levels + 1, layerHashBlocks, requiredHashBlocks =>
    if layerHashBlocks > 1 then
      let layerHashBlocks := divRoundUp layerHashBlocks hashesPerBlock
      addLayers hashesPerBlock levels layerHashBlocks (wrap64 (requiredHashBlocks + layerHashBlocks))
    else requiredHashBlocks

/-- The hash blocks for a number of data blocks. A single data block needs none. -/
def calcRequiredHashBlocks (dataBlocks blockSize : Nat) : Nat :=
  if dataBlocks = 1 then 0
  else
    let hashesPerBlock := blockSize / kSha256DigestSize
    let layerHashBlocks := divRoundUp dataBlocks hashesPerBlock
    addLayers hashesPerBlock (maxLevels - 1) layerHashBlocks layerHashBlocks

/-- The hash blocks of the levels that the verifier lays out. -/
def laidOutHashBlocks (dataBlocks : Nat) : Nat :=
  if dataBlocks = 1 then 0 else totalHashBlocks (layerDetails 128 maxLevels dataBlocks)

theorem totalHashBlocks_cons (details : LayerDetails) (rest : List LayerDetails) :
    totalHashBlocks (details :: rest) = wrap64 (details.hashBlocks + totalHashBlocks rest) := by
  simp [totalHashBlocks, wrap64]

/-- The loop adds what the list of levels holds after its first one. -/
theorem addLayers_eq {hashesPerBlock levels layerHashBlocks requiredHashBlocks : Nat}
    (h : requiredHashBlocks < 2 ^ 64) :
    addLayers hashesPerBlock levels layerHashBlocks requiredHashBlocks =
      wrap64 (requiredHashBlocks + totalHashBlocks
        (if layerHashBlocks > 1 then layerDetails hashesPerBlock levels layerHashBlocks else [])) := by
  induction levels generalizing layerHashBlocks requiredHashBlocks with
  | zero =>
    have hnone : (if layerHashBlocks > 1 then layerDetails hashesPerBlock 0 layerHashBlocks else []) =
        [] := ite_self _
    rw [hnone]
    exact (wrap64_of_lt h).symm
  | succ levels ih =>
    rw [addLayers]
    split_ifs with hmore
    · rw [ih (wrap64_lt _), layerDetails_succ, totalHashBlocks_cons]
      simp only [wrap64, Nat.add_mod_mod, Nat.mod_add_mod, Nat.add_assoc]
    · exact (wrap64_of_lt h).symm

/-- The mounter and the verifier count the same hash blocks. -/
theorem calcRequiredHashBlocks_eq {dataBlocks : Nat} :
    calcRequiredHashBlocks dataBlocks 4096 = laidOutHashBlocks dataBlocks := by
  unfold calcRequiredHashBlocks laidOutHashBlocks
  split_ifs with hone
  · rfl
  have hlt : divRoundUp dataBlocks 128 < 2 ^ 64 :=
    Nat.lt_of_le_of_lt (Nat.div_le_self _ _) (wrap64_lt _)
  show addLayers 128 (maxLevels - 1) (divRoundUp dataBlocks 128) (divRoundUp dataBlocks 128) = _
  rw [addLayers_eq hlt, show maxLevels = (maxLevels - 1) + 1 from rfl, layerDetails_succ,
    totalHashBlocks_cons]
  rfl

/-! ## The checks -/

/-- The ranges are aligned, and the hashes come after the data. -/
def checkFileRanges (dataRange hashesRange : FileRange) : Result Unit :=
  if (dataRange.offset ||| dataRange.size ||| hashesRange.offset ||| hashesRange.size) &&& 0xfff ≠ 0
  then .error (.ralf .dmVerityError "Data and hashes offsets and sizes must be 4k aligned")
  else if hashesRange.offset < wrap64 (dataRange.offset + dataRange.size) then
    .error (.ralf .dmVerityError "dm-verity hashes must come after the data")
  else .ok ()

/-- Reads the superblock at the start of the hashes range, and checks it against the ranges. -/
def readDmVeritySuperBlock (imageFile : HashesFile) (dataRange hashesRange : FileRange) (io : Io) :
    Result VeritySuperBlock × Io :=
  if hashesRange.size < 4096 then
    (.error (.ralf .dmVerityError "dmverity hashes range is smaller than superblock size"), io)
  else
    match preadFull imageFile 4096 hashesRange.offset io with
    | (none, io) => (.error (.system io.errno "Failed to read image file"), io)
    | (some buf, io) =>
      let superBlock := VeritySuperBlock.ofBytes buf
      match checkSuperBlock superBlock with
      | .error error => (.error error, io)
      | .ok () =>
        let requiredHashBlocks := calcRequiredHashBlocks superBlock.dataBlocks 4096
        if wrap64 (superBlock.dataBlocks * superBlock.dataBlockSize) > dataRange.size then
          (.error (.ralf .dmVerityError <|
            s!"dmverity super block has invalid number of data blocks (blocks: " ++
            s!"{superBlock.dataBlocks}, data size: {dataRange.size})"), io)
        else if wrap64 (requiredHashBlocks * superBlock.hashBlockSize) > hashesRange.size - 4096 then
          (.error (.ralf .dmVerityError <|
            s!"Not enough dm-verity hashes in file to cover the entire data (required hash " ++
            s!"blocks: {requiredHashBlocks}, actual hashes size {hashesRange.size})"), io)
        else (.ok superBlock, io)

/-- `DmVerityMounterLinux::checkImageFile`. -/
def checkImageFile (imageFile : HashesFile) (dataRange hashesRange : FileRange) (io : Io) :
    Result Unit × Io :=
  match checkFileRanges dataRange hashesRange with
  | .error error => (.error error, io)
  | .ok () =>
    match readDmVeritySuperBlock imageFile dataRange hashesRange io with
    | (.error error, io) => (.error error, io)
    | (.ok sb, io) =>
      let actual := wrap64 (sb.dataBlocks * sb.dataBlockSize)
      if dataRange.size ≠ actual then
        (.error (.ralf .dmVerityError <|
          s!"The data size in the package doesn't match dm-verity superblock (expect " ++
          s!"{dataRange.size}, actual {actual})"), io)
      else (.ok (), io)

/-! ## What is accepted -/

section
variable {imageFile : HashesFile} {dataRange hashesRange : FileRange} {sb : VeritySuperBlock}
  {io io' : Io}

theorem checkFileRanges_ok (h : checkFileRanges dataRange hashesRange = .ok ()) :
    wrap64 (dataRange.offset + dataRange.size) ≤ hashesRange.offset := by
  unfold checkFileRanges at h
  split_ifs at h with _ hbefore
  exact Nat.not_lt.mp hbefore

/-- The superblock that was read is supported, and its hash blocks fit, in 64-bit arithmetic. -/
theorem readDmVeritySuperBlock_ok
    (h : readDmVeritySuperBlock imageFile dataRange hashesRange io = (.ok sb, io')) :
    sb.Supported ∧ sb.dataBlocks < 2 ^ 64 ∧ 4096 ≤ hashesRange.size ∧
      wrap64 (laidOutHashBlocks sb.dataBlocks * 4096) ≤ hashesRange.size - 4096 := by
  unfold readDmVeritySuperBlock at h
  split at h
  · cases h
  next hsize =>
  split at h
  · cases h
  next buf io₁ _ =>
  dsimp only at h
  split at h
  · cases h
  next hcheck =>
  have hsupported := VeritySuperBlock.checkSuperBlock_ok_iff.mp hcheck
  rw [hsupported.hashBlockSize, calcRequiredHashBlocks_eq] at h
  split at h
  · cases h
  split at h
  · cases h
  next hfit =>
  cases h
  exact ⟨hsupported, VeritySuperBlock.dataBlocks_lt buf, Nat.not_lt.mp hsize, Nat.not_lt.mp hfit⟩

/-- What is checked of the ranges and the superblock when the image is accepted. -/
theorem checkImageFile_ok (h : checkImageFile imageFile dataRange hashesRange io = (.ok (), io')) :
    wrap64 (dataRange.offset + dataRange.size) ≤ hashesRange.offset ∧ ∃ sb,
      readDmVeritySuperBlock imageFile dataRange hashesRange io = (.ok sb, io') ∧
        dataRange.size = wrap64 (sb.dataBlocks * 4096) := by
  unfold checkImageFile at h
  split at h
  · cases h
  next hranges =>
  rcases hread : readDmVeritySuperBlock imageFile dataRange hashesRange io with ⟨_ | sb, io₁⟩
  · rw [hread] at h
    cases h
  rw [hread] at h
  dsimp only at h
  rw [(readDmVeritySuperBlock_ok hread).1.dataBlockSize] at h
  split at h
  · cases h
  next hsize =>
  cases h
  exact ⟨checkFileRanges_ok hranges, sb, rfl, not_not.mp hsize⟩

end

theorem laidOutHashBlocks_le {dataBlocks : Nat} (h : dataBlocks + 127 < 2 ^ 64) :
    laidOutHashBlocks dataBlocks ≤ dataBlocks := by
  unfold laidOutHashBlocks
  split_ifs with hone
  · exact Nat.zero_le _
  rcases Nat.eq_zero_or_pos dataBlocks with rfl | hpos
  · decide
  have hlevels : dataBlocks ≤ 128 ^ maxLevels := by
    unfold maxLevels
    omega
  rw [totalHashBlocks, (layerDetails_spec hlevels (by decide) h).1]
  exact Nat.le_trans (wrap64_le _) (levelSizes_sum_le dataBlocks (by omega))

theorem laidOutHashBlocks_mul_lt {dataBlocks : Nat} (h : dataBlocks * 4096 < 2 ^ 64) :
    laidOutHashBlocks dataBlocks * 4096 < 2 ^ 64 :=
  Nat.lt_of_le_of_lt (Nat.mul_le_mul_right _ (laidOutHashBlocks_le (by omega))) h

/-- The ranges of an accepted image in exact numbers, with the hash blocks that the verifier has for
the same superblock. -/
structure ExactRanges (dataBlocks : Nat) (dataRange hashesRange : FileRange) : Prop where
  dataSize : dataBlocks * 4096 = dataRange.size
  inFront : dataRange.offset + dataRange.size ≤ hashesRange.offset
  fits : (1 + calcRequiredHashBlocks dataBlocks 4096) * 4096 ≤ hashesRange.size
  hashBlocks : calcRequiredHashBlocks dataBlocks 4096 = laidOutHashBlocks dataBlocks

/-- For every image, all ranges and every superblock that `checkImageFile` accepts: the ranges are
right in exact numbers if and only if the data size and the end of the data are 64-bit numbers. -/
theorem checkImageFile_iff (imageFile : HashesFile) (dataRange hashesRange : FileRange) (io io' : Io)
    (h : checkImageFile imageFile dataRange hashesRange io = (.ok (), io')) :
    ∃ sb, readDmVeritySuperBlock imageFile dataRange hashesRange io = (.ok sb, io') ∧
      (ExactRanges sb.dataBlocks dataRange hashesRange ↔
        sb.dataBlocks * 4096 < 2 ^ 64 ∧ dataRange.offset + dataRange.size < 2 ^ 64) := by
  obtain ⟨hfront, sb, hread, hsize⟩ := checkImageFile_ok h
  obtain ⟨-, -, hblock, hfit⟩ := readDmVeritySuperBlock_ok hread
  have hsizeLt := dataRange.size_lt
  have hoffsetLt := hashesRange.offset_lt
  refine ⟨sb, hread, ?_, ?_⟩
  · rintro ⟨hdata, hinFront, -, -⟩
    exact ⟨hdata ▸ hsizeLt, Nat.lt_of_le_of_lt hinFront hoffsetLt⟩
  · rintro ⟨hdata, hend⟩
    rw [wrap64_of_lt hdata] at hsize
    rw [wrap64_of_lt hend] at hfront
    rw [wrap64_of_lt (laidOutHashBlocks_mul_lt hdata)] at hfit
    refine ⟨hsize.symm, hfront, ?_, calcRequiredHashBlocks_eq⟩
    rw [calcRequiredHashBlocks_eq, Nat.add_mul, Nat.one_mul]
    exact Nat.add_le_of_le_sub' hblock hfit

/-- An image with a superblock for a number of data blocks at an offset. -/
def imageWith (dataBlocks hashesOffset : Nat) : HashesFile where
  size := .ok (hashesOffset + 8192)
  pread _ offset _ := .data <|
    if offset = hashesOffset then (VeritySuperBlock.formatted (List.replicate 16 0) dataBlocks []).block
    else List.replicate 4096 0

/-- The superblock is read and the image accepted when the ranges fit in 64-bit arithmetic. -/
theorem imageWith_accepted {dataBlocks : Nat} {dataRange hashesRange : FileRange}
    (hlt : dataBlocks < 2 ^ 64) (hranges : checkFileRanges dataRange hashesRange = .ok ())
    (hblock : 4096 ≤ hashesRange.size) (hsize : dataRange.size = wrap64 (dataBlocks * 4096))
    (hfit : wrap64 (calcRequiredHashBlocks dataBlocks 4096 * 4096) ≤ hashesRange.size - 4096) :
    ∃ sb io, sb.dataBlocks = dataBlocks ∧
      readDmVeritySuperBlock (imageWith dataBlocks hashesRange.offset) dataRange hashesRange .init =
        (.ok sb, io) ∧
      checkImageFile (imageWith dataBlocks hashesRange.offset) dataRange hashesRange .init =
        (.ok (), io) := by
  have hwf := @VeritySuperBlock.formatted_wellFormed (List.replicate 16 0) [] dataBlocks
    List.length_replicate hlt (by decide)
  have hcheck := VeritySuperBlock.checkSuperBlock_ok_iff.mpr
    (@VeritySuperBlock.formatted_supported (List.replicate 16 0) [] dataBlocks (by decide))
  generalize hsb : VeritySuperBlock.formatted (List.replicate 16 0) dataBlocks [] = sb at hwf hcheck
  have hblocks : sb.dataBlocks = dataBlocks := hsb ▸ rfl
  have hdataSize : sb.dataBlockSize = 4096 := hsb ▸ rfl
  have hhashSize : sb.hashBlockSize = 4096 := hsb ▸ rfl
  have hread : preadFull (imageWith dataBlocks hashesRange.offset) 4096 hashesRange.offset .init =
      (some sb.block, { Io.init with reads := 1 }) := by
    unfold preadFull imageWith
    dsimp only
    rw [hsb, if_pos rfl, if_pos (VeritySuperBlock.block_length hwf)]
    rfl
  have hsuperBlock : readDmVeritySuperBlock (imageWith dataBlocks hashesRange.offset) dataRange
      hashesRange .init = (.ok sb, { Io.init with reads := 1 }) := by
    unfold readDmVeritySuperBlock
    rw [if_neg (Nat.not_lt.mpr hblock), hread]
    dsimp only
    rw [VeritySuperBlock.ofBytes_block hwf, hcheck, hblocks, hdataSize, hhashSize]
    dsimp only
    rw [if_neg (Nat.not_lt.mpr hsize.ge), if_neg (Nat.not_lt.mpr hfit)]
  refine ⟨sb, _, hblocks, hsuperBlock, ?_⟩
  unfold checkImageFile
  rw [hranges, hsuperBlock]
  dsimp only
  rw [hblocks, hdataSize, if_neg (not_not.mpr hsize)]

/-- A superblock for `127 * 2 ^ 52` data blocks is accepted without data, with a hashes range of two
blocks. -/
theorem not_checkImageFile :
    ¬ ∀ (imageFile : HashesFile) (dataRange hashesRange : FileRange) (io io' : Io),
      checkImageFile imageFile dataRange hashesRange io = (.ok (), io') →
      ∃ sb, readDmVeritySuperBlock imageFile dataRange hashesRange io = (.ok sb, io') ∧
        ExactRanges sb.dataBlocks dataRange hashesRange := by
  intro h
  obtain ⟨sb, io, hblocks, hsuperBlock, haccepted⟩ := @imageWith_accepted (127 * 2 ^ 52)
    ⟨0, 0, by decide, by decide⟩ ⟨0, 8192, by decide, by decide⟩ (by decide) rfl (by decide) rfl
    (by decide)
  obtain ⟨found, hread, hexact⟩ := h _ _ _ _ _ haccepted
  cases hsuperBlock.symm.trans hread
  have hnone : sb.dataBlocks * 4096 = 0 := hexact.dataSize
  rw [hblocks] at hnone
  exact absurd hnone (by decide)

/-- The theorem on an image of two blocks. -/
theorem checkImageFile_iff_two :
    ∃ io sb, readDmVeritySuperBlock (imageWith 2 8192) ⟨0, 8192, by decide, by decide⟩
        ⟨8192, 8192, by decide, by decide⟩ .init = (.ok sb, io) ∧
      (ExactRanges sb.dataBlocks ⟨0, 8192, by decide, by decide⟩
          ⟨8192, 8192, by decide, by decide⟩ ↔
        sb.dataBlocks * 4096 < 2 ^ 64 ∧ 0 + 8192 < 2 ^ 64) := by
  obtain ⟨-, io, -, -, haccepted⟩ := @imageWith_accepted 2 ⟨0, 8192, by decide, by decide⟩
    ⟨8192, 8192, by decide, by decide⟩ (by decide) rfl (by decide) rfl (by decide)
  exact ⟨io, checkImageFile_iff _ _ _ _ _ haccepted⟩

end DmVerity
