import Ralf.DmVerity.Opening
import Ralf.Lib.Fields

/-!
# The dm-verity table line

`createTargetParams` describes a hash tree to the kernel: a line of ten fields, from the superblock,
the loop device and the root hash. `VerityTable.read` is the grammar that the kernel documents for
such a line.

A salt of no bytes is written as an empty field, where the grammar has a `-`.
`createTargetParams_exact_iff` says that this is the only case in which a line does not read back as
what was written, with the tree at the block where the verifier has it.
-/

namespace DmVerity

open Fields VeritySuperBlock

/-! ## Writing -/

/-- The first hash block, in hash blocks. The superblock is in the block before it. -/
def firstHashBlock (superBlock : VeritySuperBlock) (hashesOffset : Nat) : Nat :=
  let hashesOffset := wrap64 (hashesOffset + 512)
  let hashesOffset := wrap64 (hashesOffset + (superBlock.hashBlockSize + (2 ^ 32 - 1)) % 2 ^ 32)
  hashesOffset / superBlock.hashBlockSize

def deviceField (loopDevMajor loopDevMinor : Nat) : List Char :=
  decimal loopDevMajor ++ ':' :: decimal loopDevMinor

/-- What `createTargetParams` writes between blanks. -/
def targetFields (loopDevMajor loopDevMinor : Nat) (superBlock : VeritySuperBlock) (rootHash : Bytes)
    (hashesOffset : Nat) : List (List Char) :=
  [decimal superBlock.hashType,
    deviceField loopDevMajor loopDevMinor,
    deviceField loopDevMajor loopDevMinor,
    decimal superBlock.dataBlockSize,
    decimal superBlock.hashBlockSize,
    decimal superBlock.dataBlocks,
    decimal (firstHashBlock superBlock hashesOffset),
    superBlock.algorithm.cString.toList,
    hex rootHash,
    hex (superBlock.salt.take superBlock.saltSize)]

/-- `createTargetParams`. -/
def createTargetParams (loopDevMajor loopDevMinor : Nat) (superBlock : VeritySuperBlock)
    (rootHash : Bytes) (hashesOffset : Nat) : List Char :=
  join ' ' (targetFields loopDevMajor loopDevMinor superBlock rootHash hashesOffset)

/-! ## The grammar of a line -/

/-- A dm-verity table. A device is a major and a minor number. -/
structure VerityTable where
  version : Nat
  dataDevice : Nat × Nat
  hashDevice : Nat × Nat
  dataBlockSize : Nat
  hashBlockSize : Nat
  dataBlocks : Nat
  hashStartBlock : Nat
  algorithm : List Char
  rootDigest : Bytes
  salt : Bytes
  deriving DecidableEq, Repr

def readDevice (field : List Char) : Option (Nat × Nat) :=
  match field.splitOn ':' with
  | [major, minor] => do return (← readDecimal major, ← readDecimal minor)
  | _ => none

def readSalt (field : List Char) : Option Bytes := if field = ['-'] then some [] else readHex field

/-- Ten fields, none of which is empty. -/
def VerityTable.read (line : List Char) : Option VerityTable :=
  let fields := line.splitOn ' '
  if [] ∈ fields then none
  else
    match fields with
    | [version, dataDevice, hashDevice, dataBlockSize, hashBlockSize, dataBlocks, hashStartBlock,
        algorithm, rootDigest, salt] => do
      return {
        version := ← readDecimal version
        dataDevice := ← readDevice dataDevice
        hashDevice := ← readDevice hashDevice
        dataBlockSize := ← readDecimal dataBlockSize
        hashBlockSize := ← readDecimal hashBlockSize
        dataBlocks := ← readDecimal dataBlocks
        hashStartBlock := ← readDecimal hashStartBlock
        algorithm := algorithm
        rootDigest := ← readHex rootDigest
        salt := ← readSalt salt }
    | _ => none

/-! ## Reading back -/

theorem readDevice_deviceField (loopDevMajor loopDevMinor : Nat) :
    readDevice (deviceField loopDevMajor loopDevMinor) = some (loopDevMajor, loopDevMinor) := by
  have hmajor : ':' ∉ decimal loopDevMajor := not_mem_decimal rfl loopDevMajor
  have hminor : ':' ∉ decimal loopDevMinor := not_mem_decimal rfl loopDevMinor
  have hsplit : (deviceField loopDevMajor loopDevMinor).splitOn ':' =
      [decimal loopDevMajor, decimal loopDevMinor] := by
    rw [deviceField, List.splitOn_append_cons_self_of_not_mem hmajor,
      List.splitOn_eq_singleton hminor]
  simp [readDevice, hsplit]

theorem readSalt_hex (bytes : Bytes) : readSalt (hex bytes) = some bytes := by
  have hdash : hex bytes ≠ ['-'] := by
    intro heq
    have hmem : '-' ∈ hex bytes := by simp [heq]
    exact absurd (mem_hexChars_of_mem_hex hmem) (by decide)
  rw [readSalt, if_neg hdash, readHex_hex]

/-- The name of the algorithm ends at the NUL byte that is checked. -/
theorem algorithm_cString {superBlock : VeritySuperBlock} (h : superBlock.Supported) :
    superBlock.algorithm.cString.toList = "sha256".toList := by
  have hsplit : superBlock.algorithm = expectedAlgorithm ++ superBlock.algorithm.drop 7 := by
    conv_lhs => rw [← List.take_append_drop 7 superBlock.algorithm]
    exact congrArg (· ++ _) h.algorithm
  rw [hsplit]
  simp [Bytes.cString, expectedAlgorithm]

theorem firstHashBlock_eq {superBlock : VeritySuperBlock} {hashesOffset : Nat}
    (h : superBlock.Supported) (hlt : hashesOffset < 2 ^ 63) (haligned : 4096 ∣ hashesOffset) :
    firstHashBlock superBlock hashesOffset = hashesOffset / 4096 + 1 := by
  unfold firstHashBlock wrap64
  rw [h.hashBlockSize]
  dsimp only
  omega

/-- No field contains a blank. -/
theorem targetFields_blank {loopDevMajor loopDevMinor hashesOffset : Nat}
    {superBlock : VeritySuperBlock} {rootHash : Bytes} (h : superBlock.Supported) :
    ∀ field ∈ targetFields loopDevMajor loopDevMinor superBlock rootHash hashesOffset,
      ' ' ∉ field := by
  have hdecimal : ∀ n, ' ' ∉ decimal n := not_mem_decimal rfl
  have hhex : ∀ bytes, ' ' ∉ hex bytes := fun bytes hmem =>
    absurd (mem_hexChars_of_mem_hex hmem) (by decide)
  have halgorithm : ' ' ∉ superBlock.algorithm.cString.toList := by
    rw [algorithm_cString h]
    decide
  simp [targetFields, deviceField, hdecimal, hhex, halgorithm]

/-- The table that a superblock and its root hash describe. -/
def describedTable (loopDevMajor loopDevMinor : Nat) (superBlock : VeritySuperBlock)
    (rootHash : Bytes) (hashesOffset : Nat) : VerityTable where
  version := 1
  dataDevice := (loopDevMajor, loopDevMinor)
  hashDevice := (loopDevMajor, loopDevMinor)
  dataBlockSize := 4096
  hashBlockSize := 4096
  dataBlocks := superBlock.dataBlocks
  hashStartBlock := hashesOffset / 4096 + 1
  algorithm := "sha256".toList
  rootDigest := rootHash
  salt := superBlock.salt.take superBlock.saltSize

section
variable {loopDevMajor loopDevMinor hashesOffset : Nat} {superBlock : VeritySuperBlock}
  {rootHash : Bytes}

/-- The fields are those of the line. -/
theorem splitOn_createTargetParams (h : superBlock.Supported) :
    (createTargetParams loopDevMajor loopDevMinor superBlock rootHash hashesOffset).splitOn ' ' =
      targetFields loopDevMajor loopDevMinor superBlock rootHash hashesOffset :=
  splitOn_join (by simp [targetFields]) (targetFields_blank h)

/-- Without a salt the last field is empty. -/
theorem empty_mem_targetFields_iff (h : superBlock.Supported) (hsalt : superBlock.salt.length = 256)
    (hroot : rootHash ≠ []) :
    [] ∈ targetFields loopDevMajor loopDevMinor superBlock rootHash hashesOffset ↔
      superBlock.saltSize = 0 := by
  have hdecimal : ∀ n, [] ≠ decimal n := fun n => (decimal_ne_nil n).symm
  have hhex : ∀ bytes, [] = hex bytes ↔ bytes = [] := fun bytes => by
    rw [eq_comm, hex_eq_nil_iff]
  have hempty : superBlock.salt ≠ [] := by
    intro hnil
    rw [hnil] at hsalt
    exact absurd hsalt (by decide)
  simp [targetFields, deviceField, hdecimal, hhex, algorithm_cString h, hroot, hempty,
    List.take_eq_nil_iff]

variable (loopDevMajor loopDevMinor) in
/-- A line reads back unless it has no salt. -/
theorem read_createTargetParams (h : superBlock.Supported) (hsalt : superBlock.salt.length = 256)
    (hroot : rootHash ≠ []) (hlt : hashesOffset < 2 ^ 63) (haligned : 4096 ∣ hashesOffset) :
    VerityTable.read (createTargetParams loopDevMajor loopDevMinor superBlock rootHash hashesOffset) =
      if superBlock.saltSize = 0 then none
      else some (describedTable loopDevMajor loopDevMinor superBlock rootHash hashesOffset) := by
  unfold VerityTable.read
  dsimp only
  rw [splitOn_createTargetParams h]
  simp only [empty_mem_targetFields_iff h hsalt hroot]
  refine if_congr Iff.rfl rfl ?_
  simp [targetFields, readDevice_deviceField, readSalt_hex, describedTable, h.hashType,
    h.dataBlockSize, h.hashBlockSize, firstHashBlock_eq h hlt haligned, algorithm_cString h]

end

/-! ## The tree of the verifier -/

/-- The layers of a verifier have their top in the hash block at an offset of the file. -/
def TopPlacedAt (sha256 : Bytes → Sha256Digest) (fd : HashesFile) (offset : Nat)
    (v : DmVerityVerifier) (io : Io) : Prop :=
  ∃ top lower topLayer io₁,
    TopMostHashTreeLayer.new sha256 fd offset top.dataBlocks 4096 v.salt io₁ = (topLayer, io) ∧
    v.layer0 = some (stackLayers 4096 v.salt (.topMost topLayer) offset top lower)

/-- A verifier that reads its superblock has the top of its tree one block behind it. -/
theorem topPlacedAt_of_parse {sha256 : Bytes → Sha256Digest} {fd : HashesFile}
    {v v' : DmVerityVerifier} {io io₁ io' : Io} {buf : Bytes} (hlt : v.hashesOffset < 2 ^ 63)
    (haligned : 4096 ∣ v.hashesOffset)
    (hread : preadFull fd 4096 v.hashesOffset io = (some buf, io₁))
    (h : v.parseDmVeritySuperBlock sha256 fd io = (.ok v', io'))
    (hone : (VeritySuperBlock.ofBytes buf).dataBlocks ≠ 1) :
    TopPlacedAt sha256 fd (4096 * (v.hashesOffset / 4096 + 1)) v' io' := by
  have hplace : wrap64 (v.hashesOffset + 4096) = 4096 * (v.hashesOffset / 4096 + 1) := by
    unfold wrap64
    omega
  rw [DmVerityVerifier.parseDmVeritySuperBlock, hread] at h
  dsimp only at h
  split at h
  case h_1 => cases h
  case h_2 v₁ hconf =>
    obtain ⟨-, -, -, rfl⟩ := DmVerityVerifier.configure_ok hconf
    obtain ⟨heq, hlayered⟩ := DmVerityVerifier.buildLayers_ok rfl rfl h
    have hoffset : v'.hashesOffset = v.hashesOffset := by rw [heq]
    have hcount : v'.dataBlockCount = (VeritySuperBlock.ofBytes buf).dataBlocks := by rw [heq]
    cases hlayered with
    | single hsingle => exact absurd (hcount.symm.trans hsingle) hone
    | tree _ _ hnew _ hlayer =>
      rw [hoffset, hplace] at hnew hlayer
      exact ⟨_, _, _, _, hnew, hlayer⟩

/-- A line says what the superblock and the root hash describe, and the verifier has the tree at
the hash block of the line. -/
structure TargetParamsExact (loopDevMajor loopDevMinor : Nat) (superBlock : VeritySuperBlock)
    (rootHash : Sha256Digest) (hashesOffset : Nat) : Prop where
  read : VerityTable.read
      (createTargetParams loopDevMajor loopDevMinor superBlock rootHash.val hashesOffset) =
    some (describedTable loopDevMajor loopDevMinor superBlock rootHash.val hashesOffset)
  top : ∀ (sha256 : Bytes → Sha256Digest) (fd : HashesFile) (hashesSize : Nat) (io io' : Io)
      (buf : Bytes) (io₁ : Io) (v : DmVerityVerifier),
    preadFull fd 4096 hashesOffset io = (some buf, io₁) → .ofBytes buf = superBlock →
    DmVerityVerifier.parseDmVeritySuperBlock sha256 fd { rootHash, hashesOffset, hashesSize } io =
      (.ok v, io') →
    superBlock.dataBlocks ≠ 1 →
    TopPlacedAt sha256 fd (4096 * firstHashBlock superBlock hashesOffset) v io'

/-- A line is exact if the superblock has a salt, and only then. -/
theorem createTargetParams_exact_iff (loopDevMajor loopDevMinor : Nat)
    (superBlock : VeritySuperBlock) (rootHash : Sha256Digest) (hashesOffset : Nat)
    (hformat : superBlock.WellFormed) (hcheck : checkSuperBlock superBlock = .ok ())
    (haligned : 4096 ∣ hashesOffset) (hlt : hashesOffset < 2 ^ 63) :
    TargetParamsExact loopDevMajor loopDevMinor superBlock rootHash hashesOffset ↔
      0 < superBlock.saltSize := by
  have hsupported := checkSuperBlock_ok_iff.mp hcheck
  have hroot : rootHash.val ≠ [] := by
    intro hnil
    have hlength := rootHash.property
    rw [hnil] at hlength
    exact absurd hlength (by decide)
  have hread := read_createTargetParams loopDevMajor loopDevMinor hsupported hformat.salt hroot hlt
    haligned
  constructor
  · intro hexact
    refine Nat.pos_of_ne_zero fun hzero => ?_
    rw [hexact.read, if_pos hzero] at hread
    cases hread
  · intro hpos
    refine ⟨by rw [hread, if_neg hpos.ne'], ?_⟩
    intro sha256 fd hashesSize io io' buf io₁ v hbuf hblock hparse hone
    rw [firstHashBlock_eq hsupported hlt haligned]
    rw [← hblock] at hone
    exact topPlacedAt_of_parse (v := { rootHash, hashesOffset, hashesSize }) hlt haligned hbuf hparse
      hone

/-- The superblock of a tree over 8 blocks, with a salt. -/
def saltedSuperBlock (salt : Bytes) : VeritySuperBlock := formatted (List.replicate 16 0) 8 salt

theorem saltedSuperBlock_ok {salt : Bytes} (h : salt.length ≤ 256) :
    (saltedSuperBlock salt).WellFormed ∧ checkSuperBlock (saltedSuperBlock salt) = .ok () :=
  ⟨formatted_wellFormed rfl (by decide) h, checkSuperBlock_ok_iff.mpr (formatted_supported h)⟩

/-- The theorem on a superblock with a salt of two bytes. -/
theorem createTargetParams_exact_iff_salted :
    TargetParamsExact 7 0 (saltedSuperBlock [0x5a, 0xa5]) .zero 32768 ↔
      0 < (saltedSuperBlock [0x5a, 0xa5]).saltSize :=
  createTargetParams_exact_iff 7 0 (saltedSuperBlock [0x5a, 0xa5]) .zero 32768
    (saltedSuperBlock_ok (by decide)).1 (saltedSuperBlock_ok (by decide)).2 (by decide) (by decide)

/-- The line of a superblock without a salt has an empty field. -/
theorem not_createTargetParams_exact :
    ¬ ∀ (loopDevMajor loopDevMinor : Nat) (superBlock : VeritySuperBlock)
        (rootHash : Sha256Digest) (hashesOffset : Nat), superBlock.WellFormed →
      checkSuperBlock superBlock = .ok () → 4096 ∣ hashesOffset → hashesOffset < 2 ^ 63 →
      TargetParamsExact loopDevMajor loopDevMinor superBlock rootHash hashesOffset := by
  intro h
  have hok : (saltedSuperBlock []).WellFormed ∧ checkSuperBlock (saltedSuperBlock []) = .ok () :=
    saltedSuperBlock_ok (by decide)
  obtain ⟨hformat, hcheck⟩ := hok
  have hexact := h 7 0 (saltedSuperBlock []) .zero 32768 hformat hcheck (by decide) (by decide)
  have hread : VerityTable.read
      (createTargetParams 7 0 (saltedSuperBlock []) Sha256Digest.zero.val 32768) = none :=
    read_createTargetParams 7 0 (checkSuperBlock_ok_iff.mp hcheck) hformat.salt (by decide) (by decide)
      (by decide)
  rw [hexact.read] at hread
  cases hread

end DmVerity
