import Ralf.Core.Error

/-!
# The dm-verity superblock

The 512-byte record at the start of a hash area, and `checkSuperBlock`, which
accepts it when it describes a SHA-256 tree over 4096-byte blocks.
-/

/-- The superblock format; integers are little endian. -/
structure VeritySuperBlock where
  signature : Bytes
  version : Nat
  hashType : Nat
  uuid : Bytes
  algorithm : Bytes
  dataBlockSize : Nat
  hashBlockSize : Nat
  dataBlocks : Nat
  saltSize : Nat
  salt : Bytes
  deriving DecidableEq, Repr

namespace VeritySuperBlock

/-- The record that `memcpy` leaves of the first bytes of a block. -/
def ofBytes (bs : Bytes) : VeritySuperBlock where
  signature := bs.slice 0 8
  version := bs.uint 8 4
  hashType := bs.uint 12 4
  uuid := bs.slice 16 16
  algorithm := bs.slice 32 32
  dataBlockSize := bs.uint 64 4
  hashBlockSize := bs.uint 68 4
  dataBlocks := bs.uint 72 8
  saltSize := bs.uint 80 2
  salt := bs.slice 88 256

theorem dataBlocks_lt (bs : Bytes) : (ofBytes bs).dataBlocks < 2 ^ 64 :=
  bs.uint_lt 72 8

/-- `"verity\0\0"`. -/
def expectedSignature : Bytes := [0x76, 0x65, 0x72, 0x69, 0x74, 0x79, 0, 0]

/-- `"sha256\0"`. -/
def expectedAlgorithm : Bytes := [0x73, 0x68, 0x61, 0x32, 0x35, 0x36, 0]

end VeritySuperBlock

open VeritySuperBlock in
/-- Checks that the fields of a superblock are supported. -/
def checkSuperBlock (superBlock : VeritySuperBlock) : Result Unit :=
  if superBlock.signature ≠ expectedSignature ∨ superBlock.version ≠ 1 ∨
      superBlock.hashType ≠ 1 then
    .error (.ralf .dmVerityError
      "dm-verity superblock doesn't have correct signature or has unsupported hash type")
  else if superBlock.algorithm.slice 0 7 ≠ expectedAlgorithm then
    .error (.ralf .dmVerityError
      s!"dm-verity superblock has unsupported hash algorithm - '{superBlock.algorithm.cString}'")
  else if superBlock.hashBlockSize ≠ 4096 ∨ superBlock.dataBlockSize ≠ 4096 then
    .error (.ralf .dmVerityError <|
      s!"dm-verity hash or data block size is unsupported (hash: {superBlock.hashBlockSize}, " ++
      s!"data: {superBlock.dataBlockSize})")
  else if superBlock.saltSize > 256 then
    .error (.ralf .dmVerityError "invalid dm-verity salt size")
  else .ok ()

namespace VeritySuperBlock

/-! ## The record as bytes -/

/-- The record in memory, with its padding. -/
def toBytes (superBlock : VeritySuperBlock) : Bytes :=
  superBlock.signature ++ (Bytes.leBytes 4 superBlock.version ++
  (Bytes.leBytes 4 superBlock.hashType ++ (superBlock.uuid ++ (superBlock.algorithm ++
  (Bytes.leBytes 4 superBlock.dataBlockSize ++ (Bytes.leBytes 4 superBlock.hashBlockSize ++
  (Bytes.leBytes 8 superBlock.dataBlocks ++ (Bytes.leBytes 2 superBlock.saltSize ++
  (List.replicate 6 0 ++ (superBlock.salt ++ List.replicate 168 0))))))))))

/-- The fields have the widths of the format. -/
structure WellFormed (superBlock : VeritySuperBlock) : Prop where
  signature : superBlock.signature.length = 8
  version : superBlock.version < 256 ^ 4
  hashType : superBlock.hashType < 256 ^ 4
  uuid : superBlock.uuid.length = 16
  algorithm : superBlock.algorithm.length = 32
  dataBlockSize : superBlock.dataBlockSize < 256 ^ 4
  hashBlockSize : superBlock.hashBlockSize < 256 ^ 4
  dataBlocks : superBlock.dataBlocks < 256 ^ 8
  saltSize : superBlock.saltSize < 256 ^ 2
  salt : superBlock.salt.length = 256

theorem toBytes_length {superBlock : VeritySuperBlock} (h : superBlock.WellFormed) :
    superBlock.toBytes.length = 512 := by
  simp only [toBytes, List.length_append, Bytes.leBytes_length, List.length_replicate, h.signature,
    h.uuid, h.algorithm, h.salt]

/-- Reading a record back, whatever follows it. -/
theorem ofBytes_toBytes {superBlock : VeritySuperBlock} (h : superBlock.WellFormed) (rest : Bytes) :
    ofBytes (superBlock.toBytes ++ rest) = superBlock := by
  obtain ⟨h₁, h₂, h₃, h₄, h₅, h₆, h₇, h₈, h₉, h₁₀⟩ := h
  simp only [ofBytes, Bytes.uint, toBytes, List.append_assoc]
  simp (disch := simp [h₁, h₄, h₅, h₁₀]) only [Bytes.slice_append_of_le, Bytes.slice_append_eq,
    Bytes.leBytes_length, List.length_replicate, h₁, h₄, h₅, Nat.reduceSub]
  simp only [Bytes.le_leBytes h₂, Bytes.le_leBytes h₃, Bytes.le_leBytes h₆, Bytes.le_leBytes h₇,
    Bytes.le_leBytes h₈, Bytes.le_leBytes h₉]

/-- The block of 4096 bytes that starts with a record. -/
def block (superBlock : VeritySuperBlock) : Bytes := superBlock.toBytes ++ List.replicate 3584 0

theorem block_length {superBlock : VeritySuperBlock} (h : superBlock.WellFormed) :
    superBlock.block.length = 4096 := by
  rw [block, List.length_append, toBytes_length h, List.length_replicate]

theorem ofBytes_block {superBlock : VeritySuperBlock} (h : superBlock.WellFormed) :
    ofBytes superBlock.block = superBlock :=
  ofBytes_toBytes h _

/-- The superblock that a formatting tool writes for `dataBlocks` blocks and a salt. -/
def formatted (uuid : Bytes) (dataBlocks : Nat) (salt : Bytes) : VeritySuperBlock where
  signature := expectedSignature
  version := 1
  hashType := 1
  uuid := uuid
  algorithm := expectedAlgorithm ++ List.replicate 25 0
  dataBlockSize := 4096
  hashBlockSize := 4096
  dataBlocks := dataBlocks
  saltSize := salt.length
  salt := salt ++ List.replicate (256 - salt.length) 0

theorem formatted_wellFormed {uuid salt : Bytes} {dataBlocks : Nat} (huuid : uuid.length = 16)
    (hblocks : dataBlocks < 2 ^ 64) (hsalt : salt.length ≤ 256) :
    (formatted uuid dataBlocks salt).WellFormed where
  signature := rfl
  version := by simp [formatted]
  hashType := by simp [formatted]
  uuid := huuid
  algorithm := rfl
  dataBlockSize := by simp only [formatted]; omega
  hashBlockSize := by simp only [formatted]; omega
  dataBlocks := hblocks
  saltSize := by simp only [formatted]; omega
  salt := by simp only [formatted, List.length_append, List.length_replicate]; omega

/-- What `checkSuperBlock` accepts. -/
structure Supported (superBlock : VeritySuperBlock) : Prop where
  signature : superBlock.signature = expectedSignature
  version : superBlock.version = 1
  hashType : superBlock.hashType = 1
  algorithm : superBlock.algorithm.slice 0 7 = expectedAlgorithm
  hashBlockSize : superBlock.hashBlockSize = 4096
  dataBlockSize : superBlock.dataBlockSize = 4096
  saltSize : superBlock.saltSize ≤ 256

/-- A superblock passes the check exactly when it is supported. -/
theorem checkSuperBlock_ok_iff {superBlock : VeritySuperBlock} :
    checkSuperBlock superBlock = .ok () ↔ superBlock.Supported := by
  constructor
  · intro h
    simp only [checkSuperBlock] at h
    split_ifs at h with h₁ h₂ h₃ h₄
    simp only [not_or, not_not] at h₁ h₂ h₃
    exact ⟨h₁.1, h₁.2.1, h₁.2.2, h₂, h₃.1, h₃.2, by omega⟩
  · rintro ⟨h₁, h₂, h₃, h₄, h₅, h₆, h₇⟩
    simp [checkSuperBlock, h₁, h₂, h₃, h₄, h₅, h₆]
    omega

theorem formatted_supported {uuid salt : Bytes} {dataBlocks : Nat} (hsalt : salt.length ≤ 256) :
    (formatted uuid dataBlocks salt).Supported :=
  ⟨rfl, rfl, rfl, rfl, rfl, rfl, hsalt⟩

end VeritySuperBlock
