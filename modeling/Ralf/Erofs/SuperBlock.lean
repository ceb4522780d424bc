import Ralf.Core.Error

/-!
# The EROFS superblock

The superblock is in the first block of an image, at offset 1024. `parse` reads it and
checks the magic number, the sizes, the checksum if there is one, and that no feature
is needed that is not supported.
-/

namespace Erofs

/-! ## CRC-32C -/

/-- The checksum of a byte with the polynomial `0x82F63B78`. -/
def kLookupTable : List (BitVec 32) :=
   [0x00000000, 0xf26b8303, 0xe13b70f7, 0x1350f3f4, 0xc79a971f, 0x35f1141c, 0x26a1e7e8, 0xd4ca64eb,
    0x8ad958cf, 0x78b2dbcc, 0x6be22838, 0x9989ab3b, 0x4d43cfd0, 0xbf284cd3, 0xac78bf27, 0x5e133c24,
    0x105ec76f, 0xe235446c, 0xf165b798, 0x030e349b, 0xd7c45070, 0x25afd373, 0x36ff2087, 0xc494a384,
    0x9a879fa0, 0x68ec1ca3, 0x7bbcef57, 0x89d76c54, 0x5d1d08bf, 0xaf768bbc, 0xbc267848, 0x4e4dfb4b,
    0x20bd8ede, 0xd2d60ddd, 0xc186fe29, 0x33ed7d2a, 0xe72719c1, 0x154c9ac2, 0x061c6936, 0xf477ea35,
    0xaa64d611, 0x580f5512, 0x4b5fa6e6, 0xb93425e5, 0x6dfe410e, 0x9f95c20d, 0x8cc531f9, 0x7eaeb2fa,
    0x30e349b1, 0xc288cab2, 0xd1d83946, 0x23b3ba45, 0xf779deae, 0x05125dad, 0x1642ae59, 0xe4292d5a,
    0xba3a117e, 0x4851927d, 0x5b016189, 0xa96ae28a, 0x7da08661, 0x8fcb0562, 0x9c9bf696, 0x6ef07595,
    0x417b1dbc, 0xb3109ebf, 0xa0406d4b, 0x522bee48, 0x86e18aa3, 0x748a09a0, 0x67dafa54, 0x95b17957,
    0xcba24573, 0x39c9c670, 0x2a993584, 0xd8f2b687, 0x0c38d26c, 0xfe53516f, 0xed03a29b, 0x1f682198,
    0x5125dad3, 0xa34e59d0, 0xb01eaa24, 0x42752927, 0x96bf4dcc, 0x64d4cecf, 0x77843d3b, 0x85efbe38,
    0xdbfc821c, 0x2997011f, 0x3ac7f2eb, 0xc8ac71e8, 0x1c661503, 0xee0d9600, 0xfd5d65f4, 0x0f36e6f7,
    0x61c69362, 0x93ad1061, 0x80fde395, 0x72966096, 0xa65c047d, 0x5437877e, 0x4767748a, 0xb50cf789,
    0xeb1fcbad, 0x197448ae, 0x0a24bb5a, 0xf84f3859, 0x2c855cb2, 0xdeeedfb1, 0xcdbe2c45, 0x3fd5af46,
    0x7198540d, 0x83f3d70e, 0x90a324fa, 0x62c8a7f9, 0xb602c312, 0x44694011, 0x5739b3e5, 0xa55230e6,
    0xfb410cc2, 0x092a8fc1, 0x1a7a7c35, 0xe811ff36, 0x3cdb9bdd, 0xceb018de, 0xdde0eb2a, 0x2f8b6829,
    0x82f63b78, 0x709db87b, 0x63cd4b8f, 0x91a6c88c, 0x456cac67, 0xb7072f64, 0xa457dc90, 0x563c5f93,
    0x082f63b7, 0xfa44e0b4, 0xe9141340, 0x1b7f9043, 0xcfb5f4a8, 0x3dde77ab, 0x2e8e845f, 0xdce5075c,
    0x92a8fc17, 0x60c37f14, 0x73938ce0, 0x81f80fe3, 0x55326b08, 0xa759e80b, 0xb4091bff, 0x466298fc,
    0x1871a4d8, 0xea1a27db, 0xf94ad42f, 0x0b21572c, 0xdfeb33c7, 0x2d80b0c4, 0x3ed04330, 0xccbbc033,
    0xa24bb5a6, 0x502036a5, 0x4370c551, 0xb11b4652, 0x65d122b9, 0x97baa1ba, 0x84ea524e, 0x7681d14d,
    0x2892ed69, 0xdaf96e6a, 0xc9a99d9e, 0x3bc21e9d, 0xef087a76, 0x1d63f975, 0x0e330a81, 0xfc588982,
    0xb21572c9, 0x407ef1ca, 0x532e023e, 0xa145813d, 0x758fe5d6, 0x87e466d5, 0x94b49521, 0x66df1622,
    0x38cc2a06, 0xcaa7a905, 0xd9f75af1, 0x2b9cd9f2, 0xff56bd19, 0x0d3d3e1a, 0x1e6dcdee, 0xec064eed,
    0xc38d26c4, 0x31e6a5c7, 0x22b65633, 0xd0ddd530, 0x0417b1db, 0xf67c32d8, 0xe52cc12c, 0x1747422f,
    0x49547e0b, 0xbb3ffd08, 0xa86f0efc, 0x5a048dff, 0x8ecee914, 0x7ca56a17, 0x6ff599e3, 0x9d9e1ae0,
    0xd3d3e1ab, 0x21b862a8, 0x32e8915c, 0xc083125f, 0x144976b4, 0xe622f5b7, 0xf5720643, 0x07198540,
    0x590ab964, 0xab613a67, 0xb831c993, 0x4a5a4a90, 0x9e902e7b, 0x6cfbad78, 0x7fab5e8c, 0x8dc0dd8f,
    0xe330a81a, 0x115b2b19, 0x020bd8ed, 0xf0605bee, 0x24aa3f05, 0xd6c1bc06, 0xc5914ff2, 0x37faccf1,
    0x69e9f0d5, 0x9b8273d6, 0x88d28022, 0x7ab90321, 0xae7367ca, 0x5c18e4c9, 0x4f48173d, 0xbd23943e,
    0xf36e6f75, 0x0105ec76, 0x12551f82, 0xe03e9c81, 0x34f4f86a, 0xc69f7b69, 0xd5cf889d, 0x27a40b9e,
    0x79b737ba, 0x8bdcb4b9, 0x988c474d, 0x6ae7c44e, 0xbe2da0a5, 0x4c4623a6, 0x5f16d052, 0xad7d5351]

structure Crc32c where
  crc : BitVec 32
  deriving DecidableEq, Repr

namespace Crc32c

def new : Crc32c := ⟨0xFFFFFFFF⟩

/-- Adds one byte. -/
def updateByte (crc : Crc32c) (byte : UInt8) : Crc32c :=
  ⟨(crc.crc >>> 8) ^^^ kLookupTable.getD
    ((crc.crc ^^^ byte.toBitVec.zeroExtend 32) &&& 0xFF).toNat 0⟩

def update (crc : Crc32c) (data : Bytes) : Crc32c := data.foldl updateByte crc

def checksum (crc : Crc32c) : BitVec 32 := crc.crc

end Crc32c

/-! ## The superblock -/

/-- `EROFS_SUPER_OFFSET`. -/
def erofsSuperOffset : Nat := 1024

/-- `EROFS_MAGIC`. -/
def erofsMagic : Nat := 0xE0F5E1E2

/-- The size of an `ErofsSuperBlockStruct`. -/
def superBlockStructSize : Nat := 128

/-- The fields of the on-disk structure that are in use. -/
structure ErofsSuperBlockStruct where
  magic : Nat
  checksum : Nat
  featureCompat : Nat
  blockSizeBits : Nat
  extensionSlots : Nat
  rootInode : Nat
  buildTimeSec : Nat
  buildTimeNSec : Nat
  metaBlockAddr : Nat
  featureIncompat : Nat
  deriving DecidableEq, Repr

def ErofsSuperBlockStruct.ofBytes (data : Bytes) : ErofsSuperBlockStruct :=
  { magic := data.uint 0 4
    checksum := data.uint 4 4
    featureCompat := data.uint 8 4
    blockSizeBits := data.uint 12 1
    extensionSlots := data.uint 13 1
    rootInode := data.uint 14 2
    buildTimeSec := data.uint 24 8
    buildTimeNSec := data.uint 32 4
    metaBlockAddr := data.uint 40 4
    featureIncompat := data.uint 80 4 }

inductive Feature
  | zeroPadding
  | superBlockChecksum
  | modificationTime
  | xattrFilter
  deriving DecidableEq, Repr

structure ErofsSuperBlock where
  superBlock : ErofsSuperBlockStruct
  blockSize : Nat
  deriving DecidableEq, Repr

namespace ErofsSuperBlock

def rootInode (sb : ErofsSuperBlock) : Nat := sb.superBlock.rootInode

/-- Where an inode is in the image. -/
def inodeOffset (sb : ErofsSuperBlock) (inode : Nat) : Nat :=
  wrap64 (sb.superBlock.metaBlockAddr * sb.blockSize + 32 * inode)

def hasFeature (sb : ErofsSuperBlock) : Feature → Bool
  | .zeroPadding => sb.superBlock.featureIncompat.testBit 0
  | .superBlockChecksum => sb.superBlock.featureCompat.testBit 0
  | .modificationTime => sb.superBlock.featureCompat.testBit 1
  | .xattrFilter => sb.superBlock.featureCompat.testBit 2

/-- A time as seconds and nanoseconds. -/
def buildTime (sb : ErofsSuperBlock) : Int × Int :=
  ((sb.superBlock.buildTimeSec : Int).bmod (2 ^ 64), sb.superBlock.buildTimeNSec)

/-- Hexadecimal digits, at least as many as the width. -/
def hex (width n : Nat) : String :=
  let digits := Nat.toDigits 16 n
  String.ofList (List.replicate (width - digits.length) '0' ++ digits)

/-- `1 << bits` as a size. The shift is of an `int`, whose sign bit is extended. -/
def shiftedOne (bits : Nat) : Except Fault Nat :=
  if bits < 31 then .ok (2 ^ bits)
  else if bits = 31 then .ok (2 ^ 64 - 2 ^ 31)
  else .error .badShift

/-- Where the checksum is in the structure. -/
def checksumOffset : Nat := 4

/-- The checksum of the block, with zeros in its own place; no value when the block
does not fit in the data. -/
def blockChecksum (data : Bytes) (blkSize : Nat) : Except Fault (Option (BitVec 32)) :=
  if data.length < wrapSub64 blkSize erofsSuperOffset then .ok none
  else
    let bytesAfterChksum := wrapSub64 (wrapSub64 blkSize erofsSuperOffset) (checksumOffset + 4)
    let afterChksum := erofsSuperOffset + checksumOffset + 4
    if afterChksum + bytesAfterChksum > data.length then .error .overread
    else
      .ok <| some <| Crc32c.checksum <|
        ((Crc32c.new.update (data.slice erofsSuperOffset checksumOffset)).update
          [0, 0, 0, 0]).update (data.slice afterChksum bytesAfterChksum)

/-- The check of the checksum, if there is one. -/
def verifyChecksum (data : Bytes) (sb : ErofsSuperBlockStruct) : Except Fault (Result Unit) :=
  if sb.featureCompat.testBit 0 then
    match shiftedOne sb.blockSizeBits with
    | .error fault => .error fault
    | .ok blkSize =>
      match blockChecksum data blkSize with
      | .error fault => .error fault
      | .ok none =>
        .ok (.error (.ralf .erofsError
          s!"Cannot calculate checksum as don't have complete {blkSize} byte block"))
      | .ok (some checksum) =>
        if checksum.toNat ≠ sb.checksum then
          let calculated := hex 8 checksum.toNat
          let actual := hex 8 sb.checksum
          .ok (.error (.ralf .erofsError
            s!"Superblock checksum mismatch (calculated 0x{calculated}, actual 0x{actual})"))
        else .ok (.ok ())
  else .ok (.ok ())

/-- Reads the superblock from the first block of an image. -/
def parse (data : Bytes) : Except Fault (Result ErofsSuperBlock) :=
  if data.length < erofsSuperOffset + superBlockStructSize then
    .ok (.error (.ralf .erofsError "Data is too small to contain a superblock"))
  else
    let sb := ErofsSuperBlockStruct.ofBytes (data.slice erofsSuperOffset superBlockStructSize)
    if sb.magic ≠ erofsMagic then
      let magic := hex 8 sb.magic
      .ok (.error (.ralf .erofsError s!"Invalid superblock magic number (0x{magic})"))
    else
      let sbLen := superBlockStructSize + sb.extensionSlots * 16
      if data.length < erofsSuperOffset + sbLen then
        .ok (.error (.ralf .erofsError s!"Superblock too large ({sbLen} bytes)"))
      else
        match verifyChecksum data sb with
        | .error fault => .error fault
        | .ok (.error error) => .ok (.error error)
        | .ok (.ok _) =>
          -- the zero padding is the only feature that may be needed
          if sb.featureIncompat &&& (2 ^ 32 - 1 - 1) ≠ 0 then
            let features := hex 4 sb.featureIncompat
            .ok (.error (.ralf .erofsError
              s!"Superblock has one or more incompatible features (0x{features})"))
          else
            match shiftedOne sb.blockSizeBits with
            | .error fault => .error fault
            | .ok blockSize => .ok (.ok ⟨sb, blockSize⟩)

end ErofsSuperBlock

end Erofs
