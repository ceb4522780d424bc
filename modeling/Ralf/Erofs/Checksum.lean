import Ralf.Erofs.SuperBlock
import Ralf.Lib.Crc

/-!
# The checksum of the superblock

`Crc32c` takes bytes through a table. The table is the one of the polynomial `0x82F63B78`, so the
class computes the reflected CRC of that polynomial, in however many calls it is given the bytes.

`parse` gives it the block that the superblock declares. Before that it compares the length of the
data with the block less the 1024 bytes in front of the superblock, so the last 1024 bytes of the
block may be read from behind the data. `parse_sound_iff` says for which data that happens.
-/

namespace Erofs

/-- The polynomial of CRC-32C. -/
def crc32cPolynomial : BitVec 32 := 0x82F63B78

/-- The register after a message, bit by bit from `0xFFFFFFFF`, without a final inversion. -/
def crc32c (bytes : Bytes) : BitVec 32 :=
  Crc.bitSteps crc32cPolynomial 0xFFFFFFFF (Crc.messageBits bytes)

/-- Every word of the table is right. -/
theorem isTable_kLookupTable :
    Crc.IsTable crc32cPolynomial fun i => kLookupTable.getD i 0 := by
  unfold Crc.IsTable
  decide +kernel

theorem Crc32c.update_crc (crc : Crc32c) (data : Bytes) :
    (crc.update data).crc =
      data.foldl (Crc.tableStep fun i => kLookupTable.getD i 0) crc.crc := by
  unfold update
  induction data generalizing crc with
  | nil => rfl
  | cons byte data ih => exact ih (crc.updateByte byte)

theorem Crc32c.update_append (crc : Crc32c) (data rest : Bytes) :
    (crc.update data).update rest = crc.update (data ++ rest) := List.foldl_append.symm

theorem Crc32c.checksum_update (data : Bytes) :
    (Crc32c.new.update data).checksum = crc32c data :=
  (Crc32c.update_crc _ _).trans (isTable_kLookupTable.foldl_tableStep (by decide) _ _)

/-- The checksum of bytes that are given in several calls of `update`. -/
theorem Crc32c.checksum_updates (chunks : List Bytes) :
    (chunks.foldl Crc32c.update Crc32c.new).checksum = crc32c chunks.flatten := by
  have hcalls : ∀ crc : Crc32c, chunks.foldl Crc32c.update crc = crc.update chunks.flatten := by
    induction chunks with
    | nil => exact fun crc => rfl
    | cons chunk chunks ih =>
      intro crc
      rw [List.foldl_cons, ih, List.flatten_cons, Crc32c.update_append]
  rw [hcalls, Crc32c.checksum_update]

/-! ## The range that is checked -/

namespace ErofsSuperBlock

variable {data : Bytes}

/-- The superblock in the data. -/
def header (data : Bytes) : ErofsSuperBlockStruct :=
  .ofBytes (data.slice erofsSuperOffset superBlockStructSize)

/-- What is compared before the checksum. -/
structure HeaderOk (data : Bytes) : Prop where
  complete : erofsSuperOffset + superBlockStructSize ≤ data.length
  magic : (header data).magic = erofsMagic
  extensions : erofsSuperOffset + (superBlockStructSize + (header data).extensionSlots * 16) ≤
    data.length

/-- The superblock with its extras up to the end of the block, with zeros for the checksum. -/
def checkedRange (data : Bytes) (blockSize : Nat) : Bytes :=
  (data.slice erofsSuperOffset (blockSize - erofsSuperOffset)).overwrite checksumOffset [0, 0, 0, 0]

/-- No byte behind the data is read, and a superblock with a checksum is accepted only with the
checksum of its block. -/
def ParseSound (data : Bytes) : Prop :=
  ∃ result, parse data = .ok result ∧ ∀ sb, result = .ok sb → sb.hasFeature .superBlockChecksum →
    2 ^ sb.superBlock.blockSizeBits ≤ data.length ∧
      (crc32c (checkedRange data (2 ^ sb.superBlock.blockSizeBits))).toNat = sb.superBlock.checksum

/-- The block of this size is not cut off in its last 1024 bytes, and it is more than what is in
front of the superblock. -/
def BlockReadable (data : Bytes) (bits : Nat) : Prop :=
  bits < 32 ∧ bits ≠ 10 ∧
    (10 < bits → bits < 31 → data.length + erofsSuperOffset < 2 ^ bits ∨ 2 ^ bits ≤ data.length)

/-- When `parse` stays inside the data. -/
def ChecksumInside (data : Bytes) : Prop :=
  HeaderOk data →
    if (header data).featureCompat.testBit 0 then BlockReadable data (header data).blockSizeBits
    else (header data).featureIncompat &&& (2 ^ 32 - 1 - 1) = 0 → (header data).blockSizeBits < 32

theorem parse_of_not_headerOk (h : ¬ HeaderOk data) : ∃ error, parse data = .ok (.error error) := by
  unfold parse
  by_cases hcomplete : data.length < erofsSuperOffset + superBlockStructSize
  · rw [if_pos hcomplete]
    exact ⟨_, rfl⟩
  rw [if_neg hcomplete]
  dsimp only
  by_cases hmagic : (header data).magic ≠ erofsMagic
  · rw [if_pos (by exact hmagic)]
    exact ⟨_, rfl⟩
  rw [if_neg (by exact hmagic), if_pos]
  · exact ⟨_, rfl⟩
  · by_contra hextensions
    exact h ⟨Nat.not_lt.mp hcomplete, not_not.mp hmagic, Nat.not_lt.mp hextensions⟩

/-- The checks behind the header. -/
theorem parse_of_headerOk (h : HeaderOk data) :
    parse data =
      match verifyChecksum data (header data) with
      | .error fault => .error fault
      | .ok (.error error) => .ok (.error error)
      | .ok (.ok _) =>
        if (header data).featureIncompat &&& (2 ^ 32 - 1 - 1) ≠ 0 then
          let features := hex 4 (header data).featureIncompat
          .ok (.error (.ralf .erofsError
            s!"Superblock has one or more incompatible features (0x{features})"))
        else
          match shiftedOne (header data).blockSizeBits with
          | .error fault => .error fault
          | .ok blockSize => .ok (.ok ⟨header data, blockSize⟩) := by
  unfold parse
  rw [if_neg (Nat.not_lt.mpr h.complete)]
  dsimp only
  rw [if_neg (by exact not_not.mpr h.magic), if_neg (by exact Nat.not_lt.mpr h.extensions)]
  rfl

/-! ### The block -/

theorem checkedRange_eq {blkSize : Nat} (h : 1032 ≤ blkSize) :
    checkedRange data blkSize =
      data.slice erofsSuperOffset checksumOffset ++ ([0, 0, 0, 0] ++
        data.slice (erofsSuperOffset + checksumOffset + 4) (blkSize - 1032)) := by
  have hfirst : (data.slice erofsSuperOffset (blkSize - erofsSuperOffset)).take checksumOffset =
      data.slice erofsSuperOffset checksumOffset := by
    unfold Bytes.slice
    rw [List.take_take, Nat.min_eq_left]
    unfold checksumOffset erofsSuperOffset
    omega
  have hrest : (data.slice erofsSuperOffset (blkSize - erofsSuperOffset)).drop
      (checksumOffset + 4) =
      data.slice (erofsSuperOffset + checksumOffset + 4) (blkSize - 1032) := by
    have hsize : blkSize - erofsSuperOffset - (checksumOffset + 4) = blkSize - 1032 := by
      unfold erofsSuperOffset checksumOffset
      omega
    unfold Bytes.slice
    rw [List.drop_take, List.drop_drop, hsize, ← Nat.add_assoc]
  unfold checkedRange Bytes.overwrite
  have hzeros : ([0, 0, 0, 0] : Bytes).length = 4 := rfl
  rw [hfirst, hzeros, hrest, List.append_assoc]

/-- The whole block is there. -/
theorem blockChecksum_of_complete {blkSize : Nat} (h : 1032 ≤ blkSize)
    (hfits : blkSize ≤ data.length) (hlt : blkSize < 2 ^ 64) :
    blockChecksum data blkSize = .ok (some (crc32c (checkedRange data blkSize))) := by
  have hafter : wrapSub64 (wrapSub64 blkSize erofsSuperOffset) (checksumOffset + 4) =
      blkSize - 1032 := by
    unfold erofsSuperOffset checksumOffset
    rw [wrapSub64_of_le (by omega) hlt, wrapSub64_of_le (by omega) (by omega)]
    omega
  have hle : wrapSub64 blkSize erofsSuperOffset ≤ data.length :=
    (wrapSub64_le (by unfold erofsSuperOffset; omega) (by decide)).trans
      ((Nat.sub_le _ _).trans hfits)
  unfold blockChecksum
  rw [if_neg (Nat.not_lt.mpr hle), hafter]
  dsimp only
  rw [if_neg (by unfold erofsSuperOffset checksumOffset; omega), Crc32c.update_append,
    Crc32c.update_append, Crc32c.checksum_update, ← checkedRange_eq h]

/-- The comparison with the length refuses the block. -/
theorem blockChecksum_of_refused {blkSize : Nat} (hlen : data.length < 2 ^ 63)
    (h : blkSize < 1024 ∨ data.length + 1024 < blkSize) (hlt : blkSize < 2 ^ 64) :
    blockChecksum data blkSize = .ok none := by
  unfold blockChecksum
  rw [if_pos]
  unfold wrapSub64 wrap64 erofsSuperOffset
  omega

/-- The block is there but for some of its last 1024 bytes. -/
theorem blockChecksum_of_cut {blkSize : Nat} (hlen : data.length < 2 ^ 63)
    (h : blkSize = 1024 ∨ 1032 ≤ blkSize ∧ blkSize ≤ data.length + 1024 ∧ data.length < blkSize) :
    blockChecksum data blkSize = .error .overread := by
  unfold blockChecksum
  rw [if_neg]
  · dsimp only
    rw [if_pos]
    unfold wrapSub64 wrap64 erofsSuperOffset checksumOffset
    omega
  · unfold wrapSub64 wrap64 erofsSuperOffset
    omega

theorem shiftedOne_of_lt {bits : Nat} (h : bits < 31) : shiftedOne bits = .ok (2 ^ bits) :=
  if_pos h

theorem shiftedOne_of_ge {bits : Nat} (h : 32 ≤ bits) : shiftedOne bits = .error .badShift := by
  unfold shiftedOne
  rw [if_neg (by omega), if_neg (by omega)]

/-- A check of a value that is computed first. -/
theorem checkOf_ok {p : Prop} [Decidable p] (hp : p) {n : Nat} (value : Except Fault Nat)
    (check : Nat → Except Fault (Result Unit)) {rest : Except Fault (Result Unit)} :
    value = .ok n →
      (if p then
        match value with
        | .error fault => .error fault
        | .ok n => check n
      else rest) = check n := by
  rintro rfl
  rw [if_pos hp]

theorem verifyChecksum_of_fault {sb : ErofsSuperBlockStruct}
    (hflag : sb.featureCompat.testBit 0 = true) {blkSize : Nat} {fault : Fault}
    (hshift : shiftedOne sb.blockSizeBits = .ok blkSize)
    (hblock : blockChecksum data blkSize = .error fault) :
    verifyChecksum data sb = .error fault := by
  unfold verifyChecksum
  refine (checkOf_ok hflag _ _ hshift).trans ?_
  rw [hblock]

theorem verifyChecksum_of_incomplete {sb : ErofsSuperBlockStruct}
    (hflag : sb.featureCompat.testBit 0 = true) {blkSize : Nat}
    (hshift : shiftedOne sb.blockSizeBits = .ok blkSize)
    (hblock : blockChecksum data blkSize = .ok none) :
    ∃ error, verifyChecksum data sb = .ok (.error error) := by
  unfold verifyChecksum
  refine Exists.imp (fun _ => (checkOf_ok hflag _ _ hshift).trans) ?_
  rw [hblock]
  exact ⟨_, rfl⟩

theorem verifyChecksum_of_some {sb : ErofsSuperBlockStruct}
    (hflag : sb.featureCompat.testBit 0 = true) {blkSize : Nat} {checksum : BitVec 32}
    (hshift : shiftedOne sb.blockSizeBits = .ok blkSize)
    (hblock : blockChecksum data blkSize = .ok (some checksum)) :
    (∃ error, verifyChecksum data sb = .ok (.error error)) ∨
      verifyChecksum data sb = .ok (.ok ()) ∧ checksum.toNat = sb.checksum := by
  unfold verifyChecksum
  by_cases heq : checksum.toNat = sb.checksum
  · refine .inr ⟨(checkOf_ok hflag _ _ hshift).trans ?_, heq⟩
    rw [hblock]
    exact if_neg (not_not.mpr heq)
  · refine .inl (Exists.imp (fun _ => (checkOf_ok hflag _ _ hshift).trans) ?_)
    rw [hblock]
    exact ⟨_, if_pos heq⟩

/-- What the check of a checksum can do when the block is readable. -/
theorem verifyChecksum_of_readable (hlen : data.length < 2 ^ 63) {sb : ErofsSuperBlockStruct}
    (hflag : sb.featureCompat.testBit 0 = true) (h : BlockReadable data sb.blockSizeBits) :
    (∃ error, verifyChecksum data sb = .ok (.error error)) ∨
      verifyChecksum data sb = .ok (.ok ()) ∧ 2 ^ sb.blockSizeBits ≤ data.length ∧
        (crc32c (checkedRange data (2 ^ sb.blockSizeBits))).toNat = sb.checksum := by
  obtain ⟨hbits, hten, hblock⟩ := h
  have hrefuse : ∀ blkSize, shiftedOne sb.blockSizeBits = .ok blkSize →
      blkSize < 1024 ∨ data.length + 1024 < blkSize → blkSize < 2 ^ 64 →
        ∃ error, verifyChecksum data sb = .ok (.error error) := by
    intro blkSize hshift hrange hlt
    exact verifyChecksum_of_incomplete hflag hshift (blockChecksum_of_refused hlen hrange hlt)
  rcases Nat.lt_or_ge sb.blockSizeBits 31 with hlt | hge
  · have hshift := shiftedOne_of_lt hlt
    have hpow : 2 ^ sb.blockSizeBits < 2 ^ 64 := Nat.pow_lt_pow_right (by decide) (by omega)
    rcases Nat.lt_or_ge sb.blockSizeBits 10 with hsmall | hlarge
    · exact .inl (hrefuse _ hshift (.inl (Nat.pow_lt_pow_right (by decide) hsmall)) hpow)
    rcases hblock (by omega) hlt with hcut | hcomplete
    · exact .inl (hrefuse _ hshift (.inr hcut) hpow)
    · have hmin : 2 ^ 11 ≤ 2 ^ sb.blockSizeBits := Nat.pow_le_pow_right (by decide) (by omega)
      exact (verifyChecksum_of_some hflag hshift
        (blockChecksum_of_complete (by omega) hcomplete hpow)).imp_right
          fun hverify => ⟨hverify.1, hcomplete, hverify.2⟩
  · obtain hmax : sb.blockSizeBits = 31 := by omega
    have hshift : shiftedOne sb.blockSizeBits = .ok (2 ^ 64 - 2 ^ 31) := by
      rw [hmax]
      rfl
    exact .inl (hrefuse _ hshift (.inr (by omega)) (by decide))

theorem verifyChecksum_of_not_readable (hlen : data.length < 2 ^ 63) {sb : ErofsSuperBlockStruct}
    (hflag : sb.featureCompat.testBit 0 = true) (h : ¬ BlockReadable data sb.blockSizeBits) :
    ∃ fault, verifyChecksum data sb = .error fault := by
  rcases Nat.lt_or_ge sb.blockSizeBits 32 with hlt | hge
  · have hcut : sb.blockSizeBits < 31 ∧
        (2 ^ sb.blockSizeBits = 1024 ∨ 1032 ≤ 2 ^ sb.blockSizeBits ∧
          2 ^ sb.blockSizeBits ≤ data.length + 1024 ∧ data.length < 2 ^ sb.blockSizeBits) := by
      by_cases hten : sb.blockSizeBits = 10
      · rw [hten]
        exact ⟨by decide, .inl rfl⟩
      · by_contra hnot
        refine h ⟨hlt, hten, fun hmore hless => ?_⟩
        have hmin : 2 ^ 11 ≤ 2 ^ sb.blockSizeBits := Nat.pow_le_pow_right (by decide) hmore
        by_contra hneither
        rw [not_or, Nat.not_lt, Nat.not_le] at hneither
        exact hnot ⟨hless, .inr ⟨by omega, hneither.1, hneither.2⟩⟩
    refine ⟨.overread, ?_⟩
    exact verifyChecksum_of_fault hflag (shiftedOne_of_lt hcut.1) (blockChecksum_of_cut hlen hcut.2)
  · refine ⟨.badShift, ?_⟩
    unfold verifyChecksum
    rw [if_pos hflag, shiftedOne_of_ge hge]

theorem shiftedOne_isOk {bits : Nat} (h : bits < 32) :
    ∃ blockSize, shiftedOne bits = .ok blockSize := by
  unfold shiftedOne
  split
  · exact ⟨_, rfl⟩
  · rw [if_pos (by omega)]
    exact ⟨_, rfl⟩

theorem parseSound_of_error {error : Error} (h : parse data = .ok (.error error)) :
    ParseSound data := ⟨_, h, fun _ hsb => (nomatch hsb)⟩

theorem not_parseSound_of_fault {fault : Fault} (h : parse data = .error fault) :
    ¬ ParseSound data := by
  rintro ⟨result, hresult, -⟩
  cases h.symm.trans hresult

/-- `parse` once the checksum is right or there is none. -/
theorem parseSound_of_verified (h : HeaderOk data)
    (hverify : verifyChecksum data (header data) = .ok (.ok ()))
    (hchecked : (header data).featureCompat.testBit 0 = true →
      2 ^ (header data).blockSizeBits ≤ data.length ∧
        (crc32c (checkedRange data (2 ^ (header data).blockSizeBits))).toNat =
          (header data).checksum) :
    ParseSound data ↔
      ((header data).featureIncompat &&& (2 ^ 32 - 1 - 1) = 0 →
        (header data).blockSizeBits < 32) := by
  have hparse := parse_of_headerOk h
  rw [hverify] at hparse
  dsimp only at hparse
  split at hparse
  · next hfeatures =>
    exact iff_of_true (parseSound_of_error hparse) fun hnone => absurd hnone hfeatures
  next hfeatures =>
  rw [imp_iff_right (not_not.mp hfeatures)]
  rcases Nat.lt_or_ge (header data).blockSizeBits 32 with hlt | hge
  · obtain ⟨blockSize, hshift⟩ := shiftedOne_isOk hlt
    rw [hshift] at hparse
    refine iff_of_true ⟨_, hparse, fun sb hsb hflag => ?_⟩ hlt
    cases hsb
    exact hchecked hflag
  · rw [shiftedOne_of_ge hge] at hparse
    exact iff_of_false (not_parseSound_of_fault hparse) (Nat.not_lt.mpr hge)

/-- `parse` reads no byte behind the data, and takes a checksum for the block that it is of, exactly
if the declared block is readable. The length is below `2 ^ 63`, as that of every array is. -/
theorem parse_sound_iff (data : Bytes) (hlen : data.length < 2 ^ 63) :
    ParseSound data ↔ ChecksumInside data := by
  unfold ChecksumInside
  by_cases h : HeaderOk data
  · rw [imp_iff_right h]
    have hparse := parse_of_headerOk h
    split
    · next hflag =>
      by_cases hblock : BlockReadable data (header data).blockSizeBits
      · refine iff_of_true ?_ hblock
        rcases verifyChecksum_of_readable hlen hflag hblock with ⟨error, hverify⟩ |
          ⟨hverify, hchecked⟩
        · rw [hverify] at hparse
          exact parseSound_of_error hparse
        · exact (parseSound_of_verified h hverify fun _ => hchecked).mpr fun _ => hblock.1
      · refine iff_of_false ?_ hblock
        obtain ⟨fault, hverify⟩ := verifyChecksum_of_not_readable hlen hflag hblock
        rw [hverify] at hparse
        exact not_parseSound_of_fault hparse
    · next hflag =>
      have hverify : verifyChecksum data (header data) = .ok (.ok ()) := by
        unfold verifyChecksum
        rw [if_neg hflag]
      exact parseSound_of_verified h hverify fun hset => absurd hset hflag
  · obtain ⟨error, herror⟩ := parse_of_not_headerOk h
    exact iff_of_true (parseSound_of_error herror) fun hok => absurd hok h

/-- One block of 2048 bytes whose superblock has its checksum. -/
def checkedImage : Bytes :=
  Bytes.overwrite (List.replicate 2048 0) erofsSuperOffset
    [0xE2, 0xE1, 0xF5, 0xE0, 0xF4, 0x0F, 0xDF, 0x37, 1, 0, 0, 0, 11]

theorem parse_sound_checkedImage :
    ParseSound checkedImage ∧ (header checkedImage).featureCompat.testBit 0 = true ∧
      parse checkedImage = .ok (.ok ⟨header checkedImage, 2048⟩) := by
  have hflag : (header checkedImage).featureCompat.testBit 0 = true := by decide +kernel
  have hbits : (header checkedImage).blockSizeBits = 11 := by decide +kernel
  refine ⟨(parse_sound_iff checkedImage (by decide +kernel)).mpr fun _ => ?_, hflag, ?_⟩
  · rw [if_pos hflag, hbits]
    exact ⟨by decide, by decide, fun _ _ => .inr (by decide +kernel)⟩
  · have hok : HeaderOk checkedImage := ⟨by decide +kernel, by decide +kernel, by decide +kernel⟩
    have hverify : verifyChecksum checkedImage (header checkedImage) = .ok (.ok ()) := by
      decide +kernel
    rw [parse_of_headerOk hok, hverify, hbits]
    dsimp only
    rw [if_neg (by decide +kernel), shiftedOne_of_lt (by decide)]
    rfl

/-- An image of 3072 bytes whose superblock has a checksum of a block of 4096 bytes. -/
def cutImage : Bytes :=
  Bytes.overwrite (List.replicate 3072 0) erofsSuperOffset
    [0xE2, 0xE1, 0xF5, 0xE0, 0, 0, 0, 0, 1, 0, 0, 0, 12]

theorem not_parse_sound : ¬ ∀ data : Bytes, data.length < 2 ^ 63 → ParseSound data := by
  intro hsound
  have hok : HeaderOk cutImage := ⟨by decide +kernel, by decide +kernel, by decide +kernel⟩
  have hflag : (header cutImage).featureCompat.testBit 0 = true := by decide +kernel
  have hbits : (header cutImage).blockSizeBits = 12 := by decide +kernel
  have hshift : shiftedOne (header cutImage).blockSizeBits = .ok (2 ^ 12) := by
    rw [hbits]
    exact shiftedOne_of_lt (by decide)
  have hlen : cutImage.length = 3072 := by decide +kernel
  have hblock : blockChecksum cutImage (2 ^ 12) = .error .overread :=
    blockChecksum_of_cut (by omega) (.inr (by omega))
  have hparse := parse_of_headerOk hok
  rw [verifyChecksum_of_fault hflag hshift hblock] at hparse
  exact not_parseSound_of_fault hparse (hsound cutImage (by omega))

end ErofsSuperBlock

end Erofs
