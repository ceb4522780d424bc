import Mathlib.Data.Nat.Bitwise
import Mathlib.Logic.Function.Iterate

/-!
# Reflected cyclic redundancy checks

A reflected CRC register of `w` bits takes a message bit by bit: when the bit and the lowest bit of
the register differ, the register is shifted down and the polynomial is added to it, and it is only
shifted otherwise. A byte gives its lowest bit first.

Taking a bit is linear, so eight bits can be taken at once: the low byte of the register goes
through a table of 256 words, and the rest is shifted down. `tableSteps_eq` says that any table
with the right words gives the register of the bits.
-/

namespace Crc

variable {w : Nat} (poly : BitVec w)

/-! ## Bit by bit -/

/-- A register after one message bit. -/
def bitStep (crc : BitVec w) (bit : Bool) : BitVec w :=
  if crc.getLsbD 0 ^^ bit then (crc >>> 1) ^^^ poly else crc >>> 1

def bitSteps (crc : BitVec w) (bits : List Bool) : BitVec w := bits.foldl (bitStep poly) crc

/-- The bits of a byte, the lowest first. -/
def byteBits (byte : UInt8) : List Bool := (List.range 8).map byte.toNat.testBit

/-- The bits of a message. -/
def messageBits (bytes : List UInt8) : List Bool := bytes.flatMap byteBits

/-! ## A register on its own -/

/-- A register after a zero bit. -/
def step (crc : BitVec w) : BitVec w := bitStep poly crc false

theorem step_eq (crc : BitVec w) :
    step poly crc = if crc.getLsbD 0 then (crc >>> 1) ^^^ poly else crc >>> 1 := by
  unfold step bitStep
  rw [Bool.xor_false]

/-- A step is linear. -/
theorem step_xor (a b : BitVec w) : step poly (a ^^^ b) = step poly a ^^^ step poly b := by
  simp only [step_eq, BitVec.getLsbD_xor, BitVec.ushiftRight_xor_distrib]
  have hcancel : ∀ x y : BitVec w, x ^^^ poly ^^^ (y ^^^ poly) = x ^^^ y := by
    intro x y
    rw [BitVec.xor_comm y poly, ← BitVec.xor_assoc, BitVec.xor_assoc x poly poly, BitVec.xor_self,
      BitVec.xor_zero]
  cases a.getLsbD 0 with
  | false =>
    cases b.getLsbD 0 with
    | false => rfl
    | true => exact BitVec.xor_assoc _ _ _
  | true =>
    cases b.getLsbD 0 with
    | false =>
      show a >>> 1 ^^^ b >>> 1 ^^^ poly = a >>> 1 ^^^ poly ^^^ b >>> 1
      rw [BitVec.xor_assoc, BitVec.xor_comm (b >>> 1), ← BitVec.xor_assoc]
    | true => exact (hcancel _ _).symm

theorem iterate_step_xor (n : Nat) (a b : BitVec w) :
    (step poly)^[n] (a ^^^ b) = (step poly)^[n] a ^^^ (step poly)^[n] b := by
  induction n generalizing a b with
  | zero => rfl
  | succ n ih => rw [Function.iterate_succ_apply, step_xor, ih]; rfl

/-- A register whose low bits are clear is only shifted. -/
theorem iterate_step_of_clear {n : Nat} {crc : BitVec w} (h : ∀ i < n, crc.getLsbD i = false) :
    (step poly)^[n] crc = crc >>> n := by
  induction n with
  | zero => exact (BitVec.ushiftRight_zero crc).symm
  | succ n ih =>
    rw [Function.iterate_succ_apply', ih fun i hi => h i (Nat.lt_succ_of_lt hi), step_eq,
      BitVec.getLsbD_ushiftRight, Nat.add_zero, h n (Nat.lt_succ_self n), if_neg Bool.false_ne_true,
      BitVec.shiftRight_add]

/-! ## Bits that are added at once -/

/-- The word with the given low bits. -/
def ofBits : List Bool → BitVec w
  | [] => 0
  | bit :: bits => (BitVec.ofBool bit).setWidth w ^^^ (ofBits bits <<< 1)

theorem getLsbD_ofBits {bits : List Bool} {i : Nat} :
    (ofBits bits : BitVec w).getLsbD i = (decide (i < w) && bits.getD i false) := by
  induction bits generalizing i with
  | nil => simp [ofBits]
  | cons bit bits ih =>
    unfold ofBits
    rw [BitVec.getLsbD_xor, BitVec.getLsbD_setWidth, BitVec.getLsbD_shiftLeft, ih]
    cases i with
    | zero => simp
    | succ i =>
      by_cases hi : i + 1 < w
      · simp [hi, Nat.lt_of_succ_lt hi]
      · simp [hi]

/-- Shifting the word of the later bits up and down again. -/
theorem step_ofBits_shiftLeft {bits : List Bool} (h : bits.length < w) :
    step poly (ofBits bits <<< 1) = ofBits bits := by
  rw [step_eq, BitVec.getLsbD_shiftLeft, if_neg (by simp)]
  refine BitVec.eq_of_getLsbD_eq fun i hi => ?_
  rw [BitVec.getLsbD_ushiftRight, BitVec.getLsbD_shiftLeft, getLsbD_ofBits, getLsbD_ofBits]
  by_cases hnext : 1 + i < w
  · simp [hnext, hi]
  · have hnone : bits[i]? = none := List.getElem?_eq_none (by omega)
    simp [hnext, hnone]

/-- A message bit is added to the lowest bit of the register. -/
theorem bitStep_eq (hw : 0 < w) (crc : BitVec w) (bit : Bool) :
    bitStep poly crc bit = step poly (crc ^^^ (BitVec.ofBool bit).setWidth w) := by
  have hlow : ((BitVec.ofBool bit).setWidth w).getLsbD 0 = bit := by
    rw [BitVec.getLsbD_setWidth]
    simp [hw]
  have hrest : (BitVec.ofBool bit).setWidth w >>> 1 = 0 := by
    refine BitVec.eq_of_getLsbD_eq fun i hi => ?_
    rw [BitVec.getLsbD_ushiftRight, BitVec.getLsbD_setWidth]
    simp
  rw [step_eq, BitVec.getLsbD_xor, hlow, BitVec.ushiftRight_xor_distrib, hrest]
  unfold bitStep
  simp

/-- Message bits may be added to the register before the steps. -/
theorem bitSteps_eq {bits : List Bool} (h : bits.length ≤ w) (crc : BitVec w) :
    bitSteps poly crc bits = (step poly)^[bits.length] (crc ^^^ ofBits bits) := by
  induction bits generalizing crc with
  | nil => simp [bitSteps, ofBits]
  | cons bit bits ih =>
    rw [List.length_cons] at h
    show bitSteps poly (bitStep poly crc bit) bits = _
    rw [ih (Nat.le_of_succ_le h), List.length_cons, Function.iterate_succ_apply, ofBits,
      ← BitVec.xor_assoc, step_xor, ← bitStep_eq poly (Nat.zero_lt_of_lt h),
      step_ofBits_shiftLeft poly h]

/-! ## A table for bytes -/

/-- A register after a byte, with a table for what its low byte adds. -/
def tableStep (table : Nat → BitVec w) (crc : BitVec w) (byte : UInt8) : BitVec w :=
  (crc >>> 8) ^^^ table ((crc ^^^ byte.toBitVec.setWidth w) &&& 0xFF).toNat

theorem ofBits_byteBits (byte : UInt8) : ofBits (byteBits byte) = byte.toBitVec.setWidth w := by
  refine BitVec.eq_of_getLsbD_eq fun i hi => ?_
  have hbit : (byteBits byte).getD i false = byte.toNat.testBit i := by
    unfold byteBits
    rw [List.getD_eq_getElem?_getD, List.getElem?_map]
    by_cases hbyte : i < 8
    · rw [List.getElem?_range hbyte]
      rfl
    · rw [List.getElem?_eq_none (by rw [List.length_range]; omega)]
      exact (Nat.testBit_lt_two_pow (Nat.lt_of_lt_of_le byte.toNat_lt
        (Nat.pow_le_pow_right (by decide) (Nat.not_lt.mp hbyte)))).symm
  rw [getLsbD_ofBits, BitVec.getLsbD_setWidth, hbit]
  rfl

/-- The words of the table: eight steps from each byte. -/
def IsTable (table : Nat → BitVec w) : Prop :=
  ∀ i < 256, table i = (step poly)^[8] (BitVec.ofNat w i)

variable {poly}

/-- Eight steps take the low byte through the table and shift the rest down. -/
theorem IsTable.iterate_step {table : Nat → BitVec w} (h : IsTable poly table) (crc : BitVec w) :
    (step poly)^[8] crc = (crc >>> 8) ^^^ table (crc &&& 0xFF).toNat := by
  have hmask : ∀ i, (0xFF : BitVec w).getLsbD i = (decide (i < w) && decide (i < 8)) := by
    intro i
    have hbits : (255 : Nat).testBit i = decide (i < 8) := Nat.testBit_two_pow_sub_one 8 i
    show (BitVec.ofNat w 255).getLsbD i = _
    rw [BitVec.getLsbD_ofNat, hbits]
  have hsplit : crc = (crc &&& ~~~0xFF) ^^^ (crc &&& 0xFF) := by
    refine BitVec.eq_of_getLsbD_eq fun i hi => ?_
    simp only [BitVec.getLsbD_xor, BitVec.getLsbD_and, BitVec.getLsbD_not, hmask, hi]
    cases crc.getLsbD i <;> cases decide (i < 8) <;> rfl
  have hclear : ∀ i < 8, (crc &&& ~~~0xFF).getLsbD i = false := by
    intro i hi
    simp only [BitVec.getLsbD_and, BitVec.getLsbD_not, hmask, hi]
    cases decide (i < w) <;> simp
  have hhigh : (crc &&& ~~~0xFF) >>> 8 = crc >>> 8 := by
    refine BitVec.eq_of_getLsbD_eq fun i hi => ?_
    simp only [BitVec.getLsbD_ushiftRight, BitVec.getLsbD_and, BitVec.getLsbD_not, hmask]
    by_cases hin : 8 + i < w
    · simp [hin]
    · rw [BitVec.getLsbD_of_ge crc _ (Nat.not_lt.mp hin), Bool.false_and]
  have hlow : (crc &&& 0xFF).toNat < 256 := by
    have hle : (crc &&& 0xFF).toNat ≤ (BitVec.ofNat w 255).toNat := Nat.and_le_right
    have hmod : (BitVec.ofNat w 255).toNat ≤ 255 := Nat.mod_le _ _
    omega
  rw [h _ hlow, BitVec.ofNat_toNat, BitVec.setWidth_eq, ← hhigh, ← iterate_step_of_clear poly hclear,
    ← iterate_step_xor, ← hsplit]

theorem IsTable.tableStep_eq {table : Nat → BitVec w} (h : IsTable poly table) (hw : 8 ≤ w)
    (crc : BitVec w) (byte : UInt8) :
    tableStep table crc byte = bitSteps poly crc (byteBits byte) := by
  have hlength : (byteBits byte).length = 8 := rfl
  have hhigh : byte.toBitVec.setWidth w >>> 8 = 0#w := by
    refine BitVec.eq_of_getLsbD_eq fun i hi => ?_
    rw [BitVec.getLsbD_ushiftRight, BitVec.getLsbD_setWidth,
      BitVec.getLsbD_of_ge byte.toBitVec _ (Nat.le_add_right _ _), Bool.and_false,
      BitVec.getLsbD_zero]
  rw [bitSteps_eq poly (hlength.trans_le hw), hlength, ofBits_byteBits, h.iterate_step,
    BitVec.ushiftRight_xor_distrib, hhigh, BitVec.xor_zero]
  rfl

/-- Taking a message byte by byte through a table is taking its bits. -/
theorem IsTable.foldl_tableStep {table : Nat → BitVec w} (h : IsTable poly table) (hw : 8 ≤ w)
    (crc : BitVec w) (bytes : List UInt8) :
    bytes.foldl (tableStep table) crc = bitSteps poly crc (messageBits bytes) := by
  induction bytes generalizing crc with
  | nil => rfl
  | cons byte bytes ih =>
    rw [List.foldl_cons, ih, h.tableStep_eq hw]
    unfold bitSteps messageBits
    rw [List.flatMap_cons, List.foldl_append]

end Crc
