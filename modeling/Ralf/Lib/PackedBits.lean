import Mathlib.Data.Nat.Digits.Defs
import Ralf.Lib.Bytes

/-!
# Packed words

`packWords width bits words` stores words of `bits` bits one after another, the first
one in the lowest bits, in `width` bytes. Decoders read such words in different
ways: as whole bytes, or by a shift and a mask of a larger integer. `bitField` is
what all of them read (`uint_eq_bitField`, `uint_shift_eq_bitField`), and
`bitField_packWords` gives the packed word.
-/

namespace Bytes

/-! ## The number of a byte string -/

theorem le_append (as bs : Bytes) : le (as ++ bs) = le as + 256 ^ as.length * le bs := by
  induction as with
  | nil => simp [le]
  | cons a as ih =>
    rw [List.cons_append, le, ih, le, List.length_cons, Nat.pow_succ]
    ring

theorem le_drop (bs : Bytes) (n : Nat) : le (bs.drop n) = le bs / 256 ^ n := by
  induction n generalizing bs with
  | zero => simp
  | succ n ih =>
    cases bs with
    | nil => simp [le]
    | cons b bs =>
      have hb : b.toNat < 256 := b.toNat_lt
      have htail : (b.toNat + 256 * le bs) / 256 = le bs := by omega
      rw [List.drop_succ_cons, ih, le, Nat.pow_succ', ← Nat.div_div_eq_div_mul, htail]

theorem le_take (bs : Bytes) (n : Nat) : le (bs.take n) = le bs % 256 ^ n := by
  have hsplit := le_append (bs.take n) (bs.drop n)
  rw [List.take_append_drop] at hsplit
  have hlt := le_lt (bs.take n)
  rcases Nat.le_total n bs.length with h | h
  · rw [List.length_take, Nat.min_eq_left h] at hsplit hlt
    rw [hsplit, Nat.add_mul_mod_self_left, Nat.mod_eq_of_lt hlt]
  · rw [List.take_of_length_le h] at hlt ⊢
    rw [Nat.mod_eq_of_lt]
    exact Nat.lt_of_lt_of_le hlt (Nat.pow_le_pow_right (by decide) h)

theorem le_leBytes_mod (width n : Nat) : le (leBytes width n) = n % 256 ^ width := by
  induction width generalizing n with
  | zero => simp [leBytes, le, Nat.mod_one]
  | succ width ih =>
    have hbyte : (UInt8.ofNat n).toNat = n % 256 := UInt8.toNat_ofNat'
    rw [leBytes, le, ih, hbyte, Nat.pow_succ', Nat.mod_mul]

/-! ## Bit fields -/

/-- The `bits` bits from bit `pos` on. -/
def bitField (bs : Bytes) (pos bits : Nat) : Nat := le bs / 2 ^ pos % 2 ^ bits

/-- Bits of a range of bits. -/
theorem mod_div_mod_two_pow {n a s b : Nat} (h : s + b ≤ a) :
    n % 2 ^ a / 2 ^ s % 2 ^ b = n / 2 ^ s % 2 ^ b := by
  obtain ⟨c, rfl⟩ := Nat.exists_eq_add_of_le h
  rw [Nat.add_assoc, Nat.pow_add 2 s, Nat.mod_mul_right_div_self,
    Nat.mod_mod_of_dvd _ (Nat.pow_dvd_pow 2 (Nat.le_add_right b c))]

theorem two_pow_eight_mul (n : Nat) : 256 ^ n = 2 ^ (8 * n) := by
  rw [Nat.pow_mul]

theorem uint_eq_bitField (bs : Bytes) (offset width : Nat) :
    bs.uint offset width = bs.bitField (8 * offset) (8 * width) := by
  unfold uint slice bitField
  rw [le_take, le_drop, two_pow_eight_mul, two_pow_eight_mul]

/-- A field that is read by shifting and masking an integer around it. -/
theorem uint_shift_eq_bitField (bs : Bytes) (offset : Nat) {width shift bits : Nat}
    (h : shift + bits ≤ 8 * width) :
    bs.uint offset width / 2 ^ shift % 2 ^ bits = bs.bitField (8 * offset + shift) bits := by
  rw [uint_eq_bitField]
  unfold bitField
  rw [mod_div_mod_two_pow h, Nat.div_div_eq_div_mul, ← Nat.pow_add]

/-! ## Packing -/

/-- The words in `bits` bits each, the first one in the lowest bits. -/
def packWords (width bits : Nat) (words : List Nat) : Bytes :=
  leBytes width (Nat.ofDigits (2 ^ bits) words)

@[simp] theorem packWords_length (width bits : Nat) (words : List Nat) :
    (packWords width bits words).length = width := leBytes_length _ _

/-- A word of a packing, whatever follows the packing. -/
theorem bitField_packWords {width bits i : Nat} {words : List Nat} (tail : Bytes)
    (hwords : ∀ word ∈ words, word < 2 ^ bits) (hi : i < words.length)
    (hfits : bits * words.length ≤ 8 * width) :
    (packWords width bits words ++ tail).bitField (bits * i) bits = words[i] := by
  have hbase : 0 < 2 ^ bits := Nat.two_pow_pos bits
  have hroom : bits * i + bits ≤ 8 * width :=
    Nat.le_trans (by rw [← Nat.mul_succ]; exact Nat.mul_le_mul_left bits hi) hfits
  have hlow : le (packWords width bits words ++ tail) % 2 ^ (8 * width) =
      Nat.ofDigits (2 ^ bits) words % 2 ^ (8 * width) := by
    rw [le_append, packWords_length, two_pow_eight_mul, Nat.add_mul_mod_self_left]
    unfold packWords
    rw [le_leBytes_mod, two_pow_eight_mul, Nat.mod_mod]
  have hword : words[i] < 2 ^ bits := hwords _ (List.getElem_mem hi)
  unfold bitField
  rw [← mod_div_mod_two_pow hroom, hlow, mod_div_mod_two_pow hroom, Nat.pow_mul,
    Nat.ofDigits_div_pow_eq_ofDigits_drop i hbase words hwords, List.drop_eq_getElem_cons hi,
    Nat.ofDigits_cons, Nat.add_mul_mod_self_left, Nat.mod_eq_of_lt hword]

end Bytes
