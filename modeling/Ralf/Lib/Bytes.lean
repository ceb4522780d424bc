import Mathlib.Data.List.Basic
import Mathlib.Tactic.Ring

/-!
# Byte strings

Byte strings as lists, with the three operations every on-disk format needs:

* `slice`, the bytes of a range (short when the range leaves the string);
* `le` / `leBytes`, little-endian decoding and encoding;
* `overwrite`, storing a byte string at a position of a buffer.

Sizes and offsets are natural numbers. `wrap64` is the reduction modulo `2 ^ 64`
that unsigned 64-bit arithmetic makes, and `wrapSub64` its subtraction.
-/

/-- A byte string. -/
abbrev Bytes := List UInt8

/-- The value that unsigned 64-bit arithmetic keeps of an exact result. -/
def wrap64 (n : Nat) : Nat := n % 2 ^ 64

theorem wrap64_of_lt {n : Nat} (h : n < 2 ^ 64) : wrap64 n = n := Nat.mod_eq_of_lt h

theorem wrap64_lt (n : Nat) : wrap64 n < 2 ^ 64 := Nat.mod_lt _ (by decide)

theorem wrap64_le (n : Nat) : wrap64 n ≤ n := Nat.mod_le _ _

/-- The largest unsigned 64-bit number, `SIZE_MAX`. -/
def sizeMax : Nat := 2 ^ 64 - 1

/-- The signed 64-bit number with the bits of an unsigned one. -/
def asInt64 (n : Nat) : Int := (n : Int).bmod (2 ^ 64)

theorem asInt64_of_lt {n : Nat} (h : n < 2 ^ 63) : asInt64 n = n := by
  unfold asInt64
  rw [Int.bmod_eq_of_le] <;> omega

/-- The difference that unsigned 64-bit arithmetic gives. -/
def wrapSub64 (a b : Nat) : Nat := wrap64 (a + (2 ^ 64 - b))

theorem wrapSub64_of_le {a b : Nat} (h : b ≤ a) (ha : a < 2 ^ 64) : wrapSub64 a b = a - b := by
  unfold wrapSub64 wrap64
  omega

theorem wrapSub64_le {a b : Nat} (h : b ≤ a) (hb : b ≤ 2 ^ 64) : wrapSub64 a b ≤ a - b := by
  unfold wrapSub64 wrap64
  rw [← Nat.add_sub_assoc hb, Nat.sub_add_comm h, Nat.add_mod_right]
  exact Nat.mod_le _ _

theorem wrapSub64_self {a : Nat} (h : a < 2 ^ 64) : wrapSub64 a a = 0 := by
  rw [wrapSub64_of_le (Nat.le_refl a) h, Nat.sub_self]

/-- A difference that wraps is too large by `2 ^ 64`. -/
theorem add_wrapSub64_of_lt {a b : Nat} (h : a < b) (hb : b ≤ 2 ^ 64) :
    b + wrapSub64 a b = a + 2 ^ 64 := by
  unfold wrapSub64 wrap64
  omega

/-- `DIV_ROUND_UP` in 64-bit arithmetic. -/
def divRoundUp (n d : Nat) : Nat := wrap64 (n + (d - 1)) / d

theorem divRoundUp_le_of_le_mul {n d m : Nat} (hd : 0 < d) (h : n ≤ m * d) :
    divRoundUp n d ≤ m := by
  unfold divRoundUp
  have hle := wrap64_le (n + (d - 1))
  refine Nat.le_of_lt_succ (Nat.div_lt_of_lt_mul ?_)
  rw [Nat.mul_succ, Nat.mul_comm d m]
  omega

namespace Bytes

/-- The bytes `[offset, offset + size)` of `bs`. -/
def slice (bs : Bytes) (offset size : Nat) : Bytes := (bs.drop offset).take size

theorem slice_length {bs : Bytes} {offset size : Nat} (h : offset + size ≤ bs.length) :
    (bs.slice offset size).length = size := by
  simp only [slice, List.length_take, List.length_drop]
  omega

theorem slice_length_le (bs : Bytes) (offset size : Nat) :
    (bs.slice offset size).length ≤ size := by
  simp only [slice, List.length_take]
  omega

@[simp] theorem slice_zero_self (bs : Bytes) : bs.slice 0 bs.length = bs := by simp [slice]

@[simp] theorem slice_size_zero (bs : Bytes) (offset : Nat) : bs.slice offset 0 = [] := by
  simp [slice]

/-- A slice inside the second part of a concatenation. -/
theorem slice_append_right {as bs : Bytes} {offset size : Nat} :
    (as ++ bs).slice (as.length + offset) size = bs.slice offset size := by
  simp [slice, List.drop_append, List.drop_eq_nil_of_le]

/-- A slice inside the first part of a concatenation. -/
theorem slice_append_left {as bs : Bytes} {offset size : Nat} (h : offset + size ≤ as.length) :
    (as ++ bs).slice offset size = as.slice offset size := by
  simp only [slice]
  rw [List.drop_append_of_le_length (by omega), List.take_append_of_le_length]
  simp only [List.length_drop]
  omega

/-- A slice that starts after the first part of a concatenation. -/
theorem slice_append_of_le {as bs : Bytes} {offset size : Nat} (h : as.length ≤ offset) :
    (as ++ bs).slice offset size = bs.slice (offset - as.length) size := by
  rw [← @slice_append_right as bs, Nat.add_sub_cancel' h]

/-- The slice that is the first part of a concatenation. -/
theorem slice_append_eq {as bs : Bytes} {size : Nat} (h : as.length = size) :
    (as ++ bs).slice 0 size = as := by
  rw [slice_append_left (by omega), ← h, slice_zero_self]

/-- Two adjacent slices make one. -/
theorem slice_append_slice (bs : Bytes) (offset a b : Nat) :
    bs.slice offset a ++ bs.slice (offset + a) b = bs.slice offset (a + b) := by
  simp only [slice, List.take_add, List.drop_drop]

/-- A slice of a slice. -/
theorem slice_slice {bs : Bytes} {o₁ s₁ o₂ s₂ : Nat} (h : o₂ + s₂ ≤ s₁) :
    (bs.slice o₁ s₁).slice o₂ s₂ = bs.slice (o₁ + o₂) s₂ := by
  simp only [slice, List.drop_take, List.drop_drop, List.take_take]
  rw [Nat.min_eq_left (by omega)]

/-- The bytes of a slice, one by one. -/
theorem map_getD_range {bs : Bytes} {offset size : Nat} (h : offset + size ≤ bs.length) :
    (List.range size).map (fun i => bs.getD (offset + i) 0) = bs.slice offset size := by
  refine List.ext_getElem ?_ fun i hi hi' => ?_
  · rw [List.length_map, List.length_range, slice_length h]
  · rw [List.length_map, List.length_range] at hi
    rw [List.getElem_map, List.getElem_range]
    simp [slice, List.getD_eq_getElem?_getD, List.getElem?_eq_getElem
      (show offset + i < bs.length by omega)]

/-- A slice only depends on the bytes up to its end. -/
theorem slice_congr {as bs : Bytes} {n offset size : Nat} (h : as.take n = bs.take n)
    (hfits : offset + size ≤ n) : as.slice offset size = bs.slice offset size := by
  have htake : ∀ cs : Bytes, slice (cs.take n) offset size = cs.slice offset size := by
    intro cs
    simp only [slice, List.drop_take, List.take_take]
    rw [Nat.min_eq_left (by omega)]
  rw [← htake as, h, htake bs]

/-! ## Blocks of one size -/

theorem length_flatten {blocks : List Bytes} {size : Nat}
    (h : ∀ block ∈ blocks, block.length = size) :
    blocks.flatten.length = blocks.length * size := by
  induction blocks with
  | nil => simp
  | cons block blocks ih =>
    rw [List.flatten_cons, List.length_append, List.length_cons, h block List.mem_cons_self,
      ih fun b hb => h b (List.mem_cons_of_mem _ hb)]
    ring

/-- Block `i` of a concatenation of blocks of one size. -/
theorem slice_flatten {blocks : List Bytes} {size i : Nat}
    (h : ∀ block ∈ blocks, block.length = size)
    (hi : i < blocks.length) : slice blocks.flatten (i * size) size = blocks[i] := by
  induction blocks generalizing i with
  | nil => exact absurd hi (Nat.not_lt_zero i)
  | cons block blocks ih =>
    have hblock := h block List.mem_cons_self
    rw [List.flatten_cons]
    cases i with
    | zero => rw [Nat.zero_mul, slice_append_eq hblock, List.getElem_cons_zero]
    | succ i =>
      have hi' : i < blocks.length := Nat.lt_of_succ_lt_succ hi
      rw [slice_append_of_le
        (by rw [hblock]; exact Nat.le_mul_of_pos_left _ (Nat.succ_pos i)), hblock,
        Nat.succ_mul, Nat.add_sub_cancel, List.getElem_cons_succ]
      exact ih (fun b hb => h b (List.mem_cons_of_mem _ hb)) hi'

/-! ## Little-endian integers -/

/-- The number whose little-endian bytes are `bs`. -/
def le : Bytes → Nat
  | [] => 0
  | b :: bs => b.toNat + 256 * le bs

/-- The `width` little-endian bytes of a number. -/
def leBytes : Nat → Nat → Bytes
  | 0, _ => []
  | width + 1, n => UInt8.ofNat n :: leBytes width (n / 256)

@[simp] theorem leBytes_length (width n : Nat) : (leBytes width n).length = width := by
  induction width generalizing n with
  | zero => rfl
  | succ width ih => simp [leBytes, ih]

theorem le_lt (bs : Bytes) : le bs < 256 ^ bs.length := by
  induction bs with
  | nil => simp [le]
  | cons b bs ih =>
    have hb : b.toNat < 256 := b.toNat_lt
    simp only [le, List.length_cons, Nat.pow_succ]
    omega

theorem le_leBytes {width n : Nat} (h : n < 256 ^ width) : le (leBytes width n) = n := by
  induction width generalizing n with
  | zero => simp at h; simp [leBytes, le, h]
  | succ width ih =>
    have hdiv : n / 256 < 256 ^ width := by
      rw [Nat.pow_succ] at h
      exact Nat.div_lt_of_lt_mul (by omega)
    simp only [leBytes, le, ih hdiv, UInt8.toNat_ofNat']
    omega

/-- The little-endian number stored in `width` bytes at `offset`. -/
def uint (bs : Bytes) (offset width : Nat) : Nat := le (bs.slice offset width)

theorem uint_lt (bs : Bytes) (offset width : Nat) : bs.uint offset width < 256 ^ width :=
  Nat.lt_of_lt_of_le (le_lt _) (Nat.pow_le_pow_right (by omega) (slice_length_le _ _ _))

/-! ## Buffers -/

/-- The buffer after `data` is stored at `pos`. -/
def overwrite (buf : Bytes) (pos : Nat) (data : Bytes) : Bytes :=
  buf.take pos ++ data ++ buf.drop (pos + data.length)

theorem overwrite_length {buf data : Bytes} {pos : Nat} (h : pos + data.length ≤ buf.length) :
    (buf.overwrite pos data).length = buf.length := by
  simp only [overwrite, List.length_append, List.length_take, List.length_drop]
  omega

/-- Data that is as long as the buffer replaces all of it. -/
theorem overwrite_whole {buf data : Bytes} (h : data.length = buf.length) :
    buf.overwrite 0 data = data := by
  rw [overwrite, h, Nat.zero_add, List.drop_length, List.append_nil, List.take_zero, List.nil_append]

/-- What is read back at `pos` is the data stored there. -/
theorem slice_overwrite_self {buf data : Bytes} {pos : Nat} (h : pos ≤ buf.length) :
    (buf.overwrite pos data).slice pos data.length = data := by
  have hlen : (buf.take pos).length = pos := by simp [h]
  have hr := @slice_append_right (buf.take pos) (data ++ buf.drop (pos + data.length)) 0 data.length
  simp only [hlen, Nat.add_zero] at hr
  rw [overwrite, List.append_assoc, hr, slice_append_left (by simp), slice_zero_self]

/-- Storing at `pos` leaves the bytes before `pos` as they are. -/
theorem slice_overwrite_before {buf data : Bytes} {pos offset size : Nat}
    (h : offset + size ≤ pos) (hpos : pos ≤ buf.length) :
    (buf.overwrite pos data).slice offset size = buf.slice offset size := by
  rw [overwrite, List.append_assoc, slice_append_left (by simp; omega)]
  have := @slice_slice buf 0 pos offset size h
  simpa [slice] using this

end Bytes
