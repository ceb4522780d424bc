import Ralf.Lib.Bytes

/-!
# Lines of fields

A line of text has fields between separators. The fields here are decimal numbers and byte strings
in hexadecimal digits, each with its reader: what is written reads back, is not empty unless it
stands for no byte, and contains no character that could be a separator.
-/

namespace Fields

/-- The fields of a line, with a separator between them. -/
def join (separator : Char) (fields : List (List Char)) : List Char :=
  [separator].intercalate fields

theorem splitOn_join {separator : Char} {fields : List (List Char)} (hne : fields ≠ [])
    (h : ∀ field ∈ fields, separator ∉ field) : (join separator fields).splitOn separator = fields :=
  List.splitOn_intercalate separator h hne

/-! ## Decimal numbers -/

def decimal (n : Nat) : List Char := Nat.toDigits 10 n

def readDecimal (field : List Char) : Option Nat :=
  if field ≠ [] ∧ field.all Char.isDigit then some (Nat.ofDigitChars 10 field 0) else none

theorem decimal_ne_nil (n : Nat) : decimal n ≠ [] := Nat.toDigits_ne_nil

theorem isDigit_of_mem_decimal {n : Nat} {c : Char} (h : c ∈ decimal n) : c.isDigit = true :=
  Nat.isDigit_of_mem_toDigits (by decide) (by decide) h

theorem not_mem_decimal {c : Char} (h : c.isDigit = false) (n : Nat) : c ∉ decimal n := by
  intro hmem
  rw [isDigit_of_mem_decimal hmem] at h
  exact Bool.noConfusion h

@[simp] theorem readDecimal_decimal (n : Nat) : readDecimal (decimal n) = some n := by
  have hdigits : (decimal n).all Char.isDigit = true :=
    List.all_eq_true.mpr fun _ hmem => isDigit_of_mem_decimal hmem
  rw [readDecimal, if_pos ⟨decimal_ne_nil n, hdigits⟩]
  exact congrArg some Nat.ofDigitChars_ten_toDigits

/-! ## Hexadecimal digits -/

def hexChars : List Char := "0123456789abcdef".toList

/-- The two lower-case digits of a byte. -/
def hexDigits (byte : UInt8) : List Char :=
  [hexChars.getD (byte >>> 4 &&& 0xf).toNat '0', hexChars.getD (byte &&& 0xf).toNat '0']

def hex (bytes : Bytes) : List Char := bytes.flatMap hexDigits

/-- The value of a lower-case digit. -/
def hexValue (c : Char) : Option Nat := hexChars.idxOf? c

/-- The bytes of an even number of digits. -/
def readHex : List Char → Option Bytes
  | [] => some []
  | [_] => none
  | high :: low :: rest =>
    match hexValue high, hexValue low, readHex rest with
    | some high, some low, some bytes => some (UInt8.ofNat (16 * high + low) :: bytes)
    | _, _, _ => none

theorem hexValue_hexChars {n : Nat} (h : n < 16) : hexValue (hexChars.getD n '0') = some n := by
  have hall : ∀ n : Fin 16, hexValue (hexChars.getD n '0') = some n.val := by decide
  exact hall ⟨n, h⟩

theorem hexValue_digits (byte : UInt8) :
    hexValue (hexChars.getD (byte >>> 4 &&& 0xf).toNat '0') = some (byte.toNat / 16) ∧
      hexValue (hexChars.getD (byte &&& 0xf).toNat '0') = some (byte.toNat % 16) := by
  have hlt := byte.toNat_lt
  have hand : ∀ n : Nat, n &&& 15 = n % 16 := fun n => Nat.and_two_pow_sub_one_eq_mod n 4
  have hlow : (byte &&& 0xf).toNat = byte.toNat % 16 := by
    simp [hand]
  have hhigh : (byte >>> 4 &&& 0xf).toNat = byte.toNat / 16 := by
    simp [hand, Nat.shiftRight_eq_div_pow]
    omega
  rw [hlow, hhigh]
  exact ⟨hexValue_hexChars (by omega), hexValue_hexChars (Nat.mod_lt _ (by decide))⟩

@[simp] theorem readHex_hex (bytes : Bytes) : readHex (hex bytes) = some bytes := by
  induction bytes with
  | nil => simp [hex, readHex]
  | cons byte rest ih =>
    obtain ⟨hhigh, hlow⟩ := hexValue_digits byte
    have hbyte : UInt8.ofNat (16 * (byte.toNat / 16) + byte.toNat % 16) = byte := by
      rw [Nat.div_add_mod, UInt8.ofNat_toNat]
    rw [hex, List.flatMap_cons, ← hex, hexDigits, List.cons_append, List.cons_append,
      List.nil_append, readHex, hhigh, hlow, ih]
    exact congrArg (fun byte => some (byte :: rest)) hbyte

theorem hex_eq_nil_iff (bytes : Bytes) : hex bytes = [] ↔ bytes = [] := by
  cases bytes <;> simp [hex, hexDigits]

theorem mem_hexChars_of_mem_hex {c : Char} {bytes : Bytes} (h : c ∈ hex bytes) : c ∈ hexChars := by
  obtain ⟨byte, -, hdigit⟩ := List.mem_flatMap.mp h
  have hall : ∀ digit value, hexValue digit = some value → digit ∈ hexChars := by
    intro digit value hvalue
    refine List.isSome_idxOf?.mp ?_
    rw [← hexValue, hvalue]
    rfl
  obtain ⟨hhigh, hlow⟩ := hexValue_digits byte
  rw [hexDigits, List.mem_pair] at hdigit
  rcases hdigit with rfl | rfl
  · exact hall _ _ hhigh
  · exact hall _ _ hlow

end Fields
