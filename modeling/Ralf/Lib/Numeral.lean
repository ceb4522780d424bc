import Mathlib.Data.List.TakeWhile
import Mathlib.Tactic.NormNum
import Ralf.Lib.Bytes

/-!
# Numbers in texts

`strtoul` and its relatives: blanks, a sign, and the digits up to the first character that is none.
In base 0 the digits are hexadecimal after `0x`, octal after `0`, and decimal otherwise.

What the digits say is a `Numeral`, an exact number; `toUInt64` is what the conversion makes of it,
and `toUInt64_mul_exact_iff` says when a multiple of that is exact. For the bases up to ten
`read_digits` and `reads_of_strtoul` say which texts a number is read from.
-/

/-- The number at the start of a text, and what follows it. -/
structure Numeral where
  negative : Bool
  magnitude : Nat
  rest : Bytes
  deriving DecidableEq, Repr

namespace Numeral

/-! ## Reading -/

/-- `isspace`, in the C locale. -/
def isSpace (c : UInt8) : Bool := c = 32 ∨ 9 ≤ c ∧ c ≤ 13

/-- The digit that a character stands for. -/
def digit (base : Nat) (c : UInt8) : Option Nat :=
  let n := c.toNat
  let value :=
    if 48 ≤ n ∧ n < 58 then n - 48
    else if 97 ≤ n ∧ n < 123 then n - 87
    else if 65 ≤ n ∧ n < 91 then n - 55
    else base
  if value < base then some value else none

/-- The number that digits stand for, after others, and what follows them. -/
def digits (base : Nat) : Nat → Bytes → Nat × Bytes
  | n, [] => (n, [])
  | n, c :: rest =>
    match digit base c with
    | some value => digits base (n * base + value) rest
    | none => (n, c :: rest)

/-- The number at the start of a text without a sign. A `0x` without a hexadecimal digit is the
number 0. -/
def unsigned (base : Nat) : Bytes → Option (Nat × Bytes)
  | [] => none
  | first :: rest =>
    if base = 0 ∧ first = 48 then
      let prefixed := rest.head? = some 120 ∨ rest.head? = some 88
      if prefixed ∧ rest.tail.head?.any (fun c => (digit 16 c).isSome) then
        some (digits 16 0 rest.tail)
      else some (digits 8 0 rest)
    else
      let base := if base = 0 then 10 else base
      if (digit base first).isSome then some (digits base 0 (first :: rest)) else none

/-- The number at the start of a text. -/
def read (base : Nat) (s : Bytes) : Option Numeral :=
  let s := s.dropWhile isSpace
  let sign := s.head?
  let number := unsigned base (if sign = some 45 ∨ sign = some 43 then s.tail else s)
  number.map fun (magnitude, rest) => ⟨sign = some 45, magnitude, rest⟩

/-- The integer that is written. -/
def value (number : Numeral) : Int :=
  if number.negative then -number.magnitude else number.magnitude

/-! ## Conversion -/

/-- The conversion sets `errno` to `ERANGE`. -/
def OutOfRange (number : Numeral) : Prop := 2 ^ 64 ≤ number.magnitude

instance (number : Numeral) : Decidable number.OutOfRange :=
  inferInstanceAs (Decidable (2 ^ 64 ≤ number.magnitude))

/-- What `strtoull` returns: the largest number for one that is out of range, and the negation
modulo `2 ^ 64` for a negative one. -/
def toUInt64 (number : Numeral) : UInt64 :=
  if number.OutOfRange then UInt64.ofNat (2 ^ 64 - 1)
  else if number.negative then -UInt64.ofNat number.magnitude
  else UInt64.ofNat number.magnitude

/-- `strtoul` and `strtoull`, which return 0 without a number. -/
def strtoul (base : Nat) (s : Bytes) : UInt64 := ((read base s).map toUInt64).getD 0

/-- `std::stoul` and `std::stoull`, with the text behind the number. -/
def stoul (base : Nat) (s : Bytes) : Option (UInt64 × Bytes) :=
  match read base s with
  -- `std::invalid_argument`
  | none => none
  -- `std::out_of_range`
  | some number => if number.OutOfRange then none else some (number.toUInt64, number.rest)

theorem ofInt_natCast (n : Nat) : UInt64.ofInt n = UInt64.ofNat n := by
  have hmod : ((n : Int) % 2 ^ 64).toNat = n % 2 ^ 64 := by omega
  apply UInt64.toNat_inj.mp
  rw [UInt64.ofInt, hmod, UInt64.toNat_ofNat', UInt64.toNat_ofNat', Nat.mod_mod]

theorem toUInt64_of_not_outOfRange {number : Numeral} (h : ¬number.OutOfRange) :
    number.toUInt64 = UInt64.ofInt number.value := by
  unfold toUInt64 value
  rw [if_neg h]
  split
  · rw [UInt64.ofInt_neg, ofInt_natCast]
  · rw [ofInt_natCast]

theorem natAbs_value (number : Numeral) : number.value.natAbs = number.magnitude := by
  unfold value
  split <;> simp

/-- An integer that fits 64 bits. -/
def FitsUInt64 (n : Int) : Prop := 0 ≤ n ∧ n < 2 ^ 64

instance (n : Int) : Decidable (FitsUInt64 n) := inferInstanceAs (Decidable (_ ∧ _))

theorem fitsUInt64_toNat (n : UInt64) : FitsUInt64 n.toNat :=
  ⟨Int.natCast_nonneg _, Int.ofNat_lt.mpr n.toNat_lt⟩

theorem toNat_ofInt {n : Int} (h : FitsUInt64 n) : ((UInt64.ofInt n).toNat : Int) = n := by
  obtain ⟨hnonneg, hlt⟩ := h
  have hmod : n % 2 ^ 64 = n := Int.emod_eq_of_lt hnonneg hlt
  have hnat : n.toNat < 2 ^ 64 := by omega
  rw [UInt64.ofInt, hmod, UInt64.toNat_ofNat_of_lt' hnat, Int.toNat_of_nonneg hnonneg]

/-- A multiple of a number that is out of range does not fit either. -/
theorem OutOfRange.not_fits_mul {number : Numeral} {unit : UInt64} (h : number.OutOfRange)
    (hunit : unit ≠ 0) : ¬FitsUInt64 (number.value * unit.toNat) := by
  intro hfits
  have hpos : 0 < unit.toNat := Nat.pos_of_ne_zero fun hzero => hunit (UInt64.toNat_inj.mp hzero)
  have habs : (number.value * unit.toNat).natAbs = number.magnitude * unit.toNat := by
    rw [Int.natAbs_mul, natAbs_value, Int.natAbs_natCast]
  have hle : number.magnitude ≤ number.magnitude * unit.toNat := Nat.le_mul_of_pos_right _ hpos
  unfold OutOfRange at h
  unfold FitsUInt64 at hfits
  omega

/-- A multiple of the converted number is that of the number itself, if and only if it fits. -/
theorem toUInt64_mul_exact_iff (number : Numeral) (unit : UInt64) :
    ((number.toUInt64 * unit).toNat : Int) = number.value * unit.toNat ↔
      FitsUInt64 (number.value * unit.toNat) := by
  constructor
  · intro hexact
    rw [← hexact]
    exact fitsUInt64_toNat _
  intro hfits
  have hunit : unit = UInt64.ofInt unit.toNat := by
    rw [ofInt_natCast, UInt64.ofNat_toNat]
  by_cases hzero : unit = 0
  · simp [hzero]
  have hin : ¬number.OutOfRange := fun hout => hout.not_fits_mul hzero hfits
  have hproduct : number.toUInt64 * unit = UInt64.ofInt (number.value * unit.toNat) := by
    conv_lhs => rw [toUInt64_of_not_outOfRange hin, hunit]
    rw [UInt64.ofInt_mul]
  rw [hproduct, toNat_ofInt hfits]

/-- The last 16 bits of the converted number. -/
theorem toNat_toUInt16 (number : Numeral) :
    (number.toUInt64.toUInt16.toNat : Int) =
      if number.OutOfRange then 65535 else number.value % 65536 := by
  split
  case isTrue hout =>
    unfold toUInt64
    rw [if_pos hout]
    rfl
  case isFalse hin =>
    rw [toUInt64_of_not_outOfRange hin, UInt64.toNat_toUInt16, UInt64.ofInt, UInt64.toNat_ofNat']
    omega

/-! ## Sizes -/

/-- The unit that the first character after a number says. -/
def unit : Option UInt8 → UInt64
  | some 75 | some 107 => 1024
  | some 77 | some 109 => 1024 * 1024
  | some 71 | some 103 => 1024 * 1024 * 1024
  | _ => 1

/-- The size that is written: the number times its unit. -/
def size (number : Numeral) : Int := number.value * (unit number.rest.head?).toNat

/-- The size that is written at the start of a text. -/
def writtenSize (s : Bytes) : Option Int := (read 0 s).map size

/-! ## Bases up to ten -/

def isDigit (base : Nat) (c : UInt8) : Bool := 48 ≤ c.toNat ∧ c.toNat < 48 + base

/-- The number that digits stand for. -/
def ofDigits (base : Nat) (digits : Bytes) : Nat :=
  digits.foldl (fun n c => n * base + (c.toNat - 48)) 0

section
variable {base : Nat} {blanks rest : Bytes} {c : UInt8}

theorem digit_eq (hbase : base ≤ 10) :
    digit base c = if isDigit base c then some (c.toNat - 48) else none := by
  unfold digit isDigit
  dsimp only
  by_cases hdigit : 48 ≤ c.toNat ∧ c.toNat < 48 + base
  · rw [if_pos (show 48 ≤ c.toNat ∧ c.toNat < 58 by omega), if_pos (by omega),
      if_pos (decide_eq_true hdigit)]
  · rw [if_neg (show ¬decide _ = true by simpa using hdigit), if_neg]
    split
    · omega
    split
    · omega
    split
    · omega
    · exact Nat.lt_irrefl base

theorem digits_eq (hbase : base ≤ 10) (n : Nat) (s : Bytes) :
    digits base n s =
      ((s.takeWhile (isDigit base)).foldl (fun n c => n * base + (c.toNat - 48)) n,
        s.dropWhile (isDigit base)) := by
  induction s generalizing n with
  | nil => rfl
  | cons c rest ih =>
    unfold digits
    rw [digit_eq hbase]
    by_cases hdigit : isDigit base c = true
    · rw [if_pos hdigit, List.takeWhile_cons_of_pos hdigit, List.dropWhile_cons_of_pos hdigit]
      exact ih _
    · rw [if_neg hdigit, List.takeWhile_cons_of_neg hdigit, List.dropWhile_cons_of_neg hdigit]
      rfl

/-- Without digits there is no number, and with digits there is the one that they stand for. -/
theorem unsigned_eq (hpos : 0 < base) (hbase : base ≤ 10) (s : Bytes) :
    unsigned base s =
      if s.takeWhile (isDigit base) = [] then none
      else some (ofDigits base (s.takeWhile (isDigit base)), s.dropWhile (isDigit base)) := by
  cases s with
  | nil => rfl
  | cons first rest =>
    unfold unsigned
    dsimp only
    rw [if_neg (fun h => hpos.ne' h.1), if_neg hpos.ne', digits_eq hbase, digit_eq hbase]
    by_cases hdigit : isDigit base first = true
    · rw [if_pos hdigit, Option.isSome_some, if_pos rfl, if_neg]
      · rfl
      · rw [List.takeWhile_cons_of_pos hdigit]
        exact List.cons_ne_nil _ _
    · rw [if_neg hdigit, if_neg (by simp), if_pos (List.takeWhile_cons_of_neg hdigit)]

theorem isSpace_of_isDigit (hbase : base ≤ 10) (h : isDigit base c = true) : isSpace c = false := by
  unfold isDigit at h
  unfold isSpace
  rw [decide_eq_true_eq] at h
  rw [decide_eq_false_iff_not]
  have hspace : c = 32 → c.toNat = 32 := fun heq => congrArg UInt8.toNat heq
  rintro (heq | ⟨-, hle⟩)
  · have := hspace heq
    omega
  · have := UInt8.le_iff_toNat_le.mp hle
    have h13 : (13 : UInt8).toNat = 13 := rfl
    omega

/-- A number without a sign. -/
theorem read_digits {text : Bytes} (hpos : 0 < base) (hbase : base ≤ 10)
    (hblanks : ∀ c ∈ blanks, isSpace c = true) (hdigits : ∀ c ∈ text, isDigit base c = true)
    (hnonempty : text ≠ []) (hrest : ∀ c ∈ rest.head?, isDigit base c = false) :
    read base (blanks ++ (text ++ rest)) = some ⟨false, ofDigits base text, rest⟩ := by
  obtain ⟨first, others, rfl⟩ := List.exists_cons_of_ne_nil hnonempty
  have hfirst : isDigit base first = true := hdigits first List.mem_cons_self
  have hdrop : (blanks ++ (first :: others ++ rest)).dropWhile isSpace =
      first :: others ++ rest := by
    rw [List.dropWhile_append_of_pos hblanks, List.cons_append, List.dropWhile_cons_of_neg]
    rw [isSpace_of_isDigit hbase hfirst]
    exact Bool.false_ne_true
  have htake : (first :: others ++ rest).takeWhile (isDigit base) = first :: others ∧
      (first :: others ++ rest).dropWhile (isDigit base) = rest := by
    rw [List.takeWhile_append_of_pos hdigits, List.dropWhile_append_of_pos hdigits]
    cases rest with
    | nil => exact ⟨List.append_nil _, rfl⟩
    | cons other rest =>
      have hother : ¬ isDigit base other = true := by
        rw [hrest other rfl]
        exact Bool.false_ne_true
      rw [List.takeWhile_cons_of_neg hother, List.dropWhile_cons_of_neg hother, List.append_nil]
      exact ⟨rfl, rfl⟩
  have hsign : ∀ sign : UInt8, sign.toNat < 48 →
      (first :: others ++ rest).head? ≠ some sign := by
    intro sign hsmall heq
    cases heq
    unfold isDigit at hfirst
    rw [decide_eq_true_eq] at hfirst
    omega
  have hminus := hsign 45 (by decide)
  unfold read
  dsimp only
  rw [hdrop, if_neg (not_or.mpr ⟨hminus, hsign 43 (by decide)⟩), unsigned_eq hpos hbase, htake.1,
    htake.2, if_neg (List.cons_ne_nil _ _), Option.map_some, decide_eq_false hminus]

theorem toNat_toUInt64 {number : Numeral} (h : ¬number.OutOfRange) :
    number.toUInt64.toNat =
      if number.negative then (2 ^ 64 - number.magnitude) % 2 ^ 64 else number.magnitude := by
  have hlt : number.magnitude < 2 ^ 64 := Nat.not_le.mp h
  unfold toUInt64
  rw [if_neg h]
  split
  · rw [UInt64.toNat_neg, UInt64.toNat_ofNat_of_lt' hlt]
    rfl
  · exact UInt64.toNat_ofNat_of_lt' hlt

theorem strtoul_digits {text : Bytes} (hpos : 0 < base) (hbase : base ≤ 10)
    (hblanks : ∀ c ∈ blanks, isSpace c = true) (hdigits : ∀ c ∈ text, isDigit base c = true)
    (hnonempty : text ≠ []) (hrest : ∀ c ∈ rest.head?, isDigit base c = false)
    (hfits : ofDigits base text < 2 ^ 64) :
    (strtoul base (blanks ++ (text ++ rest))).toNat = ofDigits base text := by
  unfold strtoul
  rw [read_digits hpos hbase hblanks hdigits hnonempty hrest, Option.map_some, Option.getD_some,
    toNat_toUInt64 (Nat.not_le.mpr hfits), if_neg Bool.false_ne_true]

/-- The decimal digits of a text of characters. -/
theorem ofDigits_map {text : List Char} (h : ∀ c ∈ text, 48 ≤ c.toNat ∧ c.toNat < 58) :
    ofDigits 10 (text.map fun c => UInt8.ofNat c.toNat) = Nat.ofDigitChars 10 text 0 := by
  have hfold : ∀ start, (text.map fun c => UInt8.ofNat c.toNat).foldl
      (fun n c => n * 10 + (c.toNat - 48)) start = Nat.ofDigitChars 10 text start := by
    induction text with
    | nil => exact fun _ => rfl
    | cons c text ih =>
      intro start
      obtain ⟨hc, htext⟩ := List.forall_mem_cons.mp h
      have hbyte : (UInt8.ofNat c.toNat).toNat = c.toNat :=
        UInt8.toNat_ofNat_of_lt' (Nat.lt_trans hc.2 (by decide))
      rw [List.map_cons, List.foldl_cons, ih htext, hbyte, Nat.mul_comm]
      rfl
  exact hfold 0

theorem toNat_of_isDigit {c : Char} (h : c.isDigit = true) : 48 ≤ c.toNat ∧ c.toNat < 58 := by
  have hrange : 48 ≤ c.toNat ∧ c.toNat ≤ 57 := by
    simpa [Char.isDigit, UInt32.le_iff_toNat_le] using h
  exact ⟨hrange.1, Nat.lt_succ_of_le hrange.2⟩

theorem read_digitChars {text : List Char} (hnonempty : text ≠ [])
    (h : ∀ c ∈ text, 48 ≤ c.toNat ∧ c.toNat < 58) :
    read 10 (text.map fun c => UInt8.ofNat c.toNat) =
      some ⟨false, Nat.ofDigitChars 10 text 0, []⟩ := by
  have hread := @read_digits 10 [] [] (text.map fun c => UInt8.ofNat c.toNat) (by decide)
    (by decide) nofun ?_ ?_ nofun
  · rwa [List.append_nil, List.nil_append, ofDigits_map h] at hread
  · intro byte hmem
    obtain ⟨c, hc, rfl⟩ := List.mem_map.mp hmem
    obtain ⟨hlow, hhigh⟩ := h c hc
    rw [isDigit, UInt8.toNat_ofNat_of_lt' (Nat.lt_trans hhigh (by decide)), decide_eq_true_eq]
    exact ⟨hlow, hhigh⟩
  · rw [ne_eq, List.map_eq_nil_iff]
    exact hnonempty

/-- A text with a number that fits: blanks, a sign, and all the digits that follow. -/
def Reads (base : Nat) (s : Bytes) (n : Nat) : Prop :=
  ∃ blanks sign digits rest, s = blanks ++ (sign ++ (digits ++ rest)) ∧
    (∀ c ∈ blanks, isSpace c = true) ∧ (sign = [] ∨ sign = [43] ∨ sign = [45]) ∧ digits ≠ [] ∧
    (∀ c ∈ digits, isDigit base c = true) ∧ (∀ c ∈ rest.head?, isDigit base c = false) ∧
    ofDigits base digits < 2 ^ 64 ∧
    n = if sign = [45] then (2 ^ 64 - ofDigits base digits) % 2 ^ 64 else ofDigits base digits

theorem head?_dropWhile {p : UInt8 → Bool} (s : Bytes) :
    ∀ c ∈ (s.dropWhile p).head?, p c = false := by
  intro c hc
  have hsome := List.head?_dropWhile_not p s
  rw [Option.mem_def.mp hc] at hsome
  simpa using hsome

/-- A number that is neither zero nor the largest one is that of a text with digits. -/
theorem reads_of_strtoul {s : Bytes} (hbase : 0 < base ∧ base ≤ 10)
    (hpos : 0 < (strtoul base s).toNat) (hlt : (strtoul base s).toNat < 2 ^ 64 - 1) :
    Reads base s (strtoul base s).toNat := by
  unfold strtoul read at hpos hlt ⊢
  dsimp only at hpos hlt ⊢
  generalize hrest : s.dropWhile isSpace = rest at hpos hlt ⊢
  -- the sign in front of the digits
  obtain ⟨sign, text, hsplit, hsign, htext, hminus⟩ : ∃ sign text, rest = sign ++ text ∧
      (sign = [] ∨ sign = [43] ∨ sign = [45]) ∧
      (if rest.head? = some 45 ∨ rest.head? = some 43 then rest.tail else rest) = text ∧
      (rest.head? = some 45 ↔ sign = [45]) := by
    cases rest with
    | nil => exact ⟨[], [], rfl, .inl rfl, rfl, by simp⟩
    | cons first tail =>
      by_cases h45 : first = 45
      · exact ⟨[45], tail, by rw [h45]; rfl, .inr (.inr rfl), by simp [h45], by simp [h45]⟩
      by_cases h43 : first = 43
      · exact ⟨[43], tail, by rw [h43]; rfl, .inr (.inl rfl), by simp [h43], by simp [h43]⟩
      · exact ⟨[], first :: tail, rfl, .inl rfl, by simp [h45, h43], by simp [h45]⟩
  rw [htext, unsigned_eq hbase.1 hbase.2] at hpos hlt ⊢
  by_cases hnone : text.takeWhile (isDigit base) = []
  · rw [if_pos hnone] at hpos
    exact absurd hpos (Nat.lt_irrefl 0)
  rw [if_neg hnone, Option.map_some, Option.map_some, Option.getD_some] at hpos hlt ⊢
  by_cases hlarge : 2 ^ 64 ≤ ofDigits base (text.takeWhile (isDigit base))
  · have hmax : ∀ negative more, (toUInt64 ⟨negative, ofDigits base
        (text.takeWhile (isDigit base)), more⟩).toNat = 2 ^ 64 - 1 := fun _ _ => by
      rw [toUInt64, if_pos (by exact hlarge)]
      rfl
    rw [hmax] at hlt
    exact absurd hlt (Nat.lt_irrefl _)
  refine ⟨s.takeWhile isSpace, sign, text.takeWhile (isDigit base),
    text.dropWhile (isDigit base), ?_, fun c hc => ?_, hsign, hnone, fun c hc => ?_,
    head?_dropWhile text, Nat.not_le.mp hlarge, ?_⟩
  · rw [List.takeWhile_append_dropWhile, ← hsplit, ← hrest, List.takeWhile_append_dropWhile]
  · exact List.mem_takeWhile_imp hc
  · exact List.mem_takeWhile_imp hc
  · refine (toNat_toUInt64 (by exact hlarge)).trans ?_
    simp only [hminus, decide_eq_true_eq]

end

end Numeral
