import Mathlib.Data.List.Basic
import Mathlib.Tactic.IntervalCases
import Ralf.Core.Error
import Ralf.Lib.Numeral
import Ralf.Lib.Positional

/-!
# Version numbers

A version number has one to four fields of 32 bits. Texts are lists of characters, one
for each byte of the source's strings.

Comparing two versions is comparing the numbers that their fields, padded with zeros,
have in base `2 ^ 32`.
-/

open Positional

/-- A text. -/
abbrev Text := List Char

/-- The largest number of fields. -/
def kMaxFields : Nat := 4

/-- The largest value of a field. -/
def uint32Max : UInt32 := 0xFFFFFFFF

/-- A version number. -/
structure VersionNumber where
  fields : List UInt32
  nonempty : fields ≠ []
  length_le : fields.length ≤ kMaxFields
  deriving DecidableEq

namespace VersionNumber

variable {v w : VersionNumber} {fs gs : List UInt32}

def fieldCount (v : VersionNumber) : Nat := v.fields.length

def fieldValue (v : VersionNumber) (indexField : Nat) : UInt32 := v.fields.getD indexField 0

/-- A version of one field. -/
def ofOne (v0 : UInt32) : VersionNumber := ⟨[v0], List.cons_ne_nil _ _, by show 1 ≤ 4; decide⟩

/-- A version of two fields. -/
def ofTwo (v0 v1 : UInt32) : VersionNumber :=
    ⟨[v0, v1], List.cons_ne_nil _ _, by show 2 ≤ 4; decide⟩

/-! ## Comparing -/

/-- Compares fields one by one; fields that only one side has are compared with zero. -/
def compareFields : List UInt32 → List UInt32 → Int
  | f :: fs, g :: gs => if f < g then -1 else if g < f then 1 else compareFields fs gs
  | f :: fs, [] => if (f :: fs).any (· ≠ 0) then 1 else 0
  | [], g :: gs => if (g :: gs).any (· ≠ 0) then -1 else 0
  | [], [] => 0

def compare (lhs rhs : VersionNumber) : Int := compareFields lhs.fields rhs.fields

instance : LT VersionNumber := ⟨fun v w => compare v w < 0⟩

instance : LE VersionNumber := ⟨fun v w => compare v w ≤ 0⟩

instance : DecidableRel (· < · : VersionNumber → VersionNumber → Prop) :=
  fun v w => inferInstanceAs (Decidable (compare v w < 0))

instance : DecidableRel (· ≤ · : VersionNumber → VersionNumber → Prop) :=
  fun v w => inferInstanceAs (Decidable (compare v w ≤ 0))

/-- The fields as digits. -/
def digits (fs : List UInt32) : List Nat := fs.map UInt32.toNat

theorem digits_bounded (fs : List UInt32) : Digits (2 ^ 32) (digits fs) := by
  intro d hd
  obtain ⟨f, -, rfl⟩ := List.mem_map.mp hd
  exact f.toNat_lt

theorem digits_cons (f : UInt32) (fs : List UInt32) : digits (f :: fs) = f.toNat :: digits fs := rfl

@[simp] theorem digits_length : (digits fs).length = fs.length := List.length_map _

/-- The number of a version. -/
def rank (v : VersionNumber) : Nat := value (2 ^ 32) kMaxFields (digits v.fields)

theorem value_digits_eq_zero_iff {n : Nat} (hlen : fs.length ≤ n) :
    value (2 ^ 32) n (digits fs) = 0 ↔ fs.any (· ≠ 0) = false := by
  rw [value_eq_zero_iff (by decide) (by rwa [digits_length]), digits, List.forall_mem_map]
  simp [← UInt32.toNat_inj]

/-- The sign of a comparison of numbers. -/
def order (a b : Nat) : Int := if a < b then -1 else if b < a then 1 else 0

theorem order_of_lt {a b : Nat} (h : a < b) : order a b = -1 := if_pos h

theorem order_of_gt {a b : Nat} (h : b < a) : order a b = 1 := by
  unfold order
  rw [if_neg (Nat.lt_asymm h), if_pos h]

theorem order_lt_zero_iff {a b : Nat} : order a b < 0 ↔ a < b := by
  unfold order
  split
  · next h => simp [h]
  · split <;> simp_all

theorem order_le_zero_iff {a b : Nat} : order a b ≤ 0 ↔ a ≤ b := by
  unfold order
  split
  · next h => simp [Nat.le_of_lt h]
  · split <;> simp_all

theorem order_eq_zero_iff {a b : Nat} : order a b = 0 ↔ a = b := by
  unfold order
  split
  · next h => simp [Nat.ne_of_lt h]
  · split
    · next h => simp [Nat.ne_of_gt h]
    · next h h' => simp [Nat.le_antisymm (Nat.not_lt.mp h') (Nat.not_lt.mp h)]

theorem order_add_left (a b c : Nat) : order (a + b) (a + c) = order b c := by
  unfold order
  simp only [Nat.add_lt_add_iff_left]

theorem order_zero_left (a : Nat) : order 0 a = if a = 0 then 0 else -1 := by
  cases a with
  | zero => rfl
  | succ a => exact order_of_lt a.succ_pos

theorem order_zero_right (a : Nat) : order a 0 = if a = 0 then 0 else 1 := by
  cases a with
  | zero => rfl
  | succ a => exact order_of_gt a.succ_pos

/-- Against no fields, only fields that are not zero count. -/
theorem compareFields_nil_left {n : Nat} (hgs : gs.length ≤ n) :
    compareFields [] gs = order 0 (value (2 ^ 32) n (digits gs)) := by
  rw [order_zero_left]
  simp only [value_digits_eq_zero_iff hgs]
  cases gs with
  | nil => rfl
  | cons g gs =>
    rw [compareFields]
    cases (g :: gs).any (· ≠ 0) <;> rfl

theorem compareFields_nil_right {n : Nat} (hfs : fs.length ≤ n) :
    compareFields fs [] = order (value (2 ^ 32) n (digits fs)) 0 := by
  rw [order_zero_right]
  simp only [value_digits_eq_zero_iff hfs]
  cases fs with
  | nil => rfl
  | cons f fs =>
    rw [compareFields]
    cases (f :: fs).any (· ≠ 0) <;> rfl

theorem compareFields_eq {n : Nat} (hfs : fs.length ≤ n) (hgs : gs.length ≤ n) :
    compareFields fs gs =
      order (value (2 ^ 32) n (digits fs)) (value (2 ^ 32) n (digits gs)) := by
  induction fs generalizing gs n with
  | nil => simpa [digits] using compareFields_nil_left hgs
  | cons f fs ih =>
    cases gs with
    | nil => simpa [digits] using compareFields_nil_right hfs
    | cons g gs =>
      cases n with
      | zero => exact absurd hfs (Nat.not_succ_le_zero _)
      | succ n =>
        have hrest := ih (Nat.le_of_succ_le_succ hfs) (Nat.le_of_succ_le_succ hgs)
        unfold compareFields
        split
        · next h =>
          exact (order_of_lt (value_cons_lt_of_lt (by decide) (digits_bounded fs)
            (UInt32.lt_iff_toNat_lt.mp h))).symm
        split
        · next h =>
          exact (order_of_gt (value_cons_lt_of_lt (by decide) (digits_bounded gs)
            (UInt32.lt_iff_toNat_lt.mp h))).symm
        · next hfg hgf =>
          have heq : f = g := UInt32.le_antisymm (UInt32.not_lt.mp hgf) (UInt32.not_lt.mp hfg)
          subst heq
          rw [hrest, digits_cons, digits_cons, value_cons, value_cons, order_add_left]

theorem compare_eq_order (v w : VersionNumber) : compare v w = order v.rank w.rank :=
  compareFields_eq v.length_le w.length_le

theorem lt_iff : v < w ↔ v.rank < w.rank := by
  show compare v w < 0 ↔ v.rank < w.rank
  rw [compare_eq_order, order_lt_zero_iff]

theorem le_iff : v ≤ w ↔ v.rank ≤ w.rank := by
  show compare v w ≤ 0 ↔ v.rank ≤ w.rank
  rw [compare_eq_order, order_le_zero_iff]

theorem compare_eq_zero_iff : compare v w = 0 ↔ v.rank = w.rank := by
  rw [compare_eq_order, order_eq_zero_iff]

/-- Versions that start with the fields of `v`. -/
def IsPrefix (v w : VersionNumber) : Prop := ∀ i < v.fieldCount, w.fieldValue i = v.fieldValue i

instance : DecidableRel IsPrefix := fun v w =>
    inferInstanceAs (Decidable (∀ i < v.fieldCount, w.fieldValue i = v.fieldValue i))

/-! ## Incrementing -/

theorem le_uint32Max (f : UInt32) : f ≤ uint32Max :=
  UInt32.le_iff_toNat_le.mpr (Nat.le_of_lt_succ f.toNat_lt)

theorem toNat_add_one {f : UInt32} (h : f < uint32Max) : (f + 1).toNat = f.toNat + 1 := by
  have hlt : f.toNat < 2 ^ 32 - 1 := UInt32.lt_iff_toNat_lt.mp h
  rw [UInt32.toNat_add]
  exact Nat.mod_eq_of_lt (Nat.add_lt_of_lt_sub hlt)

/-- Adds one to the last field. A field at its maximum becomes zero, and the field before
it is incremented; the flag says that all fields became zero. -/
def incrementFields : List UInt32 → List UInt32 × Bool
  | [] => ([], true)
  | f :: fs =>
    match incrementFields fs with
    | (fs', true) => if f < uint32Max then ((f + 1) :: fs', false) else (0 :: fs', true)
    | (fs', false) => (f :: fs', false)

theorem incrementFields_cons (f : UInt32) (fs : List UInt32) :
    incrementFields (f :: fs) =
      match incrementFields fs with
      | (fs', true) => if f < uint32Max then ((f + 1) :: fs', false) else (0 :: fs', true)
      | (fs', false) => (f :: fs', false) := rfl

theorem incrementFields_length (fs : List UInt32) :
    (incrementFields fs).1.length = fs.length := by
  induction fs with
  | nil => rfl
  | cons f fs ih =>
    rw [incrementFields_cons]
    generalize incrementFields fs = rest at ih
    obtain ⟨fs', carry⟩ := rest
    cases carry with
    | false => exact congrArg (· + 1) ih
    | true =>
      dsimp only
      split <;> exact congrArg (· + 1) ih

/-- Only the largest version of a length overflows. -/
theorem incrementFields_carry (fs : List UInt32) :
    (incrementFields fs).2 = true ↔ ∀ f ∈ fs, f = uint32Max := by
  induction fs with
  | nil => simp [incrementFields]
  | cons f fs ih =>
    rw [List.forall_mem_cons, ← ih, incrementFields_cons]
    obtain ⟨fs', carry⟩ := incrementFields fs
    cases carry with
    | false => simp
    | true =>
      dsimp only
      split
      · next h => simp [UInt32.ne_of_lt h]
      · next h => simp [UInt32.le_antisymm (le_uint32Max f) (UInt32.not_lt.mp h)]

/-- The largest fields are one step short of the next power of the base. -/
theorem value_of_all_max {n : Nat} (hlen : fs.length ≤ n) (hmax : ∀ f ∈ fs, f = uint32Max) :
    value (2 ^ 32) n (digits fs) + (2 ^ 32) ^ (n - fs.length) = (2 ^ 32) ^ n := by
  induction fs generalizing n with
  | nil => simp [digits]
  | cons f fs ih =>
    cases n with
    | zero => exact absurd hlen (Nat.not_succ_le_zero _)
    | succ n =>
      obtain ⟨rfl, htail⟩ := List.forall_mem_cons.mp hmax
      have hrest := ih (Nat.le_of_succ_le_succ hlen) htail
      rw [digits_cons, value_cons, List.length_cons, Nat.add_sub_add_right, Nat.add_assoc, hrest,
        Nat.pow_succ]
      have hfield : uint32Max.toNat = 2 ^ 32 - 1 := rfl
      rw [hfield]
      omega

/-- Incrementing adds one step of the last field, or overflows to zero. -/
theorem incrementFields_value {n : Nat} (hlen : fs.length ≤ n) :
    value (2 ^ 32) n (digits (incrementFields fs).1) =
      if (incrementFields fs).2 then 0
      else value (2 ^ 32) n (digits fs) + (2 ^ 32) ^ (n - fs.length) := by
  induction fs generalizing n with
  | nil => simp [incrementFields, digits]
  | cons f fs ih =>
    cases n with
    | zero => exact absurd hlen (Nat.not_succ_le_zero _)
    | succ n =>
      have hlen' : fs.length ≤ n := Nat.le_of_succ_le_succ hlen
      have hrest := ih hlen'
      have hcarry := incrementFields_carry fs
      rw [List.length_cons, Nat.add_sub_add_right, incrementFields_cons]
      generalize incrementFields fs = rest at hrest hcarry
      obtain ⟨fs', carry⟩ := rest
      cases carry with
      | false =>
        dsimp only at hrest ⊢
        rw [if_neg Bool.false_ne_true] at hrest ⊢
        rw [digits_cons, digits_cons, value_cons, value_cons, hrest, Nat.add_assoc]
      | true =>
        rw [if_pos rfl] at hrest
        dsimp only at hrest ⊢
        split
        · next h =>
          have hmax := value_of_all_max hlen' (hcarry.mp rfl)
          rw [if_neg Bool.false_ne_true, digits_cons, digits_cons, value_cons, value_cons, hrest,
            Nat.add_assoc, hmax, toNat_add_one h, Nat.succ_mul]
          rfl
        · next h =>
          rw [if_pos rfl, digits_cons, value_cons, hrest]
          simp

/-- The operator `++`. -/
def increment (v : VersionNumber) : VersionNumber where
  fields := (incrementFields v.fields).1
  nonempty := by
    rw [← List.length_pos_iff, incrementFields_length, List.length_pos_iff]
    exact v.nonempty
  length_le := by
    rw [incrementFields_length]
    exact v.length_le

/-! ## Versions as intervals -/

/-- One step of the last field of a version. -/
def step (v : VersionNumber) : Nat := (2 ^ 32) ^ (kMaxFields - v.fieldCount)

theorem step_pos (v : VersionNumber) : 0 < v.step := Nat.pow_pos (by decide)

theorem rank_increment (v : VersionNumber) :
    v.increment.rank = if (incrementFields v.fields).2 then 0 else v.rank + v.step :=
  incrementFields_value v.length_le

theorem digits_getD (fs : List UInt32) (i : Nat) : (digits fs).getD i 0 = (fs.getD i 0).toNat := by
  unfold digits
  rw [List.getD_eq_getElem?_getD, List.getD_eq_getElem?_getD, List.getElem?_map]
  cases fs[i]? <;> rfl

theorem isPrefix_iff : IsPrefix v w ↔ v.rank ≤ w.rank ∧ w.rank < v.rank + v.step := by
  have hwindow := value_window_iff (n := kMaxFields) (by decide) (digits_bounded v.fields)
    (digits_bounded w.fields) (by rw [digits_length]; exact v.length_le)
  simp only [digits_length, digits_getD, UInt32.toNat_inj] at hwindow
  exact hwindow

theorem isPrefix_self (v : VersionNumber) : IsPrefix v v := fun _ _ => rfl

theorem rank_ofOne (v0 : UInt32) : (ofOne v0).rank = v0.toNat * (2 ^ 32) ^ 3 := by
  unfold rank ofOne digits kMaxFields
  rw [List.map_cons, value_cons, List.map_nil, value_nil, Nat.add_zero]

theorem rank_ofTwo (v0 v1 : UInt32) :
    (ofTwo v0 v1).rank = v0.toNat * (2 ^ 32) ^ 3 + v1.toNat * (2 ^ 32) ^ 2 := by
  unfold rank ofTwo digits kMaxFields
  rw [List.map_cons, value_cons, List.map_cons, value_cons, List.map_nil, value_nil, Nat.add_zero]

theorem isPrefix_ofOne {v0 : UInt32} : IsPrefix (ofOne v0) w ↔ w.fieldValue 0 = v0 := by
  constructor
  · intro h
    exact h 0 (Nat.succ_pos _)
  · intro h i hi
    obtain rfl : i = 0 := Nat.lt_one_iff.mp hi
    exact h

theorem isPrefix_ofTwo {v0 v1 : UInt32} :
    IsPrefix (ofTwo v0 v1) w ↔ w.fieldValue 0 = v0 ∧ w.fieldValue 1 = v1 := by
  constructor
  · intro h
    exact ⟨h 0 (by show 0 < 2; decide), h 1 (by show 1 < 2; decide)⟩
  · rintro ⟨h0, h1⟩ i hi
    have hi : i < 2 := hi
    interval_cases i
    · exact h0
    · exact h1

/-! ## Texts -/

/-- The bytes of a segment. -/
def segmentBytes (segment : Text) : Bytes := segment.map fun ch => UInt8.ofNat ch.toNat

/-- `strtoul`: a number that does not fit gives the largest one. -/
def strtoul (segment : Text) : Nat := (Numeral.strtoul 10 (segmentBytes segment)).toNat

/-- `std::stoul`: a number that does not fit throws. A segment has digits. -/
def stoul (segment : Text) : Except Fault Nat :=
  match Numeral.stoul 10 (segmentBytes segment) with
  | none => .error .outOfRange
  | some (value, _) => .ok value.toNat

/-- The fields that have ended, and the digits of the one that has not. -/
structure FieldParser where
  fields : List UInt32
  segment : Text

/-- A field of more than one digit must not start with a zero. -/
def leadingZero (segment : Text) : Bool := 1 < segment.length ∧ segment.head? = some '0'

/-- One character. -/
def parseChar (p : FieldParser) (ch : Char) : Result FieldParser :=
  if ch = '.' then
    if kMaxFields ≤ p.fields.length then
      .error (.ralf .versionNumberTooManyFields "Too many fields in version number")
    else if p.segment = [] then
      .error (.ralf .versionNumberInvalidCharacter "Empty field in version number")
    else if leadingZero p.segment then
      .error (.ralf .versionNumberInvalidCharacter "Leading zero in version number field")
    else if uint32Max.toNat ≤ strtoul p.segment then
      .error (.ralf .versionNumberInvalidCharacter "Field value too large")
    else .ok ⟨p.fields ++ [UInt32.ofNat (strtoul p.segment)], []⟩
  else if ch.isDigit then
    if 30 ≤ p.segment.length then
      .error (.ralf .versionNumberTooLong "Version number field too long")
    else .ok ⟨p.fields, p.segment ++ [ch]⟩
  else .error (.ralf .versionNumberInvalidCharacter "Invalid character in version number")

def parseChars (p : FieldParser) : Text → Result FieldParser
  | [] => .ok p
  | ch :: str =>
    match parseChar p ch with
    | .error error => .error error
    | .ok p => parseChars p str

def ofFields (fields : List UInt32) : Result VersionNumber :=
  if h : fields ≠ [] ∧ fields.length ≤ kMaxFields then .ok ⟨fields, h.1, h.2⟩
  else .error (.ralf .versionNumberEmpty "Empty version number")

/-- The last field has no dot after it. -/
def finishFields (p : FieldParser) : Except Fault (Result VersionNumber) :=
  if p.segment = [] then .ok (ofFields p.fields)
  else if kMaxFields ≤ p.fields.length then
    .ok (.error (.ralf .versionNumberTooManyFields "Too many fields in version number"))
  else if leadingZero p.segment then
    .ok (.error (.ralf .versionNumberInvalidCharacter "Leading zero in version number field"))
  else
    match stoul p.segment with
    | .error fault => .error fault
    -- the conversion to 32 bits keeps the low bits, with no check
    | .ok value => .ok (ofFields (p.fields ++ [UInt32.ofNat value]))

def fromString (str : Text) : Except Fault (Result VersionNumber) :=
  match parseChars ⟨[], []⟩ str with
  | .error error => .ok (.error error)
  | .ok p => finishFields p

/-- A field in decimal. -/
def fieldText (f : UInt32) : Text := Nat.toDigits 10 f.toNat

def fieldsText : List UInt32 → Text
  | [] => []
  | [f] => fieldText f
  | f :: fs => fieldText f ++ '.' :: fieldsText fs

def toString (v : VersionNumber) : Text := fieldsText v.fields

/-! ## The round trip -/

/-- Every field but the last is below the maximum, as the parser wants it. -/
def Printable (v : VersionNumber) : Prop := ∀ f ∈ v.fields.dropLast, f < uint32Max

theorem parseChars_cons (p : FieldParser) (ch : Char) (s : Text) :
    parseChars p (ch :: s) =
      match parseChar p ch with
      | .error error => .error error
      | .ok q => parseChars q s := rfl

theorem parseChars_append (p : FieldParser) (s t : Text) :
    parseChars p (s ++ t) =
      match parseChars p s with
      | .error error => .error error
      | .ok q => parseChars q t := by
  induction s generalizing p with
  | nil => rfl
  | cons ch s ih =>
    rw [List.cons_append, parseChars_cons, parseChars_cons]
    cases parseChar p ch with
    | error error => rfl
    | ok q => exact ih q

/-- Fields that a dot has ended are below the maximum. -/
theorem parseChar_fields {p q : FieldParser} {ch : Char} (h : parseChar p ch = .ok q)
    (hp : ∀ f ∈ p.fields, f < uint32Max) : ∀ f ∈ q.fields, f < uint32Max := by
  unfold parseChar at h
  split at h
  · split at h
    · cases h
    split at h
    · cases h
    split at h
    · cases h
    split at h
    · cases h
    · next hvalue =>
      cases h
      intro f hf
      rcases List.mem_append.mp hf with hf | hf
      · exact hp f hf
      · rw [List.mem_singleton.mp hf, UInt32.lt_iff_toNat_lt]
        have hlt := Nat.not_le.mp hvalue
        rwa [UInt32.toNat_ofNat_of_lt' (Nat.lt_trans hlt uint32Max.toNat_lt)]
  split at h
  · split at h
    · cases h
    · cases h
      exact hp
  · cases h

theorem parseChars_fields {p q : FieldParser} {s : Text} (h : parseChars p s = .ok q)
    (hp : ∀ f ∈ p.fields, f < uint32Max) : ∀ f ∈ q.fields, f < uint32Max := by
  induction s generalizing p with
  | nil =>
    cases h
    exact hp
  | cons ch s ih =>
    unfold parseChars at h
    split at h
    · cases h
    · next hq => exact ih h (parseChar_fields hq hp)

theorem ofFields_ok {fields : List UInt32} (h : ofFields fields = .ok v) : v.fields = fields := by
  unfold ofFields at h
  split at h
  · cases h
    rfl
  · cases h

theorem ofFields_fields (v : VersionNumber) : ofFields v.fields = .ok v :=
  dif_pos ⟨v.nonempty, v.length_le⟩

theorem fromString_printable {s : Text} (h : fromString s = .ok (.ok v)) : v.Printable := by
  unfold fromString at h
  split at h
  · cases h
  next p hp =>
  have hfields := parseChars_fields hp (by simp)
  unfold finishFields at h
  unfold Printable
  split at h
  · rw [ofFields_ok (Except.ok.inj h)]
    exact fun f hf => hfields f (List.dropLast_subset _ hf)
  split at h
  · cases h
  split at h
  · cases h
  split at h
  · cases h
  · rw [ofFields_ok (Except.ok.inj h), List.dropLast_concat]
    exact hfields

/-- The number of a segment of digits. -/
theorem read_segment {segment : Text} (hne : segment ≠ [])
    (hdigits : ∀ ch ∈ segment, ch.isDigit = true) :
    Numeral.read 10 (segmentBytes segment) = some ⟨false, Nat.ofDigitChars 10 segment 0, []⟩ :=
  Numeral.read_digitChars hne fun ch hch => Numeral.toNat_of_isDigit (hdigits ch hch)

theorem strtoul_segment {segment : Text} (hne : segment ≠ [])
    (hdigits : ∀ ch ∈ segment, ch.isDigit = true) :
    strtoul segment = min (Nat.ofDigitChars 10 segment 0) sizeMax := by
  unfold strtoul Numeral.strtoul
  rw [read_segment hne hdigits, Option.map_some, Option.getD_some]
  by_cases hfits : Nat.ofDigitChars 10 segment 0 < 2 ^ 64
  · rw [Numeral.toNat_toUInt64 (Nat.not_le.mpr hfits), if_neg Bool.false_ne_true]
    exact (Nat.min_eq_left (Nat.le_of_lt_succ hfits)).symm
  · have hlarge : 2 ^ 64 ≤ Nat.ofDigitChars 10 segment 0 := Nat.not_lt.mp hfits
    rw [Numeral.toUInt64, if_pos (by exact hlarge)]
    have hmax : sizeMax ≤ Nat.ofDigitChars 10 segment 0 := (Nat.sub_le _ 1).trans hlarge
    exact (Nat.min_eq_right hmax).symm

theorem stoul_segment {segment : Text} (hne : segment ≠ [])
    (hdigits : ∀ ch ∈ segment, ch.isDigit = true) :
    stoul segment =
      if sizeMax < Nat.ofDigitChars 10 segment 0 then .error .outOfRange
      else .ok (Nat.ofDigitChars 10 segment 0) := by
  unfold stoul Numeral.stoul
  rw [read_segment hne hdigits]
  by_cases hfits : Nat.ofDigitChars 10 segment 0 < 2 ^ 64
  · have hmax : ¬ sizeMax < Nat.ofDigitChars 10 segment 0 :=
      Nat.not_lt.mpr (Nat.le_of_lt_succ hfits)
    have hrange : ¬ (⟨false, Nat.ofDigitChars 10 segment 0, []⟩ : Numeral).OutOfRange :=
      Nat.not_le.mpr hfits
    dsimp only
    rw [if_neg hrange, if_neg hmax]
    dsimp only
    rw [Numeral.toNat_toUInt64 hrange, if_neg Bool.false_ne_true]
  · have hlarge : 2 ^ 64 ≤ Nat.ofDigitChars 10 segment 0 := Nat.not_lt.mp hfits
    have hmax : sizeMax < Nat.ofDigitChars 10 segment 0 := Nat.lt_of_lt_of_le (by decide) hlarge
    dsimp only
    rw [if_pos (by exact hlarge), if_pos hmax]

/-- Digits are collected. -/
theorem parseChars_digits {fields : List UInt32} {segment s : Text}
    (hs : ∀ ch ∈ s, ch.isDigit = true) (hlen : segment.length + s.length ≤ 30) :
    parseChars ⟨fields, segment⟩ s = .ok ⟨fields, segment ++ s⟩ := by
  induction s generalizing segment with
  | nil => rw [List.append_nil]; rfl
  | cons ch s ih =>
    obtain ⟨hch, hs⟩ := List.forall_mem_cons.mp hs
    rw [List.length_cons] at hlen
    have hdot : ch ≠ '.' := by
      rintro rfl
      exact absurd hch (by decide)
    unfold parseChars parseChar
    dsimp only
    rw [if_neg hdot, if_pos hch, if_neg (by omega)]
    dsimp only
    rw [ih hs (by rw [List.length_append, List.length_singleton]; omega), List.append_assoc]
    rfl

theorem toDigits_head {n : Nat} (h : 0 < n) : (Nat.toDigits 10 n).head? ≠ some '0' := by
  induction n using Nat.strongRecOn with
  | ind n ih =>
    rcases Nat.lt_or_ge n 10 with hlt | hge
    · rw [Nat.toDigits_of_lt_base hlt, List.head?_cons, ne_eq, Option.some_inj,
        Nat.digitChar_eq_zero]
      exact h.ne'
    · rw [Nat.toDigits_of_base_le (by decide) hge, List.head?_append_of_ne_nil]
      · exact ih (n / 10) (by omega) (by omega)
      · exact Nat.toDigits_ne_nil

theorem leadingZero_fieldText (f : UInt32) : leadingZero (fieldText f) = false := by
  unfold leadingZero fieldText
  rcases Nat.eq_zero_or_pos f.toNat with h | h
  · rw [h]
    rfl
  · rw [decide_eq_false_iff_not]
    exact fun hzero => toDigits_head h hzero.2

theorem fieldText_ne_nil (f : UInt32) : fieldText f ≠ [] := Nat.toDigits_ne_nil

theorem fieldText_length_le (f : UInt32) : (fieldText f).length ≤ 30 :=
  (Nat.length_toDigits_le_iff (by decide) (by decide)).mpr
    (Nat.lt_trans f.toNat_lt (by decide))

theorem ofDigitChars_fieldText (f : UInt32) : Nat.ofDigitChars 10 (fieldText f) 0 = f.toNat :=
  Nat.ofDigitChars_ten_toDigits

theorem fieldText_digits (f : UInt32) : ∀ ch ∈ fieldText f, ch.isDigit = true :=
  fun _ hch => Nat.isDigit_of_mem_toDigits (by decide) (by decide) hch

theorem parseChars_fieldText (fields : List UInt32) (f : UInt32) :
    parseChars ⟨fields, []⟩ (fieldText f) = .ok ⟨fields, fieldText f⟩ := by
  refine parseChars_digits (fieldText_digits f) ?_
  rw [List.length_nil, Nat.zero_add]
  exact fieldText_length_le f

theorem parseChar_dot (fields : List UInt32) (f : UInt32) (hlen : fields.length < kMaxFields) :
    parseChar ⟨fields, fieldText f⟩ '.' =
      if f < uint32Max then .ok ⟨fields ++ [f], []⟩
      else .error (.ralf .versionNumberInvalidCharacter "Field value too large") := by
  have hvalue : strtoul (fieldText f) = f.toNat := by
    rw [strtoul_segment (fieldText_ne_nil f) (fieldText_digits f), ofDigitChars_fieldText]
    exact Nat.min_eq_left (Nat.le_of_lt (Nat.lt_trans f.toNat_lt (by decide)))
  unfold parseChar
  dsimp only
  rw [if_pos rfl, if_neg (Nat.not_le.mpr hlen), if_neg (fieldText_ne_nil f),
    leadingZero_fieldText, if_neg Bool.false_ne_true, hvalue, UInt32.ofNat_toNat]
  split
  · next h => rw [if_neg (UInt32.not_lt.mpr (UInt32.le_iff_toNat_le.mpr h))]
  · next h => rw [if_pos (UInt32.lt_iff_toNat_lt.mpr (Nat.not_le.mp h))]

/-- The only version that overflows and that a text can give has one field. -/
theorem Printable.overflows_iff (h : v.Printable) :
    (∀ f ∈ v.fields, f = uint32Max) ↔ v.fields = [uint32Max] := by
  constructor
  · intro hmax
    have hlast := List.dropLast_append_getLast v.nonempty
    have hinit : v.fields.dropLast = [] := List.eq_nil_iff_forall_not_mem.mpr fun f hf =>
      UInt32.ne_of_lt (h f hf) (hmax f (List.dropLast_subset _ hf))
    rw [hinit, hmax _ (List.getLast_mem v.nonempty)] at hlast
    exact hlast.symm
  · intro hfields f hf
    rw [hfields] at hf
    exact List.mem_singleton.mp hf

/-- The fields that a text of fields adds, up to the last one. -/
theorem parseChars_fieldsText {fields : List UInt32} {f : UInt32} {fs : List UInt32}
    (hlen : fields.length + (f :: fs).length ≤ kMaxFields) :
    (∀ g ∈ (f :: fs).dropLast, g < uint32Max) ∧
        parseChars ⟨fields, []⟩ (fieldsText (f :: fs)) =
          .ok ⟨fields ++ (f :: fs).dropLast,
            fieldText ((f :: fs).getLast (List.cons_ne_nil f fs))⟩ ∨
      ¬ (∀ g ∈ (f :: fs).dropLast, g < uint32Max) ∧
        ∃ error, parseChars ⟨fields, []⟩ (fieldsText (f :: fs)) = .error error := by
  induction fs generalizing fields f with
  | nil =>
    left
    refine ⟨by simp, ?_⟩
    rw [List.dropLast_singleton, List.append_nil]
    exact parseChars_fieldText fields f
  | cons g fs ih =>
    rw [List.length_cons] at hlen
    have hstep : parseChars ⟨fields, []⟩ (fieldsText (f :: g :: fs)) =
        match parseChar ⟨fields, fieldText f⟩ '.' with
        | .error error => .error error
        | .ok p => parseChars p (fieldsText (g :: fs)) := by
      show parseChars ⟨fields, []⟩ (fieldText f ++ '.' :: fieldsText (g :: fs)) = _
      rw [parseChars_append, parseChars_fieldText]
      rfl
    rw [hstep, parseChar_dot fields f (by rw [List.length_cons] at hlen; omega),
      List.dropLast_cons_cons, List.forall_mem_cons, List.getLast_cons_cons]
    by_cases hf : f < uint32Max
    · rw [if_pos hf]
      have hrest := @ih (fields ++ [f]) g (by
        rw [List.length_append, List.length_singleton]
        omega)
      rw [List.append_assoc] at hrest
      exact hrest.imp (fun h => ⟨⟨hf, h.1⟩, h.2⟩) (fun h => ⟨fun h' => h.1 h'.2, h.2⟩)
    · rw [if_neg hf]
      exact .inr ⟨fun h => hf h.1, _, rfl⟩

theorem finishFields_fieldText (v : VersionNumber) {f : UInt32} {fields : List UInt32}
    (h : v.fields = fields ++ [f]) : finishFields ⟨fields, fieldText f⟩ = .ok (.ok v) := by
  have hlen : fields.length < kMaxFields := by
    have hle := v.length_le
    rw [h, List.length_append, List.length_singleton] at hle
    exact hle
  have hvalue : stoul (fieldText f) = .ok f.toNat := by
    rw [stoul_segment (fieldText_ne_nil f) (fieldText_digits f), ofDigitChars_fieldText]
    exact if_neg (Nat.not_lt.mpr (Nat.le_of_lt (Nat.lt_trans f.toNat_lt (by decide))))
  unfold finishFields
  dsimp only
  rw [if_neg (fieldText_ne_nil f), if_neg (Nat.not_le.mpr hlen), leadingZero_fieldText,
    if_neg Bool.false_ne_true, hvalue]
  dsimp only
  rw [UInt32.ofNat_toNat, ← h, ofFields_fields]

/-- A version that is printed and read again. -/
theorem fromString_toString (v : VersionNumber) :
    v.Printable ∧ fromString v.toString = .ok (.ok v) ∨
      ¬ v.Printable ∧ ∃ error, fromString v.toString = .ok (.error error) := by
  unfold Printable fromString toString
  obtain ⟨f, fs, hv⟩ := List.exists_cons_of_ne_nil v.nonempty
  have hlen : ([] : List UInt32).length + (f :: fs).length ≤ kMaxFields := by
    rw [← hv, List.length_nil, Nat.zero_add]
    exact v.length_le
  have hlast := List.dropLast_append_getLast (List.cons_ne_nil f fs)
  rw [hv]
  rcases parseChars_fieldsText hlen with ⟨hsmall, hparse⟩ | ⟨hsmall, error, hparse⟩
  · rw [hparse]
    exact .inl ⟨hsmall, finishFields_fieldText v (hv.trans hlast.symm)⟩
  · rw [hparse]
    exact .inr ⟨hsmall, error, rfl⟩

/-- A version that comes from a text is printed as a text of the same version. -/
theorem fromString_toString_of_fromString {s : Text} (h : fromString s = .ok (.ok v)) :
    fromString v.toString = .ok (.ok v) :=
  ((fromString_toString v).resolve_right fun hnot => hnot.1 (fromString_printable h)).2

/-- The characters of a version text. -/
def versionChar (ch : Char) : Bool := ch.isDigit || ch = '.'

theorem fieldsText_chars (fs : List UInt32) : ∀ ch ∈ fieldsText fs, versionChar ch = true := by
  have hfield : ∀ (f : UInt32), ∀ ch ∈ fieldText f, versionChar ch = true := by
    intro f ch hch
    rw [versionChar, Nat.isDigit_of_mem_toDigits (by decide) (by decide) hch, Bool.true_or]
  induction fs with
  | nil => simp [fieldsText]
  | cons f fs ih =>
    cases fs with
    | nil => exact hfield f
    | cons g fs =>
      intro ch hch
      rcases List.mem_append.mp hch with hch | hch
      · exact hfield f ch hch
      rcases List.mem_cons.mp hch with rfl | hch
      · rfl
      · exact ih ch hch

theorem toString_chars (v : VersionNumber) : ∀ ch ∈ v.toString, versionChar ch = true :=
  fieldsText_chars v.fields

theorem toString_ne_nil (v : VersionNumber) : v.toString ≠ [] := by
  obtain ⟨f, fs, hv⟩ := List.exists_cons_of_ne_nil v.nonempty
  unfold toString
  rw [hv]
  cases fs with
  | nil => exact fieldText_ne_nil f
  | cons g fs => exact List.append_ne_nil_of_left_ne_nil (fieldText_ne_nil f) _

end VersionNumber
