import Mathlib.Data.List.GetD
import Ralf.Core.VersionNumber

/-!
# The order of version numbers

`compare` is the lexicographic order of the fields, padded with zeros to the largest
number of fields. It is a total preorder of all versions: versions are equal in it when
their padded fields are, however many fields each of them has. Within the versions of
one number of fields, `increment` gives the next one, unless all fields are at their
maximum.
-/

open Positional

namespace VersionNumber

variable {u v w : VersionNumber} {fs gs : List UInt32}

/-- The fields, padded with zeros. -/
def padded (v : VersionNumber) : List UInt32 := (List.range kMaxFields).map v.fieldValue

theorem padded_length (v : VersionNumber) : v.padded.length = kMaxFields := by
  rw [padded, List.length_map, List.length_range]

theorem padded_eq (v : VersionNumber) :
    v.padded = v.fields ++ List.replicate (kMaxFields - v.fieldCount) 0 := by
  have hlen : v.fieldCount ≤ kMaxFields := v.length_le
  refine List.ext_getElem ?_ fun i hi _ => ?_
  · rw [padded_length, List.length_append, List.length_replicate]
    exact (Nat.add_sub_of_le hlen).symm
  · simp only [padded, List.getElem_map, List.getElem_range, fieldValue]
    rcases Nat.lt_or_ge i v.fields.length with hlt | hge
    · rw [List.getElem_append_left hlt, List.getD_eq_getElem _ _ hlt]
    · rw [List.getElem_append_right hge, List.getElem_replicate, List.getD_eq_default _ _ hge]

/-! ## The padded fields as digits -/

theorem digits_lt_iff : digits fs < digits gs ↔ fs < gs := by
  induction fs generalizing gs with
  | nil => cases gs <;> simp [digits]
  | cons f fs ih =>
    cases gs with
    | nil => simp [digits]
    | cons g gs =>
      rw [digits_cons, digits_cons, List.cons_lt_cons_iff, List.cons_lt_cons_iff, ih,
        UInt32.toNat_inj, UInt32.lt_iff_toNat_lt]

theorem digits_injective (h : digits fs = digits gs) : fs = gs :=
  List.map_injective_iff.mpr (fun _ _ => UInt32.toNat_inj.mp) h

theorem rank_eq_padded (v : VersionNumber) :
    v.rank = value (2 ^ 32) kMaxFields (digits v.padded) := by
  have hdigits : digits v.padded =
      digits v.fields ++ List.replicate (kMaxFields - v.fieldCount) 0 := by
    simp [digits, padded_eq]
  rw [hdigits, value_append_zeros]
  rfl

theorem rank_lt_iff : v.rank < w.rank ↔ v.padded < w.padded := by
  rw [rank_eq_padded, rank_eq_padded, value_lt_iff (digits_bounded _) (digits_bounded _)
    (by simp [padded_length]) (by simp [padded_length]), digits_lt_iff]

theorem rank_eq_iff : v.rank = w.rank ↔ v.padded = w.padded := by
  rw [rank_eq_padded, rank_eq_padded, value_eq_iff (digits_bounded _) (digits_bounded _)
    (by simp [padded_length]) (by simp [padded_length])]
  exact ⟨digits_injective, fun heq => by rw [heq]⟩

/-! ## The next version -/

/-- All fields of a version are at their maximum. -/
def AtMaximum (v : VersionNumber) : Prop := ∀ f ∈ v.fields, f = uint32Max

instance (v : VersionNumber) : Decidable v.AtMaximum :=
  inferInstanceAs (Decidable (∀ f ∈ v.fields, f = uint32Max))

theorem fieldCount_increment (v : VersionNumber) : v.increment.fieldCount = v.fieldCount :=
  incrementFields_length v.fields

theorem rank_increment_of_not_atMaximum (h : ¬ v.AtMaximum) :
    v.increment.rank = v.rank + v.step := by
  rw [rank_increment, if_neg fun hcarry => h ((incrementFields_carry _).mp hcarry)]

theorem step_dvd_rank (v : VersionNumber) : v.step ∣ v.rank := by
  have hdvd := @step_dvd_value (2 ^ 32) kMaxFields (digits v.fields)
    (by simpa using v.length_le)
  rwa [digits_length] at hdvd

/-- Versions of one number of fields are a step apart. -/
theorem rank_add_step_le (hcount : w.fieldCount = v.fieldCount) (hlt : v.rank < w.rank) :
    v.rank + v.step ≤ w.rank := by
  have hstep : w.step = v.step := by rw [step, step, hcount]
  obtain ⟨m, hm⟩ := v.step_dvd_rank
  obtain ⟨n, hn⟩ := w.step_dvd_rank
  rw [hstep] at hn
  rw [hm, hn] at hlt ⊢
  have hmn : m < n := Nat.lt_of_mul_lt_mul_left hlt
  calc v.step * m + v.step = v.step * (m + 1) := (Nat.mul_succ _ _).symm
    _ ≤ v.step * n := Nat.mul_le_mul_left _ hmn

/-! ## The laws of the order -/

/-- `compare` is the lexicographic order of the padded fields. -/
def ComparesPadded (v w : VersionNumber) : Prop :=
  (compare v w = -1 ↔ List.Lex (· < ·) v.padded w.padded) ∧
    (compare v w = 0 ↔ v.padded = w.padded) ∧
    (compare v w = 1 ↔ List.Lex (· < ·) w.padded v.padded)

/-- `next` is the least version above `v` among those of as many fields. -/
def IsNext (v next : VersionNumber) : Prop :=
  v < next ∧ next.fieldCount = v.fieldCount ∧
    ∀ w : VersionNumber, w.fieldCount = v.fieldCount → v < w → next ≤ w

theorem comparesPadded (v w : VersionNumber) : ComparesPadded v w := by
  unfold ComparesPadded
  rw [compare_eq_order, List.lex_lt, List.lex_lt, ← rank_lt_iff, ← rank_lt_iff, ← rank_eq_iff]
  rcases Nat.lt_trichotomy v.rank w.rank with h | h | h
  · rw [order_of_lt h]
    simp [h, Nat.ne_of_lt h, Nat.lt_asymm h]
  · rw [order_eq_zero_iff.mpr h]
    simp [h]
  · rw [order_of_gt h]
    simp [h, Nat.ne_of_gt h, Nat.lt_asymm h]

theorem increment_isNext (h : ¬ v.AtMaximum) : IsNext v v.increment := by
  refine ⟨?_, fieldCount_increment v, fun w hcount hlt => ?_⟩
  · rw [lt_iff, rank_increment_of_not_atMaximum h]
    exact Nat.lt_add_of_pos_right v.step_pos
  · rw [le_iff, rank_increment_of_not_atMaximum h]
    exact rank_add_step_le hcount (lt_iff.mp hlt)

/-- `compare` is the lexicographic order of the padded fields and so a total preorder, and
`++` gives the next version of as many fields. -/
theorem compare_total_preorder :
    (∀ v w, ComparesPadded v w) ∧
      (∀ v : VersionNumber, v ≤ v) ∧
      (∀ u v w : VersionNumber, u ≤ v → v ≤ w → u ≤ w) ∧
      (∀ v w : VersionNumber, v ≤ w ∨ w ≤ v) ∧
      (∀ v w : VersionNumber, v ≤ w ∧ w ≤ v ↔ v.padded = w.padded) ∧
      ∀ v : VersionNumber, ¬ v.AtMaximum → IsNext v v.increment := by
  refine ⟨comparesPadded, fun v => ?_, fun u v w huv hvw => ?_, fun v w => ?_, fun v w => ?_,
    fun v => increment_isNext⟩
  · exact le_iff.mpr (Nat.le_refl _)
  · exact le_iff.mpr (Nat.le_trans (le_iff.mp huv) (le_iff.mp hvw))
  · rw [le_iff, le_iff]
    exact Nat.le_total _ _
  · rw [le_iff, le_iff, ← rank_eq_iff]
    exact Nat.le_antisymm_iff.symm

/-- A carry through all fields but the first. -/
example : (⟨[1, uint32Max, uint32Max], List.cons_ne_nil _ _, by decide⟩ :
    VersionNumber).increment.fields = [2, 0, 0] := by
  decide +kernel

end VersionNumber
