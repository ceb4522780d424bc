import Mathlib.Algebra.Order.Group.Nat
import Mathlib.Data.List.Lex
import Mathlib.Tactic.Ring
import Mathlib.Tactic.Linarith

/-!
# Digit lists

A list of digits in some base, the most significant digit first, read as a number of
a fixed width: missing digits at the end are zeros. Lists of different lengths are
compared this way when a shorter list is to equal the longer one with zeros appended.

* `value`, the number of a list;
* `value_window_iff`, the numbers that start with given digits are an interval;
* `value_lt_iff`, numbers of full width are ordered as their digits are, lexicographically.
-/

namespace Positional

variable {base n d e : Nat} {ds es : List Nat}

/-- The number of a digit list at a width. -/
def value (base : Nat) : Nat → List Nat → Nat
  | 0, _ => 0
  | _ + 1, [] => 0
  | n + 1, d :: ds => d * base ^ n + value base n ds

/-- All digits of a list are below the base. -/
def Digits (base : Nat) (ds : List Nat) : Prop := ∀ d ∈ ds, d < base

theorem Digits.head (h : Digits base (d :: ds)) : d < base := h d List.mem_cons_self

theorem Digits.tail (h : Digits base (d :: ds)) : Digits base ds :=
  fun e he => h e (List.mem_cons_of_mem d he)

@[simp] theorem value_nil : value base n [] = 0 := by cases n <;> rfl

theorem value_cons : value base (n + 1) (d :: ds) = d * base ^ n + value base n ds := rfl

theorem value_lt (hbase : 0 < base) (h : Digits base ds) : value base n ds < base ^ n := by
  induction n generalizing ds with
  | zero => exact Nat.one_pos
  | succ n ih =>
    cases ds with
    | nil => exact Nat.pow_pos hbase
    | cons d ds =>
      have htail := ih h.tail
      have hhead : (d + 1) * base ^ n ≤ base * base ^ n := Nat.mul_le_mul_right _ h.head
      rw [value_cons, Nat.pow_succ, Nat.mul_comm (base ^ n)]
      rw [Nat.succ_mul] at hhead
      exact Nat.lt_of_lt_of_le (Nat.add_lt_add_left htail _) hhead

theorem value_eq_zero_iff (hbase : 0 < base) (hlen : ds.length ≤ n) :
    value base n ds = 0 ↔ ∀ d ∈ ds, d = 0 := by
  induction ds generalizing n with
  | nil => simp
  | cons d ds ih =>
    cases n with
    | zero => exact absurd hlen (Nat.not_succ_le_zero _)
    | succ n =>
      have hpow : base ^ n ≠ 0 := (Nat.pow_pos hbase).ne'
      rw [value_cons, Nat.add_eq_zero_iff, ih (Nat.le_of_succ_le_succ hlen), List.forall_mem_cons,
        Nat.mul_eq_zero, or_iff_left hpow]

/-- The first digit that differs decides. -/
theorem value_cons_lt_of_lt (hbase : 0 < base) (hds : Digits base ds) (h : d < e) :
    value base (n + 1) (d :: ds) < value base (n + 1) (e :: es) := by
  have hlt := @value_lt base n ds hbase hds
  have hle : (d + 1) * base ^ n ≤ e * base ^ n := Nat.mul_le_mul_right _ h
  rw [value_cons, value_cons]
  rw [Nat.succ_mul] at hle
  omega

theorem value_add_step_le (hds : Digits base ds) (hlen : ds.length ≤ n) :
    value base n ds + base ^ (n - ds.length) ≤ base ^ n := by
  induction ds generalizing n with
  | nil => simp
  | cons d ds ih =>
    cases n with
    | zero => exact absurd hlen (Nat.not_succ_le_zero _)
    | succ n =>
      have htail := ih hds.tail (Nat.le_of_succ_le_succ hlen)
      have hhead : (d + 1) * base ^ n ≤ base * base ^ n := Nat.mul_le_mul_right _ hds.head
      rw [value_cons, List.length_cons, Nat.add_sub_add_right, Nat.pow_succ,
        Nat.mul_comm (base ^ n)]
      rw [Nat.succ_mul] at hhead
      omega

/-- The digit lists that start with `ds`, as numbers, are those from the number of `ds` on
that are less than one step of its last digit away. -/
theorem value_window_iff (hbase : 0 < base) (hds : Digits base ds) (hes : Digits base es)
    (hlen : ds.length ≤ n) :
    (∀ i < ds.length, es.getD i 0 = ds.getD i 0) ↔
      value base n ds ≤ value base n es ∧
        value base n es < value base n ds + base ^ (n - ds.length) := by
  induction ds generalizing es n with
  | nil => simpa using value_lt hbase hes
  | cons d ds ih =>
    cases n with
    | zero => exact absurd hlen (Nat.not_succ_le_zero _)
    | succ n =>
      have hlen' : ds.length ≤ n := Nat.le_of_succ_le_succ hlen
      -- a missing digit of the other list is a zero
      obtain ⟨e, es', hes', hvalue, hget⟩ : ∃ e es', Digits base (e :: es') ∧
          value base (n + 1) es = value base (n + 1) (e :: es') ∧
          ∀ i, es.getD i 0 = (e :: es').getD i 0 := by
        cases es with
        | cons e es => exact ⟨e, es, hes, rfl, fun _ => rfl⟩
        | nil =>
          refine ⟨0, [], fun x hx => ?_, by simp [value_cons], fun i => by cases i <;> rfl⟩
          rw [List.mem_singleton.mp hx]
          exact hbase
      have hstep : n + 1 - (d :: ds).length = n - ds.length := by
        rw [List.length_cons, Nat.add_sub_add_right]
      have hsplit : (∀ i < (d :: ds).length, es.getD i 0 = (d :: ds).getD i 0) ↔
          e = d ∧ ∀ i < ds.length, es'.getD i 0 = ds.getD i 0 := by
        constructor
        · intro h
          refine ⟨(hget 0).symm.trans (h 0 (Nat.succ_pos _)), fun i hi => ?_⟩
          exact (hget (i + 1)).symm.trans (h (i + 1) (Nat.succ_lt_succ hi))
        · rintro ⟨rfl, h⟩ i hi
          rw [hget]
          cases i with
          | zero => rfl
          | succ i => exact h i (Nat.lt_of_succ_lt_succ hi)
      rw [hsplit, hvalue, hstep, ih hds.tail hes'.tail hlen']
      have hpow := value_add_step_le hds.tail hlen'
      constructor
      · rintro ⟨rfl, hle, hlt⟩
        rw [value_cons, value_cons]
        omega
      · rintro ⟨hle, hlt⟩
        have heq : e = d := by
          rcases Nat.lt_trichotomy e d with h | h | h
          · exact absurd hle (Nat.not_le.mpr (value_cons_lt_of_lt hbase hes'.tail h))
          · exact h
          · have hge : (d + 1) * base ^ n ≤ e * base ^ n := Nat.mul_le_mul_right _ h
            rw [value_cons, value_cons] at hlt
            rw [Nat.succ_mul] at hge
            omega
        subst heq
        rw [value_cons, value_cons] at hle hlt
        omega

/-! ## Lists of full width -/

/-- Zeros at the end do not count. -/
theorem value_append_zeros (ds : List Nat) (k : Nat) :
    value base n (ds ++ List.replicate k 0) = value base n ds := by
  induction ds generalizing n with
  | nil =>
    induction k generalizing n with
    | zero => rfl
    | succ k ih =>
      cases n with
      | zero => rfl
      | succ n =>
        rw [List.nil_append, List.replicate_succ, value_cons, Nat.zero_mul, Nat.zero_add]
        simpa using @ih n
  | cons d ds ih =>
    cases n with
    | zero => rfl
    | succ n => rw [List.cons_append, value_cons, value_cons, ih]

/-- One step of the last digit divides the number. -/
theorem step_dvd_value (hlen : ds.length ≤ n) : base ^ (n - ds.length) ∣ value base n ds := by
  induction ds generalizing n with
  | nil => simp
  | cons d ds ih =>
    cases n with
    | zero => exact absurd hlen (Nat.not_succ_le_zero _)
    | succ n =>
      rw [List.length_cons, Nat.add_sub_add_right, value_cons]
      have hpow : base ^ (n - ds.length) ∣ base ^ n := Nat.pow_dvd_pow base (Nat.sub_le _ _)
      exact Nat.dvd_add (Nat.dvd_mul_left_of_dvd hpow d) (ih (Nat.le_of_succ_le_succ hlen))

/-- Numbers of full width are ordered as their digits are, lexicographically. -/
theorem value_lt_of_lex (hds : Digits base ds) (hdlen : ds.length = n) (helen : es.length = n)
    (hlex : ds < es) : value base n ds < value base n es := by
  induction ds generalizing es n with
  | nil =>
    subst hdlen
    rw [List.eq_nil_of_length_eq_zero helen] at hlex
    exact absurd hlex (List.lt_irrefl _)
  | cons d ds ih =>
    subst hdlen
    cases es with
    | nil => exact absurd hlex (List.not_lt_nil _)
    | cons e es =>
      have hbase : 0 < base := Nat.zero_lt_of_lt hds.head
      rcases List.cons_lt_cons_iff.mp hlex with hhead | ⟨rfl, htail⟩
      · exact value_cons_lt_of_lt hbase hds.tail hhead
      · rw [List.length_cons, value_cons, value_cons]
        exact Nat.add_lt_add_left (ih hds.tail rfl (Nat.succ_injective helen) htail) _

theorem value_lt_iff (hds : Digits base ds) (hes : Digits base es) (hdlen : ds.length = n)
    (helen : es.length = n) : value base n ds < value base n es ↔ ds < es := by
  refine ⟨fun hlt => ?_, value_lt_of_lex hds hdlen helen⟩
  rcases lt_trichotomy ds es with hlex | rfl | hlex
  · exact hlex
  · exact absurd hlt (Nat.lt_irrefl _)
  · exact absurd hlt (Nat.lt_asymm (value_lt_of_lex hes helen hdlen hlex))

theorem value_eq_iff (hds : Digits base ds) (hes : Digits base es) (hdlen : ds.length = n)
    (helen : es.length = n) : value base n ds = value base n es ↔ ds = es := by
  refine ⟨fun heq => ?_, fun heq => by rw [heq]⟩
  rcases lt_trichotomy ds es with hlex | rfl | hlex
  · exact absurd heq (Nat.ne_of_lt (value_lt_of_lex hds hdlen helen hlex))
  · rfl
  · exact absurd heq (Nat.ne_of_gt (value_lt_of_lex hes helen hdlen hlex))

end Positional
