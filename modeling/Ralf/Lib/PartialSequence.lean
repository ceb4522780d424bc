import Mathlib.Data.List.Basic

/-!
# Ranges of a partial sequence

A partial sequence has an element at some positions and none at the others. `readRange f start count`
is the range of `count` elements from `start` on, if all of them are there. A range is put
together from the ranges that it is made of (`readRange_add`), so that whatever gives the ranges of
one sequence gives the same elements however they are asked for.
-/

namespace PartialSequence

variable {α : Type*} {f g : Nat → Option α}

/-- The elements at the positions from `start` on, if all of them are there. -/
def readRange (f : Nat → Option α) : Nat → Nat → Option (List α)
  | _, 0 => some []
  | start, count + 1 => (f start).bind fun x => (readRange f (start + 1) count).map (x :: ·)

@[simp] theorem readRange_zero (f : Nat → Option α) (start : Nat) : readRange f start 0 = some [] := rfl

theorem readRange_succ (f : Nat → Option α) (start count : Nat) :
    readRange f start (count + 1) =
      (f start).bind fun x => (readRange f (start + 1) count).map (x :: ·) := rfl

/-- A range that is made of two. -/
theorem readRange_add (f : Nat → Option α) (start a b : Nat) :
    readRange f start (a + b) =
      (readRange f start a).bind fun xs => (readRange f (start + a) b).map (xs ++ ·) := by
  induction a generalizing start with
  | zero => simp
  | succ a ih =>
    rw [Nat.add_right_comm, readRange_succ, ih, readRange_succ]
    cases f start with
    | none => rfl
    | some x =>
      have hstart : start + 1 + a = start + (a + 1) := by rw [Nat.add_assoc, Nat.add_comm 1 a]
      rw [hstart]
      cases readRange f (start + 1) a with
      | none => rfl
      | some xs =>
        cases readRange f (start + (a + 1)) b with
        | none => rfl
        | some ys => rfl

theorem length_of_readRange {start count : Nat} {xs : List α} (h : readRange f start count = some xs) :
    xs.length = count := by
  induction count generalizing start xs with
  | zero =>
    cases h
    rfl
  | succ count ih =>
    rw [readRange_succ] at h
    obtain ⟨x, -, hrest⟩ := Option.bind_eq_some_iff.mp h
    obtain ⟨rest, htail, rfl⟩ := Option.map_eq_some_iff.mp hrest
    rw [List.length_cons, ih htail]

/-- The beginning of a range. -/
theorem readRange_take {start a b : Nat} {xs : List α} (h : readRange f start (a + b) = some xs) :
    readRange f start a = some (xs.take a) := by
  rw [readRange_add] at h
  obtain ⟨first, hfirst, hrest⟩ := Option.bind_eq_some_iff.mp h
  obtain ⟨rest, -, rfl⟩ := Option.map_eq_some_iff.mp hrest
  rw [hfirst, List.take_left' (length_of_readRange hfirst)]

/-- A range only depends on the positions in it. -/
theorem readRange_congr {start start' count : Nat}
    (h : ∀ i < count, f (start + i) = g (start' + i)) :
    readRange f start count = readRange g start' count := by
  induction count generalizing start start' with
  | zero => rfl
  | succ count ih =>
    have hrest : readRange f (start + 1) count = readRange g (start' + 1) count := by
      refine ih fun i hi => ?_
      rw [Nat.add_right_comm, Nat.add_right_comm start']
      exact h (i + 1) (Nat.succ_lt_succ hi)
    rw [readRange_succ, readRange_succ, hrest, show f start = g start' from h 0 (Nat.succ_pos _)]

/-- A range with a gap. -/
theorem readRange_eq_none {start count i : Nat} (hi : i < count) (hgap : f (start + i) = none) :
    readRange f start count = none := by
  induction count generalizing start i with
  | zero => exact absurd hi (Nat.not_lt_zero i)
  | succ count ih =>
    rw [readRange_succ]
    cases i with
    | zero =>
      rw [show f start = none from hgap]
      rfl
    | succ i =>
      have hrest : readRange f (start + 1) count = none := by
        refine ih (Nat.lt_of_succ_lt_succ hi) ?_
        rwa [Nat.add_assoc, Nat.add_comm 1 i]
      rw [hrest]
      cases f start with
      | none => rfl
      | some x => rfl

/-- The ranges of a list. -/
theorem readRange_getElem {xs : List α} {start count : Nat} (h : start + count ≤ xs.length) :
    readRange (fun i => xs[i]?) start count = some ((xs.drop start).take count) := by
  induction count generalizing start with
  | zero => simp
  | succ count ih =>
    have hstart : start < xs.length := by omega
    rw [readRange_succ, ih (by omega), List.drop_eq_getElem_cons hstart, List.take_succ_cons,
      List.getElem?_eq_getElem hstart]
    rfl

/-- A range without a gap. -/
theorem readRange_map {x : Nat → α} {start count : Nat}
    (h : ∀ i < count, f (start + i) = some (x (start + i))) :
    readRange f start count = some ((List.range count).map fun i => x (start + i)) := by
  induction count generalizing start with
  | zero => rfl
  | succ count ih =>
    have hrest := @ih (start + 1) fun i hi => by
      have hnext := h (i + 1) (Nat.succ_lt_succ hi)
      rwa [Nat.add_assoc, Nat.add_comm 1 i]
    rw [readRange_succ, hrest, show f start = some (x start) from h 0 (Nat.succ_pos _),
      List.range_succ_eq_map, List.map_cons, List.map_map]
    refine congrArg (fun rest => some (x start :: rest)) (List.map_congr_left fun i _ => ?_)
    rw [Function.comp_apply, Nat.succ_eq_add_one, Nat.add_assoc, Nat.add_comm 1 i]

end PartialSequence
