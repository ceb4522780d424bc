import Mathlib.Tactic.SplitIfs
import Ralf.Lib.Bytes

/-!
# Tilings and binary search

* `Tiles a b l`: the intervals of `l`, given by a start and a size, follow each
  other without gap or overlap from `a` to `b`, and none is empty.
* `cut b points`: the intervals between consecutive points, their sizes taken in
  unsigned 64-bit arithmetic. They tile exactly when the points increase
  (`tiles_cut_iff`).
* `lowerBound p l`: the binary search for the first element that does not satisfy
  `p`. It is right on every list that `p` splits in two (`lowerBound_eq`).
-/

namespace Intervals

/-! ## Tilings -/

/-- The intervals tile the range from `a` to `b`. -/
def Tiles (a b : Nat) : List (Nat × Nat) → Prop
  | [] => a = b
  | (start, size) :: rest => start = a ∧ 0 < size ∧ Tiles (a + size) b rest

theorem Tiles.le {a b : Nat} {l : List (Nat × Nat)} (h : Tiles a b l) : a ≤ b := by
  induction l generalizing a with
  | nil => exact Nat.le_of_eq h
  | cons i rest ih =>
    have := ih h.2.2
    omega

/-- An interval of a tiling lies in the range. -/
theorem Tiles.mem_le {a b : Nat} {l : List (Nat × Nat)} (h : Tiles a b l) {i : Nat × Nat}
    (hi : i ∈ l) : a ≤ i.1 ∧ 0 < i.2 ∧ i.1 + i.2 ≤ b := by
  induction l generalizing a with
  | nil => exact absurd hi List.not_mem_nil
  | cons j rest ih =>
    obtain ⟨rfl, hpos, hrest⟩ := h
    rcases List.mem_cons.mp hi with rfl | hi
    · exact ⟨Nat.le_refl _, hpos, hrest.le⟩
    · have := ih hrest hi
      omega

/-- Splitting a tiling at a point: the intervals that end at or before the point,
then the one that contains it. -/
theorem Tiles.split {a b x : Nat} {l : List (Nat × Nat)} (h : Tiles a b l) (hax : a ≤ x)
    (hxb : x < b) : ∃ before i after, l = before ++ i :: after ∧
      (∀ j ∈ before, j.1 + j.2 ≤ x) ∧ i.1 ≤ x ∧ x < i.1 + i.2 ∧ ∀ j ∈ after, x < j.1 + j.2 := by
  induction l generalizing a with
  | nil =>
    have : a = b := h
    omega
  | cons i rest ih =>
    obtain ⟨rfl, hpos, hrest⟩ := h
    by_cases hx : x < i.1 + i.2
    · refine ⟨[], i, rest, rfl, fun _ hj => absurd hj List.not_mem_nil, hax, hx, fun j hj => ?_⟩
      have := hrest.mem_le hj
      omega
    · obtain ⟨before, j, after, rfl, hbefore, hj⟩ := ih hrest (by omega)
      refine ⟨i :: before, j, after, rfl, ?_, hj⟩
      exact List.forall_mem_cons.mpr ⟨by omega, hbefore⟩

/-- The intervals before one of a tiling end where it starts or earlier, and those behind it start
where it ends or later. -/
theorem Tiles.apart {a b : Nat} {before after : List (Nat × Nat)} {i : Nat × Nat}
    (h : Tiles a b (before ++ i :: after)) :
    (∀ j ∈ before, j.1 + j.2 ≤ i.1) ∧ Tiles (i.1 + i.2) b after := by
  induction before generalizing a with
  | nil =>
    obtain ⟨rfl, -, hafter⟩ := h
    exact ⟨fun _ hj => absurd hj List.not_mem_nil, hafter⟩
  | cons first before ih =>
    obtain ⟨rfl, -, hrest⟩ := h
    obtain ⟨hbefore, hafter⟩ := ih hrest
    refine ⟨List.forall_mem_cons.mpr ⟨?_, hbefore⟩, hafter⟩
    exact (hrest.mem_le (List.mem_append_right _ List.mem_cons_self)).1

/-! ## Binary search -/

variable {α : Type*}

/-- The search among the `len` elements from `first` on: the lower half is dropped
when its end satisfies `p`. -/
def lowerBoundFrom (p : α → Bool) (l : List α) (first len : Nat) : Nat :=
  if 0 < len then
    let half := len / 2
    match l[first + half]? with
    | some x =>
      if p x then lowerBoundFrom p l (first + half + 1) (len - half - 1)
      else lowerBoundFrom p l first half
    | none => first
  else first
  termination_by len

/-- The position of the first element that does not satisfy `p`, or the length. -/
def lowerBound (p : α → Bool) (l : List α) : Nat := lowerBoundFrom p l 0 l.length

theorem lowerBoundFrom_eq {p : α → Bool} {l : List α} {k : Nat}
    (hbelow : ∀ i x, l[i]? = some x → i < k → p x = true)
    (habove : ∀ i x, l[i]? = some x → k ≤ i → p x = false) {first len : Nat} (hfirst : first ≤ k)
    (hk : k ≤ first + len) (hlen : first + len ≤ l.length) : lowerBoundFrom p l first len = k := by
  induction len using Nat.strong_induction_on generalizing first with
  | _ len ih =>
    rw [lowerBoundFrom]
    split_ifs with hpos
    · have hget := List.getElem?_eq_getElem (l := l) (i := first + len / 2) (by omega)
      simp only [hget]
      by_cases hlt : first + len / 2 < k
      · rw [if_pos (hbelow _ _ hget hlt)]
        exact ih _ (by omega) (by omega) (by omega) (by omega)
      · rw [habove _ _ hget (Nat.le_of_not_lt hlt), if_neg (by simp)]
        exact ih _ (by omega) (by omega) (by omega) (by omega)
    · omega

/-- The search is right on a list that `p` splits in two. -/
theorem lowerBound_eq {p : α → Bool} {before after : List α} (hbefore : ∀ x ∈ before, p x = true)
    (hafter : ∀ x ∈ after, p x = false) : lowerBound p (before ++ after) = before.length := by
  refine lowerBoundFrom_eq ?_ ?_ (Nat.zero_le _) (by simp) (by simp)
  · intro i x hx hi
    rw [List.getElem?_append_left hi] at hx
    exact hbefore x (List.mem_of_getElem? hx)
  · intro i x hx hi
    rw [List.getElem?_append_right hi] at hx
    exact hafter x (List.mem_of_getElem? hx)

/-! ## Intervals cut at points -/

/-- The intervals between consecutive points, the last one ending at `b`. -/
def cut (b : Nat) : List Nat → List (Nat × Nat)
  | [] => []
  | [x] => [(x, wrapSub64 b x)]
  | x :: y :: rest => (x, wrapSub64 y x) :: cut b (y :: rest)

theorem cut_length (b : Nat) (points : List Nat) : (cut b points).length = points.length := by
  induction points using cut.induct with
  | case1 => rfl
  | case2 x => rfl
  | case3 x y rest ih => simp [cut, ih]

/-- The intervals start at the points. -/
theorem cut_map_fst (b : Nat) (points : List Nat) : (cut b points).map Prod.fst = points := by
  induction points using cut.induct with
  | case1 => rfl
  | case2 x => rfl
  | case3 x y rest ih => rw [cut, List.map_cons, ih]

/-- One more point ends the interval of the last one. -/
theorem cut_concat (b : Nat) (points : List Nat) (x : Nat) :
    cut b (points ++ [x]) = cut x points ++ [(x, wrapSub64 b x)] := by
  induction points using cut.induct with
  | case1 => rfl
  | case2 y => rfl
  | case3 y z rest ih =>
    show (y, wrapSub64 z y) :: cut b (z :: rest ++ [x]) = _
    rw [ih]
    rfl

/-- An interval fits before the next point exactly when the next point is later. -/
theorem add_wrapSub64_eq_iff {x y : Nat} (hx : x < 2 ^ 64) (hy : y < 2 ^ 64) :
    0 < wrapSub64 y x ∧ x + wrapSub64 y x = y ↔ x < y := by
  rcases Nat.lt_or_ge y x with hlt | hle
  · have := add_wrapSub64_of_lt hlt (Nat.le_of_lt hx)
    omega
  · rw [wrapSub64_of_le hle hy]
    omega

/-- The intervals cut at a list of points tile exactly when the points increase
from the start of the range to a point before its end. -/
theorem tiles_cut_iff {a b : Nat} {points : List Nat} (hne : points ≠ []) (hb : b < 2 ^ 64)
    (hpoints : ∀ x ∈ points, x < b) :
    Tiles a b (cut b points) ↔ points.head? = some a ∧ points.Pairwise (· < ·) := by
  induction points generalizing a with
  | nil => exact absurd rfl hne
  | cons x rest ih =>
    have hx := hpoints x List.mem_cons_self
    cases rest with
    | nil =>
      have hiff := @add_wrapSub64_eq_iff x b (by omega) hb
      simp only [cut, Tiles, List.head?_cons, Option.some.injEq, List.pairwise_singleton, and_true]
      exact ⟨fun h => h.1, fun h => ⟨h, (hiff.mpr hx).1, h ▸ (hiff.mpr hx).2⟩⟩
    | cons y rest =>
      have hy := hpoints y (List.mem_cons_of_mem _ List.mem_cons_self)
      have hiff := @add_wrapSub64_eq_iff x y (by omega) (by omega)
      rw [cut, Tiles, ih (List.cons_ne_nil _ _) fun z hz => hpoints z (List.mem_cons_of_mem _ hz)]
      simp only [List.head?_cons, Option.some.injEq, List.pairwise_cons, List.forall_mem_cons]
      constructor
      · rintro ⟨rfl, hpos, hnext, hyrest, hrest⟩
        have hxy := hiff.mp ⟨hpos, hnext.symm⟩
        exact ⟨rfl, ⟨hxy, fun z hz => Nat.lt_trans hxy (hyrest z hz)⟩, hyrest, hrest⟩
      · rintro ⟨rfl, ⟨hxy, -⟩, hyrest, hrest⟩
        have ⟨hpos, hnext⟩ := hiff.mpr hxy
        exact ⟨rfl, hpos, hnext.symm, hyrest, hrest⟩

end Intervals
