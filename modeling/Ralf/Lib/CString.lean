import Mathlib.Data.List.GetD
import Mathlib.Data.List.TakeWhile
import Ralf.Lib.Bytes

/-!
# C strings in byte buffers

A string in a buffer ends at the first NUL byte. `strncpy` stores a string in a buffer of which it
leaves the bytes after the first `n` as they are, so what the buffer holds afterwards can depend on
what it held before.
-/

namespace CString

/-- The string at the start of a buffer. -/
def text (buf : Bytes) : Bytes := buf.takeWhile (· ≠ 0)

theorem text_append_zero {s : Bytes} (h : 0 ∉ s) (rest : Bytes) : text (s ++ 0 :: rest) = s := by
  have hs : ∀ b ∈ s, (decide (b ≠ 0)) = true := fun b hb =>
    decide_eq_true fun heq => h (heq ▸ hb)
  rw [text, List.takeWhile_append_of_pos hs, List.takeWhile_cons_of_neg (by simp), List.append_nil]

theorem text_of_notMem {s : Bytes} (h : 0 ∉ s) : text s = s :=
  List.takeWhile_eq_self_iff.mpr fun _ hb => decide_eq_true fun heq => h (heq ▸ hb)

/-- A buffer holds a string exactly if its bytes come first and the next byte is NUL. -/
theorem text_eq_iff {buf s : Bytes} (h : 0 ∉ s) :
    text buf = s ↔ (∀ p < s.length, buf.getD p 0 = s.getD p 0) ∧ buf.getD s.length 0 = 0 := by
  induction buf generalizing s with
  | nil =>
    cases s with
    | nil => exact iff_of_true rfl ⟨nofun, rfl⟩
    | cons b s =>
      refine iff_of_false nofun fun hs => h ?_
      have hfirst : (0 : UInt8) = b := by simpa using hs.1 0 (by simp)
      simp [hfirst]
  | cons a buf ih =>
    rw [text, List.takeWhile_cons]
    split
    · next ha =>
      cases s with
      | nil => exact iff_of_false nofun fun hs => of_decide_eq_true ha (by simpa using hs.2)
      | cons b s =>
        rw [List.cons.injEq, show buf.takeWhile _ = text buf from rfl,
          ih fun hmem => h (List.mem_cons_of_mem _ hmem)]
        constructor
        · rintro ⟨rfl, hlt, hend⟩
          refine ⟨fun p hp => ?_, by simpa using hend⟩
          cases p with
          | zero => rfl
          | succ p => simpa using hlt p (by simpa using hp)
        · rintro ⟨hlt, hend⟩
          refine ⟨by simpa using hlt 0 (by simp), fun p hp => ?_, by simpa using hend⟩
          simpa using hlt (p + 1) (by simpa using hp)
    · next ha =>
      have ha : a = 0 := by simpa using ha
      cases s with
      | nil => exact iff_of_true rfl ⟨nofun, by simpa using ha⟩
      | cons b s =>
        refine iff_of_false nofun fun hs => h ?_
        have hfirst : a = b := by simpa using hs.1 0 (by simp)
        simp [← hfirst, ha]

/-! ## Copies -/

/-- The buffer after `strncpy`: the string, NUL bytes up to `n`, and what was there. -/
def strncpy (dst src : Bytes) (n : Nat) : Bytes :=
  text (src.take n) ++ List.replicate (n - (text (src.take n)).length) 0 ++ dst.drop n

/-- The number of bytes of the source that `strncpy` reads: it stops after a NUL byte. -/
def strncpyReads (src : Bytes) (n : Nat) : Nat := min n ((text (src.take n)).length + 1)

/-- What is copied of a string in a buffer. -/
theorem text_take {s : Bytes} (h : 0 ∉ s) (rest : Bytes) (n : Nat) :
    text ((s ++ 0 :: rest).take n) = s.take n := by
  rcases Nat.lt_or_ge s.length n with hlt | hge
  · rw [List.take_append, List.take_of_length_le (Nat.le_of_lt hlt),
      ← Nat.succ_pred_eq_of_pos (Nat.sub_pos_of_lt hlt), List.take_succ_cons, text_append_zero h]
  · rw [List.take_append_of_le_length hge]
    exact text_of_notMem fun hmem => h (List.mem_of_mem_take hmem)

theorem strncpyReads_le {s : Bytes} (h : 0 ∉ s) (rest : Bytes) (n : Nat) :
    strncpyReads (s ++ 0 :: rest) n ≤ s.length + 1 := by
  rw [strncpyReads, text_take h, List.length_take]
  omega

/-- What comes after the NUL byte of a string makes no difference. -/
theorem strncpy_congr {s : Bytes} (h : 0 ∉ s) (dst rest rest' : Bytes) (n : Nat) :
    strncpy dst (s ++ 0 :: rest) n = strncpy dst (s ++ 0 :: rest') n := by
  rw [strncpy, strncpy, text_take h, text_take h]

/-- A byte after a copy: a byte of the string, NUL after it, or the byte that was there. -/
theorem strncpy_getD {s : Bytes} (h : 0 ∉ s) (dst rest : Bytes) (n p : Nat) :
    (strncpy dst (s ++ 0 :: rest) n).getD p 0 = if p < n then s.getD p 0 else dst.getD p 0 := by
  have hlength : (s.take n ++ List.replicate (n - (s.take n).length) (0 : UInt8)).length = n := by
    rw [List.length_append, List.length_replicate, List.length_take]
    omega
  rw [strncpy, text_take h, List.getD_eq_getElem?_getD]
  split
  · next hp =>
    rw [List.getElem?_append_left (by rwa [hlength])]
    rcases Nat.lt_or_ge p (s.take n).length with hlt | hge
    · rw [List.getElem?_append_left hlt, List.getElem?_take_of_lt hp, List.getD_eq_getElem?_getD]
    · have hend : s.length ≤ p := by
        rw [List.length_take] at hge
        omega
      rw [List.getElem?_append_right hge, List.getD_eq_default _ _ hend, List.getElem?_replicate]
      split <;> rfl
  · next hp =>
    rw [List.getElem?_append_right (by rw [hlength]; exact Nat.le_of_not_lt hp), hlength,
      List.getElem?_drop, Nat.add_sub_cancel' (Nat.le_of_not_lt hp), List.getD_eq_getElem?_getD]

end CString
