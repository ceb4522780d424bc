import Mathlib.Data.List.Pairwise
import Mathlib.Order.Lattice

/-!
# Maps in the order of their keys

A `KeyedMap κ α` is a list of bindings in the order of their keys, each key once. `emplace` adds a
binding and keeps one that is there, as an ordered container does.
-/

structure KeyedMap (κ α : Type*) [LinearOrder κ] where
  bindings : List (κ × α)
  ordered : bindings.Pairwise (·.1 < ·.1)

namespace KeyedMap

variable {κ α : Type*} [LinearOrder κ]

def empty : KeyedMap κ α := ⟨[], List.Pairwise.nil⟩

/-- Adds a binding to a list in the order of its keys, unless the key has one. -/
def insertKey (key : κ) (value : α) : List (κ × α) → List (κ × α)
  | [] => [(key, value)]
  | (k, v) :: rest =>
    if key < k then (key, value) :: (k, v) :: rest
    else if key = k then (k, v) :: rest
    else (k, v) :: insertKey key value rest

variable {key : κ} {value : α}

theorem mem_insertKey {l : List (κ × α)} {b : κ × α} (h : b ∈ insertKey key value l) :
    b = (key, value) ∨ b ∈ l := by
  induction l with
  | nil => exact .inl (List.mem_singleton.mp h)
  | cons first rest ih =>
    obtain ⟨k, v⟩ := first
    rw [insertKey] at h
    split at h
    · exact List.mem_cons.mp h
    · split at h
      · exact .inr h
      · rcases List.mem_cons.mp h with rfl | h
        · exact .inr List.mem_cons_self
        · exact (ih h).imp_right (List.mem_cons_of_mem _)

theorem insertKey_ordered {l : List (κ × α)} (h : l.Pairwise (·.1 < ·.1)) :
    (insertKey key value l).Pairwise (·.1 < ·.1) := by
  induction l with
  | nil => exact List.pairwise_singleton _ _
  | cons first rest ih =>
    obtain ⟨k, v⟩ := first
    obtain ⟨hfirst, hrest⟩ := List.pairwise_cons.mp h
    rw [insertKey]
    split
    · next hlt =>
      refine List.pairwise_cons.mpr ⟨fun b hb => ?_, h⟩
      rcases List.mem_cons.mp hb with rfl | hb
      · exact hlt
      · exact lt_trans hlt (hfirst b hb)
    · split
      · exact h
      · next hle hne =>
        refine List.pairwise_cons.mpr ⟨fun b hb => ?_, ih hrest⟩
        rcases mem_insertKey hb with rfl | hb
        · exact lt_of_le_of_ne (not_lt.mp hle) (Ne.symm hne)
        · exact hfirst b hb

/-- Adds a binding, unless the key has one. -/
def emplace (m : KeyedMap κ α) (key : κ) (value : α) : KeyedMap κ α :=
  ⟨insertKey key value m.bindings, insertKey_ordered m.ordered⟩

/-- All keys satisfy a predicate. -/
def ForKeys (p : κ → Prop) (m : KeyedMap κ α) : Prop := ∀ b ∈ m.bindings, p b.1

variable {p : κ → Prop} {m : KeyedMap κ α}

theorem forKeys_empty : (empty : KeyedMap κ α).ForKeys p :=
  fun _ hmem => absurd hmem List.not_mem_nil

theorem ForKeys.emplace (h : m.ForKeys p) (hkey : p key) : (m.emplace key value).ForKeys p := by
  intro b hmem
  rcases mem_insertKey hmem with rfl | hmem
  · exact hkey
  · exact h b hmem

end KeyedMap
