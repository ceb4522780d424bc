import Mathlib.Data.List.Basic
import Mathlib.Order.Defs.LinearOrder

/-!
# Ordered maps and sound caches

`OrderedMap α` is a finite map from numbers kept as a list in key order, with the
operations of an ordered associative container: `find`, `emplace` (which keeps
the value that is already there) and `eraseBegin`, which drops the lowest key.

A map is used below as a cache of a relation `R`: `Sound R m` says that every
binding of `m` is related by `R`. Lookups in a sound cache give related values,
and eviction, whichever key it drops, keeps soundness.
-/

/-- A finite map from numbers, its bindings in key order. -/
structure OrderedMap (α : Type*) where
  bindings : List (Nat × α)

namespace OrderedMap

variable {α : Type*}

/-- The map without bindings. -/
def empty : OrderedMap α := ⟨[]⟩

/-- The number of bindings. -/
def size (m : OrderedMap α) : Nat := m.bindings.length

/-- The value bound to `key`. -/
def find (m : OrderedMap α) (key : Nat) : Option α := m.bindings.lookup key

/-- Insertion in key order; a key that is present keeps its value. -/
def insertOrdered (key : Nat) (value : α) : List (Nat × α) → List (Nat × α)
  | [] => [(key, value)]
  | (k, v) :: rest =>
    if key < k then (key, value) :: (k, v) :: rest
    else if key = k then (k, v) :: rest
    else (k, v) :: insertOrdered key value rest

/-- Adds a binding, unless `key` is present. -/
def emplace (m : OrderedMap α) (key : Nat) (value : α) : OrderedMap α :=
  ⟨insertOrdered key value m.bindings⟩

/-- Drops the binding with the lowest key. -/
def eraseBegin (m : OrderedMap α) : OrderedMap α := ⟨m.bindings.tail⟩

theorem mem_of_find {m : OrderedMap α} {key : Nat} {value : α} (h : m.find key = some value) :
    (key, value) ∈ m.bindings := by
  obtain ⟨l₁, l₂, heq, _⟩ := List.lookup_eq_some_iff.mp h
  rw [heq]
  simp

theorem mem_insertOrdered {key k : Nat} {value v : α} {l : List (Nat × α)}
    (h : (k, v) ∈ insertOrdered key value l) : (k, v) = (key, value) ∨ (k, v) ∈ l := by
  induction l with
  | nil => simpa [insertOrdered] using h
  | cons b rest ih =>
    obtain ⟨k', v'⟩ := b
    simp only [insertOrdered] at h
    split at h
    · exact List.mem_cons.mp h
    · split at h
      · exact .inr h
      · rcases List.mem_cons.mp h with h | h
        · exact .inr (h ▸ List.mem_cons_self)
        · exact (ih h).imp_right (List.mem_cons_of_mem _)

/-- Every binding of the map is related by `R`. -/
def Sound (R : Nat → α → Prop) (m : OrderedMap α) : Prop :=
  ∀ key value, (key, value) ∈ m.bindings → R key value

variable {R S : Nat → α → Prop} {m : OrderedMap α}

theorem Sound.empty : Sound R (OrderedMap.empty : OrderedMap α) := by
  intro _ _ h
  exact absurd h List.not_mem_nil

theorem Sound.find (hm : Sound R m) {key : Nat} {value : α} (h : m.find key = some value) :
    R key value :=
  hm key value (mem_of_find h)

theorem Sound.emplace (hm : Sound R m) {key : Nat} {value : α} (h : R key value) :
    Sound R (m.emplace key value) := by
  intro k v hmem
  rcases mem_insertOrdered hmem with heq | hmem
  · cases heq
    exact h
  · exact hm k v hmem

theorem Sound.eraseBegin (hm : Sound R m) : Sound R m.eraseBegin :=
  fun k v hmem => hm k v (List.mem_of_mem_tail hmem)

theorem Sound.mono (hm : Sound R m) (h : ∀ key value, R key value → S key value) : Sound S m :=
  fun k v hmem => h k v (hm k v hmem)

end OrderedMap
