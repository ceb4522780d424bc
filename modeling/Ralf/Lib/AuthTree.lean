import Mathlib.Data.Set.Basic
import Mathlib.Order.BooleanAlgebra.Set

/-!
# Authenticated block trees

A tree of blocks of fixed arity in which each block carries one digest slot for
each of its children. A block is authenticated by a chain of digests that ends
at a root digest.

* `Authentic` is the chain: the digest of a block stands in its slot of an
  authentic parent, and every string that was hashed on the way is in a log.
* `authentic_binding`: two chains for one position under the same root give the
  same block, unless two different logged strings have one digest. The two
  chains may encode blocks differently (two salts) as long as the encodings
  agree only on equal blocks.
-/

namespace AuthTree

variable {Digest Block Input : Type*}

/-- How blocks are hashed: `valid` blocks are encoded as a string, strings are
hashed, and `slot b i` reads the digest of child `i` in block `b`. -/
structure Hashing (Digest Block Input : Type*) where
  hash : Input → Digest
  encode : Block → Input
  valid : Block → Prop
  slot : Block → Nat → Option Digest

/-- `Authentic H log root arity depth index b`: the block `b` at `index` of the
level `depth` below the top is authenticated by `root`. The top level is a single
block, so its index does not matter. -/
inductive Authentic (H : Hashing Digest Block Input) (log : Set Input) (root : Digest)
    (arity : Nat) : Nat → Nat → Block → Prop
  | top {index : Nat} {b : Block} : H.valid b → H.encode b ∈ log → H.hash (H.encode b) = root →
      Authentic H log root arity 0 index b
  | child {depth index : Nat} {b parent : Block} :
      Authentic H log root arity depth (index / arity) parent → H.valid b → H.encode b ∈ log →
      H.slot parent (index % arity) = some (H.hash (H.encode b)) →
      Authentic H log root arity (depth + 1) index b

/-- Two different strings of the log have one digest. -/
def Collision (hash : Input → Digest) (log : Set Input) : Prop :=
  ∃ x ∈ log, ∃ y ∈ log, x ≠ y ∧ hash x = hash y

theorem Collision.mono {hash : Input → Digest} {log log' : Set Input} (h : Collision hash log)
    (hsub : log ⊆ log') : Collision hash log' := by
  obtain ⟨x, hx, y, hy, hne, heq⟩ := h
  exact ⟨x, hsub hx, y, hsub hy, hne, heq⟩

theorem Authentic.mono {H : Hashing Digest Block Input} {log log' : Set Input} {root : Digest}
    {arity depth index : Nat} {b : Block} (h : Authentic H log root arity depth index b)
    (hsub : log ⊆ log') : Authentic H log' root arity depth index b := by
  induction h with
  | top hv hm hr => exact .top hv (hsub hm) hr
  | child _ hv hm hs ih => exact .child ih hv (hsub hm) hs

/-- Two hashings that differ only in how they encode blocks. -/
structure Compatible (H₁ H₂ : Hashing Digest Block Input) : Prop where
  hash_eq : H₁.hash = H₂.hash
  slot_eq : H₁.slot = H₂.slot
  encode_inj : ∀ b₁ b₂, H₁.valid b₁ → H₂.valid b₂ → H₁.encode b₁ = H₂.encode b₂ → b₁ = b₂

/-- Two logged blocks with one digest are equal, or their encodings collide. -/
theorem Compatible.eq_or_collision {H₁ H₂ : Hashing Digest Block Input} (hc : Compatible H₁ H₂)
    {log₁ log₂ : Set Input} {b₁ b₂ : Block} (hv₁ : H₁.valid b₁) (hv₂ : H₂.valid b₂)
    (hm₁ : H₁.encode b₁ ∈ log₁) (hm₂ : H₂.encode b₂ ∈ log₂)
    (heq : H₁.hash (H₁.encode b₁) = H₂.hash (H₂.encode b₂)) :
    b₁ = b₂ ∨ Collision H₁.hash (log₁ ∪ log₂) := by
  by_cases he : H₁.encode b₁ = H₂.encode b₂
  · exact .inl (hc.encode_inj b₁ b₂ hv₁ hv₂ he)
  · refine .inr ⟨_, .inl hm₁, _, .inr hm₂, he, ?_⟩
    rw [heq, hc.hash_eq]

/-- Binding: one position under one root has one authentic block, up to a
collision. -/
theorem authentic_binding {H₁ H₂ : Hashing Digest Block Input} (hc : Compatible H₁ H₂)
    {log₁ log₂ : Set Input} {root : Digest} {arity depth index : Nat} {b₁ b₂ : Block}
    (h₁ : Authentic H₁ log₁ root arity depth index b₁)
    (h₂ : Authentic H₂ log₂ root arity depth index b₂) :
    b₁ = b₂ ∨ Collision H₁.hash (log₁ ∪ log₂) := by
  induction h₁ generalizing b₂ with
  | top hv hm hr =>
    cases h₂ with
    | top hv' hm' hr' => exact hc.eq_or_collision hv hv' hm hm' (hr.trans hr'.symm)
  | child _ hv hm hs ih =>
    cases h₂ with
    | child hp' hv' hm' hs' =>
      rcases ih hp' with rfl | hcol
      · refine hc.eq_or_collision hv hv' hm hm' (Option.some.inj ?_)
        rw [← hs, ← hs', hc.slot_eq]
      · exact .inr hcol

end AuthTree
