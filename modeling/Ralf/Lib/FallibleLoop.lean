import Mathlib.Logic.Basic

/-!
# Loops that can fail

What is known of a computation that can fail when it did not: `bind_ok` and `ite_ok` take it apart,
`ok_bind` puts it together, and `foldlM_keeps` takes what every step of a loop keeps to the whole
loop. A loop that fails does so at one of its elements, by `foldlM_error`.
-/

namespace FallibleLoop

variable {ε α β γ : Type} {f : α → β → Except ε α} {l : List β} {a a' : α}

theorem bind_ok {x : Except ε α} {f : α → Except ε γ} {c : γ} (h : (x >>= f) = .ok c) :
    ∃ a, x = .ok a ∧ f a = .ok c := by
  cases x with
  | error e => cases h
  | ok a => exact ⟨a, rfl, h⟩

theorem ok_bind {x : Except ε α} {f : α → Except ε γ} {c : γ} (hx : x = .ok a) (h : f a = .ok c) :
    (x >>= f) = .ok c := by
  rw [hx]
  exact h

theorem ite_ok {p : Prop} [Decidable p] {e : ε} {x : Except ε α}
    (h : (if p then .error e else x) = .ok a) : ¬p ∧ x = .ok a := by
  split at h
  · cases h
  · next hp => exact ⟨hp, h⟩

/-- What every step keeps on the elements of the list is kept by the loop. -/
theorem foldlM_keeps {P : α → Prop}
    (hstep : ∀ a, ∀ x ∈ l, ∀ a', P a → f a x = .ok a' → P a') (h : l.foldlM f a = .ok a')
    (ha : P a) : P a' := by
  induction l generalizing a with
  | nil =>
    cases h
    exact ha
  | cons x rest ih =>
    rw [List.foldlM_cons] at h
    obtain ⟨b, hb, hrest⟩ := bind_ok h
    exact ih (fun a x hx => hstep a x (List.mem_cons_of_mem _ hx)) hrest
      (hstep a x List.mem_cons_self b ha hb)

theorem bind_error {x : Except ε α} {f : α → Except ε γ} {e : ε} (h : (x >>= f) = .error e) :
    x = .error e ∨ ∃ a, x = .ok a ∧ f a = .error e := by
  cases x with
  | error e' =>
    cases h
    exact .inl rfl
  | ok a => exact .inr ⟨a, rfl, h⟩

/-- A loop fails at one of the elements. -/
theorem foldlM_error {e : ε} (h : l.foldlM f a = .error e) : ∃ x ∈ l, ∃ b, f b x = .error e := by
  induction l generalizing a with
  | nil => cases h
  | cons x rest ih =>
    rw [List.foldlM_cons] at h
    rcases bind_error h with hx | ⟨b, -, hrest⟩
    · exact ⟨x, List.mem_cons_self, a, hx⟩
    · obtain ⟨y, hy, hfails⟩ := ih hrest
      exact ⟨y, List.mem_cons_of_mem _ hy, hfails⟩

end FallibleLoop
