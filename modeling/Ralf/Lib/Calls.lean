import Mathlib.Data.List.Basic
import Mathlib.Logic.Relation

/-!
# Programs that call a shared system

A program makes calls and goes on with their answers. The system has a state that other programs
change as well, between any two steps. A call can have several answers: which ones it can have, and
what they do to the state, is a part of the system.

`System.Triple` is a Hoare triple for such programs. It also bounds what each single call does to
the state. `Triple.adequate` says what a triple means for the runs of a program, finished or not.
-/

namespace Calls

variable {σ C : Type} {A : C → Type} {α β γ : Type}

/-- A program: a result, a call, or a part that is repeated until it gives a value. -/
inductive Prog (C : Type) (A : C → Type) : Type → Type 1
  | ret {α : Type} (a : α) : Prog C A α
  | call {α : Type} (c : C) (next : A c → Prog C A α) : Prog C A α
  | loop {α β : Type} (body : Prog C A (Option β)) (next : β → Prog C A α) : Prog C A α

namespace Prog

def bind : {α : Type} → Prog C A α → (α → Prog C A β) → Prog C A β
  | _, .ret a, f => f a
  | _, .call c next, f => .call c fun x => (next x).bind f
  | _, .loop body next, f => .loop body fun b => (next b).bind f

instance : Monad (Prog C A) where
  pure := .ret
  bind := .bind

/-- A single call. -/
def ask (c : C) : Prog C A (A c) := .call c .ret

/-- Repeats a part until it gives a value. -/
def repeatUntil (body : Prog C A (Option β)) : Prog C A β := .loop body .ret

/-- One more time, or on with a value. -/
def again (body : Prog C A (Option β)) (next : β → Prog C A α) : Option β → Prog C A α
  | none => .loop body next
  | some b => next b

end Prog

/-- The answers of a system and what they do, and what other programs do. -/
structure System (σ C : Type) (A : C → Type) where
  answer : (c : C) → A c → σ → Option σ
  others : σ → σ → Prop

namespace System

open Relation

variable (sys : System σ C A)

/-- A step of a program or of others. -/
inductive Step : Prog C A α × σ → Prog C A α × σ → Prop
  | others {p : Prog C A α} {s s' : σ} (h : sys.others s s') : Step (p, s) (p, s')
  | answer {c : C} {next : A c → Prog C A α} {x : A c} {s s' : σ}
      (h : sys.answer c x s = some s') : Step (.call c next, s) (next x, s')
  | loop {β : Type} {body : Prog C A (Option β)} {next : β → Prog C A α} {s : σ} :
      Step (.loop body next, s) (body.bind (Prog.again body next), s)

/-- Any number of steps. -/
abbrev Reaches : Prog C A α × σ → Prog C A α × σ → Prop := ReflTransGen (sys.Step (α := α))

/-- An assertion that others do not change. -/
def Stable (P : σ → Prop) : Prop := ∀ s s', sys.others s s' → P s → P s'

/-- What holds after a round of a loop: its invariant, or what its value gives. -/
def Round (I : σ → Prop) (R : β → σ → Prop) : Option β → σ → Prop
  | none => I
  | some b => R b

variable (G : σ → σ → Prop)

/-- The weakest condition under which every call of a program does what `G` allows, and every
result is one of `Q`. A loop has an invariant. -/
def wp : {α : Type} → Prog C A α → (α → σ → Prop) → σ → Prop
  | _, .ret a, Q, s => ∀ s', ReflTransGen sys.others s s' → Q a s'
  | _, .call c next, Q, s => ∀ s', ReflTransGen sys.others s s' → ∀ x s'',
      sys.answer c x s' = some s'' → G s' s'' ∧ wp (next x) Q s''
  | _, .loop body next, Q, s => ∃ I, sys.Stable I ∧ I s ∧ ∀ s, I s →
      wp body (Round I fun b => wp (next b) Q) s

/-- From `P`, a program only makes calls that `G` allows, and it ends with `Q`. -/
def Triple (P : σ → Prop) (p : Prog C A α) (Q : α → σ → Prop) : Prop :=
  ∀ s, P s → sys.wp G p Q s

variable {sys G} {P P' : σ → Prop} {Q Q' : α → σ → Prop}

theorem Stable.star (h : sys.Stable P) {s s' : σ} (hs : ReflTransGen sys.others s s') (hP : P s) :
    P s' := by
  induction hs with
  | refl => exact hP
  | tail _ hstep ih => exact h _ _ hstep ih

theorem Stable.exists {ι : Type*} {P : ι → σ → Prop} (h : ∀ i, sys.Stable (P i)) :
    sys.Stable fun s => ∃ i, P i s :=
  fun s s' hothers ⟨i, hP⟩ => ⟨i, h i s s' hothers hP⟩

theorem Stable.and_pure {φ : Prop} (h : sys.Stable P) : sys.Stable fun s => φ ∧ P s :=
  fun s s' hothers ⟨hφ, hP⟩ => ⟨hφ, h s s' hothers hP⟩

/-! ## The condition and the steps -/

theorem wp_mono {p : Prog C A α} {s : σ} (hQ : ∀ a s, Q a s → Q' a s) (h : sys.wp G p Q s) :
    sys.wp G p Q' s := by
  induction p generalizing s with
  | ret a => exact fun s' hs => hQ _ _ (h s' hs)
  | call c next ih =>
    intro s' hs x s'' hanswer
    exact ⟨(h s' hs x s'' hanswer).1, ih x hQ (h s' hs x s'' hanswer).2⟩
  | loop body next ihBody ihNext =>
    obtain ⟨I, hI, hs, hbody⟩ := h
    refine ⟨I, hI, hs, fun s hs => ihBody (fun result s h => ?_) (hbody s hs)⟩
    cases result with
    | none => exact h
    | some b => exact ihNext b hQ h

theorem wp_others {p : Prog C A α} {s s' : σ} (hs : sys.others s s') (h : sys.wp G p Q s) :
    sys.wp G p Q s' := by
  cases p with
  | ret a => exact fun s'' hs' => h s'' (.head hs hs')
  | call c next => exact fun s'' hs' => h s'' (.head hs hs')
  | loop body next =>
    obtain ⟨I, hI, hinit, hbody⟩ := h
    exact ⟨I, hI, hI _ _ hs hinit, hbody⟩

theorem wp_bind {p : Prog C A α} {f : α → Prog C A β} {Q : β → σ → Prop} {s : σ}
    (h : sys.wp G p (fun a => sys.wp G (f a) Q) s) : sys.wp G (p.bind f) Q s := by
  induction p generalizing s with
  | ret a => exact h s .refl
  | call c next ih =>
    intro s' hs x s'' hanswer
    exact ⟨(h s' hs x s'' hanswer).1, ih x (h s' hs x s'' hanswer).2⟩
  | loop body next ihBody ihNext =>
    obtain ⟨I, hI, hs, hbody⟩ := h
    refine ⟨I, hI, hs, fun s hs => wp_mono (fun result s h => ?_) (hbody s hs)⟩
    cases result with
    | none => exact h
    | some b => exact ihNext b h

/-- The condition holds on along a run. -/
theorem wp_step {config config' : Prog C A α × σ} (hstep : sys.Step config config')
    (h : sys.wp G config.1 Q config.2) : sys.wp G config'.1 Q config'.2 := by
  cases hstep with
  | others hs => exact wp_others hs h
  | answer hanswer => exact (h _ .refl _ _ hanswer).2
  | loop =>
    obtain ⟨I, hI, hs, hbody⟩ := h
    refine wp_bind (wp_mono (fun result s h => ?_) (hbody _ hs))
    cases result with
    | none => exact ⟨I, hI, h, hbody⟩
    | some b => exact h

theorem wp_reaches {config config' : Prog C A α × σ} (hrun : sys.Reaches config config')
    (h : sys.wp G config.1 Q config.2) : sys.wp G config'.1 Q config'.2 := by
  induction hrun with
  | refl => exact h
  | tail _ hstep ih => exact wp_step hstep ih

/-- What a triple says of the runs of a program: every call that comes up does what `G` allows, and
if the program comes to its end, its result and the state are as `Q` says. -/
theorem Triple.adequate {p : Prog C A α} {s : σ} (h : sys.Triple G P p Q) (hP : P s) :
    (∀ c next s', sys.Reaches (p, s) (.call c next, s') →
        ∀ x s'', sys.answer c x s' = some s'' → G s' s'') ∧
      ∀ a s', sys.Reaches (p, s) (.ret a, s') → Q a s' := by
  refine ⟨fun c next s' hrun x s'' hanswer => ?_, fun a s' hrun => ?_⟩
  · exact (wp_reaches hrun (h s hP) s' .refl x s'' hanswer).1
  · exact wp_reaches hrun (h s hP) s' .refl

/-! ## Single runs -/

variable (sys) in
/-- A run that others leave alone, with the answers that `answers` gives. -/
def run (answers : (c : C) → σ → A c) : Nat → Prog C A α → σ → Option (α × σ)
  | 0, _, _ => none
  | _ + 1, .ret a, s => some (a, s)
  | fuel + 1, .call c next, s =>
    (sys.answer c (answers c s) s).bind (run answers fuel (next (answers c s)))
  | fuel + 1, .loop body next, s => run answers fuel (body.bind (Prog.again body next)) s

theorem run_reaches {answers : (c : C) → σ → A c} {fuel : Nat} {p : Prog C A α} {a : α} {s s' : σ}
    (h : sys.run answers fuel p s = some (a, s')) : sys.Reaches (p, s) (.ret a, s') := by
  induction fuel generalizing p s with
  | zero => cases h
  | succ fuel ih =>
    cases p with
    | ret a' =>
      cases h
      exact .refl
    | call c next =>
      obtain ⟨s₁, hanswer, hrest⟩ := Option.bind_eq_some_iff.mp h
      exact .head (.answer hanswer) (ih hrest)
    | loop body next => exact .head .loop (ih h)

/-! ## Rules -/

namespace Triple

theorem conseq {p : Prog C A α} (h : sys.Triple G P p Q) (hP : ∀ s, P' s → P s)
    (hQ : ∀ a s, Q a s → Q' a s) : sys.Triple G P' p Q' :=
  fun s hs => wp_mono hQ (h s (hP s hs))

theorem exists_pre {ι : Type} {P : ι → σ → Prop} {p : Prog C A α}
    (h : ∀ i, sys.Triple G (P i) p Q) : sys.Triple G (fun s => ∃ i, P i s) p Q :=
  fun s ⟨i, hs⟩ => h i s hs

theorem and_pre {φ : Prop} {p : Prog C A α} (h : φ → sys.Triple G P p Q) :
    sys.Triple G (fun s => φ ∧ P s) p Q :=
  fun s ⟨hφ, hs⟩ => h hφ s hs

theorem ret {a : α} (hstable : sys.Stable P) (h : ∀ s, P s → Q a s) :
    sys.Triple G P (pure a) Q :=
  fun _ hs s' hothers => h s' (hstable.star hothers hs)

theorem bind {p : Prog C A α} {f : α → Prog C A β} {R : α → σ → Prop} {Q : β → σ → Prop}
    (hp : sys.Triple G P p R) (hf : ∀ a, sys.Triple G (R a) (f a) Q) :
    sys.Triple G P (p >>= f) Q :=
  fun s hs => wp_bind (wp_mono (fun a s hR => hf a s hR) (hp s hs))

/-- A call and what comes after each of its answers. -/
theorem ask {c : C} {f : A c → Prog C A β} {R : A c → σ → Prop} {Q : β → σ → Prop}
    (hstable : sys.Stable P)
    (hcall : ∀ s x s', P s → sys.answer c x s = some s' → G s s' ∧ R x s')
    (hf : ∀ x, sys.Triple G (R x) (f x) Q) : sys.Triple G P (Prog.ask c >>= f) Q := by
  intro s hs s' hothers x s'' hanswer
  obtain ⟨hG, hR⟩ := hcall s' x s'' (hstable.star hothers hs) hanswer
  exact ⟨hG, hf x s'' hR⟩

/-- A loop keeps its invariant each time it goes round. -/
theorem repeatUntil {body : Prog C A (Option β)} {I : σ → Prop} {R : β → σ → Prop}
    (hI : sys.Stable I) (hR : ∀ b, sys.Stable (R b))
    (hbody : sys.Triple G I body (Round I R)) :
    sys.Triple G I (Prog.repeatUntil body) R := by
  refine fun s hs => ⟨I, hI, hs, fun s hs => wp_mono (fun result s h => ?_) (hbody s hs)⟩
  cases result with
  | none => exact h
  | some b => exact fun s' hothers => (hR b).star hothers h

end Triple

end System

end Calls
