import Ralf.Lib.Calls

/-!
# Programs of a part of a system

A system can have more calls and more state than a program uses. `System.Part` says that a system is
a part of a larger one, and `Prog.inside` runs a program of the part in the larger system.
`Triple.inside` carries a triple over. What the calls of the part leave alone stays as it is.
-/

namespace Calls

variable {σ σ' C C' : Type} {A : C → Type} {A' : C' → Type} {α β : Type}

/-- A program with other calls in place of its own. -/
def Prog.inside (call : C → C') (reply : ∀ c, A' (call c) → A c) :
    {α : Type} → Prog C A α → Prog C' A' α
  | _, .ret a => .ret a
  | _, .call c next => .call (call c) fun x => (next (reply c x)).inside call reply
  | _, .loop body next => .loop (body.inside call reply) fun b => (next b).inside call reply

namespace System

open Relation

/-- A system whose calls and state are a part of those of a larger one. -/
structure Part (sys : System σ C A) (sys' : System σ' C' A') where
  call : C → C'
  reply : ∀ c, A' (call c) → A c
  state : σ' → σ
  answer : ∀ {c x s s'}, sys'.answer (call c) x s = some s' →
    sys.answer c (reply c x) (state s) = some (state s')
  others : ∀ {s s'}, sys'.others s s' → sys.others (state s) (state s')

variable {sys : System σ C A} {sys' : System σ' C' A'} (part : sys.Part sys')

/-- A program of the part in the larger system. -/
def Part.inside (p : Prog C A α) : Prog C' A' α := p.inside part.call part.reply

/-- An assertion about the rest that neither others nor the calls of the part change. -/
structure Part.Frame (F : σ' → Prop) : Prop where
  stable : sys'.Stable F
  answer : ∀ {c x s s'}, sys'.answer (part.call c) x s = some s' → F s → F s'

variable {part} {G : σ → σ → Prop} {G' : σ' → σ' → Prop} {F : σ' → Prop}

theorem Part.others_star {s s' : σ'} (h : ReflTransGen sys'.others s s') :
    ReflTransGen sys.others (part.state s) (part.state s') :=
  h.lift part.state fun _ _ hothers => part.others hothers

theorem wp_inside (hF : part.Frame F) (hG : ∀ c x s s', F s →
      sys'.answer (part.call c) x s = some s' → G (part.state s) (part.state s') → G' s s')
    {p : Prog C A α} {Q : α → σ → Prop} {s : σ'} (h : sys.wp G p Q (part.state s)) (hs : F s) :
    sys'.wp G' (part.inside p) (fun a s => Q a (part.state s) ∧ F s) s := by
  induction p generalizing s with
  | ret a => exact fun s' hothers => ⟨h _ (part.others_star hothers), hF.stable.star hothers hs⟩
  | call c next ih =>
    intro s' hothers x s'' hanswer
    obtain ⟨hallowed, hnext⟩ := h _ (part.others_star hothers) _ _ (part.answer hanswer)
    have hs' := hF.stable.star hothers hs
    exact ⟨hG c x s' s'' hs' hanswer hallowed, ih _ hnext (hF.answer hanswer hs')⟩
  | loop body next ihBody ihNext =>
    obtain ⟨I, hI, hinit, hbody⟩ := h
    refine ⟨fun s => I (part.state s) ∧ F s, ?_, ⟨hinit, hs⟩, fun s hs => ?_⟩
    · exact fun _ _ hothers h => ⟨hI _ _ (part.others hothers) h.1, hF.stable _ _ hothers h.2⟩
    · refine wp_mono (fun result s h => ?_) (ihBody (hbody _ hs.1) hs.2)
      cases result with
      | none => exact h
      | some b => exact ihNext b h.1 h.2

theorem Triple.inside (hF : part.Frame F)
    (hG : ∀ c x s s', F s → sys'.answer (part.call c) x s = some s' →
      G (part.state s) (part.state s') → G' s s')
    {P : σ → Prop} {p : Prog C A α} {Q : α → σ → Prop} (h : sys.Triple G P p Q) :
    sys'.Triple G' (fun s => P (part.state s) ∧ F s) (part.inside p)
      fun a s => Q a (part.state s) ∧ F s :=
  fun _ hs => wp_inside hF hG (h _ hs.1) hs.2

end System

end Calls
