import Ralf.Lib.CallParts

/-!
# Transcripts of programs

`System.transcript` gives any answer to any call, and its state is what was called and answered so
far. `Says` is a triple for it: whatever the answers are, a program makes only calls that are
allowed after what was said before. `Says.lawful` carries this over to whole runs.
-/

namespace Calls

variable {C : Type} {A : C → Type} {α β : Type}

/-- A call with the answer that it got. -/
structure Exchange (C : Type) (A : C → Type) where
  call : C
  answer : A call

/-- The calls and answers so far. -/
abbrev Transcript (C : Type) (A : C → Type) := List (Exchange C A)

/-- Every call is allowed after what was said before it. -/
def Lawful (allowed : Transcript C A → C → Prop) (s : Transcript C A) : Prop :=
  ∀ before e after, s = before ++ e :: after → allowed before e.call

/-- An assertion that more calls do not change. -/
def Grows (P : Transcript C A → Prop) : Prop := ∀ s e, P s → P (s ++ [e])

/-- A program makes only calls of some kind. -/
def Prog.Within (S : C → Prop) : {α : Type} → Prog C A α → Prop
  | _, .ret _ => True
  | _, .call c next => S c ∧ ∀ x, (next x).Within S
  | _, .loop body next => body.Within S ∧ ∀ b, (next b).Within S

namespace Prog

variable {S : C → Prop}

theorem Within.ret (a : α) : (pure a : Prog C A α).Within S := trivial

theorem Within.bind {p : Prog C A α} {f : α → Prog C A β} (hp : p.Within S)
    (hf : ∀ a, (f a).Within S) : (p >>= f).Within S := by
  show (p.bind f).Within S
  induction p with
  | ret a => exact hf a
  | call c next ih => exact ⟨hp.1, fun x => ih x (hp.2 x) hf⟩
  | loop body next _ ih => exact ⟨hp.1, fun b => ih b (hp.2 b) hf⟩

theorem Within.ask {c : C} {f : A c → Prog C A β} (hc : S c) (hf : ∀ x, (f x).Within S) :
    (Prog.ask c >>= f).Within S := ⟨hc, hf⟩

end Prog

namespace Lawful

variable {allowed : Transcript C A → C → Prop}

theorem nil : Lawful allowed [] := fun before e after h => by
  have hlength := congrArg List.length h
  simp at hlength

theorem concat {s : Transcript C A} {e : Exchange C A} (h : Lawful allowed s)
    (he : allowed s e.call) : Lawful allowed (s ++ [e]) := by
  intro before e' after heq
  rcases List.eq_nil_or_concat after with rfl | ⟨after', last, rfl⟩
  · obtain ⟨rfl, hlast⟩ := List.append_inj' heq rfl
    cases hlast
    exact he
  · have hshift : s ++ [e] = (before ++ e' :: after') ++ [last] := by
      rw [heq, List.concat_eq_append, List.append_assoc, List.cons_append]
    exact h before e' after' (List.append_inj' hshift rfl).1

end Lawful

namespace Grows

theorem mem (e : Exchange C A) : Grows fun s => e ∈ s :=
  fun _ _ h => List.mem_append_left _ h

theorem and {P Q : Transcript C A → Prop} (hP : Grows P) (hQ : Grows Q) :
    Grows fun s => P s ∧ Q s :=
  fun s e h => ⟨hP s e h.1, hQ s e h.2⟩

theorem pure (φ : Prop) : Grows (C := C) (A := A) fun _ => φ := fun _ _ h => h

end Grows

namespace System

/-- Every call can have every answer, and nobody else does anything. -/
def transcript (C : Type) (A : C → Type) : System (Transcript C A) C A where
  answer c x s := some (s ++ [⟨c, x⟩])
  others _ _ := False

/-- From `P`, a program makes only calls that are allowed, and it ends with `Q`. -/
def Says (allowed : Transcript C A → C → Prop) (P : Transcript C A → Prop) (p : Prog C A α)
    (Q : α → Transcript C A → Prop) : Prop :=
  (transcript C A).Triple (fun s s' => ∀ e, s' = s ++ [e] → allowed s e.call) P p Q

variable {allowed : Transcript C A → C → Prop} {P P' : Transcript C A → Prop}
  {Q Q' : α → Transcript C A → Prop}

theorem transcript_stable (P : Transcript C A → Prop) : (transcript C A).Stable P :=
  fun _ _ hothers => hothers.elim

namespace Says

/-! ## Whole runs -/

/-- In every run every call is allowed. -/
theorem lawful {p : Prog C A α} (h : Says allowed P p Q) {s : Transcript C A} (hP : P s)
    (hs : Lawful allowed s) {config : Prog C A α × Transcript C A}
    (hrun : (transcript C A).Reaches (p, s) config) : Lawful allowed config.2 := by
  induction hrun with
  | refl => exact hs
  | tail hrun hstep ih =>
    cases hstep with
    | others hothers => exact hothers.elim
    | @answer c next x s₁ s₂ hanswer =>
      cases hanswer
      exact ih.concat ((h.adequate hP).1 c next s₁ hrun x _ rfl _ rfl)
    | loop => exact ih

theorem result {p : Prog C A α} (h : Says allowed P p Q) {s : Transcript C A} (hP : P s) {a : α}
    {s' : Transcript C A} (hrun : (transcript C A).Reaches (p, s) (.ret a, s')) : Q a s' :=
  (h.adequate hP).2 a s' hrun

/-! ## Rules -/

theorem ret {a : α} (h : ∀ s, P s → Q a s) : Says allowed P (pure a) Q :=
  Triple.ret (transcript_stable P) h

theorem bind {p : Prog C A α} {f : α → Prog C A β} {R : α → Transcript C A → Prop}
    {Q : β → Transcript C A → Prop} (hp : Says allowed P p R)
    (hf : ∀ a, Says allowed (R a) (f a) Q) : Says allowed P (p >>= f) Q :=
  Triple.bind hp hf

theorem conseq {p : Prog C A α} (h : Says allowed P p Q) (hP : ∀ s, P' s → P s)
    (hQ : ∀ a s, Q a s → Q' a s) : Says allowed P' p Q' :=
  Triple.conseq h hP hQ

/-- A call, of which it is remembered that it was made. -/
theorem ask {c : C} {f : A c → Prog C A β} {Q : β → Transcript C A → Prop} (hP : Grows P)
    (hc : ∀ s, P s → allowed s c)
    (hf : ∀ x, Says allowed (fun s => P s ∧ ⟨c, x⟩ ∈ s) (f x) Q) :
    Says allowed P (Prog.ask c >>= f) Q := by
  refine Triple.ask (transcript_stable P) (fun s x s' hs hanswer => ?_) hf
  cases hanswer
  refine ⟨fun e heq => ?_, hP s _ hs, List.mem_append_right _ List.mem_cons_self⟩
  have hlast := (List.append_inj' heq rfl).2
  cases hlast
  exact hc s hs

/-- A call that is not remembered. -/
theorem skip {c : C} {f : A c → Prog C A β} {Q : β → Transcript C A → Prop} (hP : Grows P)
    (hc : ∀ s, P s → allowed s c) (hf : ∀ x, Says allowed P (f x) Q) :
    Says allowed P (Prog.ask c >>= f) Q :=
  ask hP hc fun x => (hf x).conseq (fun _ h => h.1) fun _ _ h => h

/-- A program with calls that are always allowed. -/
theorem within {S : C → Prop} {p : Prog C A α} (hp : p.Within S) (hS : ∀ s c, S c → allowed s c)
    (hP : Grows P) : Says allowed P p fun _ => P := by
  induction p with
  | ret a => exact ret fun _ h => h
  | call c next ih => exact skip hP (fun s _ => hS s c hp.1) fun x => ih x (hp.2 x)
  | loop body next ihBody ihNext =>
    refine fun s hs => ⟨P, transcript_stable P, hs, fun s hs => ?_⟩
    refine wp_mono (fun result s h => ?_) (ihBody hp.1 s hs)
    cases result with
    | none => exact h
    | some b => exact ihNext b (hp.2 b) s h

theorem repeatUntil {body : Prog C A (Option β)} {R : β → Transcript C A → Prop}
    (hbody : Says allowed P body (Round P R)) : Says allowed P (Prog.repeatUntil body) R :=
  Triple.repeatUntil (transcript_stable P) (fun b => transcript_stable (R b)) hbody

/-- A program of a part of a system, whose transcript can be read off the whole one. What is known of
the whole transcript is not forgotten. -/
theorem inside {C' : Type} {A' : C' → Type} {allowed' : Transcript C' A' → C' → Prop}
    {call : C → C'} {reply : ∀ c, A' (call c) → A c} {F : Transcript C' A' → Prop}
    (state : Transcript C' A' → Transcript C A)
    (hstate : ∀ s c x, state (s ++ [⟨call c, x⟩]) = state s ++ [⟨c, reply c x⟩]) (hF : Grows F)
    (hallowed : ∀ s c, F s → allowed (state s) c → allowed' s (call c)) {p : Prog C A α}
    (h : Says allowed P p Q) :
    Says allowed' (fun s => P (state s) ∧ F s) (p.inside call reply)
      fun a s => Q a (state s) ∧ F s := by
  let part : (transcript C A).Part (transcript C' A') :=
    { call, reply, state
      answer := fun {c x s s'} hanswer => by
        cases hanswer
        exact congrArg some (hstate s c x).symm
      others := fun hothers => hothers.elim }
  have hframe : part.Frame F := by
    refine ⟨transcript_stable _, fun {c x s s'} hanswer hs => ?_⟩
    cases hanswer
    exact hF s _ hs
  refine Triple.inside hframe (fun c x s s' hs hanswer hG e heq => ?_) h
  cases hanswer
  have hlast := (List.append_inj' heq rfl).2
  cases hlast
  exact hallowed s c hs (hG ⟨c, reply c x⟩ (hstate s c x))

end Says

end System

end Calls
