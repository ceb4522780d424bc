import Ralf.Lib.Bytes

/-!
# Errors and faults

An `Error` is an error code with a text. The code is one of the library's own
codes or a system error number; `Result` is what a fallible function returns.

A `Fault` is not an error the code reports: it marks the points where the
C++ program has no defined behaviour, or where an allocation or a conversion throws,
so that a theorem has to exclude them.
-/

/-- The library's error codes. -/
inductive ErrorCode
  | noError
  | invalidPackage
  | invalidArgument
  | internalError
  | notSupported
  | certificateError
  | genericCryptoError
  | packageFormatNotSupported
  | archiveError
  | packageSignatureMissing
  | packageSignatureInvalid
  | packageContentsInvalid
  | packageFileTooLarge
  | packageInvalidEntry
  | xmlParseError
  | xmlSchemaError
  | genericXmlError
  | certificateExpired
  | certificateRevoked
  | invalidMetaData
  | fileExists
  | dmVerityError
  | erofsError
  | versionNumberTooManyFields
  | versionNumberInvalidCharacter
  | versionNumberTooLong
  | versionNumberEmpty
  | versionConstraintInvalid
  | packageMountInvalid
  | fileNotFound
  | packageExtractLimitExceeded
  deriving DecidableEq, Repr

/-- The two error categories in use: the library's codes and `errno` values. -/
inductive StdErrorCode
  | ralf (code : ErrorCode)
  | system (errno : Nat)
  deriving DecidableEq, Repr

/-- An error code and its text. -/
structure Error where
  code : StdErrorCode
  what : String
  deriving DecidableEq, Repr

namespace Error

/-- An error with one of the library's codes. -/
def ralf (code : ErrorCode) (what : String) : Error := ⟨.ralf code, what⟩

/-- An error with the current `errno`. -/
def system (errno : Nat) (what : String) : Error := ⟨.system errno, what⟩

end Error

/-- The value of a function that can fail. -/
abbrev Result (α : Type) := Except Error α

/-- What the C++ program does without defined behaviour. -/
inductive Fault
  | nullPointer
  | outOfBounds
  | overread
  | divideByZero
  | badShift
  | badAlloc
  | outOfRange
  deriving DecidableEq, Repr

/-- A computation that gives up without a value when it only logs an error, and
that can fault. -/
abbrev Attempt (α : Type) := Except Fault (Option α)

namespace Attempt

variable {α β γ : Type}

/-- One attempt after another. -/
def andThen (x : Attempt α) (f : α → Attempt β) : Attempt β :=
  match x with
  | .error fault => .error fault
  | .ok none => .ok none
  | .ok (some a) => f a

@[simp] theorem andThen_some (a : α) (f : α → Attempt β) : andThen (.ok (some a)) f = f a := rfl

@[simp] theorem andThen_none (f : α → Attempt β) : andThen (.ok none) f = .ok none := rfl

@[simp] theorem andThen_error (fault : Fault) (f : α → Attempt β) :
    andThen (.error fault) f = .error fault := rfl

theorem andThen_eq_ok {x : Attempt α} {f : α → Attempt β} {b : β}
    (h : andThen x f = .ok (some b)) : ∃ a, x = .ok (some a) ∧ f a = .ok (some b) := by
  rcases x with fault | _ | a
  · cases h
  · cases h
  · exact ⟨a, rfl, h⟩

theorem andThen_self (x : Attempt α) : andThen x (fun a => .ok (some a)) = x := by
  cases x with
  | error fault => rfl
  | ok a => cases a <;> rfl

theorem andThen_assoc (x : Attempt α) (f : α → Attempt β) (g : β → Attempt γ) :
    andThen (andThen x f) g = andThen x fun a => andThen (f a) g := by
  cases x with
  | error fault => rfl
  | ok a =>
    cases a with
    | none => rfl
    | some a => rfl

/-- Two attempts end the same way, with related values. -/
def Rel (R : α → β → Prop) : Attempt α → Attempt β → Prop
  | .error fault, .error fault' => fault = fault'
  | .ok none, .ok none => True
  | .ok (some a), .ok (some b) => R a b
  | _, _ => False

theorem Rel.imp {R S : α → β → Prop} {x : Attempt α} {y : Attempt β} (h : Rel R x y)
    (himp : ∀ a b, x = .ok (some a) → R a b → S a b) : Rel S x y := by
  rcases x with fault | _ | a <;> rcases y with fault' | _ | b <;> try exact h.elim
  · exact h
  · trivial
  · exact himp a b rfl h

theorem Rel.andThen {α' β' : Type} {R : α → β → Prop} {S : α' → β' → Prop} {x : Attempt α}
    {y : Attempt β} {f : α → Attempt α'} {g : β → Attempt β'} (h : Rel R x y)
    (hfg : ∀ a b, R a b → Rel S (f a) (g b)) : Rel S (x.andThen f) (y.andThen g) := by
  rcases x with fault | _ | a <;> rcases y with fault' | _ | b <;> try exact h.elim
  · exact h
  · trivial
  · exact hfg a b h

end Attempt

/-- The characters of a byte string up to its first NUL byte. -/
def Bytes.cString (bs : Bytes) : String :=
  String.ofList ((bs.takeWhile (· ≠ 0)).map fun b => Char.ofNat b.toNat)
