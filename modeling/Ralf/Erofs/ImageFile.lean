import Ralf.Core.Error

/-!
# Image files

`IErofsImageFile` is the interface through which an EROFS image is read. A read
is for as many bytes as the buffer it is given has, and succeeds only when it
fills the buffer. A failed read may leave any bytes in the buffer. The file has a
state of its own, since the bytes may be verified, cached or changed on the way.
-/

namespace Erofs

/-- A file that an EROFS image is read from, over the states `σ`. -/
structure IErofsImageFile (σ : Type) where
  size : Nat
  size_lt : size < 2 ^ 64
  read : σ → Bytes → Nat → Bool × Bytes × σ
  read_length : ∀ s buffer offset, (read s buffer offset).2.1.length = buffer.length

variable {σ : Type} (file : IErofsImageFile σ)

/-- A read into a zeroed buffer: the bytes, if it succeeds. -/
def IErofsImageFile.readBytes (size offset : Nat) (s : σ) : Option Bytes × σ :=
  match file.read s (List.replicate size 0) offset with
  | (true, data, s) => (some data, s)
  | (false, _, s) => (none, s)

/-- A file that does not change, given by its bytes. Every read inside it succeeds. -/
def imageOf (size : Nat) (h : size < 2 ^ 64) (byte : Nat → UInt8) : IErofsImageFile Unit where
  size := size
  size_lt := h
  read _ buffer offset :=
    if offset ≥ size ∨ buffer.length > size - offset then (false, buffer, ())
    else (true, (List.range buffer.length).map fun i => byte (offset + i), ())
  read_length _ buffer offset := by
    split
    · rfl
    · simp

end Erofs
