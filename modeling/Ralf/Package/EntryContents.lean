import Ralf.Oci.ArchiveBackingStore
import Ralf.W3c.Package

/-!
# The contents of an entry

`readArchiveFileEntry` calls `readData` until a call gives no more bytes. There are two
copies of it, and in both the end of the data and a failure end the loop alike, and the
declared size of the entry is only an upper bound. `readArchiveFileEntry_exact_iff` says
for which results of the calls the contents that are returned are complete.
-/

open Archive

namespace Archive

/-! ## The loop -/

/-- What a call of `readData` gives: the bytes that it read, none at the end, or a negative
value. -/
inductive ReadData
  | read (bytes : Bytes)
  | failed
  deriving DecidableEq, Repr

def ReadData.bytes : ReadData → Bytes
  | read bytes => bytes
  | failed => []

/-- The loop from a call on. It gives the result and the number of calls that were made. -/
def copyLoop (readData : Nat → ReadData) (size : Nat) :
    Nat → Nat → Bytes → Option (Result Bytes × Nat)
  | 0, _, _ => none
  | fuel + 1, call, buffer =>
    match readData call with
    | .failed => some (.ok buffer, call + 1)
    | .read [] => some (.ok buffer, call + 1)
    | .read (first :: rest) =>
      if buffer.length + (first :: rest).length > size then
        some (.error (.ralf .packageFileTooLarge "File is too large"), call + 1)
      else copyLoop readData size fuel (call + 1) (buffer ++ first :: rest)

end Archive

/-- `OCIArchiveBackingStore::readArchiveFileEntry`, by the results of its calls. A call that goes on
adds a byte at least. -/
def Oci.readEntryCalls (readData : Nat → ReadData) (declared maxSize : Int) :
    Option (Result Bytes × Nat) :=
  if declared < 0 ∨ declared > maxSize then
    some (.error (.ralf .packageFileTooLarge "File is too large"), 0)
  else copyLoop readData declared.toNat (declared.toNat + 1) 0 []

/-- `W3CPackage::readArchiveFileEntry`. The size was checked by the callers. -/
def W3c.readEntryCalls (readData : Nat → ReadData) (size : Nat) : Option (Result Bytes × Nat) :=
  copyLoop readData size (size + 1) 0 []

namespace Archive

section
variable (readData : Nat → ReadData)

/-- The bytes of the first calls. -/
def delivered (n : Nat) : Bytes := ((List.range n).map fun call => (readData call).bytes).flatten

/-- The call is the first one without bytes. -/
structure EndsAt (n : Nat) : Prop where
  before : ∀ call < n, (readData call).bytes ≠ []
  last : (readData n).bytes = []

/-- If the data up to the first call without bytes is not too long, it has the size, and that call
is no failure. -/
def EndsExactly (size : Nat) : Prop :=
  ∀ n, EndsAt readData n → (delivered readData n).length ≤ size →
    readData n ≠ .failed ∧ (delivered readData n).length = size

/-- There is a result, and contents only without a failed call and with the declared size. -/
def ExactContents (declared : Int) (outcome : Option (Result Bytes × Nat)) : Prop :=
  ∃ result calls, outcome = some (result, calls) ∧ ∀ buffer, result = .ok buffer →
    (∀ call < calls, readData call ≠ .failed) ∧ (buffer.length : Int) = declared

end

variable {readData : Nat → ReadData} {size : Nat}

theorem delivered_succ (n : Nat) :
    delivered readData (n + 1) = delivered readData n ++ (readData n).bytes := by
  unfold delivered
  rw [List.range_succ, List.map_append, List.flatten_append, List.map_singleton,
    List.flatten_singleton]

theorem delivered_length_mono {m n : Nat} (h : m ≤ n) :
    (delivered readData m).length ≤ (delivered readData n).length := by
  induction n, h using Nat.le_induction with
  | base => exact Nat.le_refl _
  | succ n _ ih =>
    rw [delivered_succ, List.length_append]
    exact ih.trans (Nat.le_add_right _ _)

/-- What the loop returns: the data up to the first call without bytes, or an error at the first
call with which it is too long. -/
inductive Copied (readData : Nat → ReadData) (size : Nat) : Option (Result Bytes × Nat) → Prop
  | ended {n : Nat} (h : EndsAt readData n) (hfits : (delivered readData n).length ≤ size) :
      Copied readData size (some (.ok (delivered readData n), n + 1))
  | tooLarge {n : Nat} (before : ∀ call < n, (readData call).bytes ≠ [])
      (hmore : size < (delivered readData n).length) :
      Copied readData size (some (.error Oci.fileTooLarge, n))

/-- The space in the buffer bounds the number of calls. -/
theorem copyLoop_copied {fuel call : Nat} (before : ∀ k < call, (readData k).bytes ≠ [])
    (hfits : (delivered readData call).length ≤ size)
    (hfuel : size < (delivered readData call).length + fuel) :
    Copied readData size (copyLoop readData size fuel call (delivered readData call)) := by
  induction fuel generalizing call with
  | zero => omega
  | succ fuel ih =>
    unfold copyLoop
    cases hcall : readData call with
    | failed => exact .ended ⟨before, by rw [hcall]; rfl⟩ hfits
    | read bytes =>
      cases bytes with
      | nil => exact .ended ⟨before, by rw [hcall]; rfl⟩ hfits
      | cons first rest =>
        have hnext : delivered readData (call + 1) = delivered readData call ++ first :: rest := by
          rw [delivered_succ, hcall]
          rfl
        have hlength : (delivered readData (call + 1)).length =
            (delivered readData call).length + (first :: rest).length := by
          rw [hnext, List.length_append]
        have hbefore : ∀ k < call + 1, (readData k).bytes ≠ [] := by
          intro k hk
          rcases Nat.lt_succ_iff_lt_or_eq.mp hk with hlt | rfl
          · exact before k hlt
          · rw [hcall]
            exact List.cons_ne_nil _ _
        dsimp only
        split
        · next hmore => exact .tooLarge hbefore (by omega)
        · next hle =>
          rw [← hnext]
          refine ih hbefore (by omega) ?_
          rw [hlength, List.length_cons]
          omega

theorem copyLoop_start (readData : Nat → ReadData) (size : Nat) :
    Copied readData size (copyLoop readData size (size + 1) 0 []) :=
  @copyLoop_copied readData size (size + 1) 0 (fun _ hlt => absurd hlt (Nat.not_lt_zero _))
    (Nat.zero_le size) (by omega)

/-- The contents that are returned are complete exactly if the calls end so. -/
theorem exactContents_iff {outcome : Option (Result Bytes × Nat)}
    (h : Copied readData size outcome) :
    ExactContents readData size outcome ↔ EndsExactly readData size := by
  cases h with
  | @ended n hends hfits =>
    constructor
    · rintro ⟨result, calls, houtcome, hexact⟩ m hm hmfits
      cases houtcome
      -- the loop ends at the first call without bytes
      have hmn : m = n := by
        rcases Nat.lt_trichotomy m n with hlt | heq | hlt
        · exact absurd hm.last (hends.before m hlt)
        · exact heq
        · exact absurd hends.last (hm.before n hlt)
      obtain ⟨hnone, hlength⟩ := hexact _ rfl
      rw [hmn]
      exact ⟨hnone n (Nat.lt_succ_self n), Int.ofNat_inj.mp hlength⟩
    · intro hexactly
      obtain ⟨hlast, hlength⟩ := hexactly n hends hfits
      refine ⟨_, _, rfl, fun buffer hbuffer => ?_⟩
      cases hbuffer
      refine ⟨fun call hcall => ?_, congrArg _ hlength⟩
      rcases Nat.lt_succ_iff_lt_or_eq.mp hcall with hlt | rfl
      · intro hfailed
        exact hends.before call hlt (by rw [hfailed]; rfl)
      · exact hlast
  | @tooLarge n before hmore =>
    refine iff_of_true ⟨_, _, rfl, fun _ hbuffer => (nomatch hbuffer)⟩ fun m hm hmfits => ?_
    have hnm : n ≤ m := Nat.le_of_not_lt fun hlt => before m hlt hm.last
    exact absurd (hmore.trans_le (delivered_length_mono hnm)) hmfits.not_gt

end Archive

/-- Both copies return contents without a failed call and of the declared size only, exactly if the
first call without bytes is the end of the data and the data before it has that size or is too
long. -/
theorem Archive.readArchiveFileEntry_exact_iff (readData : Nat → ReadData) :
    (∀ declared maxSize : Int,
      ExactContents readData declared (Oci.readEntryCalls readData declared maxSize) ↔
        (0 ≤ declared → declared ≤ maxSize → EndsExactly readData declared.toNat)) ∧
    ∀ size : Nat, ExactContents readData size (W3c.readEntryCalls readData size) ↔
      EndsExactly readData size := by
  refine ⟨fun declared maxSize => ?_, fun size => exactContents_iff (copyLoop_start readData size)⟩
  unfold Oci.readEntryCalls
  split
  · next hsize =>
    refine iff_of_true ⟨_, _, rfl, fun _ hbuffer => (nomatch hbuffer)⟩ fun hle hmax => ?_
    omega
  · next hsize =>
    rw [not_or, not_lt, gt_iff_lt, not_lt] at hsize
    rw [imp_iff_right hsize.1, imp_iff_right hsize.2,
      ← exactContents_iff (copyLoop_start readData declared.toNat),
      Int.toNat_of_nonneg hsize.1]

/-- Two bytes of five, and then a failure. -/
def Archive.cutShort : Nat → ReadData
  | 0 => .read [97, 98]
  | _ => .failed

theorem Archive.not_readArchiveFileEntry_exact :
    ¬ ExactContents cutShort 5 (Oci.readEntryCalls cutShort 5 5) ∧
      ¬ ExactContents cutShort 5 (W3c.readEntryCalls cutShort 5) := by
  have hread : copyLoop cutShort 5 6 0 [] = some (.ok [97, 98], 2) := rfl
  have hnot : ¬ ExactContents cutShort 5 (some (.ok [97, 98], 2)) := by
    rintro ⟨result, calls, houtcome, hexact⟩
    cases houtcome
    exact absurd (hexact _ rfl).2 (by decide)
  constructor
  · rw [← hread] at hnot
    exact hnot
  · rw [← hread] at hnot
    exact hnot

