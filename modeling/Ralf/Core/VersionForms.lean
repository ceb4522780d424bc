import Ralf.Core.VersionConstraint

/-!
# What the surface forms mean

A surface form is an operator with a version, or a range. Each has a meaning in terms of
the order of versions and of their first fields, and the bounds that the form is lowered to
say the same except where a field is at its maximum and the upper bound wraps to zero.

Printing a constraint of two bounds gives a range, which is read with a bound that includes
the printed one.
-/

open VersionNumber

namespace VersionConstraint

variable {v w : VersionNumber} {c : VersionConstraint}

/-! ## Bounds -/

/-- The bound as a condition on the number of a version. -/
def Constraint.Bounds (constraint : Constraint) (n : Nat) : Prop :=
  match constraint.type with
  | .greaterThan => constraint.version.rank < n
  | .greaterThanOrEqual => constraint.version.rank ≤ n
  | .lessThan => n < constraint.version.rank
  | .lessThanOrEqual => n ≤ constraint.version.rank
  | .equal => n = constraint.version.rank

theorem Constraint.rejects_iff (constraint : Constraint) :
    constraint.rejects v = false ↔ constraint.Bounds v.rank := by
  obtain ⟨type, bound⟩ := constraint
  unfold rejects Bounds
  dsimp only
  rw [compare_eq_order]
  unfold order
  cases type <;> dsimp only <;> split_ifs <;> simp <;> omega

theorem isSatisfiedBy_iff : c.isSatisfiedBy v = true ↔
    ∀ constraint ∈ c.constraints, constraint.Bounds v.rank := by
  unfold isSatisfiedBy
  rw [List.all_eq_true]
  simp only [Bool.not_eq_true', Constraint.rejects_iff]

theorem satisfies_window {low high : VersionNumber} :
    isSatisfiedBy ⟨[⟨.greaterThanOrEqual, low⟩, ⟨.lessThan, high⟩]⟩ v = true ↔
      low.rank ≤ v.rank ∧ v.rank < high.rank := by
  rw [isSatisfiedBy_iff, List.forall_mem_cons, List.forall_mem_singleton]
  rfl

theorem satisfies_closed {low high : VersionNumber} :
    isSatisfiedBy ⟨[⟨.greaterThanOrEqual, low⟩, ⟨.lessThanOrEqual, high⟩]⟩ v = true ↔
      low.rank ≤ v.rank ∧ v.rank ≤ high.rank := by
  rw [isSatisfiedBy_iff, List.forall_mem_cons, List.forall_mem_singleton]
  rfl

theorem satisfies_one {constraint : Constraint} :
    isSatisfiedBy ⟨[constraint]⟩ v = true ↔ constraint.Bounds v.rank := by
  rw [isSatisfiedBy_iff, List.forall_mem_singleton]

/-! ## Surface forms -/

/-- The forms of a constraint with a version. -/
inductive Form
  | single (op : Operator) (version : VersionNumber)
  | range (minVersion maxVersion : VersionNumber)

namespace Form

def text : Form → Text
  | single op version => op.text ++ version.toString
  | range minVersion maxVersion => rangeText minVersion maxVersion

/-- The version of a form, of a range the first one. -/
def version : Form → VersionNumber
  | single _ version => version
  | range minVersion _ => minVersion

/-- Whether the version of a form is to satisfy it. -/
def Reflexive : Form → Prop
  | single op _ => op ≠ .greater ∧ op ≠ .less
  | range _ _ => True

/-- What a form says of a version. -/
def Meaning (v : VersionNumber) : Form → Prop
  | single .none version => IsPrefix version v
  | single .greaterEqual version => version ≤ v
  | single .lessEqual version => v ≤ version
  | single .greater version => version < v
  | single .less version => v < version
  | single .equal version => VersionNumber.compare v version = 0
  | single .tilde version =>
    version ≤ v ∧ v.fieldValue 0 = version.fieldValue 0 ∧ v.fieldValue 1 = version.fieldValue 1
  | single .caret version => version ≤ v ∧ v.fieldValue 0 = version.fieldValue 0
  | range minVersion maxVersion => minVersion ≤ v ∧ (v ≤ maxVersion ∨ IsPrefix maxVersion v)

/-- The field that the upper bound increments is at its maximum. -/
def Overflows : Form → Prop
  | single .none version => version.fields = [uint32Max]
  | single .tilde version => version.fieldValue 1 = uint32Max
  | single .caret version => version.fieldValue 0 = uint32Max
  | single _ _ => False
  | range _ maxVersion => maxVersion.fields = [uint32Max]

/-- The bounds of a form. -/
def lower : Form → VersionConstraint
  | single op version => ⟨lowerSingle op version⟩
  | range minVersion maxVersion => ⟨lowerRange minVersion maxVersion⟩

/-- The forms that can be read. -/
def Readable : Form → Prop
  | single _ version => version.Printable
  | range minVersion maxVersion =>
    minVersion.Printable ∧ maxVersion.Printable ∧ minVersion ≤ maxVersion

variable {x : Form}

theorem fromString_text_ok (h : fromString x.text = .ok (.ok c)) : c = x.lower ∧ x.Readable := by
  cases x with
  | single op v =>
    rw [text, fromString_single] at h
    rcases fromString_toString v with ⟨hv, hread⟩ | ⟨-, error, hread⟩
    · rw [hread] at h
      cases h
      exact ⟨rfl, hv⟩
    · rw [hread] at h
      cases h
  | range v w =>
    rw [text, fromString_range] at h
    rcases fromString_toString v with ⟨hv, hread⟩ | ⟨-, error, hread⟩
    · rcases fromString_toString w with ⟨hw, hread'⟩ | ⟨-, error, hread'⟩
      · rw [hread, hread'] at h
        dsimp only at h
        split at h
        · cases h
        · next hle =>
          cases h
          exact ⟨rfl, hv, hw, Int.not_lt.mp hle⟩
      · rw [hread, hread'] at h
        cases h
    · rcases fromString_toString w with ⟨hw, hread'⟩ | ⟨-, error', hread'⟩
      · rw [hread, hread'] at h
        cases h
      · rw [hread, hread'] at h
        cases h

/-! ## The upper bounds -/

/-- The first two fields of a version, without overflow. -/
theorem tilde_window (hmax : v.fieldValue 1 ≠ uint32Max) :
    v.rank ≤ w.rank ∧ w.rank < (ofTwo (v.fieldValue 0) (v.fieldValue 1 + 1)).rank ↔
      v ≤ w ∧ w.fieldValue 0 = v.fieldValue 0 ∧ w.fieldValue 1 = v.fieldValue 1 := by
  have hlow := isPrefix_iff.mp ((@isPrefix_ofTwo v _ _).mpr ⟨rfl, rfl⟩)
  have hsucc := toNat_add_one (UInt32.lt_of_le_of_ne (le_uint32Max _) hmax)
  have hstep : (ofTwo (v.fieldValue 0) (v.fieldValue 1)).step = (2 ^ 32) ^ 2 := rfl
  rw [← isPrefix_ofTwo, isPrefix_iff, le_iff]
  rw [hstep, rank_ofTwo] at hlow ⊢
  rw [rank_ofTwo, hsucc]
  omega

/-- The bound wraps to the first of the two fields alone. -/
theorem tilde_overflow (hmax : v.fieldValue 1 = uint32Max) :
    (ofTwo (v.fieldValue 0) (v.fieldValue 1 + 1)).rank ≤ v.rank := by
  have hlow := isPrefix_iff.mp ((@isPrefix_ofTwo v _ _).mpr ⟨rfl, rfl⟩)
  rw [rank_ofTwo] at hlow ⊢
  rw [hmax] at hlow ⊢
  have hzero : (uint32Max + 1).toNat = 0 := rfl
  rw [hzero]
  omega

theorem caret_window (hmax : v.fieldValue 0 ≠ uint32Max) :
    v.rank ≤ w.rank ∧ w.rank < (ofOne (v.fieldValue 0 + 1)).rank ↔
      v ≤ w ∧ w.fieldValue 0 = v.fieldValue 0 := by
  have hlow := isPrefix_iff.mp ((@isPrefix_ofOne v _).mpr rfl)
  have hsucc := toNat_add_one (UInt32.lt_of_le_of_ne (le_uint32Max _) hmax)
  have hstep : (ofOne (v.fieldValue 0)).step = (2 ^ 32) ^ 3 := rfl
  rw [← isPrefix_ofOne, isPrefix_iff, le_iff]
  rw [hstep, rank_ofOne] at hlow ⊢
  rw [rank_ofOne, hsucc]
  omega

theorem caret_overflow (hmax : v.fieldValue 0 = uint32Max) :
    (ofOne (v.fieldValue 0 + 1)).rank = 0 := by
  rw [rank_ofOne, hmax]
  rfl

theorem rank_increment_of_ne (hv : v.Printable) (hmax : v.fields ≠ [uint32Max]) :
    v.increment.rank = v.rank + v.step := by
  rw [rank_increment, if_neg fun hcarry =>
    hmax (hv.overflows_iff.mp ((incrementFields_carry _).mp hcarry))]

theorem rank_increment_of_eq (hmax : v.fields = [uint32Max]) : v.increment.rank = 0 := by
  rw [rank_increment, if_pos ((incrementFields_carry _).mpr ?_)]
  rw [hmax]
  simp

/-! ## Meaning and bounds -/

theorem lower_iff_meaning (hread : x.Readable) (hmax : ¬ x.Overflows) :
    x.lower.isSatisfiedBy v = true ↔ x.Meaning v := by
  cases x with
  | single op w =>
    cases op with
    | none =>
      rw [lower, lowerSingle, satisfies_window, rank_increment_of_ne hread hmax]
      exact isPrefix_iff.symm
    | greaterEqual => rw [lower, lowerSingle, satisfies_one]; exact le_iff.symm
    | lessEqual => rw [lower, lowerSingle, satisfies_one]; exact le_iff.symm
    | greater => rw [lower, lowerSingle, satisfies_one]; exact lt_iff.symm
    | less => rw [lower, lowerSingle, satisfies_one]; exact lt_iff.symm
    | equal => rw [lower, lowerSingle, satisfies_one]; exact compare_eq_zero_iff.symm
    | caret => rw [lower, lowerSingle, satisfies_window]; exact caret_window hmax
    | tilde => rw [lower, lowerSingle, satisfies_window]; exact tilde_window hmax
  | range low high =>
    obtain ⟨-, hhigh, -⟩ := hread
    have hstart := @isPrefix_iff high v
    have hstep := high.step_pos
    show _ ↔ low ≤ v ∧ (v ≤ high ∨ IsPrefix high v)
    rw [le_iff, le_iff, hstart, lower, lowerRange]
    split
    · rw [satisfies_window, rank_increment_of_ne hhigh hmax]
      omega
    · next hcount =>
      -- four fields leave nothing after them
      have hone : high.step = 1 := by
        unfold step
        rw [Nat.sub_eq_zero_of_le (Nat.not_lt.mp hcount), Nat.pow_zero]
      rw [satisfies_closed, hone]
      omega

theorem lower_overflow (hmax : x.Overflows) : x.lower.isSatisfiedBy v = false := by
  rw [← Bool.not_eq_true]
  cases x with
  | single op w =>
    cases op with
    | none =>
      rw [lower, lowerSingle, satisfies_window, rank_increment_of_eq hmax]
      omega
    | caret =>
      rw [lower, lowerSingle, satisfies_window, caret_overflow hmax]
      omega
    | tilde =>
      have hle := tilde_overflow hmax
      rw [lower, lowerSingle, satisfies_window]
      omega
    | greaterEqual => exact hmax.elim
    | lessEqual => exact hmax.elim
    | greater => exact hmax.elim
    | less => exact hmax.elim
    | equal => exact hmax.elim
  | range low high =>
    have hmax : high.fields = [uint32Max] := hmax
    have hcount : high.fieldCount < kMaxFields := by
      unfold fieldCount
      rw [hmax]
      decide
    rw [lower, lowerRange, if_pos hcount, satisfies_window, rank_increment_of_eq hmax]
    omega

theorem meaning_version (hread : x.Readable) (hreflexive : x.Reflexive) : x.Meaning x.version := by
  cases x with
  | single op w =>
    cases op with
    | none => exact isPrefix_self w
    | greaterEqual => exact le_iff.mpr (Nat.le_refl _)
    | lessEqual => exact le_iff.mpr (Nat.le_refl _)
    | greater => exact absurd rfl hreflexive.1
    | less => exact absurd rfl hreflexive.2
    | equal => exact compare_eq_zero_iff.mpr rfl
    | caret => exact ⟨le_iff.mpr (Nat.le_refl _), rfl⟩
    | tilde => exact ⟨le_iff.mpr (Nat.le_refl _), rfl, rfl⟩
  | range low high => exact ⟨le_iff.mpr (Nat.le_refl _), .inl hread.2.2⟩

/-- A form that can be overflown is satisfied by its version. -/
theorem reflexive_of_overflows (hmax : x.Overflows) : x.Reflexive := by
  cases x with
  | single op w =>
    cases op with
    | none => exact ⟨by decide, by decide⟩
    | caret => exact ⟨by decide, by decide⟩
    | tilde => exact ⟨by decide, by decide⟩
    | greaterEqual => exact hmax.elim
    | lessEqual => exact hmax.elim
    | greater => exact hmax.elim
    | less => exact hmax.elim
    | equal => exact hmax.elim
  | range low high => trivial

/-- The bounds of a form mean what the form says exactly when no field overflows. -/
theorem satisfied_iff_meaning (x : Form) (c : VersionConstraint)
    (h : fromString x.text = .ok (.ok c)) :
    ((∀ v, c.isSatisfiedBy v = true ↔ x.Meaning v) ∧
        (x.Reflexive → c.isSatisfiedBy x.version = true)) ↔ ¬ x.Overflows := by
  obtain ⟨rfl, hread⟩ := fromString_text_ok h
  constructor
  · rintro ⟨-, hself⟩ hmax
    have hsat := hself (reflexive_of_overflows hmax)
    rw [lower_overflow hmax] at hsat
    cases hsat
  · intro hmax
    have hmeaning := fun v => @lower_iff_meaning v x hread hmax
    exact ⟨hmeaning, fun hreflexive => (hmeaning _).mpr (meaning_version hread hreflexive)⟩

/-- With the largest field no version satisfies the bounds, not even the form's own. -/
theorem not_satisfied_meaning :
    ¬ ∀ (x : Form) (c : VersionConstraint), fromString x.text = .ok (.ok c) →
      (∀ v, c.isSatisfiedBy v = true ↔ x.Meaning v) ∧
        (x.Reflexive → c.isSatisfiedBy x.version = true) := by
  intro h
  have hself := (h (.single .none (.ofOne uint32Max))
    ⟨[⟨.greaterThanOrEqual, .ofOne uint32Max⟩, ⟨.lessThan, .ofOne 0⟩]⟩ (by decide +kernel)).2
  exact absurd (hself ⟨by decide, by decide⟩) (by decide +kernel)

/-- The theorem on `~1.2`. -/
theorem satisfied_iff_meaning_tilde :
    ((∀ v, isSatisfiedBy ⟨[⟨.greaterThanOrEqual, .ofTwo 1 2⟩, ⟨.lessThan, .ofTwo 1 3⟩]⟩ v = true ↔
        (Form.single .tilde (.ofTwo 1 2)).Meaning v) ∧
      ((Form.single .tilde (.ofTwo 1 2)).Reflexive →
        isSatisfiedBy ⟨[⟨.greaterThanOrEqual, .ofTwo 1 2⟩, ⟨.lessThan, .ofTwo 1 3⟩]⟩
          (.ofTwo 1 2) = true)) ↔
      ¬ (Form.single .tilde (.ofTwo 1 2)).Overflows :=
  satisfied_iff_meaning (.single .tilde (.ofTwo 1 2)) _ (by decide +kernel)

end Form

/-! ## Printing and reading again -/

variable {s : Text}

/-- The operators that are lowered to one bound. -/
def Operator.OneBound (op : Operator) : Prop := op ≠ .none ∧ op ≠ .caret ∧ op ≠ .tilde

/-- The texts of constraints that are printed as they were meant. -/
def RoundTrips (s : Text) : Prop :=
  (trim s = [] ∨ trim s = ['*']) ∨
  (∃ op t, matchPattern (trim s) = some (op, t) ∧ op.OneBound) ∨
  ∃ low high w, matchRange (trim s) = some (low, high) ∧
    VersionNumber.fromString high = .ok (.ok w) ∧ w.fieldCount = kMaxFields

/-- What an accepted text looks like. -/
inductive Accepted (s : Text) : VersionConstraint → Prop
  | any (h : trim s = [] ∨ trim s = ['*']) : Accepted s ⟨[]⟩
  | range {low high : Text} {v w : VersionNumber} (h : ¬ (trim s = [] ∨ trim s = ['*']))
      (hmatch : matchRange (trim s) = some (low, high))
      (hv : VersionNumber.fromString low = .ok (.ok v))
      (hw : VersionNumber.fromString high = .ok (.ok w)) (hle : v ≤ w) :
      Accepted s ⟨lowerRange v w⟩
  | single {op : Operator} {t : Text} {v : VersionNumber} (h : ¬ (trim s = [] ∨ trim s = ['*']))
      (hmatch : matchPattern (trim s) = some (op, t))
      (hv : VersionNumber.fromString t = .ok (.ok v)) : Accepted s ⟨lowerSingle op v⟩

theorem accepted_of_fromString (h : fromString s = .ok (.ok c)) : Accepted s c := by
  unfold fromString at h
  dsimp only at h
  split at h
  · next htrim =>
    cases h
    exact .any htrim
  next htrim =>
  split at h
  · next low high hmatch =>
    split at h
    · next v w hv hw =>
      split at h
      · cases h
      · next hle =>
        cases h
        exact .range htrim hmatch hv hw (Int.not_lt.mp hle)
    · cases h
    · cases h
    · cases h
  · split at h
    · next op t hmatch =>
      split at h
      · cases h
      · cases h
      · next v hv =>
        cases h
        exact .single htrim hmatch hv
    · cases h

/-- The bound that was printed is not satisfied by itself, but the bound that is read is. -/
theorem not_roundtrip {high : VersionNumber} (hlt : high.fields = [uint32Max] → v < high) :
    ¬ ∃ c', fromString (rangeText v high) = .ok (.ok c') ∧
      ∀ u, c'.isSatisfiedBy u =
        isSatisfiedBy ⟨[⟨.greaterThanOrEqual, v⟩, ⟨.lessThan, high⟩]⟩ u := by
  rintro ⟨c', hread, hsame⟩
  obtain ⟨rfl, hreadable⟩ := @Form.fromString_text_ok c' (.range v high) hread
  by_cases hmax : high.fields = [uint32Max]
  · -- read again, the bound wraps and refuses the lower one
    have hself := hsame v
    have hwindow := lt_iff.mp (hlt hmax)
    rw [@Form.lower_overflow v (.range v high) hmax, eq_comm, ← Bool.not_eq_true,
      satisfies_window] at hself
    omega
  · have hsat := (@Form.lower_iff_meaning high (.range v high) hreadable hmax).mpr
      ⟨hreadable.2.2, .inl (le_iff.mpr (Nat.le_refl _))⟩
    rw [hsame, satisfies_window] at hsat
    omega

theorem lt_increment (hv : v.Printable) (hne : v.increment.rank ≠ 0) : v < v.increment := by
  have hmax : v.fields ≠ [uint32Max] := fun hmax => hne (Form.rank_increment_of_eq hmax)
  have hstep := v.step_pos
  rw [lt_iff, Form.rank_increment_of_ne hv hmax]
  omega

theorem rank_ne_zero_of_max (h : v.fields = [uint32Max]) : v.rank ≠ 0 := by
  unfold rank
  rw [h]
  decide +kernel

theorem lt_increment_of_max (hv : v.Printable) (h : v.increment.fields = [uint32Max]) :
    v < v.increment :=
  lt_increment hv (rank_ne_zero_of_max h)

theorem roundtrip_of_oneBound {op : Operator} {t : Text}
    (hv : VersionNumber.fromString t = .ok (.ok v)) (hop : op.OneBound) :
    fromString (toString ⟨lowerSingle op v⟩) = .ok (.ok ⟨lowerSingle op v⟩) := by
  have htext : toString ⟨lowerSingle op v⟩ = op.text ++ v.toString := by
    cases op with
    | none => exact absurd rfl hop.1
    | caret => exact absurd rfl hop.2.1
    | tilde => exact absurd rfl hop.2.2
    | greaterEqual => rfl
    | lessEqual => rfl
    | greater => rfl
    | less => rfl
    | equal => rfl
  rw [htext, fromString_single, fromString_toString_of_fromString hv]

theorem not_roundtrip_single {op : Operator} {t : Text}
    (hv : VersionNumber.fromString t = .ok (.ok v)) (hop : ¬ op.OneBound) :
    ¬ ∃ c', fromString (toString ⟨lowerSingle op v⟩) = .ok (.ok c') ∧
      ∀ u, c'.isSatisfiedBy u = isSatisfiedBy ⟨lowerSingle op v⟩ u := by
  have hprint := fromString_printable hv
  cases op with
  | none => exact not_roundtrip (lt_increment_of_max hprint)
  | tilde =>
    refine not_roundtrip fun h => ?_
    have hlen : 2 = 1 := congrArg List.length h
    exact absurd hlen (by decide)
  | caret =>
    refine not_roundtrip fun h => ?_
    -- the first field is one below its maximum
    have hmax : v.fieldValue 0 ≠ uint32Max := by
      intro hmax
      have hzero := List.head_eq_of_cons_eq h
      rw [hmax] at hzero
      cases hzero
    exact lt_iff.mpr ((@Form.caret_window v v hmax).mpr ⟨le_iff.mpr (Nat.le_refl _), rfl⟩).2
  | greaterEqual => exact absurd ⟨by decide, by decide, by decide⟩ hop
  | lessEqual => exact absurd ⟨by decide, by decide, by decide⟩ hop
  | greater => exact absurd ⟨by decide, by decide, by decide⟩ hop
  | less => exact absurd ⟨by decide, by decide, by decide⟩ hop
  | equal => exact absurd ⟨by decide, by decide, by decide⟩ hop

theorem roundtrip_of_four {low high : Text} (hv : VersionNumber.fromString low = .ok (.ok v))
    (hw : VersionNumber.fromString high = .ok (.ok w)) (hle : v ≤ w)
    (hcount : w.fieldCount = kMaxFields) :
    fromString (toString ⟨lowerRange v w⟩) = .ok (.ok ⟨lowerRange v w⟩) := by
  have hlower : lowerRange v w = [⟨.greaterThanOrEqual, v⟩, ⟨.lessThanOrEqual, w⟩] :=
    if_neg (Nat.not_lt.mpr hcount.ge)
  have htext : toString ⟨lowerRange v w⟩ = rangeText v w := by
    rw [hlower]
    rfl
  rw [htext, fromString_range, fromString_toString_of_fromString hv,
    fromString_toString_of_fromString hw]
  exact if_neg (Int.not_lt.mpr hle)

theorem not_roundtrip_range {high : Text} (hw : VersionNumber.fromString high = .ok (.ok w))
    (hle : v ≤ w) (hcount : w.fieldCount ≠ kMaxFields) :
    ¬ ∃ c', fromString (toString ⟨lowerRange v w⟩) = .ok (.ok c') ∧
      ∀ u, c'.isSatisfiedBy u = isSatisfiedBy ⟨lowerRange v w⟩ u := by
  have hlower : lowerRange v w = [⟨.greaterThanOrEqual, v⟩, ⟨.lessThan, w.increment⟩] :=
    if_pos (Nat.lt_of_le_of_ne w.length_le hcount)
  rw [hlower]
  refine not_roundtrip fun h => lt_iff.mpr ?_
  exact Nat.lt_of_le_of_lt (le_iff.mp hle)
    (lt_iff.mp (lt_increment_of_max (fromString_printable hw) h))

theorem toString_roundtrip_iff (s : Text) (c : VersionConstraint)
    (h : fromString s = .ok (.ok c)) :
    (∃ c', fromString c.toString = .ok (.ok c') ∧
        ∀ v, c'.isSatisfiedBy v = c.isSatisfiedBy v) ↔ RoundTrips s := by
  cases accepted_of_fromString h with
  | any htrim => exact iff_of_true ⟨⟨[]⟩, by decide +kernel, fun _ => rfl⟩ (.inl htrim)
  | @single op t v htrim hmatch hv =>
    by_cases hop : op.OneBound
    · exact iff_of_true ⟨_, roundtrip_of_oneBound hv hop, fun _ => rfl⟩
        (.inr (.inl ⟨op, t, hmatch, hop⟩))
    · refine iff_of_false (not_roundtrip_single hv hop) ?_
      rintro (htrim' | ⟨op', t', hmatch', hop'⟩ | ⟨low, high, w, hrange, -⟩)
      · exact htrim htrim'
      · rw [hmatch] at hmatch'
        cases hmatch'
        exact hop hop'
      · rw [matchRange_eq_none hmatch] at hrange
        cases hrange
  | @range low high v w htrim hmatch hv hw hle =>
    by_cases hcount : w.fieldCount = kMaxFields
    · exact iff_of_true ⟨_, roundtrip_of_four hv hw hle hcount, fun _ => rfl⟩
        (.inr (.inr ⟨low, high, w, hmatch, hw, hcount⟩))
    · refine iff_of_false (not_roundtrip_range hw hle hcount) ?_
      rintro (htrim' | ⟨op, t, hpattern, -⟩ | ⟨low', high', w', hmatch', hw', hcount'⟩)
      · exact htrim htrim'
      · rw [matchRange_eq_none hpattern] at hmatch
        cases hmatch
      · rw [hmatch] at hmatch'
        cases hmatch'
        rw [hw] at hw'
        cases hw'
        exact hcount hcount'

/-- The text `1.2` is printed as `1.2 - 1.3`, which 1.3 satisfies. -/
theorem not_toString_roundtrip :
    ¬ ∀ (s : Text) (c : VersionConstraint), fromString s = .ok (.ok c) →
      ∀ v, ∃ c', fromString c.toString = .ok (.ok c') ∧
        (c'.isSatisfiedBy v = true ↔ c.isSatisfiedBy v = true) := by
  intro h
  obtain ⟨c', hread, hsame⟩ := h ['1', '.', '2']
    ⟨[⟨.greaterThanOrEqual, .ofTwo 1 2⟩, ⟨.lessThan, .ofTwo 1 3⟩]⟩ (by decide +kernel)
    (.ofTwo 1 3)
  have hprinted : fromString (toString ⟨[⟨.greaterThanOrEqual, .ofTwo 1 2⟩,
      ⟨.lessThan, .ofTwo 1 3⟩]⟩) =
      .ok (.ok ⟨[⟨.greaterThanOrEqual, .ofTwo 1 2⟩, ⟨.lessThan, .ofTwo 1 4⟩]⟩) := by
    decide +kernel
  rw [hprinted] at hread
  cases hread
  exact absurd (hsame.mp (by decide +kernel)) (by decide +kernel)

/-- The theorem on the text `1.2`. -/
theorem toString_roundtrip_iff_bare :
    (∃ c', fromString (toString ⟨[⟨.greaterThanOrEqual, .ofTwo 1 2⟩,
        ⟨.lessThan, .ofTwo 1 3⟩]⟩) = .ok (.ok c') ∧
      ∀ v, c'.isSatisfiedBy v =
        isSatisfiedBy ⟨[⟨.greaterThanOrEqual, .ofTwo 1 2⟩, ⟨.lessThan, .ofTwo 1 3⟩]⟩ v) ↔
      RoundTrips ['1', '.', '2'] :=
  toString_roundtrip_iff ['1', '.', '2'] _ (by decide +kernel)

end VersionConstraint
