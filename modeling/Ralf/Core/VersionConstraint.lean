import Mathlib.Data.List.DropRight
import Ralf.Core.VersionNumber

/-!
# Version constraints

A constraint is a list of bounds, all of which a version has to satisfy. `fromString`
lowers eight surface forms to such lists, and `toString` prints a list of two bounds as
a range.

The two regular expressions are modelled by matchers; `matchRange_iff` and
`matchPattern_iff` say that they accept the texts of the patterns.
-/

open VersionNumber (versionChar)

namespace VersionConstraint

/-- The types of bounds. -/
inductive ConstraintType
  | greaterThan
  | greaterThanOrEqual
  | lessThan
  | lessThanOrEqual
  | equal
  deriving DecidableEq, Repr

/-- One bound. -/
structure Constraint where
  type : ConstraintType
  version : VersionNumber
  deriving DecidableEq

/-- Whether a version is refused by a bound. -/
def Constraint.rejects (constraint : Constraint) (version : VersionNumber) : Bool :=
  let sign := VersionNumber.compare version constraint.version
  match constraint.type with
  | .greaterThan => sign ≤ 0
  | .greaterThanOrEqual => sign < 0
  | .lessThan => 0 ≤ sign
  | .lessThanOrEqual => 0 < sign
  | .equal => sign ≠ 0

end VersionConstraint

open VersionConstraint in
/-- A version constraint. -/
structure VersionConstraint where
  constraints : List Constraint
  deriving DecidableEq

namespace VersionConstraint

def isSatisfiedBy (c : VersionConstraint) (version : VersionNumber) : Bool :=
  c.constraints.all fun constraint => !constraint.rejects version

/-! ## The patterns -/

/-- The operators of the pattern of a single version. -/
inductive Operator
  | none
  | greaterEqual
  | lessEqual
  | greater
  | less
  | equal
  | caret
  | tilde
  deriving DecidableEq, Repr

def Operator.text : Operator → Text
  | none => []
  | greaterEqual => ['>', '=']
  | lessEqual => ['<', '=']
  | greater => ['>']
  | less => ['<']
  | equal => ['=']
  | caret => ['^']
  | tilde => ['~']

/-- White space in the patterns. -/
def isSpace (ch : Char) : Bool :=
  ch = ' ' || ch = '\t' || ch = '\n' || ch = '\r' || ch = '\x0b' || ch = '\x0c'

/-- The pattern of a range, two versions around a minus sign. -/
def matchRange (s : Text) : Option (Text × Text) :=
  match (s.dropWhile versionChar).dropWhile isSpace with
  | '-' :: rest =>
    let low := s.takeWhile versionChar
    let high := rest.dropWhile isSpace
    if low ≠ [] ∧ high ≠ [] ∧ high.all versionChar then some (low, high) else .none
  | _ => .none

/-- The operator at the start of a text, and the text after it. -/
def takeOperator : Text → Operator × Text
  | '>' :: '=' :: s => (.greaterEqual, s)
  | '<' :: '=' :: s => (.lessEqual, s)
  | '>' :: s => (.greater, s)
  | '<' :: s => (.less, s)
  | '=' :: s => (.equal, s)
  | '^' :: s => (.caret, s)
  | '~' :: s => (.tilde, s)
  | s => (.none, s)

/-- The pattern of a single version. -/
def matchPattern (s : Text) : Option (Operator × Text) :=
  let (op, rest) := takeOperator s
  let version := rest.dropWhile isSpace
  if version ≠ [] ∧ version.all versionChar then some (op, version) else .none

/-! ## Reading -/

/-- The characters that are trimmed. -/
def isBlank (ch : Char) : Bool := ch = ' ' || ch = '\t'

def trim (str : Text) : Text := (str.dropWhile isBlank).rdropWhile isBlank

/-- The bounds of a single version. -/
def lowerSingle (op : Operator) (version : VersionNumber) : List Constraint :=
  match op with
  | .greater => [⟨.greaterThan, version⟩]
  | .greaterEqual => [⟨.greaterThanOrEqual, version⟩]
  | .less => [⟨.lessThan, version⟩]
  | .lessEqual => [⟨.lessThanOrEqual, version⟩]
  | .equal => [⟨.equal, version⟩]
  | .tilde =>
    [⟨.greaterThanOrEqual, version⟩,
      ⟨.lessThan, .ofTwo (version.fieldValue 0) (version.fieldValue 1 + 1)⟩]
  | .caret => [⟨.greaterThanOrEqual, version⟩, ⟨.lessThan, .ofOne (version.fieldValue 0 + 1)⟩]
  | .none => [⟨.greaterThanOrEqual, version⟩, ⟨.lessThan, version.increment⟩]

/-- The bounds of a range. -/
def lowerRange (minVersion maxVersion : VersionNumber) : List Constraint :=
  if maxVersion.fieldCount < kMaxFields then
    [⟨.greaterThanOrEqual, minVersion⟩, ⟨.lessThan, maxVersion.increment⟩]
  else [⟨.greaterThanOrEqual, minVersion⟩, ⟨.lessThanOrEqual, maxVersion⟩]

def invalidFormat : Error :=
  .ralf .versionConstraintInvalid "Invalid version constraint format"

def fromString (str : Text) : Except Fault (Result VersionConstraint) :=
  let trimmedStr := trim str
  if trimmedStr = [] ∨ trimmedStr = ['*'] then .ok (.ok ⟨[]⟩)
  else
    match matchRange trimmedStr with
    | some (low, high) =>
      match VersionNumber.fromString low, VersionNumber.fromString high with
      | .ok (.ok minVersion), .ok (.ok maxVersion) =>
        if 0 < VersionNumber.compare minVersion maxVersion then .ok (.error invalidFormat)
        else .ok (.ok ⟨lowerRange minVersion maxVersion⟩)
      | .error fault, _ => .error fault
      | _, .error fault => .error fault
      | _, _ => .ok (.error invalidFormat)
    | .none =>
      match matchPattern trimmedStr with
      | some (op, version) =>
        match VersionNumber.fromString version with
        | .error fault => .error fault
        | .ok (.error error) => .ok (.error error)
        | .ok (.ok version) => .ok (.ok ⟨lowerSingle op version⟩)
      | .none => .ok (.error invalidFormat)

/-! ## Printing -/

def ConstraintType.text : ConstraintType → Text
  | greaterThan => ['>']
  | greaterThanOrEqual => ['>', '=']
  | lessThan => ['<']
  | lessThanOrEqual => ['<', '=']
  | equal => ['=']

/-- A range of two versions as a text. -/
def rangeText (low high : VersionNumber) : Text :=
  low.toString ++ [' ', '-', ' '] ++ high.toString

def toString (c : VersionConstraint) : Text :=
  match c.constraints with
  | [] => ['*']
  | [constraint] => constraint.type.text ++ constraint.version.toString
  | low :: high :: _ => rangeText low.version high.version

/-! ## What the patterns accept -/

variable {s t low high : Text} {op : Operator} {v w : VersionNumber} {c : VersionConstraint}

/-- A text that the patterns take for a version. -/
def VersionText (s : Text) : Prop := s ≠ [] ∧ ∀ ch ∈ s, versionChar ch = true

theorem versionText_toString (v : VersionNumber) : VersionText v.toString :=
  ⟨v.toString_ne_nil, v.toString_chars⟩

theorem isSpace_of_versionChar {ch : Char} (h : versionChar ch = true) : isSpace ch = false := by
  cases hspace : isSpace ch with
  | false => rfl
  | true =>
    simp only [isSpace, Bool.or_eq_true, decide_eq_true_eq] at hspace
    rcases hspace with ((((rfl | rfl) | rfl) | rfl) | rfl) | rfl <;> exact absurd h (by decide)

theorem versionChar_of_isSpace {ch : Char} (h : isSpace ch = true) : versionChar ch = false := by
  cases hversion : versionChar ch with
  | false => rfl
  | true => exact absurd h (by rw [isSpace_of_versionChar hversion]; decide)

/-- Skipping stops at a character that is not skipped. -/
theorem dropWhile_append_stop {p : Char → Bool} (hs : ∀ ch ∈ s, p ch = true)
    (ht : ∀ ch ∈ t.head?, p ch = false) : (s ++ t).dropWhile p = t := by
  rw [List.dropWhile_append_of_pos hs]
  cases t with
  | nil => rfl
  | cons ch t => rw [List.dropWhile_cons_of_neg (by rw [ht ch rfl]; decide)]

theorem takeWhile_append_stop {p : Char → Bool} (hs : ∀ ch ∈ s, p ch = true)
    (ht : ∀ ch ∈ t.head?, p ch = false) : (s ++ t).takeWhile p = s := by
  rw [List.takeWhile_append_of_pos hs]
  cases t with
  | nil => exact List.append_nil s
  | cons ch t => rw [List.takeWhile_cons_of_neg (by rw [ht ch rfl]; decide), List.append_nil]

theorem VersionText.dropWhile_isSpace (h : VersionText t) (hs : ∀ ch ∈ s, isSpace ch = true) :
    (s ++ t).dropWhile isSpace = t :=
  dropWhile_append_stop hs fun ch hch => isSpace_of_versionChar (h.2 ch (List.mem_of_mem_head? hch))

theorem takeWhile_all {p : Char → Bool} (s : Text) : ∀ ch ∈ s.takeWhile p, p ch = true :=
  fun _ hch => List.mem_takeWhile_imp hch

theorem matchRange_iff : matchRange s = some (low, high) ↔
    ∃ before after, s = low ++ (before ++ '-' :: (after ++ high)) ∧ VersionText low ∧
      VersionText high ∧ (∀ ch ∈ before, isSpace ch = true) ∧ ∀ ch ∈ after, isSpace ch = true := by
  constructor
  · intro h
    unfold matchRange at h
    split at h
    · next rest hrest =>
      dsimp only at h
      split at h
      · next hok =>
        obtain ⟨hlow, hhigh, hall⟩ := hok
        cases h
        refine ⟨(s.dropWhile versionChar).takeWhile isSpace, rest.takeWhile isSpace, ?_,
          ⟨hlow, takeWhile_all s⟩, ⟨hhigh, List.all_eq_true.mp hall⟩, takeWhile_all _,
          takeWhile_all _⟩
        rw [List.takeWhile_append_dropWhile, ← hrest, List.takeWhile_append_dropWhile,
          List.takeWhile_append_dropWhile]
      · cases h
    · cases h
  · rintro ⟨before, after, rfl, hlow, hhigh, hbefore, hafter⟩
    -- what follows the first version starts with white space or the minus sign
    have hstop : ∀ ch ∈ (before ++ '-' :: (after ++ high)).head?, versionChar ch = false := by
      cases before with
      | nil =>
        rintro ch hch
        cases hch
        decide
      | cons b before =>
        rintro ch hch
        cases hch
        exact versionChar_of_isSpace (hbefore b List.mem_cons_self)
    have hminus : ∀ ch ∈ ('-' :: (after ++ high)).head?, isSpace ch = false := by
      rintro ch hch
      cases hch
      decide
    unfold matchRange
    rw [dropWhile_append_stop hlow.2 hstop, dropWhile_append_stop hbefore hminus,
      takeWhile_append_stop hlow.2 hstop]
    show (if low ≠ [] ∧ (after ++ high).dropWhile isSpace ≠ [] ∧
      ((after ++ high).dropWhile isSpace).all versionChar then
        some (low, (after ++ high).dropWhile isSpace) else none) = some (low, high)
    rw [hhigh.dropWhile_isSpace hafter]
    exact if_pos ⟨hlow.1, hhigh.1, List.all_eq_true.mpr hhigh.2⟩

/-- The operator of a text that goes on with white space or a version. -/
theorem takeOperator_text (hs : ∀ ch ∈ s.head?, isSpace ch = true ∨ versionChar ch = true) :
    takeOperator (op.text ++ s) = (op, s) := by
  cases s with
  | nil => cases op <;> rfl
  | cons ch s =>
    -- none of the operators' characters can follow the operator
    have hne : ∀ mark ∈ ['>', '<', '=', '^', '~'], ch ≠ mark := by
      rintro mark hmark rfl
      have hbad : ∀ mark ∈ ['>', '<', '=', '^', '~'],
          ¬ (isSpace mark = true ∨ versionChar mark = true) := by
        simp [isSpace, versionChar]
      exact hbad ch hmark (hs ch rfl)
    simp only [List.forall_mem_cons] at hne
    obtain ⟨hgreater, hless, hequal, hcaret, htilde, -⟩ := hne
    cases op <;> simp [Operator.text, takeOperator, hgreater, hless, hequal, hcaret, htilde]

theorem takeOperator_eq (s : Text) : (takeOperator s).1.text ++ (takeOperator s).2 = s := by
  unfold takeOperator
  split <;> rfl

theorem matchPattern_iff : matchPattern s = some (op, t) ↔
    ∃ before, s = op.text ++ (before ++ t) ∧ VersionText t ∧ ∀ ch ∈ before, isSpace ch = true := by
  constructor
  · intro h
    unfold matchPattern at h
    dsimp only at h
    split at h
    · next hok =>
      cases h
      refine ⟨(takeOperator s).2.takeWhile isSpace, ?_, ⟨hok.1, List.all_eq_true.mp hok.2⟩,
        takeWhile_all _⟩
      rw [List.takeWhile_append_dropWhile, takeOperator_eq]
    · cases h
  · rintro ⟨before, rfl, ht, hbefore⟩
    have hhead : ∀ ch ∈ (before ++ t).head?, isSpace ch = true ∨ versionChar ch = true := by
      intro ch hch
      rcases List.mem_append.mp (List.mem_of_mem_head? hch) with hmem | hmem
      · exact .inl (hbefore ch hmem)
      · exact .inr (ht.2 ch hmem)
    unfold matchPattern
    rw [takeOperator_text hhead]
    dsimp only
    rw [ht.dropWhile_isSpace hbefore]
    exact if_pos ⟨ht.1, List.all_eq_true.mpr ht.2⟩

/-- The two patterns have no text in common: only one of them has a minus sign. -/
theorem matchRange_eq_none (h : matchPattern s = some (op, t)) : matchRange s = none := by
  obtain ⟨sep, hs, ht, hsep⟩ := matchPattern_iff.mp h
  cases hrange : matchRange s with
  | none => rfl
  | some versions =>
    obtain ⟨low, high⟩ := versions
    obtain ⟨before, after, hs', -⟩ := matchRange_iff.mp hrange
    have hmem : '-' ∈ op.text ++ (sep ++ t) := by
      rw [← hs, hs']
      simp
    rcases List.mem_append.mp hmem with hmem | hmem
    · cases op <;> exact absurd hmem (by decide)
    rcases List.mem_append.mp hmem with hmem | hmem
    · exact absurd (hsep _ hmem) (by decide)
    · exact absurd (ht.2 _ hmem) (by decide)

theorem trim_eq_self (hfirst : ∀ ch ∈ s.head?, isBlank ch = false)
    (hlast : ∀ ch ∈ s.getLast?, isBlank ch = false) : trim s = s := by
  have hdrop : s.dropWhile isBlank = s := by
    cases s with
    | nil => rfl
    | cons ch s => exact List.dropWhile_cons_of_neg (by rw [hfirst ch rfl]; decide)
  unfold trim
  rw [hdrop, List.rdropWhile_eq_self_iff]
  intro hne
  rw [hlast _ (List.getLast?_eq_some_getLast hne)]
  decide

theorem isBlank_of_versionChar {ch : Char} (h : versionChar ch = true) : isBlank ch = false := by
  cases hblank : isBlank ch with
  | false => rfl
  | true =>
    simp only [isBlank, Bool.or_eq_true, decide_eq_true_eq] at hblank
    rcases hblank with rfl | rfl <;> exact absurd h (by decide)

/-- A text that ends in a version has nothing to trim there. -/
theorem trim_append (ht : VersionText t) (hfirst : ∀ ch ∈ (s ++ t).head?, isBlank ch = false) :
    trim (s ++ t) = s ++ t := by
  refine trim_eq_self hfirst fun ch hch => isBlank_of_versionChar (ht.2 ch ?_)
  rw [List.getLast?_append_of_ne_nil s ht.1] at hch
  exact List.mem_of_mem_getLast? hch

theorem Operator.text_chars (op : Operator) : ∀ ch ∈ op.text, isBlank ch = false ∧ ch ≠ '*' := by
  cases op <;> simp [Operator.text, isBlank]

/-- How the text of a single version is read. -/
theorem fromString_single (op : Operator) (v : VersionNumber) :
    fromString (op.text ++ v.toString) =
      match VersionNumber.fromString v.toString with
      | .error fault => .error fault
      | .ok (.error error) => .ok (.error error)
      | .ok (.ok version) => .ok (.ok ⟨lowerSingle op version⟩) := by
  have hv := versionText_toString v
  have hmatch : matchPattern (op.text ++ v.toString) = some (op, v.toString) :=
    matchPattern_iff.mpr ⟨[], rfl, hv, by simp⟩
  have htrim : trim (op.text ++ v.toString) = op.text ++ v.toString := by
    refine trim_append hv fun ch hch => ?_
    rcases List.mem_append.mp (List.mem_of_mem_head? hch) with hmem | hmem
    · exact (op.text_chars ch hmem).1
    · exact isBlank_of_versionChar (hv.2 ch hmem)
  have hnil : op.text ++ v.toString ≠ [] := List.append_ne_nil_of_right_ne_nil _ hv.1
  have hstar : op.text ++ v.toString ≠ ['*'] := by
    intro hstar
    have hmem : '*' ∈ op.text ++ v.toString := by
      rw [hstar]
      exact List.mem_singleton_self _
    rcases List.mem_append.mp hmem with hmem | hmem
    · exact (op.text_chars _ hmem).2 rfl
    · exact absurd (hv.2 _ hmem) (by decide)
  unfold fromString
  dsimp only
  rw [htrim, if_neg (not_or.mpr ⟨hnil, hstar⟩), matchRange_eq_none hmatch]
  dsimp only
  rw [hmatch]

/-- How the text of a range is read. -/
theorem fromString_range (v w : VersionNumber) :
    fromString (rangeText v w) =
      match VersionNumber.fromString v.toString, VersionNumber.fromString w.toString with
      | .ok (.ok minVersion), .ok (.ok maxVersion) =>
        if 0 < VersionNumber.compare minVersion maxVersion then .ok (.error invalidFormat)
        else .ok (.ok ⟨lowerRange minVersion maxVersion⟩)
      | .error fault, _ => .error fault
      | _, .error fault => .error fault
      | _, _ => .ok (.error invalidFormat) := by
  have hv := versionText_toString v
  have hw := versionText_toString w
  have hmatch : matchRange (rangeText v w) = some (v.toString, w.toString) :=
    matchRange_iff.mpr ⟨[' '], [' '], by simp [rangeText], hv, hw, by simp; decide, by simp; decide⟩
  have htrim : trim (rangeText v w) = rangeText v w := by
    refine trim_append hw fun ch hch => isBlank_of_versionChar (hv.2 ch ?_)
    rw [List.append_assoc, List.head?_append_of_ne_nil _ hv.1] at hch
    exact List.mem_of_mem_head? hch
  have hmem : '-' ∈ rangeText v w := by simp [rangeText]
  have hnil : rangeText v w ≠ [] := List.ne_nil_of_mem hmem
  have hstar : rangeText v w ≠ ['*'] := by
    intro hstar
    rw [hstar] at hmem
    exact absurd hmem (by decide)
  unfold fromString
  dsimp only
  rw [htrim, if_neg (not_or.mpr ⟨hnil, hstar⟩), hmatch]

end VersionConstraint
