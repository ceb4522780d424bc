import Ralf.Lib.Bytes

/-!
# POSIX paths

A `FilePath` is what a path string says: whether it starts at the root, its file names,
and whether it ends in a separator. `parse` reads the string, `components` is the
sequence that iterating a path gives (a trailing separator shows as a last, empty
component), and `lexicallyNormal` removes `.`, `..` and doubled separators.

One path is inside another when its components start with those of the other;
`mismatch` is the usual way to test that.
-/

/-- A path: rooted or relative, its file names, with or without a separator at the
end. -/
structure FilePath where
  rooted : Bool
  names : List Bytes
  trailing : Bool
  deriving DecidableEq, Repr

namespace FilePath

/-- The byte `/`. -/
def separator : UInt8 := 47

/-- The name `.`. -/
def dot : Bytes := [46]

/-- The name `..`. -/
def dotdot : Bytes := [46, 46]

def empty : FilePath := ⟨false, [], false⟩

/-- A relative path made of names. -/
def ofNames (names : List Bytes) : FilePath := ⟨false, names, false⟩

/-- Reads a path string. -/
def parse (s : Bytes) : FilePath :=
  let names := (s.splitOnP (· = separator)).filter (· ≠ [])
  { rooted := s.head? = some separator
    names := names
    trailing := names ≠ [] ∧ s.getLast? = some separator }

/-- The path as a string. -/
def toBytes (p : FilePath) : Bytes :=
  (if p.rooted then [separator] else []) ++ List.intercalate [separator] p.names ++
    if p.trailing then [separator] else []

def isEmpty (p : FilePath) : Bool := !p.rooted && p.names.isEmpty

def isAbsolute (p : FilePath) : Bool := p.rooted

/-- The sequence that iterating the path gives. -/
def components (p : FilePath) : List Bytes :=
  (if p.rooted then [[separator]] else []) ++ p.names ++ if p.trailing then [[]] else []

def hasFilename (p : FilePath) : Bool := !p.trailing && !p.names.isEmpty

/-- The path without its last component. -/
def parentPath (p : FilePath) : FilePath :=
  if p.trailing then { p with trailing := false } else { p with names := p.names.dropLast }

def hasParentPath (p : FilePath) : Bool := !p.parentPath.isEmpty

/-- `operator/=` with one component of a path. -/
def append (p : FilePath) (component : Bytes) : FilePath :=
  if component = [separator] then ⟨true, [], false⟩
  else if component = [] then { p with trailing := p.trailing || p.hasFilename }
  else { p with names := p.names ++ [component], trailing := false }

/-- One name of a path in normal form: `.` goes, `..` takes a name with it. -/
def normalStep (rooted : Bool) (names : List Bytes) (name : Bytes) : List Bytes :=
  if name = dot then names
  else if name = dotdot then
    match names.getLast? with
    | none => if rooted then [] else [dotdot]
    | some last => if last = dotdot then names ++ [dotdot] else names.dropLast
  else names ++ [name]

/-- The normal form. A `.` or `..` that goes leaves the separator before it. -/
def lexicallyNormal (p : FilePath) : FilePath :=
  if p.isEmpty then p
  else
    let names := p.names.foldl (normalStep p.rooted) []
    if names = [] then
      if p.rooted then ⟨true, [], false⟩ else ⟨false, [dot], false⟩
    else
      { rooted := p.rooted
        names := names
        trailing := names.getLast? ≠ some dotdot ∧
          (p.trailing ∨ p.names.getLast? = some dot ∨ p.names.getLast? = some dotdot) }

/-! ## Names of a path -/

theorem mem_splitOnP {s part : Bytes} {p : UInt8 → Bool} (h : part ∈ s.splitOnP p) {x : UInt8}
    (hx : x ∈ part) : p x = false := by
  induction s generalizing part with
  | nil =>
    rw [List.splitOnP_nil, List.mem_singleton] at h
    rw [h] at hx
    exact absurd hx List.not_mem_nil
  | cons c s ih =>
    rw [List.splitOnP_cons_eq_if_modifyHead] at h
    by_cases hc : p c = true
    · rw [if_pos hc] at h
      rcases List.mem_cons.mp h with rfl | h
      · exact absurd hx List.not_mem_nil
      · exact ih h hx
    · obtain ⟨first, rest, hparts⟩ := List.exists_cons_of_ne_nil (List.splitOnP_ne_nil p s)
      rw [if_neg hc, hparts, List.modifyHead_cons] at h
      rcases List.mem_cons.mp h with rfl | h
      · rcases List.mem_cons.mp hx with rfl | hx
        · exact Bool.eq_false_iff.mpr hc
        · exact ih (hparts ▸ List.mem_cons_self) hx
      · exact ih (hparts ▸ List.mem_cons_of_mem _ h) hx

/-- The names of a parsed path are not empty and hold no separator. -/
theorem mem_parse_names {s name : Bytes} (h : name ∈ (parse s).names) :
    name ≠ [] ∧ separator ∉ name := by
  obtain ⟨hmem, hne⟩ := List.mem_filter.mp h
  exact ⟨by simpa using hne, fun hsep => by simpa using mem_splitOnP hmem hsep⟩

theorem mem_normalStep {rooted : Bool} {names : List Bytes} {name x : Bytes}
    (h : x ∈ normalStep rooted names name) : x ∈ names ∨ x = dotdot ∨ x = name ∧ x ≠ dot := by
  unfold normalStep at h
  by_cases hdot : name = dot
  · rw [if_pos hdot] at h
    exact .inl h
  rw [if_neg hdot] at h
  by_cases hdotdot : name = dotdot
  · rw [if_pos hdotdot] at h
    split at h
    · split at h
      · exact absurd h List.not_mem_nil
      · exact .inr (.inl (List.mem_singleton.mp h))
    · split at h
      · rcases List.mem_append.mp h with h | h
        · exact .inl h
        · exact .inr (.inl (List.mem_singleton.mp h))
      · exact .inl (List.dropLast_subset _ h)
  · rw [if_neg hdotdot] at h
    rcases List.mem_append.mp h with h | h
    · exact .inl h
    · rw [List.mem_singleton] at h
      exact .inr (.inr ⟨h, h ▸ hdot⟩)

theorem mem_foldl_normalStep {rooted : Bool} {names acc : List Bytes} {x : Bytes}
    (h : x ∈ names.foldl (normalStep rooted) acc) :
    x ∈ acc ∨ x = dotdot ∨ x ∈ names ∧ x ≠ dot := by
  induction names generalizing acc with
  | nil => exact .inl h
  | cons name rest ih =>
    rcases ih h with h | h | ⟨h, hdot⟩
    · rcases mem_normalStep h with h | h | ⟨rfl, hdot⟩
      · exact .inl h
      · exact .inr (.inl h)
      · exact .inr (.inr ⟨List.mem_cons_self, hdot⟩)
    · exact .inr (.inl h)
    · exact .inr (.inr ⟨List.mem_cons_of_mem _ h, hdot⟩)

/-- A path in normal form is `.`, or its names are `..` and names of the path other
than `.`. -/
theorem lexicallyNormal_names (p : FilePath) :
    p.lexicallyNormal = ofNames [dot] ∨
      ∀ name ∈ p.lexicallyNormal.names, name = dotdot ∨ name ∈ p.names ∧ name ≠ dot := by
  unfold lexicallyNormal
  split
  · next hempty =>
    have hnil : p.names = [] := by
      simpa using (Bool.and_eq_true_iff.mp hempty).2
    exact .inr fun name h => absurd (hnil ▸ h) List.not_mem_nil
  · dsimp only
    split
    · split
      · exact .inr fun name h => absurd h List.not_mem_nil
      · exact .inl rfl
    · exact .inr fun name h => (mem_foldl_normalStep h).resolve_left List.not_mem_nil

/-- Other names than `.` and `..` stay as they are. -/
theorem foldl_normalStep {rooted : Bool} {names acc : List Bytes}
    (h : ∀ name ∈ names, name ≠ dot ∧ name ≠ dotdot) :
    names.foldl (normalStep rooted) acc = acc ++ names := by
  induction names generalizing acc with
  | nil => exact (List.append_nil acc).symm
  | cons name rest ih =>
    obtain ⟨⟨hdot, hdotdot⟩, hrest⟩ := List.forall_mem_cons.mp h
    rw [List.foldl_cons, ih hrest, normalStep, if_neg hdot, if_neg hdotdot, List.append_assoc,
      List.singleton_append]

theorem lexicallyNormal_ofNames {names : List Bytes}
    (h : ∀ name ∈ names, name ≠ dot ∧ name ≠ dotdot) :
    (ofNames names).lexicallyNormal = ofNames names := by
  unfold lexicallyNormal
  split
  · rfl
  have hfold : (ofNames names).names.foldl (normalStep (ofNames names).rooted) [] = names :=
    foldl_normalStep h
  rw [hfold]
  dsimp only
  split
  · next hnil => simp_all [ofNames, isEmpty]
  · next hne =>
    have hlast : names.getLast? ≠ some dot ∧ names.getLast? ≠ some dotdot :=
      ⟨fun hdot => (h _ (List.mem_of_getLast? hdot)).1 rfl,
        fun hdotdot => (h _ (List.mem_of_getLast? hdotdot)).2 rfl⟩
    simp [ofNames, hlast.1, hlast.2]

/-! ## Prefixes -/

/-- `std::mismatch`: what is left of two sequences where they begin to differ. -/
def mismatch : List Bytes → List Bytes → List Bytes × List Bytes
  | a :: as, b :: bs => if a = b then mismatch as bs else (a :: as, b :: bs)
  | as, bs => (as, bs)

theorem mismatch_snd_eq_nil_iff {as bs : List Bytes} : (mismatch as bs).2 = [] ↔ bs <+: as := by
  induction bs generalizing as with
  | nil =>
    have hnil : (mismatch as []).2 = [] := by cases as <;> rfl
    exact iff_of_true hnil List.nil_prefix
  | cons b bs ih =>
    cases as with
    | nil => exact iff_of_false (List.cons_ne_nil _ _) fun h => nomatch List.prefix_nil.mp h
    | cons a as =>
      rw [mismatch, List.cons_prefix_cons]
      by_cases heq : a = b
      · rw [if_pos heq, ih]
        exact (and_iff_right heq.symm).symm
      · rw [if_neg heq]
        exact iff_of_false (List.cons_ne_nil _ _) fun h => heq h.1.symm

/-- `p` is a component-wise prefix of `q`. -/
def IsPrefix (p q : FilePath) : Prop := p.components <+: q.components

@[simp] theorem components_ofNames (names : List Bytes) : (ofNames names).components = names := by
  simp [ofNames, components]

theorem eq_ofNames {p : FilePath} (hrooted : p.rooted = false) (htrailing : p.trailing = false) :
    p = ofNames p.names := by
  cases p
  cases hrooted
  cases htrailing
  rfl

theorem hasFilename_iff {p : FilePath} :
    p.hasFilename = true ↔ p.trailing = false ∧ p.names ≠ [] := by
  simp [hasFilename]

/-- The parent of a path that ends in a name. -/
theorem parentPath_of_hasFilename {p : FilePath} (h : p.hasFilename = true) :
    p.parentPath.names = p.names.dropLast ∧ p.parentPath.trailing = false := by
  have htrailing := (hasFilename_iff.mp h).1
  unfold parentPath
  rw [if_neg (by rw [htrailing]; exact Bool.false_ne_true)]
  exact ⟨rfl, htrailing⟩

theorem IsPrefix.trans {p q r : FilePath} (hpq : p.IsPrefix q)
    (hqr : q.IsPrefix r) : p.IsPrefix r :=
  List.IsPrefix.trans hpq hqr

end FilePath
