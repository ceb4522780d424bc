import Ralf.Lib.Path

/-!
# A POSIX file system

Objects live at locations, the names that lead to them from the root. `walk`
resolves the directory part of a path the way the kernel does: it follows symlinks,
relative ones from where they are found and rooted ones from the root.

A `World` is a file system with the calls that were made on it. `call` makes one
with a path relative to an open directory; it may also fail for reasons outside the
model, which `faults` chooses.

`HasLinkPrefix` is what is dangerous about a path: that a part of it before the end
is a symlink. A path of plain names without one leads to its own location and no
other (`locate_eq`), so that a call with it is `Confined` to that location. `Spec`
says this of whole scripts that keep to one path, with what they establish there.
-/

namespace Posix

/-- The names that lead to an object from the root. -/
abbrev Location := List Bytes

/-- An error number. -/
abbrev Errno := Nat

def enoent : Errno := 2
def eexist : Errno := 17
def enotdir : Errno := 20
def eisdir : Errno := 21
def einval : Errno := 22
def enotempty : Errno := 39
def eloop : Errno := 40

inductive FileKind
  | directory
  | regular (contents : Bytes)
  | symlink (target : FilePath)
  deriving DecidableEq, Repr

def FileKind.isRegular : FileKind → Bool
  | .regular _ => true
  | _ => false

structure Node where
  kind : FileKind
  mode : Nat
  mtime : Int
  deriving DecidableEq, Repr

def Node.isSymlink (node : Node) : Bool :=
  match node.kind with
  | .symlink _ => true
  | _ => false

/-! ## File systems -/

/-- The objects below the root. -/
structure FileSystem where
  nodes : List (Location × Node)

namespace FileSystem

variable (fs : FileSystem) (loc : Location)

def lookup : Option Node := fs.nodes.lookup loc

def erase : FileSystem := ⟨fs.nodes.filter fun node => node.1 ≠ loc⟩

def set (node : Node) : FileSystem := ⟨(loc, node) :: fs.nodes⟩

/-- Whether a directory has entries. -/
def hasEntries : Bool := fs.nodes.any fun node => node.1 ≠ [] ∧ node.1.dropLast = loc

variable {fs loc}

@[simp] theorem lookup_set_self (node : Node) : (fs.set loc node).lookup loc = some node := by
  simp [lookup, set]

theorem lookup_set_of_ne {loc' : Location} (h : loc' ≠ loc) (node : Node) :
    (fs.set loc node).lookup loc' = fs.lookup loc' := by
  unfold lookup set
  rw [List.lookup_cons, beq_false_of_ne h]

@[simp] theorem lookup_erase_self : (fs.erase loc).lookup loc = none := by
  unfold lookup erase
  rw [List.lookup_eq_none_iff]
  intro node hnode
  simpa using fun h => (of_decide_eq_true (List.mem_filter.mp hnode).2) h.symm

theorem lookup_erase_of_ne {loc' : Location} (h : loc' ≠ loc) :
    (fs.erase loc).lookup loc' = fs.lookup loc' := by
  unfold lookup erase
  induction fs.nodes with
  | nil => rfl
  | cons node rest ih =>
    by_cases heq : node.1 = loc
    · rw [List.filter_cons_of_neg (by simpa using heq), ih, List.lookup_cons,
        beq_false_of_ne (heq ▸ h)]
    · rw [List.filter_cons_of_pos (by simpa using heq), List.lookup_cons, List.lookup_cons, ih]

end FileSystem

/-! ## Resolving paths -/

/-- Walks through directories from `cur`; a symlink is handed to `follow` with the
names that come after it. -/
def walkWith (fs : FileSystem) (follow : Location → FilePath → List Bytes → Except Errno Location) :
    Location → List Bytes → Except Errno Location
  | cur, [] => .ok cur
  | cur, name :: rest =>
    if name = FilePath.dot then walkWith fs follow cur rest
    else if name = FilePath.dotdot then walkWith fs follow cur.dropLast rest
    else
      match fs.lookup (cur ++ [name]) with
      | none => .error enoent
      | some node =>
        match node.kind with
        | .directory => walkWith fs follow (cur ++ [name]) rest
        | .regular _ => .error enotdir
        | .symlink target => follow cur target rest

/-- Walks through directories and at most `links` symlinks. -/
def walk (fs : FileSystem) : Nat → Location → List Bytes → Except Errno Location
  | 0 => walkWith fs fun _ _ _ => .error eloop
  | links + 1 => walkWith fs fun cur target rest =>
    walk fs links (if target.rooted then [] else cur) (target.names ++ rest)

/-- The number of symlinks that a walk follows at most. -/
def maxLinks : Nat := 40

/-- What the last name of a path is: an entry of a directory, or the directory
itself for `.` and `..`. -/
structure Target where
  loc : Location
  isEntry : Bool
  deriving DecidableEq, Repr

/-- The object a path is for; a symlink at the end is not followed. A separator at
the end counts as the name `.`. -/
def locate (fs : FileSystem) (dir : Location) (path : FilePath) : Except Errno Target :=
  let start := if path.rooted then [] else dir
  let names := path.names ++ if path.trailing then [FilePath.dot] else []
  match names.getLast? with
  | none => if path.rooted then .ok ⟨[], false⟩ else .error enoent
  | some last =>
    match walk fs maxLinks start names.dropLast with
    | .error errno => .error errno
    | .ok parent =>
      if last = FilePath.dot then .ok ⟨parent, false⟩
      else if last = FilePath.dotdot then .ok ⟨parent.dropLast, false⟩
      else .ok ⟨parent ++ [last], true⟩

/-! ## System calls -/

/-- A call on the object a path is for. -/
abbrev Op (α : Type) := FileSystem → Target → Except Errno (α × FileSystem)

/-- `fstatat` with `AT_SYMLINK_NOFOLLOW`. -/
def fstatat : Op Node := fun fs target =>
  match fs.lookup target.loc with
  | some node => .ok (node, fs)
  | none => .error enoent

/-- `unlinkat` without flags. -/
def unlinkat : Op Unit := fun fs target =>
  if ¬target.isEntry then .error eisdir
  else
    match fs.lookup target.loc with
    | none => .error enoent
    | some node =>
      if node.kind = .directory then .error eisdir else .ok ((), fs.erase target.loc)

/-- `unlinkat` with `AT_REMOVEDIR`. -/
def rmdirat : Op Unit := fun fs target =>
  if ¬target.isEntry then .error einval
  else
    match fs.lookup target.loc with
    | none => .error enoent
    | some node =>
      if node.kind ≠ .directory then .error enotdir
      else if fs.hasEntries target.loc then .error enotempty
      else .ok ((), fs.erase target.loc)

/-- A call that makes a new object. -/
def createat (kind : FileKind) (mode : Nat) : Op Location := fun fs target =>
  if ¬target.isEntry then .error eexist
  else
    match fs.lookup target.loc with
    | some _ => .error eexist
    | none => .ok (target.loc, fs.set target.loc ⟨kind, mode, 0⟩)

def mkdirat (mode : Nat) : Op Location := createat .directory mode

def symlinkat (target : Bytes) : Op Location := createat (.symlink (FilePath.parse target)) 0o777

/-- `openat` with `O_CREAT | O_EXCL`; the location stands for the descriptor. -/
def openat (mode : Nat) : Op Location := createat (.regular []) mode

/-- A change of an object's attributes. -/
def changeat (f : Node → Node) : Op Unit := fun fs target =>
  match fs.lookup target.loc with
  | none => .error enoent
  | some node => .ok ((), fs.set target.loc { f node with kind := node.kind })

/-- `fchmodat` on an object that is not a symlink. -/
def fchmodat (mode : Nat) : Op Unit := changeat fun node => { node with mode := mode }

/-- `utimensat` of the modification time, with `AT_SYMLINK_NOFOLLOW`. -/
def utimensat (mtime : Int) : Op Unit := changeat fun node => { node with mtime := mtime }

/-- A call that was made: the file system it found and the path it was given. -/
structure Call where
  fs : FileSystem
  path : FilePath

/-- A file system, the calls with a path made on it, the last one first, and the
number of all calls. -/
structure World where
  fs : FileSystem
  calls : List Call
  steps : Nat

/-- A program that makes calls. -/
abbrev Script (α : Type) := StateM World α

theorem bind_apply {α β : Type} (script : Script α) (next : α → Script β) (w : World) :
    (script >>= next) w = next (script w).1 (script w).2 := rfl

section
variable (faults : Nat → Option Errno)

/-- Makes a call with a path relative to the directory `dir`. -/
def call {α : Type} (dir : Location) (op : Op α) (path : FilePath) :
    Script (Except Errno α) := fun w =>
  let w' : World := ⟨w.fs, ⟨w.fs, path⟩ :: w.calls, w.steps + 1⟩
  match faults w.steps with
  | some errno => (.error errno, w')
  | none =>
    match locate w.fs dir path with
    | .error errno => (.error errno, w')
    | .ok target =>
      match op w.fs target with
      | .error errno => (.error errno, w')
      | .ok (a, fs) => (.ok a, { w' with fs := fs })

/-- Makes a call on an open file, which changes it in place. -/
def fileCall (loc : Location) (f : Node → Node) : Script (Except Errno Unit) := fun w =>
  let w' : World := { w with steps := w.steps + 1 }
  match faults w.steps with
  | some errno => (.error errno, w')
  | none =>
    match w.fs.lookup loc with
    | none => (.error enoent, w')
    | some node => (.ok (), { w' with fs := w.fs.set loc (f node) })

end

/-! ## Symlinks in front of the last name -/

/-- The object at the location is a symlink. -/
def IsLink (fs : FileSystem) (loc : Location) : Prop :=
  ∃ node, fs.lookup loc = some node ∧ node.isSymlink = true

/-- A proper prefix of the path is a symlink. -/
def HasLinkPrefix (fs : FileSystem) (dir : Location) (path : FilePath) : Prop :=
  ∃ init, init <+: path.names ∧ init ≠ path.names ∧
    ∃ target, locate fs dir { path with names := init, trailing := false } = .ok target ∧
      IsLink fs target.loc

/-- No name is `.` or `..`. -/
def Plain (names : List Bytes) : Prop := ∀ name ∈ names, name ≠ FilePath.dot ∧
    name ≠ FilePath.dotdot

/-- No location on the way to the last name holds a symlink. -/
def LinkFree (fs : FileSystem) (dir : Location) (names : List Bytes) : Prop :=
  ∀ init, init <+: names → init ≠ [] → init ≠ names → ¬ IsLink fs (dir ++ init)

variable {fs : FileSystem} {dir : Location} {names : List Bytes}

theorem walkWith_eq {follow : Location → FilePath → List Bytes → Except Errno Location}
    {cur loc : Location} (hplain : Plain names)
    (hlinks : ∀ init, init <+: names → init ≠ [] → ¬ IsLink fs (cur ++ init))
    (h : walkWith fs follow cur names = .ok loc) : loc = cur ++ names := by
  induction names generalizing cur with
  | nil =>
    cases h
    exact (List.append_nil _).symm
  | cons name rest ih =>
    obtain ⟨hdot, hdotdot⟩ := hplain name List.mem_cons_self
    unfold walkWith at h
    rw [if_neg hdot, if_neg hdotdot] at h
    cases hnode : fs.lookup (cur ++ [name]) with
    | none =>
      rw [hnode] at h
      cases h
    | some node =>
      have hlink := hlinks [name] (List.prefix_append [name] rest) (by simp)
      rw [hnode] at h
      dsimp only at h
      cases hkind : node.kind with
      | directory =>
        rw [hkind] at h
        have hbelow : ∀ init, init <+: rest → init ≠ [] → ¬ IsLink fs (cur ++ [name] ++ init) := by
          intro init hinit hne hlink
          rw [List.append_assoc, List.singleton_append] at hlink
          exact hlinks (name :: init) (List.cons_prefix_cons.mpr ⟨rfl, hinit⟩) (by simp) hlink
        have heq := ih (fun n hn => hplain n (List.mem_cons_of_mem _ hn)) hbelow h
        rw [heq, List.append_assoc, List.singleton_append]
      | regular contents =>
        rw [hkind] at h
        cases h
      | symlink target =>
        exact absurd ⟨node, hnode, by rw [Node.isSymlink, hkind]⟩ hlink

theorem walk_eq {links : Nat} {loc : Location} (hplain : Plain names)
    (hlinks : ∀ init, init <+: names → init ≠ [] → ¬ IsLink fs (dir ++ init))
    (h : walk fs links dir names = .ok loc) : loc = dir ++ names := by
  cases links with
  | zero => exact walkWith_eq hplain hlinks h
  | succ links => exact walkWith_eq hplain hlinks h

/-- A plain path without symlinks before its last name leads to its own location. -/
theorem locate_eq {target : Target} (hplain : Plain names) (hlinks : LinkFree fs dir names)
    (h : locate fs dir (FilePath.ofNames names) = .ok target) : target = ⟨dir ++ names, true⟩ := by
  rcases List.eq_nil_or_concat names with rfl | ⟨init, last, rfl⟩
  · cases h
  · rw [List.concat_eq_append] at *
    unfold locate FilePath.ofNames at h
    simp only [Bool.false_eq_true, if_false, List.append_nil, List.getLast?_concat,
      List.dropLast_concat] at h
    split at h
    · cases h
    · next parent hwalk =>
      obtain ⟨hdot, hdotdot⟩ := hplain last (by simp)
      rw [if_neg hdot, if_neg hdotdot] at h
      cases h
      have hparent := walk_eq (fun n hn => hplain n (List.mem_append_left _ hn))
        (fun p hp hne => hlinks p (hp.trans (List.prefix_append _ _)) hne ?_) hwalk
      · rw [hparent, List.append_assoc]
      · rintro rfl
        have := hp.length_le
        simp at this

theorem not_hasLinkPrefix (hplain : Plain names) (hlinks : LinkFree fs dir names) :
    ¬ HasLinkPrefix fs dir (FilePath.ofNames names) := by
  rintro ⟨init, hinit, hne, target, hlocate, hlink⟩
  have hpre : LinkFree fs dir init := by
    intro p hp hpne hpinit
    refine hlinks p (hp.trans hinit) hpne ?_
    rintro rfl
    exact hpinit (hinit.eq_of_length_le hp.length_le).symm
  rcases List.eq_nil_or_concat init with rfl | ⟨l, x, hl⟩
  · cases hlocate
  · have heq := locate_eq (fun n hn => hplain n (hinit.subset hn)) hpre hlocate
    rw [heq] at hlink
    exact hlinks init hinit (by rw [hl]; simp) hne hlink

/-- What makes a path safe to use as long as no location on the way holds a symlink:
it leads to one target, behind no symlink, and the target is not on the way. -/
structure Leads (dir : Location) (names : List Bytes) (target : Target) : Prop where
  locate_eq : ∀ fs, LinkFree fs dir names →
    ∀ found, locate fs dir (FilePath.ofNames names) = .ok found → found = target
  not_hasLinkPrefix : ∀ fs, LinkFree fs dir names → ¬ HasLinkPrefix fs dir (FilePath.ofNames names)
  prefix_ne : ∀ init, init <+: names → init ≠ names → init ≠ [] → dir ++ init ≠ target.loc

theorem Plain.leads (hplain : Plain names) : Leads dir names ⟨dir ++ names, true⟩ :=
  ⟨fun _ hlinks _ h => Posix.locate_eq hplain hlinks h,
    fun _ hlinks => Posix.not_hasLinkPrefix hplain hlinks,
    fun _ _ hne _ heq => hne (List.append_cancel_left heq)⟩

/-- The path `.` leads to the directory itself. -/
theorem leads_dot (dir : Location) : Leads dir [FilePath.dot] ⟨dir, false⟩ := by
  have hinit : ∀ init : List Bytes, init <+: [FilePath.dot] →
    init ≠ [FilePath.dot] → init = [] := by
    intro init hinit hne
    rcases List.prefix_cons_iff.mp hinit with rfl | ⟨t, rfl, ht⟩
    · rfl
    · exact absurd (by rw [List.prefix_nil.mp ht]) hne
  refine ⟨fun fs _ found h => ?_, fun fs _ h => ?_, fun init hpre hne hnil => ?_⟩
  · cases h
    rfl
  · obtain ⟨init, hpre, hne, target, hlocate, -⟩ := h
    rw [hinit init hpre hne] at hlocate
    cases hlocate
  · exact absurd (hinit init hpre hne) hnil

/-! ## Calls that change one location -/

/-- An operation that changes at most its target, and makes a symlink of it only if
`link` holds. -/
structure Local {α : Type} (link : Prop) (op : Op α) : Prop where
  frame : ∀ fs target a fs', op fs target = .ok (a, fs') →
    ∀ loc, loc ≠ target.loc → fs'.lookup loc = fs.lookup loc
  links : ∀ fs target a fs', op fs target = .ok (a, fs') →
    IsLink fs' target.loc → link ∨ IsLink fs target.loc

theorem not_isLink_erase {loc : Location} : ¬ IsLink (fs.erase loc) loc := by
  rintro ⟨node, hnode, -⟩
  rw [FileSystem.lookup_erase_self] at hnode
  cases hnode

theorem isLink_set_iff {loc : Location} {node : Node} :
    IsLink (fs.set loc node) loc ↔ node.isSymlink = true := by
  unfold IsLink
  rw [FileSystem.lookup_set_self]
  exact ⟨fun ⟨_, heq, h⟩ => by cases heq; exact h, fun h => ⟨node, rfl, h⟩⟩

variable {link : Prop}

theorem fstatat_ok {target : Target} {node : Node} {fs' : FileSystem}
    (h : fstatat fs target = .ok (node, fs')) : fs' = fs ∧ fs.lookup target.loc = some node := by
  unfold fstatat at h
  split at h
  · next hnode =>
    cases h
    exact ⟨rfl, hnode⟩
  · cases h

theorem fstatat_local : Local link fstatat where
  frame _ _ _ _ h _ _ := by rw [(fstatat_ok h).1]
  links _ _ _ _ h hlink := .inr ((fstatat_ok h).1 ▸ hlink)

theorem unlinkat_eq_erase {target : Target} {a : Unit} {fs' : FileSystem}
    (h : unlinkat fs target = .ok (a, fs')) : fs' = fs.erase target.loc := by
  unfold unlinkat at h
  split_ifs at h
  split at h
  · cases h
  · split_ifs at h
    cases h
    rfl

theorem unlinkat_local : Local link unlinkat where
  frame _ _ _ _ h _ hloc := unlinkat_eq_erase h ▸ FileSystem.lookup_erase_of_ne hloc
  links _ _ _ _ h hlink := absurd (unlinkat_eq_erase h ▸ hlink) not_isLink_erase

theorem rmdirat_eq_erase {target : Target} {a : Unit} {fs' : FileSystem}
    (h : rmdirat fs target = .ok (a, fs')) : fs' = fs.erase target.loc := by
  unfold rmdirat at h
  split at h
  · cases h
  · split at h
    · cases h
    · split at h
      · cases h
      · split at h
        · cases h
        · cases h
          rfl

theorem rmdirat_local : Local link rmdirat where
  frame _ _ _ _ h _ hloc := rmdirat_eq_erase h ▸ FileSystem.lookup_erase_of_ne hloc
  links _ _ _ _ h hlink := absurd (rmdirat_eq_erase h ▸ hlink) not_isLink_erase

theorem createat_eq_set {kind : FileKind} {mode : Nat} {target : Target} {loc : Location}
    {fs' : FileSystem} (h : createat kind mode fs target = .ok (loc, fs')) :
    loc = target.loc ∧ fs' = fs.set target.loc ⟨kind, mode, 0⟩ := by
  unfold createat at h
  split_ifs at h
  split at h
  · cases h
  · cases h
    exact ⟨rfl, rfl⟩

theorem createat_local {kind : FileKind} {mode : Nat}
    (hkind : (∃ target, kind = .symlink target) → link) : Local link (createat kind mode) where
  frame _ _ _ _ h _ hloc := (createat_eq_set h).2 ▸ FileSystem.lookup_set_of_ne hloc _
  links fs target loc fs' h hlink := by
    rw [(createat_eq_set h).2, isLink_set_iff] at hlink
    cases kind with
    | directory => cases hlink
    | regular contents => cases hlink
    | symlink path => exact .inl (hkind ⟨path, rfl⟩)

theorem changeat_eq_set {f : Node → Node} {target : Target} {a : Unit} {fs' : FileSystem}
    (h : changeat f fs target = .ok (a, fs')) : ∃ node, fs.lookup target.loc = some node ∧
      fs' = fs.set target.loc { f node with kind := node.kind } := by
  unfold changeat at h
  split at h
  · cases h
  · next node hnode =>
    cases h
    exact ⟨node, hnode, rfl⟩

theorem changeat_local (f : Node → Node) : Local link (changeat f) where
  frame fs target a fs' h loc hloc := by
    obtain ⟨node, -, rfl⟩ := changeat_eq_set h
    exact FileSystem.lookup_set_of_ne hloc _
  links fs target a fs' h hlink := by
    obtain ⟨node, hnode, rfl⟩ := changeat_eq_set h
    have hset := isLink_set_iff.mp hlink
    exact .inr ⟨node, hnode, hset⟩

/-- Going from one world to the other changes at most the object at `loc`, which
becomes a symlink only if `link` holds, and makes no call whose path goes through a
symlink. -/
structure Confined (dir loc : Location) (link : Prop) (w w' : World) : Prop where
  frame : ∀ l, l ≠ loc → w'.fs.lookup l = w.fs.lookup l
  links : IsLink w'.fs loc → link ∨ IsLink w.fs loc
  calls : ∀ c ∈ w'.calls, c ∈ w.calls ∨ ¬ HasLinkPrefix c.fs dir c.path

theorem Confined.refl (dir loc : Location) (w : World) : Confined dir loc link w w :=
  ⟨fun _ _ => rfl, .inr, fun _ hc => .inl hc⟩

theorem Confined.trans {loc : Location} {w w' w'' : World} (h : Confined dir loc link w w')
    (h' : Confined dir loc link w' w'') : Confined dir loc link w w'' :=
  ⟨fun l hl => (h'.frame l hl).trans (h.frame l hl),
    fun hlink => (h'.links hlink).elim .inl h.links,
    fun c hc => (h'.calls c hc).elim (fun hc => h.calls c hc) .inr⟩

/-- What is confined to a path leaves the path without symlinks before its end. -/
theorem Confined.linkFree {target : Target} {w w' : World} (hleads : Leads dir names target)
    (h : Confined dir target.loc link w w') (hlinks : LinkFree w.fs dir names) :
    LinkFree w'.fs dir names := by
  rintro init hinit hne hnames ⟨node, hnode, hlink⟩
  rw [h.frame _ (hleads.prefix_ne init hinit hnames hne)] at hnode
  exact hlinks init hinit hne hnames ⟨node, hnode, hlink⟩

/-! ## Scripts on one path -/

/-- A script started in a file system with `P`, whose path has no symlink before its
last name, is confined to the target of the path, and its result and the file system
after it satisfy `Q`. -/
def Spec {α : Type} (dir : Location) (names : List Bytes) (loc : Location) (link : Prop)
    (P : FileSystem → Prop) (script : Script α) (Q : α → FileSystem → Prop) : Prop :=
  ∀ w, LinkFree w.fs dir names → P w.fs →
    Confined dir loc link w (script w).2 ∧ Q (script w).1 (script w).2.fs

variable {faults : Nat → Option Errno} {α β : Type} {P : FileSystem → Prop} {target : Target}

theorem Spec.pure {loc : Location} {Q : α → FileSystem → Prop} {a : α} (h : ∀ fs, P fs → Q a fs) :
    Spec dir names loc link P (pure a) Q :=
  fun w _ hP => ⟨Confined.refl _ _ w, h _ hP⟩

theorem Spec.bind {script : Script α} {next : α → Script β} {R : α → FileSystem → Prop}
    {Q : β → FileSystem → Prop} (hleads : Leads dir names target)
    (h : Spec dir names target.loc link P script R)
    (hnext : ∀ a, Spec dir names target.loc link (R a) (next a) Q) :
    Spec dir names target.loc link P (script >>= next) Q := by
  intro w hlinks hP
  obtain ⟨hconfined, hR⟩ := h w hlinks hP
  obtain ⟨hconfined', hQ⟩ := hnext _ _ (hconfined.linkFree hleads hlinks) hR
  exact ⟨hconfined.trans hconfined', hQ⟩

theorem Spec.mono {loc : Location} {script : Script α} {Q R : α → FileSystem → Prop}
    (h : Spec dir names loc link P script Q) (hQR : ∀ a fs, Q a fs → R a fs) :
    Spec dir names loc link P script R :=
  fun w hlinks hP => (h w hlinks hP).imp_right (hQR _ _)

theorem Spec.pre {loc : Location} {script : Script α} {P' : FileSystem → Prop}
    {Q : α → FileSystem → Prop} (h : Spec dir names loc link P script Q) (hP : ∀ fs, P' fs → P fs) :
    Spec dir names loc link P' script Q :=
  fun w hlinks hw => h w hlinks (hP _ hw)

/-- A call either fails and changes nothing, or does its operation on the target. -/
theorem Spec.call {op : Op α} (hop : Local link op) (hleads : Leads dir names target) :
    Spec dir names target.loc link P (call faults dir op (FilePath.ofNames names)) fun result fs =>
      match result with
      | .error _ => P fs
      | .ok a => ∃ before, P before ∧ op before target = .ok (a, fs) := by
  intro w hlinks hP
  have hcalls : ∀ c ∈ (⟨w.fs, FilePath.ofNames names⟩ :: w.calls : List Call),
      c ∈ w.calls ∨ ¬ HasLinkPrefix c.fs dir c.path := by
    intro c hc
    rcases List.mem_cons.mp hc with rfl | hc
    · exact .inr (hleads.not_hasLinkPrefix _ hlinks)
    · exact .inl hc
  unfold Posix.call
  dsimp only
  cases faults w.steps with
  | some errno => exact ⟨⟨fun _ _ => rfl, .inr, hcalls⟩, hP⟩
  | none =>
    cases hlocate : locate w.fs dir (FilePath.ofNames names) with
    | error errno => exact ⟨⟨fun _ _ => rfl, .inr, hcalls⟩, hP⟩
    | ok found =>
      cases hresult : op w.fs found with
      | error errno =>
        simp only [hresult]
        exact ⟨⟨fun _ _ => rfl, .inr, hcalls⟩, hP⟩
      | ok result =>
        simp only [hresult]
        rw [hleads.locate_eq _ hlinks _ hlocate] at hresult
        exact ⟨⟨hop.frame _ _ _ _ hresult, hop.links _ _ _ _ hresult, hcalls⟩, w.fs, hP, hresult⟩

/-- A call on an open file changes that file, or nothing. -/
theorem Spec.fileCall {loc : Location} {f : Node → Node}
    (hf : ∀ node, (f node).isSymlink = true → node.isSymlink = true) :
    Spec dir names loc link P (fileCall faults loc f) fun _ fs =>
      P fs ∨ ∃ before node, P before ∧ before.lookup loc = some node ∧
        fs = before.set loc (f node) := by
  intro w hlinks hP
  unfold Posix.fileCall
  dsimp only
  cases faults w.steps with
  | some errno => exact ⟨⟨fun _ _ => rfl, .inr, fun _ hc => .inl hc⟩, .inl hP⟩
  | none =>
    cases hnode : w.fs.lookup loc with
    | none => exact ⟨⟨fun _ _ => rfl, .inr, fun _ hc => .inl hc⟩, .inl hP⟩
    | some node =>
      refine ⟨⟨fun l hl => FileSystem.lookup_set_of_ne hl _, fun hlink => ?_,
        fun _ hc => .inl hc⟩, .inr ⟨_, node, hP, hnode, rfl⟩⟩
      exact .inr ⟨node, hnode, hf node (isLink_set_iff.mp hlink)⟩

/-- A fact that the file system before a script shows. -/
theorem Spec.assume {loc : Location} {script : Script α} {Q : α → FileSystem → Prop} {fact : Prop}
    (hfact : ∀ fs, P fs → fact) (h : fact → Spec dir names loc link P script Q) :
    Spec dir names loc link P script Q :=
  fun w hlinks hP => h (hfact _ hP) w hlinks hP

theorem Spec.and {loc : Location} {script : Script α} {P' : FileSystem → Prop}
    {Q Q' : α → FileSystem → Prop} (h : Spec dir names loc link P script Q)
    (h' : Spec dir names loc link P' script Q') :
    Spec dir names loc link (fun fs => P fs ∧ P' fs) script fun a fs => Q a fs ∧ Q' a fs :=
  fun w hlinks hP => ⟨(h w hlinks hP.1).1, (h w hlinks hP.1).2, (h' w hlinks hP.2).2⟩

/-- A script that is confined to its target, whatever its result. -/
def Keeps (dir : Location) (names : List Bytes) (loc : Location) (link : Prop) (script : Script α) :
    Prop :=
  Spec dir names loc link (fun _ => True) script fun _ _ => True

theorem Spec.keeps {loc : Location} {script : Script α} {Q : α → FileSystem → Prop}
    (h : Spec dir names loc link (fun _ => True) script Q) : Keeps dir names loc link script :=
  h.mono fun _ _ _ => trivial

/-- A script that makes no symlinks leaves none where there was none. -/
theorem Keeps.preserves {loc : Location} {script : Script α} {was : Prop}
    (h : Keeps dir names loc False script) :
    Spec dir names loc link (fun fs => IsLink fs loc → was) script fun _ fs =>
      IsLink fs loc → was := by
  intro w hlinks hP
  obtain ⟨⟨hframe, hlink, hcalls⟩, -⟩ := h w hlinks trivial
  exact ⟨⟨hframe, fun hafter => .inr ((hlink hafter).resolve_left id), hcalls⟩,
    fun hafter => hP ((hlink hafter).resolve_left id)⟩

theorem Keeps.pure {loc : Location} (a : α) : Keeps dir names loc link (pure a : Script α) :=
  Spec.pure fun _ _ => trivial

theorem Keeps.bind {script : Script α} {next : α → Script β} (hleads : Leads dir names target)
    (h : Keeps dir names target.loc link script)
    (hnext : ∀ a, Keeps dir names target.loc link (next a)) :
    Keeps dir names target.loc link (script >>= next) :=
  Spec.bind hleads h hnext

theorem Keeps.call {op : Op α} (hop : Local link op) (hleads : Leads dir names target) :
    Keeps dir names target.loc link (call faults dir op (FilePath.ofNames names)) :=
  (Spec.call hop hleads).keeps

theorem Keeps.fileCall {loc : Location} {f : Node → Node}
    (hf : ∀ node, (f node).isSymlink = true → node.isSymlink = true) :
    Keeps dir names loc link (fileCall faults loc f) :=
  (Spec.fileCall hf).keeps

/-! ## Scripts on an open file -/

/-- A change that keeps the kind of an object; a regular file may get other contents. -/
def KeepsKind (f : Node → Node) : Prop :=
  ∀ node, (f node).kind = node.kind ∨ ∃ contents contents',
    node.kind = .regular contents ∧ (f node).kind = .regular contents'

theorem KeepsKind.isSymlink {f : Node → Node} (hf : KeepsKind f) {node : Node}
    (h : (f node).isSymlink = true) : node.isSymlink = true := by
  unfold Node.isSymlink at h ⊢
  rcases hf node with hkind | ⟨contents, contents', -, hkind⟩
  · rwa [hkind] at h
  · rw [hkind] at h
    cases h

/-- A script that makes its calls on one open file. -/
inductive OnFile (faults : Nat → Option Errno) (loc : Location) : ∀ {α : Type}, Script α → Prop
  | pure {α : Type} (a : α) : OnFile faults loc (pure a : Script α)
  | bind {α β : Type} {script : Script α} {next : α → Script β} :
      OnFile faults loc script → (∀ a, OnFile faults loc (next a)) →
      OnFile faults loc (script >>= next)
  | fileCall {f : Node → Node} : KeepsKind f → OnFile faults loc (fileCall faults loc f)

theorem OnFile.keeps {script : Script α} (h : OnFile faults target.loc script)
    (hleads : Leads dir names target) : Keeps dir names target.loc link script := by
  induction h with
  | pure a => exact Keeps.pure a
  | bind _ _ ih ihnext => exact Keeps.bind hleads ih ihnext
  | fileCall hf => exact Keeps.fileCall fun _ => hf.isSymlink

end Posix
