import Ralf.Lib.Posix

/-!
# Scripts that create one object

A script that puts one new object into a file system leaves every object there was as
it is. The new object is at a location that was free (`Extends`), and because a path that
can be resolved is resolved without it, the path leads to the same location before and
after it was made. This needs no assumption on the path or on the symlinks of the tree.
-/

namespace Posix

variable {fs fs' : FileSystem} {dir loc : Location} {path : FilePath} {faults : Nat → Option Errno}
  {α β : Type}

/-- All but a location that was free is as before. -/
structure Extends (fs : FileSystem) (loc : Location) (fs' : FileSystem) : Prop where
  free : fs.lookup loc = none
  frame : ∀ l, l ≠ loc → fs'.lookup l = fs.lookup l

/-- Objects stay when others are created. -/
def Preserves (fs fs' : FileSystem) : Prop :=
  ∀ l node, fs.lookup l = some node → fs'.lookup l = some node

theorem Preserves.refl (fs : FileSystem) : Preserves fs fs := fun _ _ h => h

theorem Preserves.trans {fs'' : FileSystem} (h : Preserves fs fs') (h' : Preserves fs' fs'') :
    Preserves fs fs'' := fun l node hnode => h' l node (h l node hnode)

theorem Extends.preserves (h : Extends fs loc fs') : Preserves fs fs' := by
  intro l node hnode
  by_cases heq : l = loc
  · rw [heq, h.free] at hnode
    cases hnode
  · rw [h.frame l heq, hnode]

theorem Extends.set {node : Node} (h : Extends fs loc fs') : Extends fs loc (fs'.set loc node) :=
  ⟨h.free, fun l hl => (FileSystem.lookup_set_of_ne hl node).trans (h.frame l hl)⟩

/-! ## Paths -/

theorem walkWith_preserves {follow follow' : Location → FilePath → List Bytes →
    Except Errno Location}
    {cur : Location} {names : List Bytes} (h : Preserves fs fs')
    (hfollow : ∀ cur target rest found, follow cur target rest = .ok found →
      follow' cur target rest = .ok found)
    (hwalk : walkWith fs follow cur names = .ok loc) : walkWith fs' follow' cur
    names = .ok loc := by
  induction names generalizing cur with
  | nil => exact hwalk
  | cons name rest ih =>
    unfold walkWith at hwalk ⊢
    split
    · next hdot =>
      rw [if_pos hdot] at hwalk
      exact ih hwalk
    next hdot =>
    rw [if_neg hdot] at hwalk
    split
    · next hdotdot =>
      rw [if_pos hdotdot] at hwalk
      exact ih hwalk
    next hdotdot =>
    rw [if_neg hdotdot] at hwalk
    cases hnode : fs.lookup (cur ++ [name]) with
    | none =>
      rw [hnode] at hwalk
      cases hwalk
    | some node =>
      rw [hnode] at hwalk
      rw [h _ _ hnode]
      dsimp only at hwalk ⊢
      cases hkind : node.kind with
      | directory =>
        rw [hkind] at hwalk
        exact ih hwalk
      | regular contents =>
        rw [hkind] at hwalk
        cases hwalk
      | symlink target =>
        rw [hkind] at hwalk
        exact hfollow _ _ _ _ hwalk

theorem walk_preserves {links : Nat} {names : List Bytes} (h : Preserves fs fs')
    (hwalk : walk fs links dir names = .ok loc) : walk fs' links dir names = .ok loc := by
  induction links generalizing dir names loc with
  | zero => exact walkWith_preserves h (fun _ _ _ _ hfound => by cases hfound) hwalk
  | succ links ih => exact walkWith_preserves h (fun _ _ _ _ hfound => ih hfound) hwalk

/-- A path that leads somewhere leads there after more objects were created. -/
theorem locate_preserves {target : Target} (h : Preserves fs fs')
    (hlocate : locate fs dir path = .ok target) : locate fs' dir path = .ok target := by
  unfold locate at hlocate ⊢
  dsimp only at hlocate ⊢
  generalize (path.names ++ if path.trailing then [FilePath.dot] else []).getLast? =
    last at hlocate ⊢
  cases last with
  | none => exact hlocate
  | some last =>
    dsimp only at hlocate ⊢
    split at hlocate
    · cases hlocate
    · next parent hwalk =>
      rw [walk_preserves h hwalk]
      exact hlocate

/-! ## Scripts -/

/-- What a call does: it fails and changes nothing, or does its operation. -/
theorem call_cases (faults : Nat → Option Errno) (dir : Location) (op : Op α) (path : FilePath)
    (w : World) :
    (∃ errno w', call faults dir op path w = (.error errno, w') ∧ w'.fs = w.fs ∧
        w'.steps = w.steps + 1) ∨
      ∃ target a w', locate w.fs dir path = .ok target ∧ op w.fs target = .ok (a, w'.fs) ∧
        call faults dir op path w = (.ok a, w') ∧ w'.steps = w.steps + 1 := by
  unfold call
  dsimp only
  cases faults w.steps with
  | some errno => exact .inl ⟨errno, _, rfl, rfl, rfl⟩
  | none =>
    cases hlocate : locate w.fs dir path with
    | error errno => exact .inl ⟨errno, _, rfl, rfl, rfl⟩
    | ok target =>
      cases hop : op w.fs target with
      | error errno =>
        simp only [hop]
        exact .inl ⟨errno, _, rfl, rfl, rfl⟩
      | ok result =>
        obtain ⟨a, fs'⟩ := result
        simp only [hop]
        exact .inr ⟨target, a, _, rfl, hop, rfl, rfl⟩

/-- A call is one step, whatever it gives. -/
theorem call_steps (faults : Nat → Option Errno) (dir : Location) (op : Op α) (path : FilePath)
    (w : World) : (call faults dir op path w).2.steps = w.steps + 1 := by
  rcases call_cases faults dir op path w with
    ⟨errno, w', hcall, -, hsteps⟩ | ⟨target, a, w', -, -, hcall, hsteps⟩
  · rw [hcall]
    exact hsteps
  · rw [hcall]
    exact hsteps

/-- An operation that makes a new object, and gives its location. -/
def Creates (op : Op Location) : Prop :=
  ∀ fs target found fs', op fs target = .ok (found, fs') →
    found = target.loc ∧ fs.lookup target.loc = none ∧ ∃ node, fs' = fs.set target.loc node

theorem createat_creates (kind : FileKind) (mode : Nat) : Creates (createat kind mode) := by
  intro fs target found fs' h
  unfold createat at h
  split_ifs at h
  split at h
  · cases h
  · next hfree =>
    cases h
    exact ⟨rfl, hfree, _, rfl⟩

/-- A script that changes at most the object at `loc`, in any file system made from `fs` by
creating that object. The count of calls does not go back. -/
def Fills (fs : FileSystem) (loc : Location) (script : Script α) : Prop :=
  ∀ w, Extends fs loc w.fs → Extends fs loc (script w).2.fs ∧ w.steps ≤ (script w).2.steps

theorem Fills.pure (a : α) : Fills fs loc (pure a : Script α) := fun _ h => ⟨h, Nat.le_refl _⟩

theorem Fills.bind {script : Script α} {next : α → Script β} (h : Fills fs loc script)
    (hnext : ∀ a, Fills fs loc (next a)) : Fills fs loc (script >>= next) := by
  intro w hw
  obtain ⟨hextends, hsteps⟩ := h w hw
  obtain ⟨hextends', hsteps'⟩ := hnext (script w).1 (script w).2 hextends
  exact ⟨hextends', Nat.le_trans hsteps hsteps'⟩

theorem Fills.fileCall {f : Node → Node} : Fills fs loc (fileCall faults loc f) := by
  intro w hw
  unfold Posix.fileCall
  dsimp only
  cases faults w.steps with
  | some errno => exact ⟨hw, Nat.le_succ _⟩
  | none =>
    cases w.fs.lookup loc with
    | none => exact ⟨hw, Nat.le_succ _⟩
    | some node => exact ⟨hw.set, Nat.le_succ _⟩

theorem OnFile.fills {script : Script α} (h : OnFile faults loc script) :
    Fills fs loc script := by
  induction h with
  | pure a => exact Fills.pure a
  | bind _ _ ih ihnext => exact Fills.bind ih ihnext
  | fileCall _ => exact Fills.fileCall

theorem Fills.call {op : Op α} {link : Prop} {target : Target} (hop : Local link op)
    (hlocate : locate fs dir path = .ok target) :
    Fills fs target.loc (call faults dir op path) := by
  intro w hw
  rcases call_cases faults dir op path w with
    ⟨errno, w', hcall, hfs, hsteps⟩ | ⟨found, a, w', hfound, hresult, hcall, hsteps⟩
  · rw [hcall, hfs]
    exact ⟨hw, hsteps ▸ Nat.le_succ _⟩
  · rw [locate_preserves hw.preserves hlocate] at hfound
    cases hfound
    rw [hcall]
    refine ⟨⟨hw.free, fun l hl => ?_⟩, hsteps ▸ Nat.le_succ _⟩
    exact (hop.frame _ _ _ _ hresult l hl).trans (hw.frame l hl)

/-- A script that creates at most one object. -/
def Adds (script : Script α) : Prop :=
  ∀ w, ((script w).2.fs = w.fs ∨ ∃ loc, Extends w.fs loc (script w).2.fs) ∧
    w.steps ≤ (script w).2.steps

theorem Adds.pure (a : α) : Adds (pure a : Script α) := fun _ => ⟨.inl rfl, Nat.le_refl _⟩

/-- A creating call, and what is done with the new object. -/
theorem Adds.create {op : Op Location} {next : Except Errno Location → Script β} (hop : Creates op)
    (herror : ∀ errno, Adds (next (.error errno)))
    (hok : ∀ fs target, locate fs dir path = .ok target →
    Fills fs target.loc (next (.ok target.loc))) :
    Adds (Posix.call faults dir op path >>= next) := by
  intro w
  rw [bind_apply]
  rcases call_cases faults dir op path w with
    ⟨errno, w', hcall, hfs, hsteps⟩ | ⟨target, found, w', hlocate, hresult, hcall, hsteps⟩
  · have hnext := herror errno w'
    rw [hcall]
    rw [hfs] at hnext
    exact ⟨hnext.1, Nat.le_trans (hsteps ▸ Nat.le_succ _) hnext.2⟩
  · obtain ⟨rfl, hfree, node, hset⟩ := hop _ _ _ _ hresult
    have hextends : Extends w.fs target.loc w'.fs := by
      rw [hset]
      exact ⟨hfree, fun l hl => FileSystem.lookup_set_of_ne hl node⟩
    have hnext := hok w.fs target hlocate w' hextends
    rw [hcall]
    exact ⟨.inr ⟨target.loc, hnext.1⟩, Nat.le_trans (hsteps ▸ Nat.le_succ _) hnext.2⟩

theorem Adds.preserves {script : Script α} (h : Adds script) (w : World) :
    Preserves w.fs (script w).2.fs := by
  rcases (h w).1 with hfs | ⟨loc, hextends⟩
  · rw [hfs]
    exact Preserves.refl _
  · exact hextends.preserves

end Posix
