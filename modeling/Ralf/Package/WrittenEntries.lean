import Ralf.Archive.WrittenFile
import Ralf.Oci.ErofsEntryContents
import Ralf.Package.Options

/-!
# What writing an entry leaves

Writing a regular file can fail when the file was already made. The file of an entry of an archive
is then removed; that of an entry of an image stays, with what was written until then. And what was
written without an error is not always the whole entry: the size of a file of an archive is that of
its header, and the target of a symlink of an image goes through a buffer and a C string.
`writeTo_whole_iff` says for which entries nothing is left, and for which everything is there.
-/

namespace Package

open Posix Archive Oci W3c PartialSequence

variable {sha256 : Bytes → Bytes} {faults : Nat → Option Errno} {targetDir dir loc : Location}
  {fs : FileSystem} {target : Target} {path : FilePath} {kind : FileKind} {entry : EntryImpl}
  {maxSize mode : Nat} {options : ExtractOptions} {contents : Bytes} {w w' w₁ w₂ : World}

/-! ## Objects -/

/-- The kind of the object at a location, with what a file or a symlink holds. -/
def KindAt (fs : FileSystem) (loc : Location) (kind : FileKind) : Prop :=
  ∃ node, fs.lookup loc = some node ∧ node.kind = kind

/-- What a path leads to. -/
def ObjectAt (fs : FileSystem) (dir : Location) (path : FilePath) (kind : FileKind) : Prop :=
  ∃ target, locate fs dir path = .ok target ∧ KindAt fs target.loc kind

theorem objectAt_iff (hlocate : locate fs dir path = .ok target) :
    ObjectAt fs dir path kind ↔ KindAt fs target.loc kind := by
  constructor
  · rintro ⟨found, hfound, hkind⟩
    cases hlocate.symm.trans hfound
    exact hkind
  · exact fun hkind => ⟨target, hlocate, hkind⟩

theorem KindAt.unique {kind' : FileKind} (h : KindAt fs loc kind) (h' : KindAt fs loc kind') :
    kind = kind' := by
  obtain ⟨node, hnode, rfl⟩ := h
  obtain ⟨node', hnode', rfl⟩ := h'
  cases hnode.symm.trans hnode'
  rfl

/-- A file stays a file while a script writes to it. -/
theorem isFile_of_onFile {α : Type} {script : Script α} (h : OnFile faults loc script)
    (hfile : ∃ contents, IsFile w.fs loc contents) :
    ∃ contents, IsFile (script w).2.fs loc contents := by
  induction h generalizing w with
  | pure a => exact hfile
  | bind _ _ ih ihnext => exact ihnext _ (ih hfile)
  | @fileCall f hf =>
    obtain ⟨contents, node, hnode, hkind⟩ := hfile
    unfold fileCall
    dsimp only
    cases faults w.steps with
    | some errno => exact ⟨contents, node, hnode, hkind⟩
    | none =>
      rw [hnode]
      rcases hf node with hsame | ⟨-, contents', -, hkind'⟩
      · exact ⟨contents, f node, FileSystem.lookup_set_self _, hsame.trans hkind⟩
      · exact ⟨contents', f node, FileSystem.lookup_set_self _, hkind'⟩

/-! ## Calls on the new object -/

/-- What is known when an object was made at a path. -/
structure Made (w w' : World) (dir : Location) (path : FilePath) (kind : FileKind)
    (target : Target) : Prop where
  located : locate w.fs dir path = .ok target
  isEntry : target.isEntry = true
  extended : Extends w.fs target.loc w'.fs
  kindAt : KindAt w'.fs target.loc kind

theorem createat_made {op : Op Location}
    (hop : ∀ fs target made, op fs target = .ok made → createat kind mode fs target = .ok made)
    (h : call faults dir op path w = (.ok loc, w')) :
    ∃ target, loc = target.loc ∧ Made w w' dir path kind target := by
  rcases call_cases faults dir op path w with
    ⟨errno, _, hcall, -⟩ | ⟨target, found, w'', hlocate, hcreate, hcall, -⟩
  · rw [hcall] at h
    cases h
  rw [hcall] at h
  cases h
  replace hcreate := hop _ _ _ hcreate
  obtain ⟨hloc, hset⟩ := createat_eq_set hcreate
  obtain ⟨-, hfree, -⟩ := createat_creates _ _ _ _ _ _ hcreate
  refine ⟨target, hloc, hlocate, ?_, ?_, ?_⟩
  · unfold createat at hcreate
    split_ifs at hcreate with hentry
    exact hentry
  · rw [hset]
    exact ⟨hfree, fun l hl => FileSystem.lookup_set_of_ne hl _⟩
  · exact ⟨⟨kind, mode, 0⟩, by rw [hset, FileSystem.lookup_set_self], rfl⟩

/-- A path leads to what was made at it. -/
theorem objectAt_of_extends (hlocate : locate fs dir path = .ok target)
    (h : Extends fs target.loc w.fs) :
    ObjectAt w.fs dir path kind ↔ KindAt w.fs target.loc kind :=
  objectAt_iff (locate_preserves h.preserves hlocate)

theorem Made.objectAt_iff (h : Made w w' dir path kind target) {kind' : FileKind} :
    ObjectAt w'.fs dir path kind' ↔ kind' = kind := by
  rw [objectAt_of_extends h.located h.extended]
  exact ⟨fun hkind => hkind.unique h.kindAt, fun heq => heq ▸ h.kindAt⟩

/-- A script that changes the new object. -/
theorem Made.step {α : Type} {script : Script α} {kind' : FileKind}
    (h : Made w w' dir path kind target) (hfills : Fills w.fs target.loc script)
    (hkind : KindAt (script w').2.fs target.loc kind') :
    Made w (script w').2 dir path kind' target :=
  ⟨h.located, h.isEntry, (hfills w' h.extended).1, hkind⟩

/-- Setting the times leaves the object's kind, with or without success. -/
theorem Made.utimensat {mtime : Int} (h : Made w w' dir path kind target) :
    Made w (call faults dir (utimensat mtime) path w').2 dir path kind target := by
  refine h.step (Fills.call (@changeat_local True _) h.located) ?_
  rcases call_cases faults dir (Posix.utimensat mtime) path w' with
    ⟨errno, w'', hcall, hfs, -⟩ | ⟨found, _, w'', hfound, hchange, hcall, -⟩
  · rw [hcall, hfs]
    exact h.kindAt
  · cases (locate_preserves h.extended.preserves h.located).symm.trans hfound
    obtain ⟨node, hnode, hset⟩ := changeat_eq_set hchange
    obtain ⟨node', hnode', hkind⟩ := h.kindAt
    cases hnode.symm.trans hnode'
    rw [hcall]
    exact ⟨{ node with mtime := mtime }, by rw [hset, FileSystem.lookup_set_self], hkind⟩

/-- Removing the new file, when that does not fail. -/
theorem Made.unlinkat {contents : Bytes} (h : Made w w' dir path (.regular contents) target)
    (hfault : faults ((call faults dir unlinkat path w').2.steps - 1) = none) :
    ¬ ObjectAt (call faults dir unlinkat path w').2.fs dir path kind := by
  have hlocated := locate_preserves h.extended.preserves h.located
  have hfills : Fills w.fs target.loc (call faults dir Posix.unlinkat path) :=
    Fills.call (@unlinkat_local True) h.located
  have hafter := (hfills w' h.extended).1
  rw [objectAt_of_extends h.located hafter]
  obtain ⟨node, hnode, hkind⟩ := h.kindAt
  have hremove : Posix.unlinkat w'.fs target = .ok ((), w'.fs.erase target.loc) := by
    unfold Posix.unlinkat
    rw [if_neg (not_not.mpr h.isEntry), hnode]
    dsimp only
    rw [hkind, if_neg (fun h => nomatch h)]
  rcases call_cases faults dir Posix.unlinkat path w' with
    ⟨errno, w'', hcall, -, hsteps⟩ | ⟨found, _, w'', hfound, hunlink, hcall, -⟩
  · rw [hcall, hsteps, Nat.add_sub_cancel] at hfault
    unfold call at hcall
    simp only [hfault, hlocated, hremove] at hcall
    cases hcall
  · cases hlocated.symm.trans hfound
    rw [hcall]
    rintro ⟨node', hnode', -⟩
    rw [unlinkat_eq_erase hunlink, FileSystem.lookup_erase_self] at hnode'
    cases hnode'

theorem Made.fileCall {f : Node → Node} (h : Made w w' dir path kind target)
    (hf : ∀ node, (f node).kind = node.kind) :
    Made w (fileCall faults target.loc f w').2 dir path kind target :=
  h.step Fills.fileCall (fileCall_kind hf h.kindAt)

/-- A file that was made is still there after a script that writes to it. -/
theorem Made.onFile {α : Type} {script : Script α} (h : Made w w' dir path (.regular contents) target)
    (honFile : OnFile faults target.loc script) :
    ∃ contents', Made w (script w').2 dir path (.regular contents') target := by
  obtain ⟨contents', hfile⟩ := isFile_of_onFile honFile ⟨contents, h.kindAt⟩
  exact ⟨contents', h.step honFile.fills hfile⟩

/-! ## Files of an archive -/

section
variable {file : PackageEntry} {digest : Option Bytes} {index : Nat} {state : SharedReadState}

/-- Writing a file that was made: it is filled, and then either kept or removed. -/
theorem writeFile_opened (hstate : checkReadState index state = .ok ())
    (hcheck : checkExtraction faults targetDir file.path .regular file.perms options w =
      (.ok .extract, w₁))
    (hopen : call faults targetDir (openat 0o644) file.path w₁ = (.ok loc, w₂))
    {result : Result Nat}
    (h : writeFile sha256 faults targetDir file digest index maxSize options state w =
      (result, w')) :
    (∃ n w₃ w₄, result = .ok n ∧
        doFileWrite sha256 faults file.path file.perms digest loc maxSize state.archive w₂ =
          (.ok n, w₃) ∧
        fileCall faults loc (fun node => { node with mode := file.perms }) w₃ = (.ok (), w₄) ∧
        w' = (fileCall faults loc (fun node => { node with mtime := file.modTime }) w₄).2) ∨
      ∃ error script, result = .error error ∧ OnFile faults loc (script : Script (Result Nat)) ∧
        w' = (call faults targetDir unlinkat file.path (script w₂).2).2 := by
  unfold writeFile at h
  rw [hstate] at h
  dsimp only at h
  rw [bind_apply, hcheck] at h
  dsimp only at h
  rw [bind_apply, hopen] at h
  dsimp only at h
  rw [bind_apply] at h
  have honFile := @doFileWrite_onFile sha256 faults file.path file.perms digest loc maxSize
    state.archive
  rcases hwrite : doFileWrite sha256 faults file.path file.perms digest loc maxSize state.archive w₂
    with ⟨error | n, w₃⟩
  · rw [hwrite] at h
    cases h
    exact .inr ⟨error, _, rfl, honFile, by rw [hwrite]; rfl⟩
  rw [hwrite] at h
  dsimp only at h
  rw [bind_apply] at h
  rcases hmode : fileCall faults loc (fun node => { node with mode := file.perms }) w₃ with
    ⟨errno | _, w₄⟩
  · rw [hmode] at h
    cases h
    refine .inr ⟨_, _, rfl, OnFile.bind honFile fun _ => OnFile.bind
      (OnFile.fileCall (f := fun node => { node with mode := file.perms }) fun _ => .inl rfl)
      fun _ => OnFile.bind (OnFile.fileCall (f := fun node => { node with mtime := file.modTime })
        fun _ => .inl rfl) fun _ => OnFile.pure (.ok 0), ?_⟩
    rw [bind_apply, hwrite, bind_apply, hmode]
    rfl
  · rw [hmode] at h
    cases h
    exact .inl ⟨n, w₃, w₄, rfl, rfl, hmode, rfl⟩

/-- What a file of an archive has when it was written: the blocks with data. -/
theorem writeFile_made {n : Nat} (hoffsets : Int64Offsets state.archive.blocks)
    (hstate : checkReadState index state = .ok ())
    (hcheck : checkExtraction faults targetDir file.path .regular file.perms options w =
      (.ok .extract, w₁))
    (h : writeFile sha256 faults targetDir file digest index maxSize options state w =
      (.ok n, w')) :
    InOrder maxSize 0 state.archive.blocks ∧ ∃ target, Made w₁ w' targetDir file.path
      (.regular (sparse 0 (dataBlocks state.archive.blocks))) target := by
  rcases hopen : call faults targetDir (openat 0o644) file.path w₁ with ⟨errno | loc, w₂⟩
  · unfold writeFile at h
    rw [hstate] at h
    dsimp only at h
    rw [bind_apply, hcheck] at h
    dsimp only at h
    rw [bind_apply, hopen] at h
    cases h
  obtain ⟨target, rfl, hmade⟩ := createat_made (fun _ _ _ => id) hopen
  rcases writeFile_opened hstate hcheck hopen h with
    ⟨_, w₃, w₄, -, hwrite, hmode, rfl⟩ | ⟨error, _, hresult, -⟩
  · obtain ⟨horder, -, -, -, hwritten⟩ := doFileWrite_ok hoffsets hmade.kindAt hwrite
    have honFile := @doFileWrite_onFile sha256 faults file.path file.perms digest target.loc maxSize
      state.archive
    have hfilled := hmade.step honFile.fills (by rw [hwrite]; exact hwritten)
    rw [hwrite] at hfilled
    have hmoded := @Made.fileCall faults _ _ _ _ _ _ (fun node => { node with mode := file.perms })
      hfilled fun _ => rfl
    rw [hmode] at hmoded
    exact ⟨horder, target, hmoded.fileCall fun _ => rfl⟩
  · cases hresult

/-- A symlink of an archive that was written has its target. -/
theorem writeSymlink_made {text : Bytes} {n : Nat} (hlength : text.length ≤ maxSize)
    (hcheck : checkExtraction faults targetDir file.path .symlink file.perms options w =
      (.ok .extract, w₁))
    (h : writeSymlink faults targetDir file text maxSize options w = (.ok n, w')) :
    ∃ target, Made w₁ w' targetDir file.path (.symlink (FilePath.parse text)) target := by
  unfold writeSymlink at h
  rw [if_neg (Nat.not_lt.mpr hlength), bind_apply, hcheck] at h
  dsimp only at h
  rw [bind_apply] at h
  rcases hlink : call faults targetDir (symlinkat text) file.path w₁ with ⟨errno | loc, w₂⟩
  · rw [hlink] at h
    cases h
  rw [hlink] at h
  cases h
  obtain ⟨target, rfl, hmade⟩ := createat_made (fun _ _ _ => id) hlink
  exact ⟨target, hmade.utimensat⟩

/-- A file of an archive that could not be written is not there, when removing it works. -/
theorem writeFile_removed {error : Error} (hstate : checkReadState index state = .ok ())
    (hcheck : checkExtraction faults targetDir file.path .regular file.perms options w =
      (.ok .extract, w₁))
    (hopen : call faults targetDir (openat 0o644) file.path w₁ = (.ok loc, w₂))
    (h : writeFile sha256 faults targetDir file digest index maxSize options state w =
      (.error error, w')) (hremoval : faults (w'.steps - 1) = none) :
    ¬ ObjectAt w'.fs targetDir file.path kind := by
  obtain ⟨target, rfl, hmade⟩ := createat_made (fun _ _ _ => id) hopen
  rcases writeFile_opened hstate hcheck hopen h with ⟨n, _, _, hresult, -⟩ | ⟨_, script, -, honFile, rfl⟩
  · cases hresult
  · obtain ⟨contents, hleft⟩ := hmade.onFile honFile
    exact hleft.unlinkat hremoval

end

/-! ## Entries of an image -/

section
variable {image : OCIErofsImageEntry} {source : ImageSource}

/-- Copying that succeeds copies the contents. -/
theorem copyContents_ok (hordered : source.Ordered) (htype : source.made.type = .regular)
    {fuel count offset n : Nat} {written : Bytes} (hfuel : source.made.size ≤ offset + fuel)
    (hoffset : offset = min (4096 * count) source.made.size)
    (hwritten : readRange source.content 0 offset = some written)
    (hfile : IsFile w.fs loc written)
    (h : source.entry.copyContents faults loc maxSize fuel (ImageSource.copyReads count) offset w =
      (.ok n, w')) :
    ∃ contents, source.contents = some contents ∧ IsFile w'.fs loc contents := by
  have hsize : source.entry.size = source.made.size :=
    ImageSource.entry_size (by rw [htype]; decide)
  induction fuel generalizing count offset written w with
  | zero =>
    cases h
    obtain rfl : n = source.made.size := by omega
    exact ⟨written, hwritten, hfile⟩
  | succ fuel ih =>
    unfold OCIErofsImageEntry.copyContents at h
    rw [hsize] at h
    split at h
    · next hlt =>
      obtain rfl : offset = 4096 * count := by omega
      rcases hread : source.entry.read (ImageSource.copyReads count) 4096 (4096 * count) with
        ⟨error, data⟩
      rw [hread] at h
      dsimp only at h
      split at h
      · cases h
      next hok =>
      obtain ⟨herror, hdata⟩ := not_or.mp hok
      split at h
      · cases h
      rw [bind_apply] at h
      rcases hcall : fileCall faults loc
          (writeContents fun contents => pwrite contents data (4096 * count)) w with ⟨_ | _, w₁⟩
      · rw [hcall] at h
        cases h
      rw [hcall] at h
      have hnone : error = none := by simpa using herror
      obtain ⟨hlength, hrange⟩ := ImageSource.copy_read hordered htype hlt (hnone ▸ hread) hdata
      have hlast := length_of_readRange hwritten
      have hnext := fileCall_write hfile hcall
      rw [pwrite_of_length_le hdata hlast.le, hlast, Nat.sub_self, List.replicate_zero,
        List.append_nil] at hnext
      have hboth : readRange source.content 0 (4096 * count + data.length) =
          some (written ++ data) := by
        rw [readRange_add, hwritten, Option.bind_some, Nat.zero_add, hrange]
        rfl
      have hpos := List.length_pos_of_ne_nil hdata
      rw [← ImageSource.copyReads_succ] at h
      exact ih (by omega) (by omega) hboth hnext h
    · next hge =>
      cases h
      obtain rfl : n = source.made.size := by omega
      exact ⟨written, hwritten, hfile⟩

/-- A file of an image that was made stays, whatever comes after. -/
theorem writeTo_left {error : Error} (htype : image.type = .regular)
    (hcheck : checkExtraction faults targetDir image.path image.type image.permissions options w =
      (.ok .extract, w₁))
    (hopen : call faults targetDir (openat image.permissions) image.path w₁ = (.ok loc, w₂))
    (h : image.writeTo faults targetDir maxSize options w = (.error error, w')) :
    ∃ script : Script (Result Nat), OnFile faults loc script ∧ w' = (script w₂).2 := by
  unfold OCIErofsImageEntry.writeTo at h
  rw [bind_apply, hcheck] at h
  dsimp only at h
  unfold OCIErofsImageEntry.create at h
  rw [htype] at h
  dsimp only at h
  unfold OCIErofsImageEntry.writeFile at h
  rw [bind_apply, bind_apply, hopen] at h
  dsimp only at h
  rw [bind_apply] at h
  have honFile := @OCIErofsImageEntry.copyContents_onFile faults image maxSize loc image.size [] 0
  rcases hcopy : image.copyContents faults loc maxSize image.size [] 0 w₂ with ⟨error | n, w₃⟩
  · rw [hcopy] at h
    cases h
    exact ⟨_, honFile, by rw [hcopy]; rfl⟩
  rw [hcopy] at h
  dsimp only at h
  rw [bind_apply] at h
  rcases hmode : fileCall faults loc (fun node => { node with mode := image.permissions }) w₃ with
    ⟨errno | _, w₄⟩
  · rw [hmode] at h
    cases h
    refine ⟨_, OnFile.bind honFile fun _ => OnFile.bind
      (OnFile.fileCall (f := fun node => { node with mode := image.permissions }) fun _ => .inl rfl)
      fun _ => OnFile.pure (.ok 0), ?_⟩
    rw [bind_apply, hcopy, bind_apply, hmode]
    rfl
  · rw [hmode] at h
    cases h

/-- The text of a symlink as `writeTo` makes it: what fits the buffer, up to a NUL byte. -/
def linkText (contents : Bytes) : Bytes := (contents.take (pathMax - 1)).takeWhile (· ≠ 0)

/-- A file of an image that was written has the contents. -/
theorem imageFile_made {n : Nat} (hordered : source.Ordered) (htype : source.made.type = .regular)
    (h : source.entry.writeFile faults targetDir maxSize w = (.ok n, w')) :
    ∃ contents target, source.contents = some contents ∧
      Made w w' targetDir source.entry.path (.regular contents) target := by
  unfold OCIErofsImageEntry.writeFile at h
  rw [bind_apply] at h
  rcases hopen : call faults targetDir (openat source.entry.permissions) source.entry.path w with
    ⟨errno | loc, w₂⟩
  · rw [hopen] at h
    cases h
  obtain ⟨target, rfl, hmade⟩ := createat_made (fun _ _ _ => id) hopen
  rw [hopen] at h
  dsimp only at h
  rw [bind_apply] at h
  rcases hcopy : source.entry.copyContents faults target.loc maxSize source.entry.size [] 0 w₂ with
    ⟨error | offset, w₃⟩
  · rw [hcopy] at h
    cases h
  have hfuel : source.made.size ≤ 0 + source.entry.size := by
    rw [ImageSource.entry_size (by rw [htype]; decide), Nat.zero_add]
  obtain ⟨contents, hcontents, hwritten⟩ := @copyContents_ok faults target.loc maxSize w₂ w₃ source
    hordered htype source.entry.size 0 0 offset [] hfuel (Nat.zero_min _).symm rfl hmade.kindAt hcopy
  have honFile := @OCIErofsImageEntry.copyContents_onFile faults source.entry maxSize target.loc
    source.entry.size [] 0
  have hfilled := hmade.step honFile.fills (by rw [hcopy]; exact hwritten)
  have hmoded := @Made.fileCall faults _ _ _ _ _ _
    (fun node => { node with mode := source.entry.permissions }) hfilled fun _ => rfl
  rw [hcopy] at h hmoded
  dsimp only at h
  rw [bind_apply] at h
  rcases hmode : fileCall faults target.loc
      (fun node => { node with mode := source.entry.permissions }) w₃ with ⟨errno | _, w₄⟩
  · rw [hmode] at h
    cases h
  rw [hmode] at h hmoded
  cases h
  exact ⟨contents, target, hcontents, hmoded⟩

/-- A symlink of an image that was written has the text that went through the buffer. -/
theorem imageSymlink_made {n : Nat} (hordered : source.Ordered)
    (htype : source.made.type = .symlink)
    (h : source.entry.writeSymlink faults targetDir maxSize w = (.ok n, w')) :
    ∃ target, ∀ contents, source.contents = some contents →
      Made w w' targetDir source.entry.path (.symlink (FilePath.parse (linkText contents)))
        target := by
  unfold OCIErofsImageEntry.writeSymlink at h
  rcases hread : source.entry.read [] (pathMax - 1) 0 with ⟨error, data⟩
  rw [hread] at h
  dsimp only at h
  split at h
  · cases h
  next hok =>
  obtain ⟨herror, hdata⟩ := not_or.mp hok
  split at h
  · cases h
  have hnone : error = none := by simpa using herror
  obtain ⟨hlength, hrange⟩ := ImageSource.link_read hordered htype (hnone ▸ hread) hdata
  rw [bind_apply] at h
  rcases hlink : call faults targetDir (OCIErofsImageEntry.symlinkBuffer data) source.entry.path w
    with ⟨errno | loc, w₂⟩
  · rw [hlink] at h
    cases h
  rw [hlink] at h
  cases h
  have hop : ∀ fs target made, OCIErofsImageEntry.symlinkBuffer data fs target = .ok made →
      symlinkat (data.takeWhile (· ≠ 0)) fs target = .ok made := by
    intro fs target made hmade
    unfold OCIErofsImageEntry.symlinkBuffer at hmade
    dsimp only at hmade
    split at hmade
    · cases hmade
    · exact hmade
  obtain ⟨target, rfl, hmade⟩ := createat_made hop hlink
  refine ⟨target, fun contents hcontents => ?_⟩
  -- what was read is the beginning of the contents
  have hwhole : contents.length = source.made.size := length_of_readRange hcontents
  have hbegins : data = contents.take (pathMax - 1) := by
    have hsplit : readRange source.content 0 (data.length + (source.made.size - data.length)) =
        some contents := by
      rw [Nat.add_sub_cancel' (by omega)]
      exact hcontents
    rw [Option.some.inj (hrange.symm.trans (readRange_take hsplit)), List.take_eq_take_min,
      hlength, hwhole]
    exact (List.take_eq_take_iff.mpr (by omega))
  unfold linkText
  rw [← hbegins]
  exact hmade

/-- What an entry of an image has when it was written. -/
theorem writeTo_made {n : Nat} (hordered : source.Ordered)
    (hcheck : checkExtraction faults targetDir source.entry.path source.entry.type
      source.entry.permissions options w = (.ok .extract, w₁))
    (h : source.entry.writeTo faults targetDir maxSize options w = (.ok n, w')) :
    (source.made.type = .regular → ∃ contents target, source.contents = some contents ∧
        Made w₁ w' targetDir source.entry.path (.regular contents) target) ∧
      (source.made.type = .symlink → ∃ target, ∀ contents, source.contents = some contents →
        Made w₁ w' targetDir source.entry.path (.symlink (FilePath.parse (linkText contents)))
          target) := by
  unfold OCIErofsImageEntry.writeTo at h
  rw [bind_apply, hcheck] at h
  dsimp only at h
  rw [bind_apply] at h
  rcases hcreate : source.entry.create faults targetDir maxSize w₁ with ⟨error | amount, w₂⟩
  · rw [hcreate] at h
    cases h
  rw [hcreate] at h
  cases h
  unfold OCIErofsImageEntry.create at hcreate
  constructor
  · intro htype
    rw [ImageSource.entry_type, htype] at hcreate
    obtain ⟨contents, target, hcontents, hmade⟩ := imageFile_made hordered htype hcreate
    exact ⟨contents, target, hcontents, hmade.utimensat⟩
  · intro htype
    rw [ImageSource.entry_type, htype] at hcreate
    obtain ⟨target, hmade⟩ := imageSymlink_made hordered htype hcreate
    exact ⟨target, fun contents hcontents => (hmade contents hcontents).utimensat⟩

end

/-! ## All entries -/

namespace EntryImpl

/-- The mode with which the file of an entry is made. -/
def openMode : EntryImpl → Nat
  | .archive _ _ => 0o644
  | .erofs image => image.permissions

/-- The entry is one of an archive. -/
def FromArchive : EntryImpl → Prop
  | .archive _ _ => True
  | .erofs _ => False

end EntryImpl

/-- Where an entry comes from: an entry of an archive, where the offsets of blocks are numbers of 63
bits, or an image. -/
inductive EntrySource
  | archive (entry : PackageEntry) (state : SharedReadState)
      (offsets : Int64Offsets state.archive.blocks)
  | image (source : ImageSource)

namespace EntrySource

def impl : EntrySource → EntryImpl
  | .archive entry state _ => .archive entry state
  | .image source => .erofs source.entry

/-- What the entry has: the target of a symlink, the blocks of a member of an archive with zeros in
the gaps, or the contents of an inode, if the image has all of it. -/
def allContents : EntrySource → Option Bytes
  | .archive entry state _ =>
    match entry.kind with
    | .directory => some []
    | .symlink target => some target
    | .file _ _ => some (sparse 0 state.archive.blocks)
  | .image source => source.contents

/-- The whole content of the entry is at its path. -/
def WholeAt (source : EntrySource) (targetDir : Location) (fs : FileSystem) : Prop :=
  ∃ contents, source.allContents = some contents ∧ contents.length = source.impl.size ∧
    (source.impl.type = .regular →
      ObjectAt fs targetDir source.impl.path (.regular contents)) ∧
    (source.impl.type = .symlink →
      ObjectAt fs targetDir source.impl.path (.symlink (FilePath.parse contents)))

/-- What a whole entry needs: the blocks of a member end with data and where the header says, and
the target of a symlink of an image is there and stays the same path in the buffer. -/
def Uncut : EntrySource → Prop
  | .archive entry state _ =>
    match entry.kind with
    | .directory => True
    | .symlink target => target.length = entry.size
    | .file _ _ =>
      EndsWithData state.archive.blocks ∧ lastEnd 0 state.archive.blocks = entry.size
  | .image source => source.made.type = .symlink → ∃ contents, source.contents = some contents ∧
      FilePath.parse (linkText contents) = FilePath.parse contents

/-- Compressed data of an image is in order for the reads that are made of it. -/
def Ordered : EntrySource → Prop
  | .archive _ _ _ => True
  | .image source => source.Ordered

end EntrySource

/-- When an error comes after the file was made, nothing is left exactly for an entry of an
archive. -/
theorem absent_iff {error : Error} (hready : entry.Ready maxSize)
    (hextract : entry.check faults targetDir options w = (.ok .extract, w₁))
    (htype : entry.type = .regular)
    (hopen : call faults targetDir (openat entry.openMode) entry.path w₁ = (.ok loc, w₂))
    (h : entry.writeTo sha256 faults targetDir maxSize options w = (.error error, w'))
    (hremoval : entry.FromArchive → faults (w'.steps - 1) = none) :
    (∀ kind, ¬ ObjectAt w'.fs targetDir entry.path kind) ↔ entry.FromArchive := by
  cases entry with
  | erofs image =>
    refine iff_of_false (fun habsent => ?_) id
    obtain ⟨target, rfl, hmade⟩ := createat_made (fun _ _ _ => id) hopen
    obtain ⟨script, honFile, rfl⟩ := writeTo_left htype hextract hopen h
    obtain ⟨contents, hleft⟩ := hmade.onFile honFile
    exact habsent _ (hleft.objectAt_iff.mpr rfl)
  | archive entry state =>
    refine iff_of_true (fun kind => ?_) trivial
    obtain ⟨path, kind, size, perms, modTime⟩ := entry
    cases kind with
    | directory => cases htype
    | symlink target => cases htype
    | file digest index => exact writeFile_removed hready hextract hopen h (hremoval trivial)

/-- When there is no error, the whole content is at the path exactly if it is not cut. -/
theorem wholeAt_iff {source : EntrySource} {n : Nat} (hready : source.impl.Ready maxSize)
    (hextract : source.impl.check faults targetDir options w = (.ok .extract, w₁))
    (htype : source.impl.type = .regular ∨ source.impl.type = .symlink)
    (hordered : source.Ordered)
    (h : source.impl.writeTo sha256 faults targetDir maxSize options w = (.ok n, w')) :
    source.WholeAt targetDir w'.fs ↔ source.Uncut := by
  cases source with
  | image image =>
    obtain ⟨hfile, hsymlink⟩ := writeTo_made hordered hextract h
    have hentryType : image.entry.type = image.made.type := ImageSource.entry_type
    have hnot : image.made.type ≠ .directory := by
      rintro hdirectory
      have hentry : image.entry.type = .directory := hentryType.trans hdirectory
      rcases htype with hregular | hlink
      · exact nomatch hentry.symm.trans hregular
      · exact nomatch hentry.symm.trans hlink
    have hlength : ∀ contents, image.contents = some contents →
        contents.length = image.entry.size := fun contents hcontents =>
      (length_of_readRange hcontents).trans (ImageSource.entry_size hnot).symm
    constructor
    · rintro ⟨contents, hcontents, -, -, hwhole⟩ hlink
      obtain ⟨target, hmade⟩ := hsymlink hlink
      have hsame := (hmade contents hcontents).objectAt_iff.mp (hwhole (hentryType.trans hlink))
      exact ⟨contents, hcontents, (FileKind.symlink.inj hsame).symm⟩
    · intro huncut
      rcases htype with hregular | hlink
      · obtain ⟨contents, target, hcontents, hmade⟩ := hfile (hentryType.symm.trans hregular)
        refine ⟨contents, hcontents, hlength _ hcontents, fun _ => hmade.objectAt_iff.mpr rfl,
          fun hlink => ?_⟩
        exact nomatch hregular.symm.trans hlink
      · obtain ⟨contents, hcontents, hsame⟩ := huncut (hentryType.symm.trans hlink)
        obtain ⟨target, hmade⟩ := hsymlink (hentryType.symm.trans hlink)
        refine ⟨contents, hcontents, hlength _ hcontents, fun hregular => ?_, fun _ =>
          (hmade contents hcontents).objectAt_iff.mpr (congrArg FileKind.symlink hsame.symm)⟩
        exact nomatch hregular.symm.trans hlink
  | archive entry state hoffsets =>
    obtain ⟨path, kind, size, perms, modTime⟩ := entry
    cases kind with
    | directory => exact htype.elim (fun h => nomatch h) (fun h => nomatch h)
    | symlink text =>
      obtain ⟨target, hmade⟩ := writeSymlink_made hready hextract h
      constructor
      · rintro ⟨contents, hcontents, hlength, -⟩
        cases hcontents
        exact hlength
      · exact fun hlength =>
          ⟨text, rfl, hlength, (fun h => nomatch h), fun _ => hmade.objectAt_iff.mpr rfl⟩
    | file digest index =>
      obtain ⟨horder, target, hmade⟩ := writeFile_made hoffsets hready hextract h
      have hlength := length_sparse horder
      have hdata := length_sparse horder.dataBlocks
      constructor
      · rintro ⟨contents, hcontents, hsize, hwhole, -⟩
        cases hcontents
        have hsame := hmade.objectAt_iff.mp (hwhole rfl)
        rw [FileKind.regular.inj hsame] at hlength
        have hsize : (sparse 0 state.archive.blocks).length = size := hsize
        rw [FileKind.regular.inj hsame] at hsize
        refine ⟨?_, ?_⟩
        · unfold EndsWithData
          omega
        · show lastEnd 0 state.archive.blocks = size
          omega
      · intro ⟨hends, hsize⟩
        have hsize : lastEnd 0 state.archive.blocks = size := hsize
        obtain ⟨gap, hlast, hsparse⟩ := sparse_eq horder
        have hnone : gap = 0 := by
          unfold EndsWithData at hends
          omega
        rw [hnone, List.replicate_zero, List.append_nil] at hsparse
        refine ⟨_, rfl, (hlength.trans (Nat.sub_zero _)).trans hsize, fun _ => ?_,
          (fun h => nomatch h)⟩
        exact hmade.objectAt_iff.mpr (congrArg FileKind.regular hsparse)

/-- An empty root directory. -/
def emptyWorld : World := ⟨⟨[]⟩, [], 0⟩

/-- A file of an image of one byte that cannot be read. -/
def unreadableFile : EntryImpl :=
  .erofs { path := .ofNames [[0x61]], type := .regular, permissions := 0o644, size := 1,
           modificationTime := 0, read := fun _ _ _ => (some (.ralf .erofsError ""), []) }

/-- A file of an archive of one byte. -/
def oneByteFile : EntrySource :=
  .archive { path := .ofNames [[0x61]], kind := .file none 1, size := 1, perms := 0o644,
             modTime := 0 }
    { archive := ⟨[], [⟨[0x78], 0⟩], .eof⟩, error := none, endOfArchive := false, entryIndex := 1 }
    (by unfold Int64Offsets; decide)

/-- An inode of a file of two bytes in one compressed block. -/
def compressedInode : Erofs.ErofsInode :=
  { superBlock := Erofs.ErofsReader.treeSuperBlock, inodeNumber := 0, inodeFileOffset := 0,
    inodeReaderHints := 0, dataFormat := .compressedFull, type := .regular, size := 2,
    mode := 0o644, compressedBlocks := 1 }

/-- The file of an image. -/
def compressedFile : ImageSource where
  file := Erofs.ErofsInodeCompressedDataReader.sharedBlockImage
  byte := _
  gives := Erofs.imageOf_gives _ _
  lz4 := Erofs.ErofsInodeCompressedDataReader.constantLz4
  path := .ofNames [[0x61]]
  made := compressedInode
  unread := rfl
  prior := []
  inode := compressedInode
  used := .made
  state := ()

theorem compressedFile_ordered : compressedFile.Ordered := by
  intro map hmap
  have hone : compressedFile.made.extentMap compressedFile.file.size_lt compressedFile.byte =
      some ⟨4096, 2, (.lz4, .lz4), [⟨.lz4, 0, 2, 4096⟩], 0⟩ := by decide +kernel
  obtain rfl := Option.some.inj (hmap.symm.trans hone)
  refine .inr ⟨Erofs.ErofsExtentMap.partitions_of_tiles (by decide) ⟨rfl, by decide, rfl⟩,
    fun call _ extent hextent _ => ?_, fun call _ extent hextent _ call' _ extent' hextent' _ _ => ?_⟩
  · obtain rfl := List.mem_singleton.mp (List.mem_filter.mp hextent).1
    decide
  · obtain rfl := List.mem_singleton.mp (List.mem_filter.mp (List.mem_filter.mp hextent).1).1
    obtain rfl := List.mem_singleton.mp (List.mem_filter.mp hextent').1
    rfl

end Package
