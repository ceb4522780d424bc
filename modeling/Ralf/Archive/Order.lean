import Ralf.Archive.Turns

/-!
# The order of the returned entries

A client can write the entries of an archive in the order in which `next` returns them: each
directory on the way to an entry is returned before it, and no directory twice. Nothing is left
out: the file and symlink entries are those of the members, in order, and each directory with a
member is returned for it or was returned before. Only the member `.` has no entry.

The invariant is about the entries that were returned together with those that are queued. The
tree of the reader has the directories among them, and a member is only read when all entries of
the members before it were returned.
-/

namespace Archive

open Posix

/-! ## Lists of entries -/

/-- The directories among some entries. -/
def directoryPaths (listed : List PackageEntry) : List FilePath :=
  (listed.filter fun entry => entry.kind = .directory).map PackageEntry.path

/-- All directories on the way to an entry are among some entries. -/
def ParentsIn (before : List PackageEntry) (entry : PackageEntry) : Prop :=
  ∀ init, init ≠ [] → init <+: entry.path.names → init ≠ entry.path.names →
    FilePath.ofNames init ∈ directoryPaths before

/-- Each directory comes before what is in it. -/
def ParentsFirst (listed : List PackageEntry) : Prop :=
  ∀ before entry after, listed = before ++ entry :: after → ParentsIn before entry

/-- The members are accounted for by some entries: the files and symlinks one by one, and the
directories by a directory of their path. -/
structure Covered (done : List Member) (listed : List PackageEntry) : Prop where
  files : List.Forall₂ (fun (m : Member × Nat) entry => MadeFor m.1 m.2 entry)
    ((done.zipIdx 1).filter fun m => m.1.type ≠ .directory)
    (listed.filter fun entry => entry.kind ≠ .directory)
  directories : ∀ member ∈ done, member.type = .directory → ∃ path, member.path = some path ∧
    (path.names = [FilePath.dot] ∨ FilePath.ofNames path.names ∈ directoryPaths listed)

section
variable {done : List Member} {member : Member} {listed entries : List PackageEntry}
  {entry : PackageEntry}

theorem directoryPaths_append (a b : List PackageEntry) :
    directoryPaths (a ++ b) = directoryPaths a ++ directoryPaths b := by
  unfold directoryPaths
  rw [List.filter_append, List.map_append]

theorem directoryPaths_singleton (h : entry.kind = .directory) :
    directoryPaths [entry] = [entry.path] := by
  unfold directoryPaths
  rw [List.filter_cons_of_pos (by simpa using h)]
  rfl

theorem directoryPaths_of_not (h : entry.kind ≠ .directory) : directoryPaths [entry] = [] := by
  unfold directoryPaths
  rw [List.filter_cons_of_neg (by simpa using h)]
  rfl

theorem ParentsFirst.of_prefix {rest : List PackageEntry} (h : ParentsFirst (listed ++ rest)) :
    ParentsFirst listed := by
  intro before entry after hlisted
  refine h before entry (after ++ rest) ?_
  rw [hlisted, List.append_assoc, List.cons_append]

theorem ParentsFirst.concat (h : ParentsFirst listed) (hentry : ParentsIn listed entry) :
    ParentsFirst (listed ++ [entry]) := by
  intro before e after hlisted
  rcases List.append_eq_append_iff.mp hlisted with
    ⟨middle, hbefore, hrest⟩ | ⟨middle, hfound, hrest⟩
  · cases middle with
    | nil =>
      cases hrest
      rw [hbefore, List.append_nil]
      exact hentry
    | cons first middle =>
      have hlength := congrArg List.length hrest
      simp at hlength
  · cases middle with
    | nil =>
      cases hrest
      rw [List.append_nil] at hfound
      rw [← hfound]
      exact hentry
    | cons first middle =>
      cases hrest
      exact h before e middle hfound

theorem MadeFor.kind_ne {index : Nat} (h : MadeFor member index entry) :
    entry.kind ≠ .directory := by
  intro hkind
  cases h with
  | symlink hkind' => cases hkind.symm.trans hkind'
  | file hkind' => cases hkind.symm.trans hkind'

theorem filter_directories (hentries : ∀ entry ∈ entries, entry.kind = .directory) :
    entries.filter (fun entry => entry.kind ≠ .directory) = [] := by
  refine List.filter_eq_nil_iff.mpr fun entry hentry => ?_
  simp [hentries entry hentry]

theorem Covered.append (h : Covered done listed)
    (hentries : ∀ entry ∈ entries, entry.kind = .directory) : Covered done (listed ++ entries) := by
  constructor
  · rw [List.filter_append, filter_directories hentries, List.append_nil]
    exact h.files
  · intro member hmember htype
    obtain ⟨path, hpath, hfound⟩ := h.directories member hmember htype
    refine ⟨path, hpath, hfound.imp_right fun hmem => ?_⟩
    rw [directoryPaths_append]
    exact List.mem_append_left _ hmem

/-- The last member is a directory. -/
theorem Covered.directory {path : FilePath} (h : Covered done listed)
    (htype : member.type = .directory) (hpath : member.path = some path)
    (hfound : path.names = [FilePath.dot] ∨ FilePath.ofNames path.names ∈ directoryPaths listed) :
    Covered (done ++ [member]) listed := by
  constructor
  · rw [List.zipIdx_append, List.filter_append]
    have hnone : ([member].zipIdx (1 + done.length)).filter
        (fun m => m.1.type ≠ .directory) = [] := by simp [htype]
    rw [hnone, List.append_nil]
    exact h.files
  · intro other hother htype'
    rcases List.mem_append.mp hother with hold | hnew
    · exact h.directories other hold htype'
    · cases List.mem_singleton.mp hnew
      exact ⟨path, hpath, hfound⟩

/-- The last member is a file or a symlink. -/
theorem Covered.file (h : Covered done listed) (htype : member.type ≠ .directory)
    (hmade : MadeFor member (done.length + 1) entry) :
    Covered (done ++ [member]) (listed ++ [entry]) := by
  constructor
  · rw [List.zipIdx_append, List.filter_append, List.filter_append]
    have hlast : ([member].zipIdx (1 + done.length)).filter (fun m => m.1.type ≠ .directory) =
        [(member, done.length + 1)] := by simp [htype, Nat.add_comm]
    have hentry : [entry].filter (fun entry => entry.kind ≠ .directory) = [entry] := by
      simp [hmade.kind_ne]
    rw [hlast, hentry]
    exact List.rel_append h.files (.cons hmade .nil)
  · intro other hother htype'
    rcases List.mem_append.mp hother with hold | hnew
    · obtain ⟨path, hpath, hfound⟩ := h.directories other hold htype'
      refine ⟨path, hpath, hfound.imp_right fun hmem => ?_⟩
      rw [directoryPaths_append]
      exact List.mem_append_left _ hmem
    · cases List.mem_singleton.mp hnew
      exact absurd htype' htype

end

namespace ArchiveReader

/-! ## The tree of directories -/

/-- The directories that are in the tree of a reader are those among some entries, where each comes
before what is in it, and none comes twice. -/
structure Tree (listed : List PackageEntry) (reader : ArchiveReader) : Prop where
  first : ParentsFirst listed
  nodup : (directoryPaths listed).Nodup
  known : reader.hasError = false → ∀ names,
    names ∈ reader.fstree ↔ FilePath.ofNames names ∈ directoryPaths listed

section
variable {sha256 : Bytes → Bytes} {reader : ArchiveReader} {member : Member} {path : FilePath}
  {listed returned : List PackageEntry} {entry : PackageEntry}

/-- After an error only the order matters. -/
theorem Tree.of_prefix {rest : List PackageEntry} {reader' : ArchiveReader}
    (h : Tree (listed ++ rest) reader) (herror : reader'.hasError = true) :
    Tree listed reader' := by
  refine ⟨h.first.of_prefix, ?_, fun hclean => absurd (herror.symm.trans hclean) (by decide)⟩
  have hnodup := h.nodup
  rw [directoryPaths_append] at hnodup
  exact (List.nodup_append.mp hnodup).1

/-- Only the tree and the error matter. -/
theorem Tree.congr {reader' : ArchiveReader} (h : Tree listed reader)
    (hfstree : reader'.fstree = reader.fstree) (herror : reader'.hasError = reader.hasError) :
    Tree listed reader' := by
  refine ⟨h.first, h.nodup, fun hclean => ?_⟩
  rw [hfstree]
  exact h.known (herror ▸ hclean)

/-- Adding an entry that is not a directory. -/
theorem Tree.concat (h : Tree listed reader) (hkind : entry.kind ≠ .directory)
    (hentry : ParentsIn listed entry) : Tree (listed ++ [entry]) reader := by
  have hsame : directoryPaths (listed ++ [entry]) = directoryPaths listed := by
    rw [directoryPaths_append, directoryPaths_of_not hkind, List.append_nil]
  refine ⟨h.first.concat hentry, ?_, ?_⟩
  · rw [hsame]
    exact h.nodup
  · rw [hsame]
    exact h.known

/-- A new directory in the tree, below directories that are there. -/
theorem Tree.insert {current : List Bytes} {component : Bytes} {reader' : ArchiveReader}
    (h : Tree listed reader) (hclean : reader.hasError = false)
    (hkind : entry.kind = .directory)
    (hpath : entry.path = FilePath.ofNames (current ++ [component]))
    (hnew : current ++ [component] ∉ reader.fstree)
    (hcurrent : ∀ init, init ≠ [] → init <+: current → init ∈ reader.fstree)
    (hfstree : reader'.fstree = (current ++ [component]) :: reader.fstree) :
    Tree (listed ++ [entry]) reader' := by
  have hknown := h.known hclean
  have hpaths : directoryPaths (listed ++ [entry]) =
      directoryPaths listed ++ [FilePath.ofNames (current ++ [component])] := by
    rw [directoryPaths_append, directoryPaths_singleton hkind, hpath]
  refine ⟨h.first.concat fun init hne hinit hproper => ?_, ?_, fun _ names => ?_⟩
  · rw [hpath] at hinit hproper
    rcases List.prefix_concat_iff.mp hinit with hall | hinit
    · exact absurd hall hproper
    · exact (hknown init).mp (hcurrent init hne hinit)
  · rw [hpaths]
    refine List.nodup_append.mpr ⟨h.nodup, List.nodup_singleton _, ?_⟩
    rintro a ha b hb rfl
    cases List.mem_singleton.mp hb
    exact hnew ((hknown _).mpr ha)
  · rw [hpaths, hfstree, List.mem_cons, List.mem_append, List.mem_singleton, ← hknown names,
      or_comm]
    refine or_congr_right ⟨fun heq => congrArg _ heq, fun heq => ?_⟩
    exact congrArg FilePath.names heq

theorem updateParentLoop_tree {current rest : List Bytes} (dirModTime : Int)
    (hok : ∀ name ∈ current ++ rest, NameOk name) (hplain : Plain rest)
    (hclean : reader.hasError = false)
    (hcurrent : ∀ init, init ≠ [] → init <+: current → init ∈ reader.fstree)
    (htree : Tree (returned ++ reader.entryStack) reader) :
    Tree (returned ++ (updateParentLoop dirModTime current current rest reader).entryStack)
        (updateParentLoop dirModTime current current rest reader) ∧
      ((updateParentLoop dirModTime current current rest reader).hasError = false →
        ∀ init, init ≠ [] → init <+: current ++ rest →
          init ∈ (updateParentLoop dirModTime current current rest reader).fstree) := by
  induction rest generalizing current reader with
  | nil => exact ⟨htree, fun _ init hne hinit => hcurrent init hne (by simpa using hinit)⟩
  | cons component rest ih =>
    obtain ⟨hdot, hdotdot⟩ := hplain component List.mem_cons_self
    have hplain' : Plain rest := fun name hname => hplain name (List.mem_cons_of_mem _ hname)
    have hnil : component ≠ [] := (hok component (by simp)).1
    have hassoc : current ++ component :: rest = current ++ [component] ++ rest := by simp
    rw [hassoc] at hok ⊢
    have hwalk : ∀ fstree, current ++ [component] ∈ fstree → reader.fstree ⊆ fstree →
        ∀ init, init ≠ [] → init <+: current ++ [component] → init ∈ fstree := by
      intro fstree hmem hsub init hne hinit
      rcases List.prefix_concat_iff.mp hinit with rfl | hinit
      · exact hmem
      · exact hsub (hcurrent init hne hinit)
    unfold updateParentLoop
    rw [if_neg (by simp [hdot, hnil]), if_neg hdotdot]
    by_cases hmem : current ++ [component] ∈ reader.fstree
    · rw [if_pos hmem]
      exact ih hok hplain' hclean (hwalk _ hmem (List.Subset.refl _)) htree
    rw [if_neg hmem]
    dsimp only
    split
    · refine ⟨⟨htree.first, htree.nodup, fun h => ?_⟩, fun h => ?_⟩
      · cases h
      · cases h
    · have hpath : (createDirectoryEntry (current ++ [component]) dirModTime).path =
          FilePath.ofNames (current ++ [component]) := by
        show (current ++ [component]).foldl FilePath.append (FilePath.ofNames []) = _
        rw [foldl_append_eq fun name hname => hok name (List.mem_append_left _ hname),
          List.nil_append]
      refine ih hok hplain' hclean
        (hwalk _ List.mem_cons_self fun _ h => List.mem_cons_of_mem _ h) ?_
      rw [← List.append_assoc]
      exact htree.insert hclean rfl hpath hmem hcurrent rfl

/-- The names of a path that `next` accepted. -/
theorem Checked.names_cases (h : Checked reader path) :
    path.names = [FilePath.dot] ∨ Plain path.names := by
  by_cases hne : path.names = []
  · exact .inr (by simp [hne, Plain])
  · generalize hnames : FilePath.ofNames path.names = whole at *
    cases hnames ▸ h.prefixes path.names hne List.prefix_rfl with
    | names names _ hplain => exact .inr (by cases hnames; exact hplain)
    | dot => exact .inl (congrArg FilePath.names hnames)

theorem updateParentEntryStack_tree (hchecked : Checked reader path) (dirModTime : Int)
    (hclean : reader.hasError = false) (htree : Tree (returned ++ reader.entryStack) reader) :
    Tree (returned ++ (reader.updateParentEntryStack path dirModTime).entryStack)
        (reader.updateParentEntryStack path dirModTime) ∧
      ((reader.updateParentEntryStack path dirModTime).hasError = false →
        path.names ≠ [FilePath.dot] → ∀ init, init ≠ [] → init <+: path.names →
          FilePath.ofNames init ∈ directoryPaths
            (returned ++ (reader.updateParentEntryStack path dirModTime).entryStack)) := by
  have hloop : reader.updateParentEntryStack path dirModTime =
      updateParentLoop dirModTime [] [] path.names reader := by
    unfold updateParentEntryStack FilePath.components
    rw [hchecked.rooted]
    cases path.trailing with
    | false => simp
    | true => simp [updateParentLoop_trailing]
  rw [hloop]
  rcases hchecked.names_cases with hdot | hplain
  · rw [hdot]
    exact ⟨htree, fun _ hne => absurd rfl hne⟩
  · have hall := @updateParentLoop_tree reader returned [] path.names dirModTime
      hchecked.names_ok hplain hclean (fun init hne hinit => absurd (List.prefix_nil.mp hinit) hne)
      htree
    refine ⟨hall.1, fun hclean' _ init hne hinit => ?_⟩
    exact (hall.1.known hclean' init).mp (hall.2 hclean' init hne hinit)

end

end ArchiveReader

/-! ## Calling `next` again and again -/

/-- The entries that calls of `next` returned, and the reader. -/
structure Sequence where
  returned : List PackageEntry
  reader : ArchiveReader

/-- The start: an archive that was just opened. -/
def Sequence.new (headers : List Header) (digests : Option FileDigestMap) : Sequence :=
  ⟨[], .new headers digests⟩

/-- One call. -/
def Sequence.next (sha256 : Bytes → Bytes) (s : Sequence) : Sequence :=
  ⟨s.returned ++ (s.reader.next sha256).1.toList, (s.reader.next sha256).2⟩

/-- Some number of calls. -/
def Sequence.after (sha256 : Bytes → Bytes) (calls : Nat) (s : Sequence) : Sequence :=
  (Sequence.next sha256)^[calls] s

/-- What is still to be returned: nothing after an error. -/
def ArchiveReader.pending (reader : ArchiveReader) : List PackageEntry :=
  if reader.hasError then [] else reader.entryStack

/-- The members that a reader has passed: all up to where it is, or up to where the error was
set. A header that cannot be read has an error of its own, and the others are set at a member
unless the end was reached. -/
inductive UpToError (headers : List Header) (reader : ArchiveReader) (done : List Member) : Prop
  | noError (hclean : reader.hasError = false)
      (hheaders : headers = done.map .entry ++ reader.readState.archive.headers)
      (hindex : reader.readState.entryIndex = done.length) :
    UpToError headers reader done
  | atMember {member : Member} {rest : List Header} (herror : reader.hasError = true)
      (hwhat : reader.readState.error ≠ some ArchiveReader.headerError)
      (hopen : reader.readState.endOfArchive = false)
      (hheaders : headers = done.map .entry ++ .entry member :: rest)
      (hindex : reader.readState.entryIndex = done.length + 1) :
    UpToError headers reader done
  | atFailure {rest : List Header}
      (hwhat : reader.readState.error = some ArchiveReader.headerError)
      (hheaders : headers = done.map .entry ++ .failure :: rest)
      (hindex : reader.readState.entryIndex = done.length) :
    UpToError headers reader done
  | atEnd (herror : reader.hasError = true) (hend : reader.readState.endOfArchive = true)
      (hheaders : headers = done.map .entry)
      (hindex : reader.readState.entryIndex = done.length) :
    UpToError headers reader done

/-- How many members were passed. -/
def ArchiveReader.passedCount (reader : ArchiveReader) : Nat :=
  if reader.hasError = true ∧ reader.readState.error ≠ some headerError ∧
      reader.readState.endOfArchive = false then
    reader.readState.entryIndex - 1
  else reader.readState.entryIndex

/-- What holds after any number of calls. -/
structure Ordered (headers : List Header) (returned : List PackageEntry) (reader : ArchiveReader) :
    Prop where
  tree : ArchiveReader.Tree (returned ++ reader.pending) reader
  covered : ∃ done, UpToError headers reader done ∧ Covered done (returned ++ reader.pending)
  ended : reader.hasError = false → reader.readState.endOfArchive = true → reader.entryStack = []

section
variable {sha256 : Bytes → Bytes} {headers : List Header} {returned : List PackageEntry}
  {reader : ArchiveReader}

theorem ArchiveReader.pending_of_clean (h : reader.hasError = false) :
    reader.pending = reader.entryStack := by
  unfold ArchiveReader.pending
  rw [h]
  rfl

theorem ArchiveReader.pending_of_error (h : reader.hasError = true) : reader.pending = [] := by
  unfold ArchiveReader.pending
  rw [h]
  rfl

/-- The first of the entries that are queued is returned. -/
theorem ArchiveReader.Tree.popFront {first : PackageEntry} {rest : List PackageEntry}
    {reader' : ArchiveReader} (h : ArchiveReader.Tree (returned ++ first :: rest) reader)
    (hstack : reader'.entryStack = rest) (hfstree : reader'.fstree = reader.fstree)
    (herror : reader'.hasError = reader.hasError) :
    ArchiveReader.Tree (returned ++ [first] ++ reader'.pending) reader' := by
  rw [List.append_cons] at h
  cases hcase : reader'.hasError with
  | true =>
    rw [ArchiveReader.pending_of_error hcase, List.append_nil]
    exact h.of_prefix hcase
  | false =>
    rw [ArchiveReader.pending_of_clean hcase, hstack]
    exact h.congr hfstree herror

theorem Ordered.error {reader' : ArchiveReader} {done : List Member}
    (h : ArchiveReader.Tree returned reader) (hdone : Covered done returned)
    (herror : reader'.hasError = true) (hread : UpToError headers reader' done) :
    Ordered headers returned reader' := by
  rw [← List.append_nil returned] at h hdone
  constructor
  · rw [ArchiveReader.pending_of_error herror]
    rw [← List.append_nil (returned ++ [])] at h
    exact h.of_prefix herror
  · rw [ArchiveReader.pending_of_error herror]
    exact ⟨done, hread, hdone⟩
  · exact fun hclean => absurd (herror.symm.trans hclean) (by decide)

/-- All directories on the way to a file are queued in front of it. -/
theorem parentsIn_of_parentPath {path : FilePath} {listed : List PackageEntry}
    {entry : PackageEntry} (hchecked : ArchiveReader.Checked reader path)
    (hfilename : path.hasFilename = true) (hpath : entry.path = path)
    (hlisted : path.parentPath.names ≠ [FilePath.dot] → ∀ init, init ≠ [] →
      init <+: path.parentPath.names → FilePath.ofNames init ∈ directoryPaths listed) :
    ParentsIn listed entry := by
  have hparent := (FilePath.parentPath_of_hasFilename hfilename).1
  intro init hne hinit hproper
  rw [hpath] at hinit hproper
  have hdrop : init <+: path.names.dropLast := by
    obtain ⟨rest, hrest⟩ := hinit
    have hrestNe : rest ≠ [] := by
      rintro rfl
      exact hproper (by rwa [List.append_nil] at hrest)
    rw [← hrest, List.dropLast_append_of_ne_nil hrestNe]
    exact List.prefix_append _ _
  refine hlisted ?_ init hne (hparent ▸ hdrop)
  rw [hparent]
  intro hdot
  -- a path that goes through `.` is `.` itself
  rcases hchecked.names_cases with hall | hplain
  · rw [hall] at hdot
    cases hdot
  · have hmem : FilePath.dot ∈ path.names :=
      (List.dropLast_prefix _).subset (hdot ▸ List.mem_singleton.mpr rfl)
    exact (hplain _ hmem).1 rfl

theorem ArchiveReader.hasError_of_headerError
    (h : reader.readState.error = some headerError) : reader.hasError = true := by
  rw [ArchiveReader.hasError, h]
  rfl

theorem UpToError.counted {done : List Member} (h : UpToError headers reader done) :
    done.map .entry <+: headers ∧ done.length = reader.passedCount := by
  unfold ArchiveReader.passedCount
  cases h with
  | noError hclean hheaders hindex =>
    rw [if_neg fun h => absurd (h.1.symm.trans hclean) (by decide)]
    exact ⟨⟨_, hheaders.symm⟩, hindex.symm⟩
  | atMember herror hwhat hopen hheaders hindex =>
    rw [if_pos ⟨herror, hwhat, hopen⟩, hindex]
    exact ⟨⟨_, hheaders.symm⟩, rfl⟩
  | atFailure hwhat hheaders hindex =>
    rw [if_neg fun h => h.2.1 hwhat]
    exact ⟨⟨_, hheaders.symm⟩, hindex.symm⟩
  | atEnd herror hend hheaders hindex =>
    rw [if_neg fun h => absurd (hend.symm.trans h.2.2) (by decide)]
    exact ⟨hheaders ▸ List.prefix_rfl, hindex.symm⟩

/-- There is one list of members that a reader has passed. -/
theorem UpToError.unique {done done' : List Member} (h : UpToError headers reader done)
    (h' : UpToError headers reader done') : done = done' := by
  obtain ⟨hpassed, hlength⟩ := h.counted
  obtain ⟨hpassed', hlength'⟩ := h'.counted
  have hentries : done.map Header.entry = done'.map Header.entry :=
    (List.prefix_of_prefix_length_le hpassed hpassed'
      (by rw [List.length_map, List.length_map, hlength, hlength'])).eq_of_length
      (by rw [List.length_map, List.length_map, hlength, hlength'])
  exact List.map_injective_iff.mpr (fun _ _ heq => Header.entry.inj heq) hentries

theorem UpToError.clean {done : List Member} (h : UpToError headers reader done)
    (hclean : reader.hasError = false) :
    headers = done.map .entry ++ reader.readState.archive.headers ∧
      reader.readState.entryIndex = done.length := by
  cases h with
  | noError _ hheaders hindex => exact ⟨hheaders, hindex⟩
  | atMember herror => exact absurd (herror.symm.trans hclean) (by decide)
  | atFailure hwhat =>
    exact absurd ((ArchiveReader.hasError_of_headerError hwhat).symm.trans hclean) (by decide)
  | atEnd herror => exact absurd (herror.symm.trans hclean) (by decide)

/-- A reader that has returned all entries of the members that it has passed. -/
structure Idle (headers : List Header) (done : List Member) (returned : List PackageEntry)
    (reader : ArchiveReader) : Prop where
  clean : reader.hasError = false
  tree : ArchiveReader.Tree (returned ++ reader.entryStack) reader
  headers_eq : headers = done.map .entry ++ reader.readState.archive.headers
  index_eq : reader.readState.entryIndex = done.length
  covered : Covered done returned

theorem Ordered.idle (h : Ordered headers returned reader) (hclean : reader.hasError = false)
    (hstack : reader.entryStack = []) : ∃ done, Idle headers done returned reader := by
  obtain ⟨htree, ⟨done, hread, hdone⟩, -⟩ := h
  rw [ArchiveReader.pending_of_clean hclean] at htree hdone
  obtain ⟨hheaders, hindex⟩ := hread.clean hclean
  rw [hstack, List.append_nil] at hdone
  exact ⟨done, hclean, htree, hheaders, hindex, hdone⟩

/-- The error is set at the member that an idle reader reads next. -/
theorem Idle.refused {done : List Member} {member : Member} {rest : List Header}
    {reader' : ArchiveReader} (h : Idle headers done returned reader)
    (hheaders : reader.readState.archive.headers = .entry member :: rest)
    (hopen : reader.readState.endOfArchive = false)
    (hfailed : ArchiveReader.FailedAtMember (reader.atMember rest member).readState
      reader'.readState) :
    UpToError headers reader' done :=
  .atMember hfailed.hasError hfailed.error_ne (hfailed.endOfArchive.trans hopen)
    (hheaders ▸ h.headers_eq) (hfailed.entryIndex.trans (congrArg (· + 1) h.index_eq))

/-- An idle reader passes the member that it reads next. -/
theorem Idle.passed {done : List Member} {member : Member} {rest : List Header}
    {reader' : ArchiveReader} (h : Idle headers done returned reader)
    (hheaders : reader.readState.archive.headers = .entry member :: rest)
    (hclean : reader'.hasError = false)
    (hstate : reader'.readState = (reader.atMember rest member).readState) :
    UpToError headers reader' (done ++ [member]) := by
  refine .noError hclean ?_ ?_
  · rw [h.headers_eq, hheaders, hstate, List.map_append, List.append_assoc]
    rfl
  · rw [hstate, List.length_append, ← h.index_eq]
    rfl

/-- What an idle reader makes of a directory, when the first of the directories that it queues is
returned, if there is one. -/
theorem Idle.directory {done : List Member} {member : Member} {rest : List Header}
    {path : FilePath} {queued reader' : ArchiveReader} {now later : List PackageEntry}
    (h : Idle headers done returned reader) (hstack : reader.entryStack = [])
    (hheaders : reader.readState.archive.headers = .entry member :: rest)
    (hopen : reader.readState.endOfArchive = false)
    (hpath : ArchiveReader.Accepted (reader.atMember rest member) member path)
    (htype : member.type = .directory)
    (hqueued : (reader.atMember rest member).updateParentEntryStack path member.mtime = queued)
    (hnow : queued.entryStack = now ++ later) (hlater : reader'.entryStack = later)
    (hfstree : reader'.fstree = queued.fstree) (hstate' : reader'.readState = queued.readState) :
    Ordered headers (returned ++ now) reader' := by
  obtain ⟨hdirectories, hend, -, hstate⟩ :=
    ArchiveReader.queued_for hpath.checked hstack hqueued
  obtain ⟨htree, hwalk⟩ := @ArchiveReader.updateParentEntryStack_tree _ _ returned hpath.checked
    member.mtime h.clean (h.tree.congr rfl rfl)
  rw [hqueued] at htree hwalk
  have herror : reader'.hasError = queued.hasError := by
    unfold ArchiveReader.hasError
    rw [hstate']
  rw [hnow, ← List.append_assoc] at htree
  cases hcase : reader'.hasError with
  | true =>
    rw [← hstate'] at hstate
    have hfailed := hstate.failed h.clean hcase
    refine Ordered.error (htree.of_prefix hcase) (h.covered.append fun entry hentry =>
      hdirectories entry ?_) hcase (h.refused hheaders hopen hfailed)
    rw [hnow]
    exact List.mem_append_left _ hentry
  | false =>
    have hclean : queued.hasError = false := herror ▸ hcase
    have hpending : reader'.pending = later := by
      rw [ArchiveReader.pending_of_clean hcase, hlater]
    refine ⟨?_, ⟨done ++ [member], h.passed hheaders hcase (hstate'.trans (hstate.kept hclean)), ?_⟩,
      fun _ hend' => ?_⟩
    · rw [hpending]
      exact htree.congr hfstree herror
    · rw [hpending, List.append_assoc, ← hnow]
      refine (h.covered.append hdirectories).directory htype hpath.member_path ?_
      by_cases hdot : path.names = [FilePath.dot]
      · exact .inl hdot
      · refine .inr (hwalk hclean hdot path.names ?_ List.prefix_rfl)
        intro hnil
        have hempty := (verifyPackagePath_iff.mp hpath.verified).1
        rw [FilePath.isEmpty, hpath.checked.rooted, hnil] at hempty
        cases hempty
    · rw [hstate', hend] at hend'
      exact absurd (hopen.symm.trans hend') (by decide)

/-- What an idle reader makes of a member that is not a directory, when the first of what it queues
is returned. -/
theorem Idle.file {done : List Member} {member : Member} {rest : List Header} {path : FilePath}
    {queued reader' : ArchiveReader} {digest : Option Bytes} {made first : PackageEntry}
    {later : List PackageEntry} (h : Idle headers done returned reader)
    (hstack : reader.entryStack = [])
    (hheaders : reader.readState.archive.headers = .entry member :: rest)
    (hopen : reader.readState.endOfArchive = false)
    (hpath : ArchiveReader.Accepted (reader.atMember rest member) member path)
    (htype : member.type ≠ .directory) (hfilename : path.hasFilename = true)
    (hqueued : (reader.atMember rest member).updateParentEntryStack path.parentPath member.mtime =
      queued)
    (hclean : queued.hasError = false)
    (hmake : ArchiveReader.makeEntry sha256 path member queued.readState.entryIndex digest =
      .ok made)
    (hqueue : queued.entryStack ++ [made] = first :: later) (hlater : reader'.entryStack = later)
    (hfstree : reader'.fstree = queued.fstree) (hstate' : reader'.readState = queued.readState) :
    Ordered headers (returned ++ [first]) reader' := by
  obtain ⟨hdirectories, hend, -, hstate⟩ :=
    ArchiveReader.queued_for hpath.checked.parent hstack hqueued
  obtain ⟨htree, hwalk⟩ := @ArchiveReader.updateParentEntryStack_tree _ _ returned
    hpath.checked.parent member.mtime h.clean (h.tree.congr rfl rfl)
  rw [hqueued] at htree hwalk
  have hindex : queued.readState.entryIndex = done.length + 1 := by
    rw [hstate.kept hclean, ← h.index_eq]
    rfl
  rw [hindex] at hmake
  have hmade := ArchiveReader.makeEntry_madeFor hpath.member_path hmake
  have hparents := parentsIn_of_parentPath hpath.checked hfilename
    (ArchiveReader.makeEntry_ok hmake).1 (hwalk hclean)
  have hall := htree.concat hmade.kind_ne hparents
  have hcovered := (h.covered.append hdirectories).file htype hmade
  rw [List.append_assoc, hqueue] at hall hcovered
  have herror : reader'.hasError = queued.hasError := by
    unfold ArchiveReader.hasError
    rw [hstate']
  have hclean' : reader'.hasError = false := herror.trans hclean
  refine ⟨hall.popFront hlater hfstree herror, ⟨done ++ [member], ?_, ?_⟩, fun _ hend' => ?_⟩
  · exact h.passed hheaders hclean' (hstate'.trans (hstate.kept hclean))
  · rw [ArchiveReader.pending_of_clean hclean', hlater, List.append_assoc]
    exact hcovered
  · rw [hstate', hend] at hend'
    exact absurd (hopen.symm.trans hend') (by decide)

theorem ArchiveReader.Advances.ordered {result : Option PackageEntry × ArchiveReader}
    (h : ArchiveReader.Advances sha256 reader result) (hordered : Ordered headers returned reader) :
    Ordered headers (returned ++ result.1.toList) result.2 := by
  induction h with
  | stopped => simpa using hordered
  | @queued reader first rest hclean hopen hstack =>
    obtain ⟨htree, ⟨done, hread, hdone⟩, -⟩ := hordered
    rw [ArchiveReader.pending_of_clean hclean, hstack] at htree hdone
    have hpending : ArchiveReader.pending { reader with entryStack := rest } = rest :=
      ArchiveReader.pending_of_clean hclean
    refine ⟨htree.popFront rfl rfl rfl, ⟨done, ?_, ?_⟩, fun _ hend =>
      absurd (hopen.symm.trans hend) (by decide)⟩
    · cases hread with
      | noError hclean hheaders hindex => exact .noError hclean hheaders hindex
      | atMember herror => exact absurd (herror.symm.trans hclean) (by decide)
      | atFailure hwhat =>
        exact absurd ((ArchiveReader.hasError_of_headerError hwhat).symm.trans hclean) (by decide)
      | atEnd herror => exact absurd (herror.symm.trans hclean) (by decide)
    · rw [hpending, Option.toList_some, List.append_assoc]
      exact hdone
  | @atEnd reader hclean hopen hstack hheaders =>
    obtain ⟨done, hidle⟩ := hordered.idle hclean hstack
    refine ⟨?_, ⟨done, .noError hclean hidle.headers_eq hidle.index_eq, ?_⟩, fun _ _ => hstack⟩
    · rw [ArchiveReader.pending_of_clean (by exact hclean), Option.toList_none, List.append_nil]
      exact hidle.tree.congr rfl rfl
    · rw [ArchiveReader.pending_of_clean (by exact hclean), Option.toList_none, List.append_nil]
      exact hidle.covered.append (by rw [hstack]; simp)
  | @missing reader reader' hclean hopen hstack hheaders hindex herror hend =>
    obtain ⟨done, hidle⟩ := hordered.idle hclean hstack
    have htree := hidle.tree
    rw [hstack, List.append_nil] at htree
    rw [Option.toList_none, List.append_nil]
    exact Ordered.error htree hidle.covered herror (.atEnd herror hend
      (by rw [hidle.headers_eq, hheaders, List.append_nil]) (hindex.trans hidle.index_eq))
  | @failed reader reader' rest hclean hopen hstack hheaders hindex herror =>
    obtain ⟨done, hidle⟩ := hordered.idle hclean hstack
    have htree := hidle.tree
    rw [hstack, List.append_nil] at htree
    rw [Option.toList_none, List.append_nil]
    exact Ordered.error htree hidle.covered (ArchiveReader.hasError_of_headerError herror)
      (.atFailure herror (by rw [hidle.headers_eq, hheaders]) (hindex.trans hidle.index_eq))
  | @member reader member rest entry reader' hclean hopen hstack hheaders hturn =>
    obtain ⟨done, hidle⟩ := hordered.idle hclean hstack
    cases hturn with
    | refused hfailed =>
      have htree := hidle.tree
      rw [hstack] at htree
      rw [Option.toList_none, List.append_nil]
      rw [List.append_nil] at htree
      exact Ordered.error htree hidle.covered hfailed.hasError (hidle.refused hheaders hopen hfailed)
    | @directory path queued first rest' hpath htype hqueued hqueue =>
      exact hidle.directory hstack hheaders hopen hpath htype hqueued hqueue rfl rfl rfl
    | @file path queued digest made first rest' symlinks verifiedEntries hpath htype hfilename
        hqueued hclean' hmake hdigest hqueue =>
      exact hidle.file hstack hheaders hopen hpath htype hfilename hqueued hclean' hmake hqueue rfl
        rfl rfl
  | @known reader member rest processed result hclean hopen hstack hheaders hturn hnext ih =>
    obtain ⟨done, hidle⟩ := hordered.idle hclean hstack
    cases hturn with
    | @known path _ hpath htype hqueued hempty =>
      refine ih ?_
      have hafter := @Idle.directory headers returned reader done member rest path processed
        processed [] [] hidle hstack hheaders hopen hpath htype hqueued hempty hempty rfl rfl
      rwa [List.append_nil] at hafter

theorem ordered_new (headers : List Header) (digests : Option FileDigestMap) :
    Ordered headers [] (ArchiveReader.new headers digests) := by
  have hempty : (ArchiveReader.new headers digests).pending = [] := rfl
  refine ⟨⟨?_, List.nodup_nil, fun _ names => ?_⟩, ⟨[], .noError rfl rfl rfl, .nil, ?_⟩,
    fun _ _ => rfl⟩
  · intro before entry after hlisted
    rw [hempty] at hlisted
    cases before with
    | nil => cases hlisted
    | cons first before => cases hlisted
  · exact ⟨(fun h => (nomatch h)), (fun h => (nomatch h))⟩
  · exact fun member hmember => absurd hmember List.not_mem_nil

theorem ordered_after (sha256 : Bytes → Bytes) (calls : Nat) {s : Sequence}
    (h : Ordered headers s.returned s.reader) :
    Ordered headers (s.after sha256 calls).returned (s.after sha256 calls).reader := by
  induction calls with
  | zero => exact h
  | succ calls ih =>
    unfold Sequence.after
    rw [Function.iterate_succ_apply']
    exact (ArchiveReader.next_advances _).ordered ih

/-- A reader with entries that it can return does so. -/
theorem Ordered.pending_of_none (h : Ordered headers returned reader)
    (hnone : (reader.next sha256).1 = none) : reader.pending = [] := by
  cases hcase : reader.hasError with
  | true => exact ArchiveReader.pending_of_error hcase
  | false =>
    rw [ArchiveReader.pending_of_clean hcase]
    cases hend : reader.readState.endOfArchive with
    | true => exact h.ended hcase hend
    | false =>
      cases hstack : reader.entryStack with
      | nil => rfl
      | cons first rest =>
        unfold ArchiveReader.next at hnone
        rw [if_neg (by simp [hcase, hend]), if_pos (by simp [hstack]),
          ArchiveReader.popFront_cons hstack] at hnone
        cases hnone

end

/-- What the entries that were returned are to be: each directory comes before what is in it, and
none comes twice. The members up to the first error are accounted for by the entries that were
returned and those that the next calls return, and in the end by those that were returned. -/
structure Sequence.InOrder (sha256 : Bytes → Bytes) (headers : List Header) (s : Sequence) :
    Prop where
  parents : ParentsFirst s.returned
  once : (directoryPaths s.returned).Nodup
  passed : ∃ done, UpToError headers s.reader done
  covered : ∀ done, UpToError headers s.reader done →
    Covered done (s.returned ++ s.reader.pending)
  finished : (s.reader.next sha256).1 = none → s.reader.pending = []

/-- After any number of calls of `next` the entries of an archive came in order. -/
theorem next_inOrder (sha256 : Bytes → Bytes) (headers : List Header)
    (digests : Option FileDigestMap) (calls : Nat) :
    ((Sequence.new headers digests).after sha256 calls).InOrder sha256 headers := by
  have h := @ordered_after headers sha256 calls (Sequence.new headers digests)
    (ordered_new headers digests)
  have hnodup := h.tree.nodup
  rw [directoryPaths_append] at hnodup
  obtain ⟨done, hdone, hcovered⟩ := h.covered
  exact ⟨h.tree.first.of_prefix, (List.nodup_append.mp hnodup).1, ⟨done, hdone⟩,
    fun _ hother => hother.unique hdone ▸ hcovered, h.pending_of_none⟩

/-- A directory `./`. -/
def topDirectory : Member := ⟨some [0x2e, 0x2f], .directory, 0o755, 0, 0, none, [], .eof⟩

/-- An archive of `./` alone gives no entry. -/
theorem not_next_returns_all :
    ¬ ∀ (sha256 : Bytes → Bytes) (headers : List Header) (digests : Option FileDigestMap)
      (calls : Nat),
      let s := (Sequence.new headers digests).after sha256 calls
      (s.reader.next sha256).1 = none → ∀ done, UpToError headers s.reader done →
        ∀ member ∈ done, member.type = .directory → ∃ path, member.path = some path ∧
          FilePath.ofNames path.names ∈ directoryPaths s.returned := by
  intro h
  obtain ⟨path, -, hreturned⟩ := h id [.entry topDirectory] none 1 (by decide +kernel)
    [topDirectory] (.noError (by decide +kernel) (by decide +kernel) (by decide +kernel))
    topDirectory (by decide) rfl
  have hnone : directoryPaths
      ((Sequence.new [.entry topDirectory] none).after id 1).returned = [] := by decide +kernel
  rw [hnone] at hreturned
  cases hreturned

end Archive
