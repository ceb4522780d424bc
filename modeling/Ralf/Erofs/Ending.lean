import Mathlib.Data.Set.Card
import Ralf.Erofs.Enumeration

/-!
# Where the reader comes to an end

The reader keeps no account of the directories that it has been to. When a directory leads
back to itself it goes on for ever, unless there is an entry it cannot give or a directory
it cannot read: then it stops there, since every entry is reached at some time.
-/

namespace Erofs

open Walk Relation

namespace ErofsReader

section
variable {σ : Type} (file : IErofsImageFile σ) (lz4 : Lz4) (superBlock : ErofsSuperBlock)

/-- A directory can have an entry of the type of a directory for an inode. -/
def MayLead (n m : Nat) : Prop :=
  ∃ entries, Gives file lz4 superBlock n entries ∧
    ∃ entry ∈ entries, entry.fileType = .directory ∧ entry.inode = m

/-- A directory that can be read has an entry of the type of a directory for an inode. -/
def Leads (n m : Nat) : Prop :=
  ∃ entries, Listed file lz4 superBlock n entries ∧
    ∃ entry ∈ entries, entry.fileType = .directory ∧ entry.inode = m

/-- A directory that is reached leads back to itself. -/
def Cyclic : Prop :=
  ∃ n, ReflTransGen (MayLead file lz4 superBlock) superBlock.rootInode n ∧
    TransGen (MayLead file lz4 superBlock) n n

/-- There is a directory, reached through directories that can be read, that gives no entries or has
an entry whose inode cannot be used. -/
def Stuck : Prop :=
  ∃ n, ReflTransGen (Leads file lz4 superBlock) superBlock.rootInode n ∧
    ∀ entries, Gives file lz4 superBlock n entries → ∃ entry ∈ entries,
      ¬ Usable file superBlock entry.inode

/-- No directory that is reached has blocks that cannot be read. -/
def Readable : Prop :=
  ∀ n, ReflTransGen (Leads file lz4 superBlock) superBlock.rootInode n →
    ∀ entries, Gives file lz4 superBlock n entries → Listed file lz4 superBlock n entries

/-- The size of the blocks is not supported, the reader is stopped by an entry or a directory, or no
directory leads back to itself. -/
def Bounded : Prop :=
  superBlock.blockSize ≠ 4096 ∨ Stuck file lz4 superBlock ∨ ¬ Cyclic file lz4 superBlock

/-- After some number of calls, `next` has returned none. -/
def Ends (reader : ErofsReader) (s : σ) : Prop :=
  ∃ calls, ∀ entries final s', takeNext file lz4 calls reader s = .ok
    (entries, final, s') → none ∈ entries

end

section
variable {σ : Type} {file : IErofsImageFile σ} {lz4 : Lz4} {superBlock : ErofsSuperBlock}
  {a : State Directory DirEntry} {reader : ErofsReader}

theorem below_iff {dir dir' : Directory} : (walkTree file lz4 superBlock).Below dir dir' ↔
    ∃ entries, Gives file lz4 superBlock dir.inode entries ∧ ∃ entry ∈ entries,
      entry.fileType = .directory ∧ dir' = ⟨dir.path.append entry.fileName, entry.inode⟩ := by
  unfold Tree.Below
  refine exists_congr fun entries => and_congr_right fun _ => exists_congr fun entry => ?_
  exact and_congr_right fun _ => walkTree_sub

theorem MayLead.of_below {dir dir' : Directory}
    (h : (walkTree file lz4 superBlock).Below dir dir') :
    MayLead file lz4 superBlock dir.inode dir'.inode := by
  obtain ⟨entries, hgives, entry, hentry, htype, rfl⟩ := below_iff.mp h
  exact ⟨entries, hgives, entry, hentry, htype, rfl⟩

theorem MayLead.lt {n m : Nat} (h : MayLead file lz4 superBlock n m) : m < 2 ^ 32 := by
  obtain ⟨entries, hgives, entry, hentry, -, rfl⟩ := h
  exact Nat.lt_of_le_of_lt (hgives.wellFormed entry hentry).inode (by decide)

/-! ## The end -/

/-- A reader comes to an end when the walk does that it shows. -/
theorem ends_of_terminates (h : Terminates (walkTree file lz4 superBlock) a)
    (hshows : Shows superBlock reader a) (s : σ) : Ends file lz4 reader s := by
  have hacc := Acc.transGen h
  clear h
  induction hacc generalizing reader s with
  | intro a _ ih =>
  cases hnext : reader.next file lz4 s with
  | error fault =>
    refine ⟨1, fun entries final s' htake => ?_⟩
    unfold takeNext at htake
    rw [hnext] at htake
    cases htake
  | ok result =>
    obtain ⟨entry, reader₁, s₁⟩ := result
    cases entry with
    | none =>
      refine ⟨1, fun entries final s' htake => ?_⟩
      unfold takeNext at htake
      rw [hnext] at htake
      cases htake
      exact List.mem_cons_self
    | some entry =>
      cases next_shows hnext hshows with
      | given hrun _ hshows₁ =>
        obtain ⟨calls, hcalls⟩ := ih _ hrun.transGen hshows₁ s₁
        refine ⟨calls + 1, fun entries final s' htake => ?_⟩
        unfold takeNext at htake
        rw [hnext] at htake
        dsimp only at htake
        split at htake
        · cases htake
        · next hrest =>
          cases htake
          exact List.mem_cons_of_mem _ (hcalls _ _ _ hrest)

/-- A walk is blocked by an inode that cannot be used. -/
theorem blocked_of_stuck (hfile : file.Unchanging) (h : Stuck file lz4 superBlock) :
    Blocked (walkTree file lz4 superBlock) (rootPlace superBlock).node := by
  obtain ⟨n, hreach, hstuck⟩ := h
  have hblocked : ∀ root, ReflTransGen (Leads file lz4 superBlock) root n →
      ∀ path, Blocked (walkTree file lz4 superBlock) ⟨path, root⟩ := by
    intro root hreach
    induction hreach using ReflTransGen.head_induction_on with
    | refl => exact fun path => .entry hstuck
    | head hleads _ ih =>
      intro path
      obtain ⟨entries, hlisted, entry, hentry, htype, rfl⟩ := hleads
      refine .sub (fun entries' hgives => ?_) (ih (path.append entry.fileName))
      obtain rfl := hlisted.eq hfile hgives
      exact ⟨entry, hentry, walkTree_sub.mpr ⟨htype, rfl⟩⟩
  exact hblocked _ hreach _

/-- The number of inodes below an inode. -/
noncomputable def depth (file : IErofsImageFile σ) (lz4 : Lz4) (superBlock : ErofsSuperBlock)
  (n : Nat) : Nat :=
  Set.ncard {m | TransGen (MayLead file lz4 superBlock) n m}

theorem depth_lt (hacyclic : ¬ Cyclic file lz4 superBlock) {n m : Nat}
    (hreach : ReflTransGen (MayLead file lz4 superBlock) superBlock.rootInode m)
    (h : MayLead file lz4 superBlock n m) : depth file lz4 superBlock m <
    depth file lz4 superBlock n := by
  have hfinite : Set.Finite {m | TransGen (MayLead file lz4 superBlock) n m} := by
    refine (Set.finite_lt_nat (2 ^ 32)).subset fun m hm => ?_
    obtain ⟨k, -, hlead⟩ := TransGen.tail'_iff.mp hm
    exact hlead.lt
  refine Set.ncard_lt_ncard ⟨fun k hk => TransGen.head h hk, fun hsub => ?_⟩ hfinite
  exact hacyclic ⟨m, hreach, hsub (TransGen.single h)⟩

theorem terminates_of_bounded (hfile : file.Unchanging)
    (h : Stuck file lz4 superBlock ∨ ¬ Cyclic file lz4 superBlock) :
    Terminates (walkTree file lz4 superBlock) ⟨[], [rootPlace superBlock]⟩ := by
  rcases h with hstuck | hacyclic
  · exact (blocked_of_stuck hfile hstuck).terminates List.mem_cons_self
  · refine @terminates_of_rank _ _ _ _
      (fun dir => ReflTransGen (MayLead file lz4 superBlock) superBlock.rootInode dir.inode)
      (fun dir => depth file lz4 superBlock dir.inode)
        (fun dir dir' hreach hbelow => ?_) fun place hplace => ?_
    · have hreach' := hreach.tail (MayLead.of_below hbelow)
      exact ⟨hreach', depth_lt hacyclic hreach' (MayLead.of_below hbelow)⟩
    · obtain rfl := List.mem_singleton.mp hplace
      exact .refl

/-! ## No end -/

/-- All places can be read: `next` has no fault. -/
theorem nextDirectory_total (hfile : file.Unchanging) {queue : List (Place Directory)}
    (hqueue : ∀ place ∈ queue, ∃ entries, Listed file lz4 superBlock place.node.inode entries)
    (hbuffer : reader.dirBlockBuffer.length = superBlock.blockSize) (s : σ) :
    ∃ result, nextDirectory file lz4 superBlock (queue.map Place.node) reader s = .ok result := by
  induction queue generalizing reader s with
  | nil => exact ⟨_, rfl⟩
  | cons place queue ih =>
    obtain ⟨entries, hlisted⟩ := hqueue place List.mem_cons_self
    obtain ⟨reader₁, s₁, hread⟩ := hlisted.total hfile hbuffer s
    rw [List.map_cons]
    unfold nextDirectory
    rw [hread]
    rcases entries with _ | ⟨entry, others⟩
    · refine ih (fun place hplace => hqueue place (List.mem_cons_of_mem _ hplace)) ?_ s₁
      obtain ⟨buffer', rfl, hbuffer', -⟩ := readDirectory_answers hread hbuffer
      exact hbuffer'
    · exact ⟨_, rfl⟩

theorem next_total (hfile : file.Unchanging) (hshows : Shows superBlock reader a)
    (hlisted : ∀ place ∈ a.places (walkTree file lz4 superBlock),
      ∃ entries, Listed file lz4 superBlock place.node.inode entries) (s : σ) :
    ∃ result, reader.next file lz4 s = .ok result := by
  rcases hshows.stack with ⟨hstack, -⟩ | ⟨place, hstack, hpending, hlt⟩
  · exact ⟨_, next_idle (.inl hstack)⟩
  have hat : reader.AtEntry superBlock place.node reader.currentDir[reader.currentDirIndex] :=
    ⟨hshows.parsed, by rw [hstack]; rfl, hshows.error, List.getElem?_eq_getElem hlt⟩
  rcases hinode : ErofsInode.new file superBlock reader.currentDir[reader.currentDirIndex].inode
    (reader.hintsFor reader.currentDir[reader.currentDirIndex]) s with ⟨inode, s₁⟩
  rw [next_at hat hinode]
  split
  · exact ⟨_, rfl⟩
  split
  · obtain ⟨-, place', hfront, hstack', hpending'⟩ := hshows.pending hat
    rw [hfront] at hstack' hpending' ⊢
    rw [@advance_stack _ file lz4 superBlock _ _ _ _
      (place'.route ++ [reader.currentDirIndex]) hstack',
      List.tail_cons]
    have hqueue : ∀ place ∈ a.queue ++ (walkTree file lz4 superBlock).enter
        ⟨place'.route ++ [reader.currentDirIndex], place'.node,
          reader.currentDir[reader.currentDirIndex]⟩,
        ∃ entries, Listed file lz4 superBlock place.node.inode entries := by
      intro place hplace
      refine hlisted place ?_
      unfold State.places
      rw [hpending', List.flatMap_cons, ← List.append_assoc]
      exact List.mem_append_left _ hplace
    obtain ⟨result, hresult⟩ := @nextDirectory_total _ file lz4 superBlock
      { reader.advance place'.node reader.currentDir[reader.currentDirIndex] with
        currentDir := [], currentDirIndex := 0 } hfile _ hqueue hshows.buffer s₁
    rw [hresult]
    rcases result with ⟨_ | _, reader₂, s₂⟩
    · exact ⟨_, rfl⟩
    · exact ⟨_, rfl⟩
  · exact ⟨_, rfl⟩

/-- Places of the walk are reached through directories that can be read. -/
theorem reached_of_at (hreadable : Readable file lz4 superBlock) {route : List Nat}
    {dir : Directory}
    (hat : At (walkTree file lz4 superBlock) (rootPlace superBlock).node route dir) :
    ReflTransGen (Leads file lz4 superBlock) superBlock.rootInode dir.inode := by
  induction hat with
  | root => exact .refl
  | sub _ hlists hentry hsub ih =>
    obtain ⟨htype, rfl⟩ := walkTree_sub.mp hsub
    exact ih.tail ⟨_, hreadable _ ih _ hlists, _, List.mem_of_getElem? hentry, htype, rfl⟩

/-- A directory below which there is always another one. -/
def Endless (file : IErofsImageFile σ) (lz4 : Lz4) (superBlock : ErofsSuperBlock)
    (dir : Directory) : Prop :=
  ReflTransGen (Leads file lz4 superBlock) superBlock.rootInode dir.inode ∧
    ∃ n, ReflTransGen (MayLead file lz4 superBlock) dir.inode n ∧
      TransGen (MayLead file lz4 superBlock) n n

theorem Endless.below (hfile : file.Unchanging) (hreadable : Readable file lz4 superBlock)
    {dir : Directory}
    (h : Endless file lz4 superBlock dir) {entries : List DirEntry}
    (hgives : Gives file lz4 superBlock dir.inode entries) :
    ∃ entry ∈ entries, ∃ dir', (walkTree file lz4 superBlock).sub dir entry = some dir' ∧
      Endless file lz4 superBlock dir' := by
  obtain ⟨hreach, n, hpath, hcycle⟩ := h
  obtain ⟨m, hlead, hrest⟩ : ∃ m, MayLead file lz4 superBlock dir.inode m ∧
      ReflTransGen (MayLead file lz4 superBlock) m n := by
    rcases hpath.cases_head with heq | ⟨m, hlead, hrest⟩
    · rw [heq]
      exact TransGen.head'_iff.mp hcycle
    · exact ⟨m, hlead, hrest⟩
  obtain ⟨entries', hgives', entry, hentry, htype, rfl⟩ := hlead
  have hlisted := hreadable _ hreach _ hgives
  obtain rfl := hlisted.eq hfile hgives'
  exact ⟨entry, hentry, _, walkTree_sub.mpr ⟨htype, rfl⟩,
    hreach.tail ⟨_, hlisted, entry, hentry, htype, rfl⟩,
    n, hrest, hcycle⟩

/-- The state of a reader that goes on for ever. -/
structure GoesOn (file : IErofsImageFile σ) (lz4 : Lz4) (superBlock : ErofsSuperBlock)
    (reader : ErofsReader)
    (a : State Directory DirEntry) : Prop where
  shows : Shows superBlock reader a
  sound : Sound (walkTree file lz4 superBlock) (rootPlace superBlock).node a
  endless : ∃ place ∈ a.places (walkTree file lz4 superBlock),
    Endless file lz4 superBlock place.node

/-- A directory that is reached is listed, and its entries can be used. -/
theorem listed_of_reached (hreadable : Readable file lz4 superBlock)
    (hstuck : ¬ Stuck file lz4 superBlock)
    {n : Nat} (hreach : ReflTransGen (Leads file lz4 superBlock) superBlock.rootInode n) :
    ∃ entries, Listed file lz4 superBlock n entries ∧
      ∀ entry ∈ entries, Usable file superBlock entry.inode := by
  by_contra hnone
  refine hstuck ⟨n, hreach, fun entries hgives => ?_⟩
  by_contra husable
  refine hnone ⟨entries, hreadable n hreach entries hgives, fun entry hentry => ?_⟩
  by_contra hunusable
  exact husable ⟨entry, hentry, hunusable⟩

section
variable (hfile : file.Unchanging) (hreadable : Readable file lz4 superBlock)
  (hstuck : ¬ Stuck file lz4 superBlock)
include hfile hreadable hstuck

theorem GoesOn.next (h : GoesOn file lz4 superBlock reader a) (s : σ) :
    ∃ entry reader' s' b, reader.next file lz4 s = .ok (some entry, reader', s') ∧
      GoesOn file lz4 superBlock reader' b := by
  have hreached : ∀ route dir, At (walkTree file lz4 superBlock)
    (rootPlace superBlock).node route dir →
      ∃ entries, Listed file lz4 superBlock dir.inode entries ∧
        ∀ entry ∈ entries, Usable file superBlock entry.inode :=
    fun route dir hat => listed_of_reached hreadable hstuck (reached_of_at hreadable hat)
  have hplaces : ∀ place ∈ a.places (walkTree file lz4 superBlock),
      ∃ entries, Listed file lz4 superBlock place.node.inode entries := by
    intro place hplace
    have hat : At (walkTree file lz4 superBlock) (rootPlace superBlock).node place.route
      place.node := by
      rcases List.mem_append.mp hplace with hplace | hplace
      · exact h.sound.queue place hplace
      · obtain ⟨spot, hspot, hplace⟩ := List.mem_flatMap.mp hplace
        exact (h.sound.pending spot hspot).enter hplace
    obtain ⟨entries, hlisted, -⟩ := hreached _ _ hat
    exact ⟨entries, hlisted⟩
  obtain ⟨⟨entry, reader', s'⟩, hnext⟩ := next_total hfile h.shows hplaces s
  cases next_shows hnext h.shows with
  | finished ha =>
    obtain ⟨place, hplace, -⟩ := h.endless
    subst ha
    exact nomatch hplace
  | @given b spot entry reader' hrun _ hshows =>
    refine ⟨entry, reader', s', b, hnext, hshows, (hrun.sound h.sound).1, ?_⟩
    exact hrun.unending (fun _ hendless _ hgives => hendless.below hfile hreadable hgives) h.endless
  | @unusable spot reader' hspot hints t hinvalid _ =>
    have hentry := h.sound.pending spot hspot
    cases hentry with
    | @intro route dir entries i entry hat hlists hget =>
      obtain ⟨entries', hlisted, husable⟩ := hreached _ _ hat
      obtain rfl := hlisted.eq hfile hlists
      rw [ErofsInode.new_hints] at hinvalid
      exact absurd ((husable entry (List.mem_of_getElem? hget)).eq hfile t) hinvalid
  | @refused b spot reader' hrun hrefused _ =>
    obtain ⟨place, queue, rfl, hanswer⟩ := hrefused
    obtain ⟨entries, hlisted, -⟩ :=
      hreached _ _ ((hrun.sound h.sound).1.queue place List.mem_cons_self)
    exact nomatch hlisted.answer hfile hanswer

/-- Every number of calls gives entries only. -/
theorem GoesOn.takeNext (h : GoesOn file lz4 superBlock reader a) (calls : Nat) (s : σ) :
    ∃ entries final s', ErofsReader.takeNext file lz4 calls reader s = .ok (entries, final, s') ∧
      none ∉ entries := by
  induction calls generalizing reader a s with
  | zero => exact ⟨[], reader, s, rfl, List.not_mem_nil⟩
  | succ calls ih =>
    obtain ⟨entry, reader', s₁, b, hnext, hgo⟩ := GoesOn.next hfile hreadable hstuck h s
    obtain ⟨entries, final, s', hrest, hentries⟩ := ih hgo s₁
    refine ⟨some entry :: entries, final, s', ?_, fun hmem => ?_⟩
    · unfold ErofsReader.takeNext
      rw [hnext]
      dsimp only
      rw [hrest]
    · rcases List.mem_cons.mp hmem with hmem | hmem
      · cases hmem
      · exact hentries hmem

/-- A reader goes on for ever when a directory leads back to itself. -/
theorem goes_on {s s₁ : σ} (hsuper : superBlockOf file s = some superBlock)
    (hsize : superBlock.blockSize = 4096)
    (hcyclic : Cyclic file lz4 superBlock) (hnew : ErofsReader.new file lz4 s = .ok (reader, s₁))
    (herror : reader.error = none) (advice : Bool) (calls : Nat) :
    ∃ entries final s', ErofsReader.takeNext file lz4 calls
      { reader with readAllOnce := advice } s₁ =
      .ok (entries, final, s') ∧ none ∉ entries := by
  obtain ⟨superBlock', hsuper', hcases⟩ := new_shows hnew herror
  obtain rfl : superBlock = superBlock' := Option.some.inj (hsuper.symm.trans hsuper')
  obtain ⟨n, hpath, hcycle⟩ := hcyclic
  rcases hcases with ⟨hne, -⟩ | ⟨-, a, hshows, hrun⟩
  · exact absurd hsize hne
  have hsound : Sound (walkTree file lz4 superBlock) (rootPlace superBlock).node
      ⟨[], [rootPlace superBlock]⟩ := by
    refine ⟨fun _ hmem => (nomatch hmem), fun place hplace => ?_⟩
    obtain rfl := List.mem_singleton.mp hplace
    exact .root
  have hgo : GoesOn file lz4 superBlock { reader with readAllOnce := advice } a :=
    ⟨hshows.advise advice, (hrun.sound hsound).1,
      hrun.unending (fun _ hendless _ hgives => Endless.below hfile hreadable hendless hgives)
        ⟨rootPlace superBlock, List.mem_cons_self, .refl, n, hpath, hcycle⟩⟩
  exact GoesOn.takeNext hfile hreadable hstuck hgo calls s₁

end

/-- A reader comes to an end if the size of the blocks is not supported, it is stopped by an entry or a
directory, or no directory leads back to itself. When all directories it comes to can be read, these
are the only ones for which it does. -/
theorem ends_iff (hfile : file.Unchanging) {s s₁ : σ}
    (hsuper : superBlockOf file s = some superBlock)
    (hnew : ErofsReader.new file lz4 s = .ok (reader, s₁)) (herror : reader.error = none)
    (advice : Bool) :
    (Bounded file lz4 superBlock → Ends file lz4 { reader with readAllOnce := advice } s₁) ∧
    (Readable file lz4 superBlock →
      (Ends file lz4 { reader with readAllOnce := advice } s₁ ↔ Bounded file lz4 superBlock)) := by
  obtain ⟨superBlock', hsuper', hcases⟩ := new_shows hnew herror
  obtain rfl : superBlock = superBlock' := Option.some.inj (hsuper.symm.trans hsuper')
  have hends : Bounded file lz4 superBlock →
    Ends file lz4 { reader with readAllOnce := advice } s₁ := by
    intro hbounded
    rcases hcases with ⟨-, rfl⟩ | ⟨hsize, a, hshows, hrun⟩
    · refine ⟨1, fun entries final s' htake => ?_⟩
      unfold ErofsReader.takeNext at htake
      rw [next_idle (.inl rfl)] at htake
      cases htake
      exact List.mem_cons_self
    · have hterm := terminates_of_bounded hfile (hbounded.resolve_left fun hne => hne hsize)
      exact ends_of_terminates (hrun.terminates hterm) (hshows.advise advice) s₁
  refine ⟨hends, fun hreadable => ⟨fun hend => ?_, hends⟩⟩
  by_contra hbounded
  unfold Bounded at hbounded
  rw [not_or, not_or, not_not, not_not] at hbounded
  obtain ⟨hsize, hstuck, hcyclic⟩ := hbounded
  obtain ⟨calls, hcalls⟩ := hend
  obtain ⟨entries, final, s', htake, hentries⟩ :=
    goes_on hfile hreadable hstuck hsuper hsize hcyclic hnew herror advice calls
  exact hentries (hcalls entries final s' htake)

end

/-! ### A directory that is its own entry -/

/-- An image is opened without an error. -/
def opens (file : IErofsImageFile Unit) : Bool :=
  match ErofsReader.new file noLz4 () with
  | .error _ => false
  | .ok (reader, _) => reader.error.isNone

theorem exists_reader {file : IErofsImageFile Unit} (h : opens file = true) :
    ∃ reader, ErofsReader.new file noLz4 () = .ok (reader, ()) ∧ reader.error = none := by
  unfold opens at h
  split at h
  · cases h
  · next reader _ hnew => exact ⟨reader, hnew, Option.isNone_iff_eq_none.mp h⟩

/-- What a directory gives with an empty buffer. -/
def listingOf (file : IErofsImageFile Unit) (superBlock : ErofsSuperBlock) (n : Nat) :
    Option (Option (List DirEntry)) :=
  match readDirectory file noLz4 superBlock n
      { dirBlockBuffer := List.replicate superBlock.blockSize 0 } () with
  | .error _ => none
  | .ok (entries, _, _) => some entries

theorem listed_of_listingOf {file : IErofsImageFile Unit} {superBlock : ErofsSuperBlock} {n : Nat}
    {entries : List DirEntry} (h : listingOf file superBlock n = some (some entries))
    (hdata : (directoryBlocks file noLz4 superBlock 3 () n).isSome = true) :
    Listed file noLz4 superBlock n entries := by
  unfold listingOf at h
  split at h
  · cases h
  · next hread =>
    cases h
    obtain ⟨blocks, hblocks⟩ := Option.isSome_iff_exists.mp hdata
    exact ⟨⟨_, (), _, (), List.length_replicate, hread⟩,
      (), blocks, directoryData_of_directoryBlocks hblocks⟩

/-- An image with a directory in its root directory: the reader comes to its end. -/
theorem ends_iff_tree : ∃ reader,
    ErofsReader.new (treeImage 20480 20480 97) noLz4 () = .ok (reader, ()) ∧
    Ends (treeImage 20480 20480 97) noLz4 { reader with readAllOnce := false } () := by
  have hfile : (treeImage 20480 20480 97).Unchanging := treeImage_agree 20480 20480 97 97
  obtain ⟨reader, hnew, herror⟩ := @exists_reader (treeImage 20480 20480 97) (by decide +kernel)
  have hsuper : superBlockOf (treeImage 20480 20480 97) () = some treeSuperBlock := by
    decide +kernel
  have hroot : Listed (treeImage 20480 20480 97) noLz4 treeSuperBlock 64
      [⟨65, [97], .directory⟩, ⟨66, [98], .regular⟩] :=
    listed_of_listingOf (by decide +kernel) (by decide +kernel)
  have hsub : Listed (treeImage 20480 20480 97) noLz4 treeSuperBlock 65 [⟨200, [99], .regular⟩] :=
    listed_of_listingOf (by decide +kernel) (by decide +kernel)
  have honly : ∀ m, MayLead (treeImage 20480 20480 97) noLz4 treeSuperBlock 64 m → m = 65 := by
    rintro m ⟨entries, hgives, entry, hentry, htype, rfl⟩
    obtain rfl := hroot.eq hfile hgives
    rcases List.mem_pair.mp hentry with rfl | rfl
    · rfl
    · cases htype
  have hnone : ∀ m, ¬ MayLead (treeImage 20480 20480 97) noLz4 treeSuperBlock 65 m := by
    rintro m ⟨entries, hgives, entry, hentry, htype, -⟩
    obtain rfl := hsub.eq hfile hgives
    obtain rfl := List.mem_singleton.mp hentry
    cases htype
  have hacyclic : ∀ n, TransGen (MayLead (treeImage 20480 20480 97) noLz4 treeSuperBlock) 65 n →
      False := by
    intro n hpath
    obtain ⟨m, hlead, -⟩ := TransGen.head'_iff.mp hpath
    exact hnone m hlead
  refine ⟨reader, hnew, (ends_iff hfile hsuper hnew herror false).1 (.inr (.inr ?_))⟩
  rintro ⟨n, hpath, hcycle⟩
  rcases hpath.cases_head with rfl | ⟨m, hlead, hrest⟩
  · obtain ⟨m, hlead, hrest⟩ := TransGen.head'_iff.mp hcycle
    obtain rfl := honly m hlead
    rcases hrest.cases_head with heq | ⟨k, hlead', -⟩
    · exact absurd heq (by decide)
    · exact hnone k hlead'
  · obtain rfl := honly m hlead
    rcases hrest.cases_head with rfl | ⟨k, hlead', -⟩
    · exact hacyclic _ hcycle
    · exact hnone k hlead'

/-- The entry of the image is the root directory itself: no call of `next` returns none. -/
theorem not_ends : ∃ reader, ErofsReader.new (entryImage 12 2 64 2) noLz4 () = .ok (reader, ()) ∧
    reader.error = none ∧ ∀ calls, ∃ entries final s',
      takeNext (entryImage 12 2 64 2) noLz4 calls { reader with readAllOnce := false } () =
        .ok (entries, final, s') ∧ none ∉ entries := by
  have hfile : (entryImage 12 2 64 2).Unchanging := imageOf_unchanging _ _ _
  obtain ⟨reader, hnew, herror⟩ := @exists_reader (entryImage 12 2 64 2) (by decide +kernel)
  have hsuper : superBlockOf (entryImage 12 2 64 2) () = some (entrySuperBlock 12) := by
    decide +kernel
  have hroot : Listed (entryImage 12 2 64 2) noLz4 (entrySuperBlock 12) 64
    [⟨64, [97], .directory⟩] :=
    listed_of_listingOf (by decide +kernel) (by decide +kernel)
  have husable : Usable (entryImage 12 2 64 2) (entrySuperBlock 12) 64 := ⟨(), by decide +kernel⟩
  have honly : ∀ n,
      ReflTransGen (Leads (entryImage 12 2 64 2) noLz4 (entrySuperBlock 12)) 64 n → n = 64 := by
    intro n hpath
    induction hpath with
    | refl => rfl
    | tail _ hlead ih =>
      subst ih
      obtain ⟨entries, hlisted, entry, hentry, -, rfl⟩ := hlead
      obtain rfl := hroot.eq hfile hlisted.gives
      obtain rfl := List.mem_singleton.mp hentry
      rfl
  refine ⟨reader, hnew, herror, goes_on hfile ?_ ?_ hsuper rfl ?_ hnew herror false⟩
  · intro n hpath entries hgives
    obtain rfl := honly n hpath
    obtain rfl := hroot.eq hfile hgives
    exact hroot
  · rintro ⟨n, hpath, hstuck⟩
    obtain rfl := honly n hpath
    obtain ⟨entry, hentry, hunusable⟩ := hstuck _ hroot.gives
    obtain rfl := List.mem_singleton.mp hentry
    exact hunusable husable
  · exact ⟨64, .refl, .single ⟨_, hroot.gives, _, List.mem_cons_self, rfl, rfl⟩⟩

end ErofsReader

end Erofs
