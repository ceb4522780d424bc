import Ralf.W3c.Agreement

/-!
# The file that is written

`doFileWrite` digests the blocks of a member with zeros in the gaps, and writes each block at its
offset. The two are the same bytes as long as the last block has data. An empty block after a gap
adds the gap to the digest and to the size that is returned, and nothing to the file:
`written_exact_iff`.
-/

namespace Archive

open Posix W3c

variable {sha256 : Bytes → Bytes} {faults : Nat → Option Errno} {path : FilePath} {loc : Location}
  {maxSize current : Nat} {blocks : List DataBlock} {w w' : World}

/-- The object is a regular file with some contents. -/
def IsFile (fs : FileSystem) (loc : Location) (contents : Bytes) : Prop :=
  ∃ node, fs.lookup loc = some node ∧ node.kind = .regular contents

/-- No empty block is behind the data: the blocks end where those with data do. -/
def EndsWithData (blocks : List DataBlock) : Prop := lastEnd 0 blocks = lastEnd 0 (dataBlocks blocks)

/-! ## Contents of blocks -/

/-- Blocks in order cover the bytes up to the last of them. -/
theorem length_sparse (h : InOrder maxSize current blocks) :
    (sparse current blocks).length = lastEnd current blocks - current := by
  induction blocks generalizing current with
  | nil =>
    show 0 = current - current
    omega
  | cons block rest ih =>
    obtain ⟨hoffset, -, hrest⟩ := h
    have hle := le_lastEnd hrest
    rw [sparse, lastEnd, List.length_append, List.length_append, List.length_replicate, ih hrest]
    unfold blockEnd at hle ⊢
    omega

/-! ## Calls on the file -/

/-- A call on an open file fails and changes nothing, or changes the file. -/
theorem fileCall_ok_inv {f : Node → Node} {contents : Bytes}
    (hfile : IsFile w.fs loc contents) (h : fileCall faults loc f w = (.ok (), w')) :
    ∃ node, w.fs.lookup loc = some node ∧ node.kind = .regular contents ∧
      w'.fs = w.fs.set loc (f node) := by
  obtain ⟨node, hnode, hkind⟩ := hfile
  unfold fileCall at h
  dsimp only at h
  split at h
  · cases h
  rw [hnode] at h
  cases h
  exact ⟨node, hnode, hkind, rfl⟩

theorem fileCall_write {f : Bytes → Bytes} {contents : Bytes} (hfile : IsFile w.fs loc contents)
    (h : fileCall faults loc (writeContents f) w = (.ok (), w')) :
    IsFile w'.fs loc (f contents) := by
  obtain ⟨node, -, hkind, hfs⟩ := fileCall_ok_inv hfile h
  refine ⟨writeContents f node, ?_, ?_⟩
  · rw [hfs, FileSystem.lookup_set_self]
  · rw [writeContents, hkind]

/-- A change of an object, made or not, leaves its kind when it does not touch that. -/
theorem fileCall_kind {f : Node → Node} {kind : FileKind} (hf : ∀ node, (f node).kind = node.kind)
    (h : ∃ node, w.fs.lookup loc = some node ∧ node.kind = kind) :
    ∃ node, (fileCall faults loc f w).2.fs.lookup loc = some node ∧ node.kind = kind := by
  obtain ⟨node, hnode, hkind⟩ := h
  unfold fileCall
  dsimp only
  cases faults w.steps with
  | some errno => exact ⟨node, hnode, hkind⟩
  | none =>
    rw [hnode]
    exact ⟨f node, FileSystem.lookup_set_self _, (hf node).trans hkind⟩

/-! ## Writing blocks -/

/-- When the blocks are written, they are in order, the digest is that of the blocks with zeros in
the gaps, and the file has those with data. -/
theorem writeBlocks_ok {digested contents : Bytes} {result : Nat × Bytes}
    (hoffsets : Int64Offsets blocks) (hfile : IsFile w.fs loc contents)
    (hlength : contents.length ≤ current)
    (h : writeBlocks faults path loc maxSize blocks current digested w = (.ok result, w')) :
    InOrder maxSize current blocks ∧
      result = (lastEnd current blocks, digested ++ sparse current blocks) ∧
        IsFile w'.fs loc (contents ++ sparse contents.length (dataBlocks blocks)) := by
  induction blocks generalizing current digested contents w with
  | nil =>
    cases h
    refine ⟨trivial, ?_, ?_⟩
    · rw [sparse, List.append_nil]
      rfl
    · rw [show dataBlocks [] = [] from rfl, sparse, List.append_nil]
      exact hfile
  | cons block rest ih =>
    obtain ⟨hblock, hrest⟩ := List.forall_mem_cons.mp hoffsets
    unfold writeBlocks at h
    dsimp only at h
    split at h
    · cases h
    next hlimits =>
    split at h
    · cases h
    next horder =>
    split at h
    · cases h
    next hmax =>
    have hin := (@block_checks current block hblock).mp ⟨hlimits, horder⟩
    have hoffset : 0 ≤ block.offset := by omega
    have hsize : block.bytes.length ≤ maxPackageEntrySize :=
      Nat.le_trans (Nat.le_add_left _ _) hin.2
    rw [wrapped_end hoffset hblock.2 hsize] at hmax
    rw [bind_apply] at h
    rcases hcall : fileCall faults loc
        (writeContents fun contents => pwrite contents block.bytes block.offset.toNat) w with
      ⟨_ | _, w₁⟩
    · rw [hcall] at h
      cases h
    · rw [hcall] at h
      have hwritten := fileCall_write hfile hcall
      have hreach : contents.length ≤ block.offset.toNat := by omega
      by_cases hempty : block.bytes = []
      · rw [pwrite, if_pos hempty] at hwritten
        have hend : block.offset.toNat ≤ block.offset.toNat + block.bytes.length :=
          Nat.le_add_right _ _
        obtain ⟨hinOrder, rfl, hfinal⟩ :=
          ih hrest hwritten (Nat.le_trans hreach hend) h
        refine ⟨inOrder_cons.mpr ⟨hin, Nat.not_lt.mp hmax, hinOrder⟩, ?_, ?_⟩
        · rw [lastEnd, sparse]
          simp only [List.append_assoc]
          rfl
        · rwa [dataBlocks, List.filter_cons_of_neg (by simpa using hempty)]
      · rw [pwrite_of_length_le hempty hreach] at hwritten
        have hfull : (contents ++
            List.replicate (block.offset.toNat - contents.length) 0 ++ block.bytes).length =
            blockEnd block := by
          rw [List.length_append, List.length_append, List.length_replicate]
          unfold blockEnd
          omega
        obtain ⟨hinOrder, rfl, hfinal⟩ := ih hrest hwritten hfull.le h
        refine ⟨inOrder_cons.mpr ⟨hin, Nat.not_lt.mp hmax, hinOrder⟩, ?_, ?_⟩
        · rw [lastEnd, sparse]
          simp only [List.append_assoc]
        · rw [dataBlocks, List.filter_cons_of_pos (by simpa using hempty), sparse]
          rw [hfull] at hfinal
          simp only [List.append_assoc] at hfinal ⊢
          exact hfinal

/-- What `doFileWrite` returns and what is in the file, when there is no error. -/
theorem doFileWrite_ok {perms n : Nat} {digest : Option Bytes} {archive : LibarchiveReader}
    (hoffsets : Int64Offsets archive.blocks) (hfile : IsFile w.fs loc [])
    (h : doFileWrite sha256 faults path perms digest loc maxSize archive w = (.ok n, w')) :
    InOrder maxSize 0 archive.blocks ∧ archive.dataEnd = .eof ∧ n = lastEnd 0 archive.blocks ∧
      (∀ signed, digest = some signed → signed = sha256 (sparse 0 archive.blocks)) ∧
      IsFile w'.fs loc (sparse 0 (dataBlocks archive.blocks)) := by
  unfold doFileWrite at h
  rw [bind_apply] at h
  rcases hwrite : writeBlocks faults path loc maxSize archive.blocks 0 [] w with ⟨_ | result, w₁⟩
  · rw [hwrite] at h
    cases h
  obtain ⟨horder, rfl, hwritten⟩ := writeBlocks_ok hoffsets hfile (Nat.le_refl 0) hwrite
  rw [hwrite] at h
  dsimp only at h
  split at h
  · cases h
  next hend =>
  split at h
  · cases h
  next hdigest =>
  rw [bind_apply] at h
  generalize hmode : (if perms &&& 0o100 ≠ 0 then 0o755 else 0o644 : Nat) = mode at h
  rcases hcall : fileCall faults loc (fun node => { node with mode := mode }) w₁ with ⟨_ | _, w₂⟩
  · rw [hcall] at h
    cases h
  · rw [hcall] at h
    cases h
    refine ⟨horder, not_not.mp hend, rfl, fun signed hsigned => ?_, ?_⟩
    · rw [hsigned] at hdigest
      simpa using hdigest
    · have hkept := @fileCall_kind faults loc w₁ (fun node => { node with mode := mode }) _
        (fun _ => rfl) hwritten
      rw [hcall] at hkept
      exact hkept

/-- When a signed member was written, the file has the size that is returned and the signed digest
exactly if no empty block is behind the data. -/
theorem written_exact_iff {perms n : Nat} {digest : Bytes} {archive : LibarchiveReader}
    (hoffsets : Int64Offsets archive.blocks) (hfile : IsFile w.fs loc [])
    (h : doFileWrite sha256 faults path perms (some digest) loc maxSize archive w = (.ok n, w')) :
    (∃ contents, IsFile w'.fs loc contents ∧ contents.length = n ∧ sha256 contents = digest) ↔
      EndsWithData archive.blocks := by
  obtain ⟨horder, -, rfl, hdigest, hwritten⟩ := doFileWrite_ok hoffsets hfile h
  have hlength := length_sparse horder.dataBlocks
  constructor
  · rintro ⟨contents, ⟨node, hnode, hkind⟩, hsize, -⟩
    obtain ⟨node', hnode', hkind'⟩ := hwritten
    cases hnode.symm.trans hnode'
    cases hkind.symm.trans hkind'
    unfold EndsWithData
    omega
  · intro hends
    refine ⟨_, hwritten, ?_, ?_⟩
    · rw [hlength, ← hends]
      exact Nat.sub_zero _
    · obtain ⟨gap, hlast, hsparse⟩ := sparse_eq horder
      have hnone : gap = 0 := by
        unfold EndsWithData at hends
        omega
      rw [hnone, List.replicate_zero, List.append_nil] at hsparse
      rw [← hsparse]
      exact (hdigest digest rfl).symm

/-- One byte, and an empty block after a hole. -/
def holeBlocks : List DataBlock := [⟨[0x78], 0⟩, ⟨[], 5⟩]

/-- With the contents in place of a digest, the member with the hole is written with a size of five
bytes, and the file has one. -/
theorem not_written_exact :
    ¬ ∀ (sha256 : Bytes → Bytes) (faults : Nat → Option Errno) (path : FilePath) (perms : Nat)
      (digest : Bytes) (loc : Location) (maxSize n : Nat) (archive : LibarchiveReader)
      (w w' : World), Int64Offsets archive.blocks → IsFile w.fs loc [] →
      doFileWrite sha256 faults path perms (some digest) loc maxSize archive w = (.ok n, w') →
      ∃ contents, IsFile w'.fs loc contents ∧ contents.length = n ∧ sha256 contents = digest := by
  intro h
  have hoffsets : Int64Offsets holeBlocks := holeMember_offsets
  have hfile : IsFile newFileWorld.fs [[0x61]] [] := ⟨⟨.regular [], 0o644, 0⟩, by decide, rfl⟩
  obtain ⟨contents, ⟨node, hnode, hkind⟩, hsize, -⟩ := h id (fun _ => none) (.ofNames [[0x61]])
    0o644 [0x78, 0, 0, 0, 0] [[0x61]] 5 5 ⟨[], holeBlocks, .eof⟩ newFileWorld
    ⟨⟨[([[0x61]], ⟨.regular [0x78], 0o644, 0⟩), ([[0x61]], ⟨.regular [0x78], 0o644, 0⟩),
      ([[0x61]], ⟨.regular [0x78], 0o644, 0⟩), ([[0x61]], ⟨.regular [], 0o644, 0⟩)]⟩, [], 3⟩
    hoffsets hfile rfl
  have hnode' : (⟨.regular [0x78], 0o644, 0⟩ : Node) = node := Option.some.inj hnode
  rw [← hnode'] at hkind
  cases hkind
  exact absurd hsize (by decide)

/-- The theorem on a member with a hole in front of its last byte. -/
theorem written_exact_iff_hole :
    (∃ contents, IsFile (doFileWrite id (fun _ => none) (.ofNames [[0x61]]) 0o644
          (some [0, 0, 0x78]) [[0x61]] 5 ⟨[], [⟨[0x78], 2⟩], .eof⟩ newFileWorld).2.fs
          [[0x61]] contents ∧
        contents.length = 3 ∧ id contents = [0, 0, 0x78]) ↔
      EndsWithData [⟨[0x78], 2⟩] :=
  @written_exact_iff id (fun _ => none) (.ofNames [[0x61]]) [[0x61]] 5 newFileWorld _ 0o644 3
    [0, 0, 0x78] ⟨[], [⟨[0x78], 2⟩], .eof⟩ (by unfold Int64Offsets; decide)
    ⟨⟨.regular [], 0o644, 0⟩, by decide, rfl⟩ (Prod.ext (by rfl) rfl)

end Archive
