import Ralf.W3c.Package

/-!
# Verifying and extracting the same blocks

`verifyArchiveFileEntry` and `doFileWrite` go through the data blocks of a member in the
same way, except for empty blocks: verifying skips them, while writing checks their
offsets and digests the gap before them as zeros.

A sequence of blocks that passes the checks is `InOrder`, and its `sparse` contents are
the blocks with zeros in the gaps. `verify_iff_write_iff` says when the two agree.
-/

namespace W3c

open Archive Posix

variable {sha256 : Bytes → Bytes} {size current : Nat} {blocks : List DataBlock}
  {digested result : Bytes}

/-! ## Block sequences -/

/-- The blocks that have data. -/
def dataBlocks (blocks : List DataBlock) : List DataBlock :=
  blocks.filter fun block => block.bytes ≠ []

/-- The end of a block. -/
def blockEnd (block : DataBlock) : Nat := block.offset.toNat + block.bytes.length

/-- The blocks follow each other and end within the size. -/
def InOrder (size : Nat) : Nat → List DataBlock → Prop
  | _, [] => True
  | current, block :: rest =>
    (current : Int) ≤ block.offset ∧ blockEnd block ≤ min size maxPackageEntrySize ∧
      InOrder size (blockEnd block) rest

/-- The contents that blocks make, with zeros in the gaps. -/
def sparse : Nat → List DataBlock → Bytes
  | _, [] => []
  | current, block :: rest =>
    List.replicate (block.offset.toNat - current) 0 ++ block.bytes ++ sparse (blockEnd block) rest

/-- Where the blocks end. -/
def lastEnd : Nat → List DataBlock → Nat
  | current, [] => current
  | _, block :: rest => lastEnd (blockEnd block) rest

/-- The offsets are signed 64-bit numbers. -/
def Int64Offsets (blocks : List DataBlock) : Prop :=
  ∀ block ∈ blocks, -2 ^ 63 ≤ block.offset ∧ block.offset < 2 ^ 63

theorem InOrder.mono {current' : Nat} (hle : current' ≤ current) (h : InOrder size current blocks) :
    InOrder size current' blocks := by
  cases blocks with
  | nil => trivial
  | cons block rest => exact ⟨by have := h.1; omega, h.2⟩

/-- Without the empty blocks, a sequence in order is still in order. -/
theorem InOrder.dataBlocks (h : InOrder size current blocks) :
    InOrder size current (dataBlocks blocks) := by
  induction blocks generalizing current with
  | nil => trivial
  | cons block rest ih =>
    obtain ⟨hoffset, hend, hrest⟩ := h
    by_cases hempty : block.bytes = []
    · have hle : current ≤ blockEnd block := by
        unfold blockEnd
        omega
      rw [W3c.dataBlocks, List.filter_cons_of_neg (by simpa using hempty)]
      exact (ih hrest).mono hle
    · rw [W3c.dataBlocks, List.filter_cons_of_pos (by simpa using hempty)]
      exact ⟨hoffset, hend, ih hrest⟩

theorem le_lastEnd (h : InOrder size current blocks) : current ≤ lastEnd current blocks := by
  induction blocks generalizing current with
  | nil => exact Nat.le_refl _
  | cons block rest ih =>
    obtain ⟨hoffset, -, hrest⟩ := h
    have hle := ih hrest
    unfold lastEnd
    unfold blockEnd at hle ⊢
    omega

/-- Starting further back adds zeros, in front of the data or at its end. -/
theorem sparse_back {start gap : Nat} (hle : current ≤ start) (h : InOrder size start blocks) :
    ∃ back, lastEnd start blocks + gap = lastEnd current blocks + back ∧
      List.replicate (start - current) 0 ++ (sparse start blocks ++ List.replicate gap 0) =
        sparse current blocks ++ List.replicate back (0 : UInt8) := by
  cases blocks with
  | nil =>
    refine ⟨start - current + gap, ?_, ?_⟩
    · unfold lastEnd
      omega
    · rw [sparse, sparse, List.nil_append, List.nil_append, List.replicate_append_replicate]
  | cons block rest =>
    refine ⟨gap, rfl, ?_⟩
    have hgap : block.offset.toNat - current =
        (start - current) + (block.offset.toNat - start) := by
      have := h.1
      omega
    rw [sparse, sparse, hgap, ← List.replicate_append_replicate]
    simp only [List.append_assoc]

/-- The empty blocks add the zeros up to the last of them. -/
theorem sparse_eq (h : InOrder size current blocks) : ∃ gap,
    lastEnd current blocks = lastEnd current (dataBlocks blocks) + gap ∧
      sparse current blocks = sparse current (dataBlocks blocks) ++ List.replicate gap 0 := by
  induction blocks generalizing current with
  | nil => exact ⟨0, rfl, rfl⟩
  | cons block rest ih =>
    obtain ⟨hoffset, -, hrest⟩ := h
    obtain ⟨gap, hlast, hsparse⟩ := ih hrest
    by_cases hempty : block.bytes = []
    · have hstart : blockEnd block = block.offset.toNat := by
        rw [blockEnd, hempty, List.length_nil, Nat.add_zero]
      have hle : current ≤ blockEnd block := by omega
      obtain ⟨back, hend, hback⟩ := @sparse_back _ _ _ _ gap hle hrest.dataBlocks
      rw [dataBlocks, List.filter_cons_of_neg (by simpa using hempty)]
      refine ⟨back, hlast.trans hend, ?_⟩
      rw [sparse, hempty, List.append_nil, hsparse, ← hstart]
      exact hback
    · rw [dataBlocks, List.filter_cons_of_pos (by simpa using hempty)]
      refine ⟨gap, hlast, ?_⟩
      rw [sparse, sparse, hsparse]
      simp only [List.append_assoc]
      rfl

/-! ## What is accepted -/

/-- The end of a block in 64-bit arithmetic, for a block with no negative offset. -/
theorem wrapped_end {block : DataBlock} (hoffset : 0 ≤ block.offset)
    (hlt : block.offset < 2 ^ 63) (hlen : block.bytes.length ≤ maxPackageEntrySize) :
    ((block.offset + block.bytes.length) % 2 ^ 64).toNat = blockEnd block := by
  unfold blockEnd
  unfold maxPackageEntrySize at hlen
  rw [Int.emod_eq_of_lt] <;> omega

/-- The checks of one block, as both functions make them. -/
theorem block_checks {block : DataBlock} (hblock : -2 ^ 63 ≤ block.offset ∧ block.offset < 2 ^ 63) :
    ¬ (block.bytes.length > maxPackageEntrySize ∨
        ((block.offset + block.bytes.length) % 2 ^ 64).toNat > maxPackageEntrySize) ∧
      ¬ block.offset < (current : Int) ↔
    (current : Int) ≤ block.offset ∧ blockEnd block ≤ maxPackageEntrySize := by
  constructor
  · rintro ⟨hsize, horder⟩
    obtain ⟨hlen, hend⟩ := not_or.mp hsize
    have hoffset : 0 ≤ block.offset := by omega
    rw [wrapped_end hoffset hblock.2 (Nat.not_lt.mp hlen)] at hend
    exact ⟨by omega, by omega⟩
  · rintro ⟨horder, hend⟩
    have hlen : block.bytes.length ≤ maxPackageEntrySize := Nat.le_trans (Nat.le_add_left _ _) hend
    rw [wrapped_end (by omega) hblock.2 hlen]
    exact ⟨not_or.mpr ⟨by omega, by omega⟩, by omega⟩

theorem inOrder_cons {block : DataBlock} : InOrder size current (block :: blocks) ↔
    ((current : Int) ≤ block.offset ∧ blockEnd block ≤ maxPackageEntrySize) ∧
      blockEnd block ≤ size ∧ InOrder size (blockEnd block) blocks := by
  rw [InOrder, Nat.le_min]
  tauto

theorem verifyBlocks_ok_iff (hoffsets : Int64Offsets blocks) (hsize : size < 2 ^ 63) :
    verifyBlocks size blocks current digested = .ok result ↔
      InOrder size current (dataBlocks blocks) ∧
        result = digested ++ sparse current (dataBlocks blocks) := by
  induction blocks generalizing current digested with
  | nil =>
    show Except.ok digested = Except.ok result ↔ True ∧ result = digested ++ []
    rw [List.append_nil, Except.ok.injEq, true_and, eq_comm]
  | cons block rest ih =>
    obtain ⟨hblock, hrest⟩ := List.forall_mem_cons.mp hoffsets
    unfold verifyBlocks
    dsimp only
    by_cases hempty : block.bytes = []
    · rw [if_pos (List.length_eq_zero_iff.mpr hempty), dataBlocks,
        List.filter_cons_of_neg (by simpa using hempty)]
      exact ih hrest
    rw [if_neg (mt List.length_eq_zero_iff.mp hempty), dataBlocks,
      List.filter_cons_of_pos (by simpa using hempty), asInt64_of_lt hsize, inOrder_cons]
    have hchecks := @block_checks current block hblock
    by_cases hin : (current : Int) ≤ block.offset ∧ blockEnd block ≤ maxPackageEntrySize
    · obtain ⟨hlimits, horder⟩ := hchecks.mpr hin
      have hlast : block.offset.toNat + block.bytes.length = blockEnd block := rfl
      rw [if_neg hlimits, if_neg horder, hlast]
      by_cases hend : blockEnd block ≤ size
      · have hfits : ¬ ((blockEnd block : Int) > size) := by omega
        rw [if_neg hfits]
        refine (ih hrest).trans (and_congr ⟨fun h => ⟨hin, hend, h⟩, fun h => h.2.2⟩ ?_)
        rw [sparse]
        simp only [List.append_assoc]
        rfl
      · have hexceeds : (blockEnd block : Int) > size := by omega
        rw [if_pos hexceeds]
        exact iff_of_false (fun h => nomatch h) fun h => hend h.1.2.1
    · refine iff_of_false (fun h => ?_) fun h => hin h.1.1
      split at h
      · cases h
      next hlimits =>
      split at h
      · cases h
      next horder => exact hin (hchecks.mp ⟨hlimits, horder⟩)

theorem verifyArchiveFileEntry_ok_iff {member : Member} {digest : Bytes}
    (hoffsets : Int64Offsets member.blocks) (hsize : size < 2 ^ 63) :
    verifyArchiveFileEntry sha256 member size digest = .ok () ↔
      InOrder size 0 (dataBlocks member.blocks) ∧ member.dataEnd = .eof ∧
        digest = sha256 (sparse 0 (dataBlocks member.blocks)) := by
  have hblocks := @verifyBlocks_ok_iff size 0 member.blocks [] 
  unfold verifyArchiveFileEntry
  cases hverify : verifyBlocks size member.blocks 0 [] with
  | error error =>
    refine iff_of_false (fun h => nomatch h) fun h => ?_
    have hok := (@hblocks _ hoffsets hsize).mpr ⟨h.1, rfl⟩
    rw [hverify] at hok
    cases hok
  | ok digested =>
    obtain ⟨horder, rfl⟩ := (hblocks hoffsets hsize).mp hverify
    dsimp only
    rw [List.nil_append]
    split
    · next hend => exact iff_of_false (fun h => nomatch h) fun h => hend h.2.1
    next hend =>
    split
    · next hdigest => exact iff_of_false (fun h => nomatch h) fun h => hdigest h.2.2
    · next hdigest =>
      exact iff_of_true rfl ⟨horder, not_not.mp hend, not_not.mp hdigest⟩

/-- A call on an open file that has no fault. -/
theorem fileCall_ok {loc : Location} {f : Node → Node} {w : World} {node : Node}
    (h : w.fs.lookup loc = some node) :
    fileCall (fun _ => none) loc f w =
      (.ok (), { w with fs := w.fs.set loc (f node), steps := w.steps + 1 }) := by
  unfold fileCall
  dsimp only
  rw [h]

/-- Writing blocks, when all writes succeed. -/
theorem writeBlocks_cases {path : FilePath} {loc : Location} {w : World}
    (hoffsets : Int64Offsets blocks) (hloc : (w.fs.lookup loc).isSome = true) :
    (InOrder size current blocks ∧ ∃ w' : World, (w'.fs.lookup loc).isSome = true ∧
        writeBlocks (fun _ => none) path loc size blocks current digested w =
          (.ok (lastEnd current blocks, digested ++ sparse current blocks), w')) ∨
      ¬ InOrder size current blocks ∧ ∃ error w',
        writeBlocks (fun _ => none) path loc size blocks current digested w =
          (.error error, w') := by
  induction blocks generalizing current digested w with
  | nil =>
    rw [sparse, List.append_nil]
    exact .inl ⟨trivial, w, hloc, rfl⟩
  | cons block rest ih =>
    obtain ⟨hblock, hrest⟩ := List.forall_mem_cons.mp hoffsets
    have hchecks := @block_checks current block hblock
    unfold writeBlocks
    dsimp only
    rw [inOrder_cons]
    by_cases hin : (current : Int) ≤ block.offset ∧ blockEnd block ≤ maxPackageEntrySize
    · obtain ⟨hlimits, horder⟩ := hchecks.mpr hin
      rw [if_neg hlimits, if_neg horder]
      rw [wrapped_end (by omega) hblock.2 (Nat.le_trans (Nat.le_add_left _ _) hin.2)]
      by_cases hend : blockEnd block ≤ size
      · rw [if_neg (Nat.not_lt.mpr hend)]
        obtain ⟨node, hnode⟩ := Option.isSome_iff_exists.mp hloc
        have hwrite := @fileCall_ok loc
          (writeContents fun contents =>
            pwrite contents block.bytes block.offset.toNat) w node hnode
        rw [bind_apply, hwrite]
        dsimp only
        generalize hnext : ({ w with fs := _, steps := _ } : World) = next
        have hloc' : (next.fs.lookup loc).isSome = true := by
          rw [← hnext, FileSystem.lookup_set_self]
          rfl
        have hrun := @ih (blockEnd block)
          (digested ++ List.replicate (block.offset.toNat - current) 0 ++ block.bytes)
            next hrest hloc'
        rw [sparse, lastEnd]
        rcases hrun with ⟨horder', w', hw', hrun⟩ | ⟨horder', error, w', hrun⟩
        · refine .inl ⟨⟨hin, hend, horder'⟩, w', hw', hrun.trans ?_⟩
          simp only [List.append_assoc]
        · exact .inr ⟨fun h => horder' h.2.2, error, w', hrun⟩
      · rw [if_pos (Nat.not_le.mp hend)]
        exact .inr ⟨fun h => hend h.2.1, _, w, rfl⟩
    · refine .inr ⟨fun h => hin h.1, ?_⟩
      split
      · exact ⟨_, w, rfl⟩
      next hlimits =>
      split
      · exact ⟨_, w, rfl⟩
      next horder => exact absurd (hchecks.mp ⟨hlimits, horder⟩) hin

theorem doFileWrite_ok_iff {path : FilePath} {perms : Nat} {digest : Bytes} {loc : Location}
    {archive : LibarchiveReader} {w : World} (hoffsets : Int64Offsets archive.blocks)
    (hloc : (w.fs.lookup loc).isSome = true) :
    (∃ written, (doFileWrite sha256 (fun _ => none) path perms (some digest) loc size archive w).1 =
        .ok written) ↔
      InOrder size 0 archive.blocks ∧ archive.dataEnd = .eof ∧
        digest = sha256 (sparse 0 archive.blocks) := by
  unfold doFileWrite
  rw [bind_apply]
  rcases @writeBlocks_cases size 0 archive.blocks [] path loc w hoffsets hloc with
    ⟨horder, w', hw', hrun⟩ | ⟨horder, error, w', hrun⟩
  · rw [hrun, List.nil_append]
    dsimp only
    split
    · next hend => exact iff_of_false (fun ⟨_, h⟩ => nomatch h) fun h => hend h.2.1
    next hend =>
    split
    · next hdigest =>
      refine iff_of_false (fun ⟨_, h⟩ => nomatch h) fun h => ?_
      rw [h.2.2] at hdigest
      simp at hdigest
    next hdigest =>
    obtain ⟨node, hnode⟩ := Option.isSome_iff_exists.mp hw'
    rw [bind_apply, fileCall_ok hnode]
    refine iff_of_true ⟨_, rfl⟩ ⟨horder, not_not.mp hend, ?_⟩
    simpa using hdigest
  · rw [hrun]
    exact iff_of_false (fun ⟨_, h⟩ => nomatch h) fun h => horder h.1

/-! ## Agreement -/

/-- The contents that are written: empty blocks at the end may add zeros to the data. -/
def writtenContents (blocks : List DataBlock) : Bytes :=
  sparse 0 (dataBlocks blocks) ++
    List.replicate (lastEnd 0 blocks - lastEnd 0 (dataBlocks blocks)) 0

theorem sparse_eq_writtenContents (h : InOrder size 0 blocks) :
    sparse 0 blocks = writtenContents blocks := by
  obtain ⟨gap, hlast, hsparse⟩ := sparse_eq h
  rw [writtenContents, hsparse, hlast, Nat.add_sub_cancel_left]

/-- When the empty blocks do not matter: the data is refused anyway, or they are in order
and the digest is the one of the contents with and without them, or of neither; or they are
not in order, and the digest does not match the data. -/
def EmptyBlocksHarmless (sha256 : Bytes → Bytes) (blocks : List DataBlock) (dataEnd : DataEnd)
    (size : Nat) (digest : Bytes) : Prop :=
  dataEnd = .eof → InOrder size 0 (dataBlocks blocks) →
    (InOrder size 0 blocks →
      (digest = sha256 (sparse 0 (dataBlocks blocks)) ↔ digest = sha256 (writtenContents blocks))) ∧
    (¬ InOrder size 0 blocks → digest ≠ sha256 (sparse 0 (dataBlocks blocks)))

/-- Verifying an entry and writing it, with its size as the limit and every write succeeding,
agree exactly when the empty blocks are harmless. -/
theorem verify_iff_write_iff (sha256 : Bytes → Bytes) (member : Member) (size : Nat)
    (digest : Bytes) (path : FilePath) (perms : Nat) (loc : Location) (headers : List Header)
    (w : World) (hoffsets : Int64Offsets member.blocks) (hsize : size < 2 ^ 63)
    (hloc : (w.fs.lookup loc).isSome = true) :
    ((verifyArchiveFileEntry sha256 member size digest = .ok ()) ↔
      ∃ written, (doFileWrite sha256 (fun _ => none) path perms (some digest) loc size
        ⟨headers, member.blocks, member.dataEnd⟩ w).1 = .ok written) ↔
    EmptyBlocksHarmless sha256 member.blocks member.dataEnd size digest := by
  rw [verifyArchiveFileEntry_ok_iff hoffsets hsize, doFileWrite_ok_iff hoffsets hloc]
  dsimp only
  unfold EmptyBlocksHarmless
  by_cases hend : member.dataEnd = .eof
  · by_cases horder : InOrder size 0 member.blocks
    · have hdata := horder.dataBlocks
      rw [sparse_eq_writtenContents horder]
      simp only [hend, horder, hdata, true_and, forall_const, not_true, false_implies, and_true]
    · simp only [hend, horder, false_and, true_and, iff_false, not_false_eq_true, forall_const,
        false_implies, not_and]
  · simp only [hend, false_and, and_false, false_implies]

/-- One byte, and an empty block that ends a hole after it. -/
def holeMember : Member :=
  { pathname := some [0x61], type := .regular, perm := 0o644, mtime := 0, size := 5,
    symlink := none, blocks := [⟨[0x78], 0⟩, ⟨[], 5⟩], dataEnd := .eof }

/-- A file that was just created at the root. -/
def newFileWorld : World := ⟨⟨[([[0x61]], ⟨.regular [], 0o644, 0⟩)]⟩, [], 0⟩

theorem holeMember_offsets : Int64Offsets holeMember.blocks := by
  unfold Int64Offsets
  decide

/-- With the contents in place of a digest, the member with the hole is written but does
not verify. -/
theorem not_verify_iff_write :
    ¬ ∀ (sha256 : Bytes → Bytes) (member : Member) (size : Nat) (digest : Bytes) (path : FilePath)
      (perms : Nat) (loc : Location) (headers : List Header) (w : World),
      Int64Offsets member.blocks → size < 2 ^ 63 → (w.fs.lookup loc).isSome = true →
      ((verifyArchiveFileEntry sha256 member size digest = .ok ()) ↔
        ∃ written, (doFileWrite sha256 (fun _ => none) path perms (some digest) loc size
          ⟨headers, member.blocks, member.dataEnd⟩ w).1 = .ok written) := by
  intro h
  have hiff := h id holeMember 5 [0x78, 0, 0, 0, 0] (.ofNames [[0x61]]) 0o644 [[0x61]] []
    newFileWorld holeMember_offsets (by decide) (by decide)
  exact absurd (hiff.mpr ⟨5, by decide +kernel⟩) (by decide +kernel)

/-- The theorem on the member with the hole. -/
theorem verify_iff_write_iff_hole :
    ((verifyArchiveFileEntry id holeMember 5 [0x78] = .ok ()) ↔
      ∃ written, (doFileWrite id (fun _ => none) (.ofNames [[0x61]]) 0o644 (some [0x78]) [[0x61]] 5
        ⟨[], holeMember.blocks, holeMember.dataEnd⟩ newFileWorld).1 = .ok written) ↔
    EmptyBlocksHarmless id holeMember.blocks holeMember.dataEnd 5 [0x78] :=
  verify_iff_write_iff id holeMember 5 [0x78] (.ofNames [[0x61]]) 0o644 [[0x61]] [] newFileWorld
    holeMember_offsets (by decide) (by decide)

end W3c
