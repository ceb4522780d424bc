import Ralf.DmVerity.Stateless

/-!
# The reference builder

`hashArea` is the hash area that a formatting tool writes for a data image:
a superblock block, then the levels of hash blocks from the top down, each level
holding the digests of the blocks of the level below. `treeRoot` is the digest
of the block at the top.

`open_hashArea`: on a file with such an area at the hashes offset, `open`
succeeds and `verify` accepts every block of the image, after any history of
calls. The builder makes levels from the data up and writes them from the top
down; `Holds` says where the levels are, and is matched with the offsets that
the verifier computes.
-/

namespace DmVerity

section
variable (sha256 : Bytes → Sha256Digest) (salt : Bytes)

/-- The hash block over up to 128 blocks, padded with zeros. -/
def hashBlock (children : List Bytes) : Bytes :=
  let digests := (children.map fun block => (sha256 (salt ++ block)).val).flatten
  digests ++ List.replicate (4096 - digests.length) 0

/-- The level of hash blocks over a list of blocks. -/
def hashLevel (blocks : List Bytes) : List Bytes :=
  (List.range (blocks.length ⌈/⌉ 128)).map fun i =>
    hashBlock sha256 salt ((blocks.drop (i * 128)).take 128)

@[simp] theorem hashLevel_length (blocks : List Bytes) :
    (hashLevel sha256 salt blocks).length = blocks.length ⌈/⌉ 128 := by
  simp [hashLevel]

theorem hashLevel_length_lt {blocks : List Bytes} (h : 1 < blocks.length) :
    (hashLevel sha256 salt blocks).length < blocks.length := by
  rw [hashLevel_length, Nat.ceilDiv_eq_add_pred_div]
  omega

/-- The hash levels from the bottom up, until one has a single block. -/
def hashLevels (blocks : List Bytes) : List (List Bytes) :=
  if 1 < blocks.length then
    hashLevel sha256 salt blocks :: hashLevels (hashLevel sha256 salt blocks)
  else []
  termination_by blocks.length
  decreasing_by exact hashLevel_length_lt sha256 salt ‹_›

/-- The digest of the single block at the top. -/
def treeRoot (blocks : List Bytes) : Sha256Digest :=
  if 1 < blocks.length then treeRoot (hashLevel sha256 salt blocks)
  else sha256 (salt ++ blocks.headD [])
  termination_by blocks.length
  decreasing_by exact hashLevel_length_lt sha256 salt ‹_›

/-- The hash area for a data image: the superblock and the levels, top down. -/
def hashArea (uuid : Bytes) (blocks : List Bytes) : Bytes :=
  (VeritySuperBlock.formatted uuid blocks.length salt).block ++
    (hashLevels sha256 salt blocks).reverse.flatten.flatten

end

/-- A file with the given contents, every read of which succeeds. -/
def HashesFile.ofBytes (contents : Bytes) : HashesFile where
  size := .ok contents.length
  pread _ offset size := .data (contents.slice offset size)

variable {sha256 : Bytes → Sha256Digest} {fd : HashesFile} {salt : Bytes}

theorem HashesFile.ofBytes_unchanging (contents : Bytes) : (ofBytes contents).Unchanging :=
  fun _ _ _ _ => rfl

theorem HashesFile.preadFull_ofBytes {contents : Bytes} {offset : Nat} (io : Io)
    (h : offset + 4096 ≤ contents.length) :
    preadFull (ofBytes contents) 4096 offset io =
      (some (contents.slice offset 4096), { io with reads := io.reads + 1 }) := by
  simp only [preadFull, ofBytes, Bytes.slice_length h, if_true]

theorem HashesFile.block_ofBytes {contents : Bytes} {offset : Nat}
    (h : offset + 4096 ≤ contents.length) :
    (ofBytes contents).block offset = some (contents.slice offset 4096) := by
  rw [block, preadFull_ofBytes _ h]

/-! ## Hash blocks -/

theorem digest_length {children : List Bytes} :
    ∀ digest ∈ children.map fun block => (sha256 (salt ++ block)).val, digest.length = 32 := by
  intro digest hmem
  obtain ⟨block, -, rfl⟩ := List.mem_map.mp hmem
  exact (sha256 (salt ++ block)).property

theorem hashBlock_length {children : List Bytes} (h : children.length ≤ 128) :
    (hashBlock sha256 salt children).length = 4096 := by
  have hlen := Bytes.length_flatten (@digest_length sha256 salt children)
  rw [List.length_map] at hlen
  simp only [hashBlock, List.length_append, List.length_replicate, hlen]
  omega

/-- Slot `i` of a hash block is the digest of child `i`. -/
theorem slotMatches_hashBlock {children : List Bytes} {i : Nat} (hi : i < children.length)
    {block : Nat} (hblock : block % 128 = i) :
    slotMatches 128 (hashBlock sha256 salt children) block
      (sha256 (salt ++ children[i])) = true := by
  have hlen := Bytes.length_flatten (@digest_length sha256 salt children)
  rw [List.length_map] at hlen
  have hi' : i < (children.map fun block => (sha256 (salt ++ block)).val).length := by
    simpa using hi
  simp only [slotMatches, hblock, hashBlock, kSha256DigestSize, decide_eq_true_eq]
  rw [Bytes.slice_append_left (by omega), Bytes.slice_flatten digest_length hi',
    List.getElem_map]

theorem hashLevel_block_length {blocks : List Bytes} :
    ∀ block ∈ hashLevel sha256 salt blocks, block.length = 4096 := by
  intro block hmem
  obtain ⟨i, -, rfl⟩ := List.mem_map.mp hmem
  exact hashBlock_length (by simp)

/-- Block `i` of a level has the digest of block `index` of the level below. -/
theorem slotMatches_hashLevel {blocks : List Bytes} {index : Nat} (hindex : index < blocks.length)
    (hlt : index / 128 < (hashLevel sha256 salt blocks).length) :
    slotMatches 128 ((hashLevel sha256 salt blocks)[index / 128]) index
      (sha256 (salt ++ blocks[index])) = true := by
  have hchild : index % 128 < ((blocks.drop (index / 128 * 128)).take 128).length := by
    simp only [List.length_take, List.length_drop]
    omega
  have hmatch := @slotMatches_hashBlock sha256 salt _ _ hchild index rfl
  have hget : ((blocks.drop (index / 128 * 128)).take 128)[index % 128] = blocks[index] := by
    simp only [List.getElem_take, List.getElem_drop]
    congr 1
    omega
  rw [hget] at hmatch
  simpa only [hashLevel, List.getElem_map, List.getElem_range] using hmatch

/-! ## The levels of the tree -/

theorem hashLevels_sizes {blocks : List Bytes} (h : 1 < blocks.length) :
    (hashLevels sha256 salt blocks).map (·.length) = levelSizes blocks.length := by
  induction hlen : blocks.length using Nat.strong_induction_on generalizing blocks with
  | _ n ih =>
    subst hlen
    have hlt := hashLevel_length_lt sha256 salt h
    rw [hashLevels, if_pos h, levelSizes, List.map_cons, hashLevel_length]
    split_ifs with hmore
    · rw [← @hashLevel_length sha256 salt blocks] at hmore
      rw [ih _ hlt hmore rfl, hashLevel_length]
    · rw [← @hashLevel_length sha256 salt blocks] at hmore
      rw [hashLevels, if_neg hmore, List.map_nil]

theorem hashLevels_block_length (blocks : List Bytes) :
    ∀ level ∈ hashLevels sha256 salt blocks, ∀ block ∈ level, block.length = 4096 := by
  induction hlen : blocks.length using Nat.strong_induction_on generalizing blocks with
  | _ n ih =>
    subst hlen
    intro level hmem
    rw [hashLevels] at hmem
    split_ifs at hmem with h
    · rcases List.mem_cons.mp hmem with rfl | hmem
      · exact hashLevel_block_length
      · exact ih _ (hashLevel_length_lt sha256 salt h) _ rfl level hmem
    · exact absurd hmem List.not_mem_nil

/-- The file holds the levels of a list, bottom up, where the verifier looks for them. -/
def Holds (fd : HashesFile) (hashesOffset : Nat) : List (List Bytes) → Prop
  | [] => True
  | level :: above =>
    (∀ i (h : i < level.length), fd.block (wrap64
      (wrap64 (hashesOffset + 4096 * (1 + (above.map (·.length)).sum)) + i * 4096)) =
        some level[i]) ∧
    Holds fd hashesOffset above

/-- Every block of the image is accepted by the verifier without state. -/
theorem statelessPath_of_holds {hashesOffset : Nat} {blocks : List Bytes}
    (hholds : Holds fd hashesOffset (hashLevels sha256 salt blocks)) {index : Nat}
    (hindex : index < blocks.length) :
    statelessPath sha256 fd.block salt (treeRoot sha256 salt blocks)
      (levelOffsets hashesOffset ((hashLevels sha256 salt blocks).map (·.length))) index
      (sha256 (salt ++ blocks[index])) = true := by
  induction hlen : blocks.length using Nat.strong_induction_on generalizing blocks index with
  | _ n ih =>
    subst hlen
    rw [hashLevels] at hholds ⊢
    rw [treeRoot]
    split_ifs at hholds ⊢ with h
    · have hparent : index / 128 < (hashLevel sha256 salt blocks).length := by
        rw [hashLevel_length, Nat.ceilDiv_eq_add_pred_div]
        omega
      obtain ⟨hlevel, habove⟩ := hholds
      rw [List.map_cons, levelOffsets, statelessPath, hashBlockOffset, hlevel _ hparent]
      simp only [slotMatches_hashLevel hindex hparent, Bool.true_and]
      exact ih _ (hashLevel_length_lt sha256 salt h) habove hparent rfl
    · obtain ⟨block, rfl⟩ : ∃ block, blocks = [block] :=
        List.length_eq_one_iff.mp (by omega)
      obtain rfl : index = 0 := by simpa using hindex
      simp [levelOffsets, statelessPath]

/-- The single block of the top level follows the superblock and has the root digest. -/
theorem topBlock_of_holds {hashesOffset : Nat} {blocks : List Bytes} (h : 1 < blocks.length)
    (hholds : Holds fd hashesOffset (hashLevels sha256 salt blocks)) :
    ∃ block, fd.block (wrap64 (hashesOffset + 4096)) = some block ∧
      sha256 (salt ++ block) = treeRoot sha256 salt blocks := by
  induction hlen : blocks.length using Nat.strong_induction_on generalizing blocks with
  | _ n ih =>
    subst hlen
    rw [hashLevels, if_pos h] at hholds
    rw [treeRoot, if_pos h]
    by_cases hmore : 1 < (hashLevel sha256 salt blocks).length
    · exact ih _ (hashLevel_length_lt sha256 salt h) hmore hholds.2 rfl
    · have hlength := @hashLevel_length sha256 salt blocks
      rw [Nat.ceilDiv_eq_add_pred_div] at hlength
      obtain ⟨top, htop⟩ : ∃ top, hashLevel sha256 salt blocks = [top] :=
        List.length_eq_one_iff.mp (by omega)
      rw [htop, hashLevels, if_neg (by simp)] at hholds
      refine ⟨top, ?_, ?_⟩
      · have hread := hholds.1 0 (by simp)
        simpa only [List.map_nil, List.sum_nil, Nat.add_zero, Nat.mul_one, Nat.zero_mul,
          wrap64_of_lt (wrap64_lt _), List.getElem_cons_zero] using hread
      · rw [htop, treeRoot, if_neg (by simp), List.headD_cons]

/-! ## The hash area in a file -/

theorem levels_length {levels : List (List Bytes)}
    (h : ∀ level ∈ levels, ∀ block ∈ level, block.length = 4096) :
    levels.reverse.flatten.flatten.length = 4096 * (levels.map (·.length)).sum := by
  rw [@Bytes.length_flatten _ 4096, List.length_flatten, List.map_reverse, List.sum_reverse,
    Nat.mul_comm]
  intro block hmem
  obtain ⟨level, hlevel, hblock⟩ := List.mem_flatten.mp hmem
  exact h level (List.mem_reverse.mp hlevel) block hblock

theorem hashArea_length {uuid : Bytes} {blocks : List Bytes}
    (h : (VeritySuperBlock.formatted uuid blocks.length salt).WellFormed) :
    (hashArea sha256 salt uuid blocks).length =
      4096 * (1 + ((hashLevels sha256 salt blocks).map (·.length)).sum) := by
  rw [hashArea, List.length_append, VeritySuperBlock.block_length h,
    levels_length (hashLevels_block_length blocks)]
  ring

/-- Levels written from the top down after the superblock are held by the file. -/
theorem holds_of_contents {before after : Bytes} {hashesOffset : Nat} {levels : List (List Bytes)}
    (hblocks : ∀ level ∈ levels, ∀ block ∈ level, block.length = 4096)
    (hbefore : before.length = hashesOffset + 4096)
    (hsize : (before ++ (levels.reverse.flatten.flatten ++ after)).length < 2 ^ 64) :
    Holds (.ofBytes (before ++ (levels.reverse.flatten.flatten ++ after))) hashesOffset levels := by
  induction levels generalizing after with
  | nil => trivial
  | cons level above ih =>
    have hlevel := hblocks level List.mem_cons_self
    have habove := fun l hl => hblocks l (List.mem_cons_of_mem _ hl)
    have hcontents : (level :: above).reverse.flatten.flatten ++ after =
        above.reverse.flatten.flatten ++ (level.flatten ++ after) := by
      simp
    rw [hcontents] at hsize ⊢
    refine ⟨fun i hi => ?_, ih habove hsize⟩
    have hup := levels_length habove
    have hlen := Bytes.length_flatten hlevel
    simp only [List.length_append, hbefore, hup, hlen] at hsize
    have hoffset : wrap64
      (wrap64 (hashesOffset + 4096 * (1 + (above.map (·.length)).sum)) + i * 4096) =
        before.length + (above.reverse.flatten.flatten.length + i * 4096) := by
      have hinner : hashesOffset + 4096 * (1 + (above.map (·.length)).sum) < 2 ^ 64 := by omega
      rw [wrap64_of_lt hinner, hbefore, hup, wrap64_of_lt (by omega)]
      ring
    rw [hoffset, HashesFile.block_ofBytes, Bytes.slice_append_right, Bytes.slice_append_right,
      Bytes.slice_append_left, Bytes.slice_flatten hlevel hi]
    · rw [hlen]
      omega
    · simp only [List.length_append, hlen]
      omega

/-! ## Opening the hash area -/

/-- A file that contains a hash area, and the range given to `open`. -/
structure Embedded (sha256 : Bytes → Sha256Digest) (salt uuid : Bytes) (blocks : List Bytes)
    (before after : Bytes) (hashesOffset hashesSize : Option Nat) : Prop where
  uuid_length : uuid.length = 16
  salt_length : salt.length ≤ 256
  blocks_pos : 1 ≤ blocks.length
  blocks_le : blocks.length ≤ 131072
  fileSize_lt : (before ++ (hashArea sha256 salt uuid blocks ++ after)).length < 2 ^ 63
  offset_eq : hashesOffset.getD 0 = before.length
  size_ge : ∀ size ∈ hashesSize, (hashArea sha256 salt uuid blocks).length ≤ size
  size_le : ∀ size ∈ hashesSize,
    before.length + size ≤ (before ++ (hashArea sha256 salt uuid blocks ++ after)).length

namespace Embedded

variable {uuid : Bytes} {blocks : List Bytes} {before after : Bytes}
  {hashesOffset hashesSize : Option Nat}

/-- The file. -/
def file (_ : Embedded sha256 salt uuid blocks before after hashesOffset hashesSize) : HashesFile :=
  .ofBytes (before ++ (hashArea sha256 salt uuid blocks ++ after))

theorem wellFormed (h : Embedded sha256 salt uuid blocks before after hashesOffset hashesSize) :
    (VeritySuperBlock.formatted uuid blocks.length salt).WellFormed :=
  VeritySuperBlock.formatted_wellFormed h.uuid_length
    (Nat.lt_of_le_of_lt h.blocks_le (by decide)) h.salt_length

theorem holds (h : Embedded sha256 salt uuid blocks before after hashesOffset hashesSize) :
    Holds h.file before.length (hashLevels sha256 salt blocks) := by
  have hassoc : before ++ (hashArea sha256 salt uuid blocks ++ after) =
      (before ++ (VeritySuperBlock.formatted uuid blocks.length salt).block) ++
        ((hashLevels sha256 salt blocks).reverse.flatten.flatten ++ after) := by
    simp only [hashArea, List.append_assoc]
  have hsize := Nat.lt_of_lt_of_le h.fileSize_lt (by decide : 2 ^ 63 ≤ 2 ^ 64)
  rw [file, hassoc]
  rw [hassoc] at hsize
  refine holds_of_contents (hashLevels_block_length blocks) ?_ hsize
  rw [List.length_append, VeritySuperBlock.block_length h.wellFormed]

theorem superBlock_read (h : Embedded sha256 salt uuid blocks before after hashesOffset hashesSize)
    (io : Io) : preadFull h.file 4096 before.length io =
      (some (VeritySuperBlock.formatted uuid blocks.length salt).block,
        { io with reads := io.reads + 1 }) := by
  have hblock := VeritySuperBlock.block_length h.wellFormed
  rw [file, HashesFile.preadFull_ofBytes]
  · have hslice :=
      @Bytes.slice_append_right before (hashArea sha256 salt uuid blocks ++ after) 0 4096
    rw [Nat.add_zero] at hslice
    rw [hslice, hashArea, List.append_assoc, Bytes.slice_append_eq hblock]
  · simp only [List.length_append, hashArea_length h.wellFormed]
    omega

theorem treeOffsets_eq (h : Embedded sha256 salt uuid blocks before after hashesOffset hashesSize) :
    treeOffsets before.length blocks.length =
      levelOffsets before.length ((hashLevels sha256 salt blocks).map (·.length)) := by
  have hpos := h.blocks_pos
  by_cases hone : blocks.length = 1
  · rw [treeOffsets, if_pos hone, hashLevels, if_neg (by omega)]
    rfl
  · rw [treeOffsets, if_neg hone, hashLevels_sizes (by omega)]

/-- The hash blocks fit the range, so the check of the required size passes. -/
theorem fits (h : Embedded sha256 salt uuid blocks before after hashesOffset hashesSize)
    (hmore : 1 < blocks.length) {details : List LayerDetails}
    (hdetails : details.reverse = layerDetails 128 maxLevels blocks.length) :
    wrap64 ((1 + totalHashBlocks details) * 4096) ≤ hashesSize.getD
      ((before ++ (hashArea sha256 salt uuid blocks ++ after)).length - before.length) := by
  have hle := h.blocks_le
  have hsizes :=
    (@layerDetails_spec maxLevels blocks.length (by unfold maxLevels; omega) (by decide)
    (by omega)).1
  have hsum : (details.map (·.hashBlocks)).sum =
      ((hashLevels sha256 salt blocks).map (·.length)).sum := by
    rw [hashLevels_sizes hmore, ← hsizes, ← hdetails, List.map_reverse, List.sum_reverse]
  have harea := @hashArea_length sha256 salt uuid blocks h.wellFormed
  have hfile := h.fileSize_lt
  have hrange : (hashArea sha256 salt uuid blocks).length ≤ hashesSize.getD
      ((before ++ (hashArea sha256 salt uuid blocks ++ after)).length - before.length) := by
    cases hsize : hashesSize with
    | none =>
      simp only [Option.getD_none, List.length_append]
      omega
    | some size => exact h.size_ge size hsize
  refine Nat.le_trans ?_ hrange
  refine Nat.le_trans (wrap64_le _) ?_
  have htotal : totalHashBlocks details ≤ ((hashLevels sha256 salt blocks).map (·.length)).sum := by
    rw [totalHashBlocks, hsum]
    exact wrap64_le _
  omega

/-- `open` succeeds on the hash area. -/
theorem opens
    (h : Embedded sha256 salt uuid blocks before after hashesOffset hashesSize) (io : Io) :
    ∃ v io', DmVerityVerifier.open sha256 h.file (treeRoot sha256 salt blocks).val hashesOffset
      hashesSize io = (.ok v, io') ∧ v.dataBlockCount = blocks.length ∧
      v.hashesOffset = before.length ∧ v.salt = salt := by
  have hpos := h.blocks_pos
  have hle := h.blocks_le
  have hoff := h.offset_eq
  have hopen := @DmVerityVerifier.open_eq_buildLayers sha256 h.file (treeRoot sha256 salt blocks)
    hashesOffset hashesSize _ _ io _ _ rfl ?_ ?_ (by rw [hoff]; exact h.superBlock_read io)
    (VeritySuperBlock.ofBytes_block h.wellFormed)
    (VeritySuperBlock.formatted_supported h.salt_length) (Nat.ne_of_gt hpos) ?_
  · have hsalt : (VeritySuperBlock.formatted uuid blocks.length salt).salt.take
        (VeritySuperBlock.formatted uuid blocks.length salt).saltSize = salt := List.take_left' rfl
    rw [hopen, hoff]
    by_cases hone : blocks.length = 1
    · exact ⟨_, _, DmVerityVerifier.buildLayers_single hone, rfl, rfl, hsalt⟩
    · have hmore : 1 < blocks.length := by omega
      obtain ⟨block, hblock, hroot⟩ := topBlock_of_holds hmore h.holds
      rcases hdetails : (layerDetails 128 maxLevels blocks.length).reverse with _ | ⟨top, lower⟩
      · exact absurd (List.reverse_eq_nil_iff.mp hdetails) (layerDetails_ne_nil _ _ _)
      · rcases hnew : TopMostHashTreeLayer.new sha256 h.file (wrap64 (before.length + 4096))
          top.dataBlocks 4096 ((VeritySuperBlock.formatted uuid blocks.length salt).salt.take
            (VeritySuperBlock.formatted uuid blocks.length salt).saltSize)
          { io with reads := io.reads + 1 } with ⟨topLayer, io'⟩
        have hdigest : topLayer.digest = treeRoot sha256 salt blocks := by
          have hfile : h.file.Unchanging := HashesFile.ofBytes_unchanging _
          have hread := hfile.preadFull_eq (wrap64 (before.length + 4096))
            { io with reads := io.reads + 1 }
          obtain ⟨-, -, ⟨hnone, -⟩ | ⟨bytes, io₂, hsome, -, hdigest, -⟩⟩ :=
            TopMostHashTreeLayer.new_cases hnew
          · rw [hnone, hblock] at hread
            cases hread
          · rw [hsome, hblock] at hread
            cases hread
            rw [hdigest, hsalt, hroot]
        have hfits := @fits _ _ _ _ _ _ _ _ h hmore (top :: lower)
          (by rw [← hdetails, List.reverse_reverse])
        exact ⟨_, _, DmVerityVerifier.buildLayers_eq hone hdetails hfits hnew hdigest,
          rfl, rfl, hsalt⟩
  · rw [hoff, List.length_append]
    omega
  · rw [hoff]
    cases hsize : hashesSize with
    | none => exact le_refl _
    | some size =>
      have := h.size_le size hsize
      simp only [Option.getD_some]
      omega
  · have hcount : (VeritySuperBlock.formatted uuid blocks.length salt).dataBlocks =
      blocks.length := rfl
    rw [hcount, wrap64_of_lt (by omega)]
    omega

/-- The top hash block of the area is readable, so no path faults. -/
theorem not_faultsAt (h : Embedded sha256 salt uuid blocks before after hashesOffset hashesSize)
    {v : DmVerityVerifier} (hcount : v.dataBlockCount = blocks.length)
    (hoffset : v.hashesOffset = before.length) (block : Nat) : ¬ v.FaultsAt h.file block := by
  rintro ⟨hblock, hf⟩
  rw [hcount] at hblock hf
  rw [hoffset] at hf
  by_cases hone : blocks.length = 1
  · rw [treeOffsets, if_pos hone] at hf
    exact hf
  · obtain ⟨top, htop, -⟩ := topBlock_of_holds (by omega) h.holds
    rw [treeOffsets, if_neg hone, faults_levelOffsets_iff (levelSizes_ne_nil _), htop] at hf
    exact absurd hf.1 (by simp)

/-- The verifier without state accepts every block of the image. -/
theorem stateless_eq_true
    (h : Embedded sha256 salt uuid blocks before after hashesOffset hashesSize)
    {v : DmVerityVerifier} (hcount : v.dataBlockCount = blocks.length)
    (hoffset : v.hashesOffset = before.length) (hsalt : v.salt = salt)
    (hroot : v.rootHash = treeRoot sha256 salt blocks) {i : Nat} (hi : i < blocks.length) :
    v.stateless sha256 h.file (i, blocks[i]) = true := by
  rw [DmVerityVerifier.stateless, hoffset, hcount, hsalt, hroot, statelessVerify, h.treeOffsets_eq,
    statelessPath_of_holds h.holds hi]
  simp [hi]

end Embedded

/-- A verifier that is opened on the area accepts every block, after any history of calls. -/
theorem Embedded.accepts {uuid : Bytes} {blocks : List Bytes} {before after : Bytes}
    {hashesOffset hashesSize : Option Nat}
    (h : Embedded sha256 salt uuid blocks before after hashesOffset hashesSize) (io : Io) :
    ∃ v io', DmVerityVerifier.open sha256 h.file (treeRoot sha256 salt blocks).val hashesOffset
        hashesSize io = (.ok v, io') ∧
      v.dataBlockCount = blocks.length ∧ v.hashesOffset = before.length ∧
      ∀ history, ∃ results v' io'',
        v.verifyAll sha256 h.file io' history = .ok (results, v', io'') ∧
        ∀ i (hi : i < blocks.length), ∃ v'' io''',
          v'.verify sha256 h.file i blocks[i] io'' = .ok (true, v'', io''') := by
  obtain ⟨v, io', hopen, hcount, hoffset, hsalt⟩ := h.opens io
  have hfile : h.file.Unchanging := HashesFile.ofBytes_unchanging _
  have hO := DmVerityVerifier.open_ok hopen
  have hroot : v.rootHash = treeRoot sha256 salt blocks := Subtype.ext hO.rootHash
  have hfaults := fun block => h.not_faultsAt hcount hoffset block
  refine ⟨v, io', hopen, hcount, hoffset, fun history => ?_⟩
  obtain ⟨layer0, io'', hrun, hv'⟩ :=
    verifyAll_refines hfile (hO.refinesFile hfile) hfaults io' history
  refine ⟨_, _, io'', hrun, fun i hi => ?_⟩
  obtain ⟨layer1, io''', hcall, -⟩ := (verify_refines hfile hv' i blocks[i] io'').2 (hfaults i)
  exact ⟨_, io''', hcall.trans (by rw [← h.stateless_eq_true hcount hoffset hsalt hroot hi]; rfl)⟩

/-- The verifier opened on a reference hash area accepts every block of the image,
after any history of calls. -/
theorem verify_hashArea {uuid : Bytes} {blocks : List Bytes} {before after : Bytes}
    {hashesOffset hashesSize : Option Nat}
    (h : Embedded sha256 salt uuid blocks before after hashesOffset hashesSize) (io : Io) :
    ∃ v io', DmVerityVerifier.open sha256 h.file (treeRoot sha256 salt blocks).val hashesOffset
      hashesSize io = (.ok v, io') ∧
    ∀ history, ∃ results v' io'', v.verifyAll sha256 h.file io' history = .ok (results, v', io'') ∧
      ∀ i (hi : i < blocks.length), ∃ v'' io''',
        v'.verify sha256 h.file i blocks[i] io'' = .ok (true, v'', io''') := by
  obtain ⟨v, io', hopen, -, -, haccepts⟩ := h.accepts io
  exact ⟨v, io', hopen, haccepts⟩

/-! ### Images of two blocks -/

/-- A hash that is told by the first bytes of a string, and is never zero. -/
def prefixHash (bytes : Bytes) : Sha256Digest :=
  ⟨1 :: (bytes ++ List.replicate 31 0).take 31, by simp⟩

theorem prefixHash_ne_zero (bytes : Bytes) : prefixHash bytes ≠ .zero := by
  intro heq
  have hhead := congrArg (fun digest : Sha256Digest => digest.val.head?) heq
  simp [prefixHash, Sha256Digest.zero] at hhead

def twoDataBlocks : List Bytes := [List.replicate 4096 0, List.replicate 4096 1]

/-- The hash area over two blocks at the end of a file. -/
theorem twoBlocks_area (sha256 : Bytes → Sha256Digest) {blocks : List Bytes}
    (hcount : blocks.length = 2) {before : Bytes} {hashesOffset : Option Nat}
    (hoffset : hashesOffset.getD 0 = before.length) (hbefore : before.length ≤ 4096) :
    Embedded sha256 [] (List.replicate 16 0) blocks before [] hashesOffset none where
  uuid_length := List.length_replicate
  salt_length := by decide
  blocks_pos := by omega
  blocks_le := by omega
  fileSize_lt := by
    have hsizes : levelSizes 2 = [1] := by
      rw [levelSizes]
      rfl
    have hwf : (VeritySuperBlock.formatted (List.replicate 16 0) blocks.length []).WellFormed := by
      rw [hcount]
      exact twoBlocks_wellFormed
    rw [List.length_append, List.append_nil, hashArea_length hwf, hashLevels_sizes (by omega),
      hcount, hsizes]
    simp only [List.sum_cons, List.sum_nil]
    omega
  offset_eq := hoffset
  size_ge := nofun
  size_le := nofun

theorem twoDataBlocks_area (sha256 : Bytes → Sha256Digest) :
    Embedded sha256 [] (List.replicate 16 0) twoDataBlocks [] [] none none :=
  twoBlocks_area sha256 rfl rfl (by decide)

/-- The area with a hash that is always zero. -/
theorem twoDataBlocks_embedded : Embedded (fun _ => .zero) [] (List.replicate 16 0) twoDataBlocks []
    [] none none :=
  twoDataBlocks_area fun _ => .zero

theorem verify_hashArea_twoDataBlocks :
    ∃ v io', DmVerityVerifier.open (fun _ => .zero) twoDataBlocks_embedded.file
      (treeRoot (fun _ => .zero) [] twoDataBlocks).val none none .init = (.ok v, io') ∧
    ∀ history, ∃ results v' io'',
      v.verifyAll (fun _ => .zero) twoDataBlocks_embedded.file io' history = .ok
        (results, v', io'') ∧
      ∀ i (hi : i < twoDataBlocks.length), ∃ v'' io''',
        v'.verify (fun _ => .zero) twoDataBlocks_embedded.file i twoDataBlocks[i] io'' =
          .ok (true, v'', io''') :=
  verify_hashArea twoDataBlocks_embedded .init

end DmVerity
