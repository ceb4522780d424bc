import Mathlib.Algebra.Order.Floor.Div
import Mathlib.GroupTheory.GroupAction.Ring
import Ralf.DmVerity.Opening

/-!
# The verifier against a verifier without state

`statelessVerify` is the specification of `DmVerityVerifier.verify`: it reads the
hash block of every level on the path from a block to the root and checks every
digest, and keeps nothing between calls. On a hashes file that does not change,
an opened verifier gives the same results over every history of calls, with one
exception (`verifyAll_eq_stateless_iff`): when the top hash block cannot be read,
`open` still succeeds for an all-zero root hash, and a call that gets as far as
the top layer dereferences its null block.

* `Refines` relates a layer object to the offsets of its levels: what is cached
  is what the file holds, and has passed the check of the levels above.
* `verifyBlock_refines` is the step: a call gives the stateless result and keeps
  the relation, or faults at an unreadable top block.
-/

namespace DmVerity

/-! ## The specification -/

/-- The numbers of hash blocks of the levels over `n` blocks, from the bottom up. -/
def levelSizes (n : Nat) : List Nat :=
  if n ⌈/⌉ 128 > 1 then n ⌈/⌉ 128 :: levelSizes (n ⌈/⌉ 128) else [n ⌈/⌉ 128]
  termination_by n
  decreasing_by
    simp only [Nat.ceilDiv_eq_add_pred_div] at *
    omega

theorem levelSizes_ne_nil (n : Nat) : levelSizes n ≠ [] := by
  rw [levelSizes]
  split_ifs <;> exact List.cons_ne_nil _ _

/-- The file offsets of the levels, from the bottom up: the top level follows the
superblock, each other level follows the level above it. -/
def levelOffsets (hashesOffset : Nat) : List Nat → List Nat
  | [] => []
  | _ :: above => wrap64 (hashesOffset + 4096 * (1 + above.sum)) :: levelOffsets hashesOffset above

/-- The offset of the hash block with the digest of block `index` of the level below. -/
def hashBlockOffset (levelOffset index : Nat) : Nat := wrap64 (levelOffset + index / 128 * 4096)

/-- Checks a digest against the levels from `offsets` up, block by block. -/
def statelessPath (sha256 : Bytes → Sha256Digest) (read : Nat → Option Bytes) (salt : Bytes)
    (root : Sha256Digest) : List Nat → Nat → Sha256Digest → Bool
  | [], _, digest => digest = root
  | offset :: above, index, digest =>
    match read (hashBlockOffset offset index) with
    | none => false
    | some hashBlock =>
      slotMatches 128 hashBlock index digest &&
        statelessPath sha256 read salt root above (index / 128) (sha256 (salt ++ hashBlock))

/-- The offsets of the levels of a tree over `n` blocks; a single block has no hash level. -/
def treeOffsets (hashesOffset n : Nat) : List Nat :=
  if n = 1 then [] else levelOffsets hashesOffset (levelSizes n)

/-- The verifier without state. -/
def statelessVerify (sha256 : Bytes → Sha256Digest) (read : Nat → Option Bytes)
    (hashesOffset n : Nat) (salt : Bytes) (root : Sha256Digest) (block : Nat)
    (data : Bytes) : Bool :=
  block < n &&
    statelessPath sha256 read salt root (treeOffsets hashesOffset n) block (sha256 (salt ++ data))

/-- The file gives the same answer to a read whenever it is made. -/
def HashesFile.Unchanging (fd : HashesFile) : Prop :=
  ∀ time time' offset size, fd.pread time offset size = fd.pread time' offset size

/-- The block of 4096 bytes at an offset, if it can be read in full. -/
def HashesFile.block (fd : HashesFile) (offset : Nat) : Option Bytes :=
  (preadFull fd 4096 offset .init).1

/-- The last level is the top one. -/
theorem levelOffsets_getLast? {hashesOffset : Nat} {sizes : List Nat} :
    ∀ offset ∈ (levelOffsets hashesOffset sizes).getLast?,
      offset = wrap64 (hashesOffset + 4096) := by
  induction sizes with
  | nil => exact fun _ h => nomatch h
  | cons size sizes ih =>
    cases sizes with
    | nil =>
      intro offset h
      simpa [levelOffsets, eq_comm] using h
    | cons size' sizes => exact ih

variable {sha256 : Bytes → Sha256Digest} {fd : HashesFile}

theorem HashesFile.Unchanging.preadFull_eq (hfile : fd.Unchanging) (offset : Nat) (io : Io) :
    (preadFull fd 4096 offset io).1 = fd.block offset := by
  unfold HashesFile.block preadFull
  rw [hfile io.reads Io.init.reads]
  split <;> rfl

/-! ## The level list against the level sizes -/

theorem divRoundUp_eq_ceilDiv {n : Nat} (h : n + 127 < 2 ^ 64) :
    divRoundUp n 128 = n ⌈/⌉ 128 := by
  rw [divRoundUp, wrap64_of_lt h, Nat.ceilDiv_eq_add_pred_div]
  rfl

theorem ceilDiv_le_self (n : Nat) : n ⌈/⌉ 128 ≤ n := by
  rw [Nat.ceilDiv_eq_add_pred_div]
  omega

/-- The levels of a list, bottom up, cover each other; the top one is a single block. -/
def Linked : List LayerDetails → Prop
  | [] => True
  | [top] => top.dataBlocks ≤ 128
  | details :: above :: rest =>
    details.dataBlocks ≤ above.dataBlocks * 128 ∧ Linked (above :: rest)

theorem Linked.of_append {lower upper : List LayerDetails} (h : Linked (lower ++ upper)) :
    Linked upper := by
  induction lower with
  | nil => exact h
  | cons details lower ih =>
    refine ih ?_
    rcases hl : lower ++ upper with _ | ⟨above, rest⟩
    · trivial
    · rw [List.cons_append, hl] at h
      exact h.2

/-- The level list of the code has the sizes of the specification, and is linked. -/
theorem layerDetails_spec {levels n : Nat} (hlevels : n ≤ 128 ^ levels) (hpos : 0 < levels)
    (hn : n + 127 < 2 ^ 64) :
    (layerDetails 128 levels n).map (·.hashBlocks) = levelSizes n ∧
    Linked (layerDetails 128 levels n) ∧
    ∃ above, layerDetails 128 levels n = ⟨n ⌈/⌉ 128, n⟩ :: above := by
  induction levels generalizing n with
  | zero => omega
  | succ levels ih =>
    rw [layerDetails_succ, divRoundUp_eq_ceilDiv hn, levelSizes]
    have hle := ceilDiv_le_self n
    have hceil : n ≤ n ⌈/⌉ 128 * 128 := by
      rw [Nat.ceilDiv_eq_add_pred_div]
      omega
    split_ifs with hmore
    · have hnext : n ⌈/⌉ 128 ≤ 128 ^ levels := by
        rw [← divRoundUp_eq_ceilDiv hn]
        exact divRoundUp_le_of_le_mul (by decide) (by rwa [← Nat.pow_succ])
      have hlevels' : 0 < levels := by
        rcases levels with _ | levels
        · rw [Nat.pow_zero] at hnext
          omega
        · omega
      obtain ⟨hsizes, hlinked, above, habove⟩ := ih hnext hlevels' (by omega)
      refine ⟨by rw [List.map_cons, hsizes], ?_, _, rfl⟩
      rw [habove] at hlinked ⊢
      exact ⟨hceil, hlinked⟩
    · refine ⟨rfl, ?_, _, rfl⟩
      have htop : n ≤ 128 := by omega
      simpa only [Linked] using htop

/-! ## Paths -/

/-- The offsets of the hash blocks below the top level on the path of a block. -/
def lowerPath : List Nat → Nat → List Nat
  | offset :: above :: rest, index =>
    hashBlockOffset offset index :: lowerPath (above :: rest) (index / 128)
  | _, _ => []

/-- The path of a block is readable up to the top hash block, which is not. -/
def Faults (read : Nat → Option Bytes) : List Nat → Nat → Prop
  | [], _ => False
  | [top], _ => read top = none
  | offset :: above :: rest, index =>
    read (hashBlockOffset offset index) ≠ none ∧ Faults read (above :: rest) (index / 128)

theorem faults_levelOffsets_iff {read : Nat → Option Bytes} {hashesOffset : Nat} {sizes : List Nat}
    (hsizes : sizes ≠ []) {index : Nat} :
    Faults read (levelOffsets hashesOffset sizes) index ↔
      read (wrap64 (hashesOffset + 4096)) = none ∧
      ∀ offset ∈ lowerPath (levelOffsets hashesOffset sizes) index, read offset ≠ none := by
  induction sizes generalizing index with
  | nil => exact absurd rfl hsizes
  | cons size sizes ih =>
    rcases sizes with _ | ⟨size', sizes⟩
    · simp [levelOffsets, Faults, lowerPath]
    · have hrec := @ih (List.cons_ne_nil _ _) (index / 128)
      simp only [levelOffsets, Faults, lowerPath, List.forall_mem_cons] at hrec ⊢
      exact (and_congr_right fun _ => hrec).trans and_left_comm

/-! ## The step -/

/-- A layer object holds nothing but what a verifier without state would read and
accept: `offsets` are the levels from the layer up, `count` the blocks it covers. -/
inductive Refines (sha256 : Bytes → Sha256Digest) (fd : HashesFile) (salt : Bytes)
    (root : Sha256Digest) : List Nat → Nat → IHashTreeLayer → Prop
  | singleDataBlock {layer : SingleDataBlockLayer} : layer.rootHash = root →
      Refines sha256 fd salt root [] 1 (.singleDataBlock layer)
  | topMost {layer : TopMostHashTreeLayer} {offset : Nat} : layer.hashesPerBlock = 128 →
      layer.hashesCount ≤ 128 → offset < 2 ^ 64 → fd.block offset = layer.hashBlock →
      (∀ hashBlock ∈ layer.hashBlock, sha256 (salt ++ hashBlock) = root) →
      Refines sha256 fd salt root [offset] layer.hashesCount (.topMost layer)
  | hashTree {offset : Nat} {above : List Nat} {count : Nat} {layer : HashTreeLayer}
      {parent : IHashTreeLayer} : Refines sha256 fd salt root (offset :: above) count parent →
      layer.salt = salt → layer.hashBlockSize = 4096 → layer.hashesPerBlock = 128 →
      layer.hashesCount ≤ count * 128 →
      layer.verifiedHashBlocks.Sound (fun index hashBlock =>
        fd.block (layer.blockOffset index) = some hashBlock ∧ index < count ∧
        statelessPath sha256 fd.block salt root (offset :: above) index
          (sha256 (salt ++ hashBlock)) = true) →
      Refines sha256 fd salt root (layer.fileOffset :: offset :: above) layer.hashesCount
        (.hashTree layer parent)

theorem hashBlockOffset_of_lt {offset index : Nat} (hoffset : offset < 2 ^ 64)
    (hindex : index < 128) :
    hashBlockOffset offset index = offset := by
  rw [hashBlockOffset, Nat.div_eq_of_lt hindex, Nat.zero_mul, Nat.add_zero, wrap64_of_lt hoffset]

/-- A path that faults is not accepted by the verifier without state. -/
theorem statelessPath_of_faults {salt : Bytes} {root : Sha256Digest} {offsets : List Nat}
    {count : Nat} {layer : IHashTreeLayer} (hR : Refines sha256 fd salt root offsets count layer)
    {block : Nat} (hblock : block < count) (hfaults : Faults fd.block offsets block)
    (digest : Sha256Digest) :
    statelessPath sha256 fd.block salt root offsets block digest = false := by
  induction hR generalizing block digest with
  | singleDataBlock => exact absurd hfaults id
  | topMost _ hcount hoffset _ _ =>
    have hnone : fd.block _ = none := hfaults
    simp only [statelessPath,
      hashBlockOffset_of_lt hoffset (Nat.lt_of_lt_of_le hblock hcount), hnone]
  | @hashTree offset above count layer parent _ _ _ _ hcount _ ih =>
    obtain ⟨hread, hfaults⟩ := hfaults
    obtain ⟨hashBlock, hsome⟩ := Option.ne_none_iff_exists'.mp hread
    rw [statelessPath, hsome]
    simp only [ih (Nat.div_lt_of_lt_mul (by omega)) hfaults, Bool.and_false]

/-- One call of a layer gives the result of the verifier without state and keeps
the relation, unless its path ends at an unreadable top block. -/
theorem verifyBlock_refines (hfile : fd.Unchanging) {salt : Bytes} {root : Sha256Digest}
    {offsets : List Nat} {count : Nat} {layer : IHashTreeLayer}
    (hR : Refines sha256 fd salt root offsets count layer) {block : Nat} (hblock : block < count)
    (digest : Sha256Digest) (io : Io) :
    (Faults fd.block offsets block →
      layer.verifyBlock sha256 fd block digest io = .error .nullPointer) ∧
    (¬ Faults fd.block offsets block → ∃ layer' io',
      layer.verifyBlock sha256 fd block digest io =
        .ok (statelessPath sha256 fd.block salt root offsets block digest, layer', io') ∧
      Refines sha256 fd salt root offsets count layer') := by
  induction hR generalizing block digest io with
  | @singleDataBlock layer hroot =>
    refine ⟨fun hf => absurd hf id, fun _ => ⟨_, io, ?_, .singleDataBlock hroot⟩⟩
    obtain rfl : block = 0 := by omega
    subst hroot
    simp [IHashTreeLayer.verifyBlock, SingleDataBlockLayer.verifyBlock, statelessPath, eq_comm]
  | @topMost layer offset hper hcount hoffset hread hdigest =>
    have hpath := hashBlockOffset_of_lt hoffset (Nat.lt_of_lt_of_le hblock hcount)
    constructor
    · intro hfaults
      have hnone : layer.hashBlock = none := hread.symm.trans hfaults
      simp only [IHashTreeLayer.verifyBlock, TopMostHashTreeLayer.verifyBlock,
        if_neg (Nat.not_le.mpr hblock), hnone]
    · intro hfaults
      have hsome : fd.block offset ≠ none := hfaults
      obtain ⟨hashBlock, hblockEq⟩ := Option.ne_none_iff_exists'.mp (hread ▸ hsome)
      refine ⟨_, io, ?_, .topMost hper hcount hoffset hread hdigest⟩
      simp only [IHashTreeLayer.verifyBlock, TopMostHashTreeLayer.verifyBlock,
        if_neg (Nat.not_le.mpr hblock), hblockEq, statelessPath, hpath, hread, hper,
        hdigest hashBlock hblockEq, decide_true, Bool.and_true]
  | @hashTree offset above count layer parent hparent hsalt hsize hper hcount hcache ih =>
    have hindex : block / 128 < count := Nat.div_lt_of_lt_mul (by omega)
    have hoffset : layer.blockOffset (block / 128) = hashBlockOffset layer.fileOffset block := by
      rw [HashTreeLayer.blockOffset, hsize, hashBlockOffset]
    rw [statelessPath, Faults]
    simp only [IHashTreeLayer.verifyBlock, if_neg (Nat.not_le.mpr hblock), hper, hsize, hsalt,
      hoffset]
    rcases hfind : layer.verifiedHashBlocks.find (block / 128) with _ | hashBlock
    · -- A miss: the block is read, and the parent decides about it.
      have hread := hfile.preadFull_eq (hashBlockOffset layer.fileOffset block) io
      rcases hpread : preadFull fd 4096 (hashBlockOffset layer.fileOffset block) io with
        ⟨_ | hashBlock, io₁⟩
      · rw [hpread] at hread
        simp only [← hread]
        exact ⟨fun hf => absurd rfl hf.1, fun _ =>
          ⟨_, io₁, rfl, .hashTree hparent hsalt hsize hper hcount hcache⟩⟩
      · rw [hpread] at hread
        simp only [← hread, sha256Digest]
        obtain ⟨hfault, hok⟩ := ih hindex (sha256 (salt ++ hashBlock))
          { io₁ with hashed := (salt ++ hashBlock) :: io₁.hashed }
        constructor
        · rintro ⟨-, hf⟩
          rw [hfault hf]
        · intro hf
          obtain ⟨parent', io', heq, hparent'⟩ := hok fun hf' => hf ⟨by simp, hf'⟩
          rw [heq]
          rcases hpath : statelessPath sha256 fd.block salt root (offset :: above) (block / 128)
            (sha256 (salt ++ hashBlock))
          · refine ⟨_, io', ?_, .hashTree hparent' hsalt hsize hper hcount hcache⟩
            simp only [Bool.and_false]
          · refine ⟨.hashTree (layer.store (block / 128) hashBlock) parent', io', ?_, ?_⟩
            · simp only [Bool.and_true]
            · show Refines sha256 fd salt root
                ((layer.store (block / 128) hashBlock).fileOffset :: offset :: above)
                (layer.store (block / 128) hashBlock).hashesCount _
              exact .hashTree hparent' hsalt hsize hper hcount
                (HashTreeLayer.store_sound hcache
                  ⟨(congrArg fd.block hoffset).trans hread.symm, hindex, hpath⟩)
    · -- A hit: the cached block was read and accepted before.
      obtain ⟨hread, hlt, hpath⟩ := hcache.find hfind
      rw [hoffset] at hread
      simp only [hread, hpath, Bool.and_true]
      refine ⟨fun hf => ?_, fun _ => ⟨_, io, rfl, .hashTree hparent hsalt hsize hper hcount hcache⟩⟩
      rw [statelessPath_of_faults hparent hlt hf.2] at hpath
      exact absurd hpath (by simp)

/-! ## Opened verifiers -/

/-- A new layer below a refined one is refined: its cache is empty. -/
theorem Refines.stack {salt : Bytes} {root : Sha256Digest} {offset : Nat} {above : List Nat}
    {count : Nat} {parent : IHashTreeLayer}
    (hparent : Refines sha256 fd salt root (offset :: above) count parent) (fileOffset : Nat)
    {hashesCount : Nat} (hcount : hashesCount ≤ count * 128) :
    Refines sha256 fd salt root (fileOffset :: offset :: above) hashesCount
      (.hashTree (.new fileOffset hashesCount 4096 salt) parent) := by
  show Refines sha256 fd salt root
    ((HashTreeLayer.new fileOffset hashesCount 4096 salt).fileOffset :: offset :: above)
    (HashTreeLayer.new fileOffset hashesCount 4096 salt).hashesCount _
  exact .hashTree hparent rfl rfl rfl hcount .empty

/-- Stacking the lower levels on a refined layer; `above` are the levels that are
already stacked, bottom up, the first of them at `layerOffset`. -/
theorem stackLayers_refines {salt : Bytes} {root : Sha256Digest} {hashesOffset : Nat}
    {layer : IHashTreeLayer} {details : LayerDetails} {above lower : List LayerDetails}
    (hR : Refines sha256 fd salt root
      (levelOffsets hashesOffset ((details :: above).map (·.hashBlocks))) details.dataBlocks layer)
    (hlinked : Linked (lower.reverse ++ details :: above)) :
    ∀ bottom ∈ (lower.reverse ++ details :: above).head?,
      Refines sha256 fd salt root
        (levelOffsets hashesOffset ((lower.reverse ++ details :: above).map (·.hashBlocks)))
        bottom.dataBlocks
        (stackLayers 4096 salt layer
          (wrap64 (hashesOffset + 4096 * (1 + (above.map (·.hashBlocks)).sum))) details lower) := by
  induction lower generalizing layer details above with
  | nil =>
    intro bottom hbottom
    cases hbottom
    exact hR
  | cons next lower ih =>
    have hassoc : (next :: lower).reverse ++ details :: above =
        lower.reverse ++ next :: details :: above := by simp
    have hoffset : wrap64 (wrap64 (hashesOffset + 4096 * (1 + (above.map (·.hashBlocks)).sum)) +
        details.hashBlocks * 4096) =
        wrap64 (hashesOffset + 4096 * (1 + ((details :: above).map (·.hashBlocks)).sum)) := by
      simp only [wrap64, List.map_cons, List.sum_cons, Nat.mod_add_mod]
      congr 1
      ring
    rw [hassoc] at hlinked ⊢
    rw [stackLayers, hoffset]
    exact ih (hR.stack _ hlinked.of_append.1) hlinked

/-- An opened verifier holds nothing but what the file does. -/
def DmVerityVerifier.RefinesFile (sha256 : Bytes → Sha256Digest) (fd : HashesFile)
    (v : DmVerityVerifier) : Prop :=
  ∃ layer, v.layer0 = some layer ∧ Refines sha256 fd v.salt v.rootHash
    (treeOffsets v.hashesOffset v.dataBlockCount) v.dataBlockCount layer

theorem Opened.add_lt {rootHash : Bytes} {v : DmVerityVerifier} {io : Io}
    (h : Opened sha256 fd rootHash v io) : v.dataBlockCount + 127 < 2 ^ 64 := by
  have hlt := h.dataBlockCount_lt
  have hle := h.dataSize_le
  unfold wrap64 at hle
  omega

theorem Opened.refinesFile (hfile : fd.Unchanging) {rootHash : Bytes}
    {v : DmVerityVerifier} {io : Io}
    (h : Opened sha256 fd rootHash v io) : v.RefinesFile sha256 fd := by
  cases h.layered with
  | single hone hlayer =>
    refine ⟨_, hlayer, ?_⟩
    rw [treeOffsets, if_pos hone, hone]
    exact .singleDataBlock rfl
  | @tree top lower topLayer io₁ hone hdetails hnew hroot hlayer =>
    refine ⟨_, hlayer, ?_⟩
    have hn := h.add_lt
    obtain ⟨hsizes, hlinked, above, habove⟩ :=
      @layerDetails_spec maxLevels v.dataBlockCount (by unfold maxLevels; omega) (by decide) hn
    have hlist : layerDetails 128 maxLevels v.dataBlockCount = lower.reverse ++ [top] := by
      rw [← List.reverse_reverse (layerDetails _ _ _), hdetails, List.reverse_cons]
    rw [treeOffsets, if_neg hone, ← hsizes]
    rw [hlist] at hlinked ⊢
    have htop : Refines sha256 fd v.salt v.rootHash (levelOffsets v.hashesOffset [top.hashBlocks])
        top.dataBlocks (.topMost topLayer) := by
      obtain ⟨hcount, hper, hread⟩ := TopMostHashTreeLayer.new_cases hnew
      rw [← hcount]
      refine .topMost hper ?_ (wrap64_lt _) ?_ ?_
      · rw [hcount]
        exact hlinked.of_append
      · rw [← hfile.preadFull_eq _ io₁]
        rcases hread with ⟨hread, hblock, -⟩ | ⟨bytes, io₂, hread, hblock, -⟩ <;>
          simp [hread, hblock]
      · rcases hread with ⟨-, hblock, -⟩ | ⟨bytes, io₂, -, hblock, hdigest, -⟩
        · simp [hblock]
        · intro hashBlock hmem
          rw [hblock] at hmem
          cases hmem
          rw [← hdigest, hroot]
    have hbottom : ⟨v.dataBlockCount ⌈/⌉ 128, v.dataBlockCount⟩ ∈
      (lower.reverse ++ [top]).head? := by
      rw [← hlist, habove]
      rfl
    have hstack := @stackLayers_refines sha256 fd v.salt v.rootHash v.hashesOffset
      (.topMost topLayer) top [] lower htop hlinked _ hbottom
    simpa only [List.map_nil, List.sum_nil, Nat.add_zero, Nat.mul_one] using hstack

/-- What the verifier without state says to a call of an opened verifier. -/
def DmVerityVerifier.stateless (sha256 : Bytes → Sha256Digest) (fd : HashesFile)
    (v : DmVerityVerifier) (call : Nat × Bytes) : Bool :=
  statelessVerify sha256 fd.block v.hashesOffset v.dataBlockCount v.salt v.rootHash call.1 call.2

/-- Some path ends at the unreadable top block. -/
def DmVerityVerifier.FaultsAt (fd : HashesFile) (v : DmVerityVerifier) (block : Nat) : Prop :=
  block < v.dataBlockCount ∧ Faults fd.block (treeOffsets v.hashesOffset v.dataBlockCount) block

/-- One `verify` call: the result without state, or the fault. -/
theorem verify_refines (hfile : fd.Unchanging) {v : DmVerityVerifier}
    (hv : v.RefinesFile sha256 fd) (block : Nat) (data : Bytes) (io : Io) :
    (v.FaultsAt fd block → v.verify sha256 fd block data io = .error .nullPointer) ∧
    (¬ v.FaultsAt fd block → ∃ layer0 io',
      v.verify sha256 fd block data io =
        .ok (v.stateless sha256 fd (block, data), { v with layer0 := layer0 }, io') ∧
      DmVerityVerifier.RefinesFile sha256 fd { v with layer0 := layer0 }) := by
  obtain ⟨layer, hlayer, hR⟩ := hv
  by_cases hblock : block < v.dataBlockCount
  · obtain ⟨hfault, hok⟩ := verifyBlock_refines hfile hR hblock (sha256 (v.salt ++ data))
      { io with hashed := (v.salt ++ data) :: io.hashed }
    constructor
    · rintro ⟨-, hf⟩
      simp only [DmVerityVerifier.verify, hlayer, if_neg (Nat.not_le.mpr hblock), sha256Digest,
        hfault hf]
    · intro hf
      obtain ⟨layer', io', heq, hR'⟩ := hok fun hf' => hf ⟨hblock, hf'⟩
      refine ⟨some layer', io', ?_, layer', rfl, hR'⟩
      simp only [DmVerityVerifier.verify, hlayer, if_neg (Nat.not_le.mpr hblock), sha256Digest, heq,
        DmVerityVerifier.stateless, statelessVerify, hblock, decide_true, Bool.true_and]
  · refine ⟨fun hf => absurd hf.1 hblock, fun _ => ⟨some layer, io, ?_, layer, rfl, hR⟩⟩
    cases v
    cases hlayer
    simp only [DmVerityVerifier.verify, if_pos (Nat.not_lt.mp hblock),
      DmVerityVerifier.stateless, statelessVerify, hblock, decide_false, Bool.false_and]

/-- A history of calls without a faulting path gives the results without state. -/
theorem verifyAll_refines (hfile : fd.Unchanging) {v : DmVerityVerifier}
    (hv : v.RefinesFile sha256 fd) (hfaults : ∀ block, ¬ v.FaultsAt fd block) (io : Io)
    (history : List (Nat × Bytes)) :
    ∃ layer0 io', v.verifyAll sha256 fd io history =
      .ok (history.map (v.stateless sha256 fd), { v with layer0 := layer0 }, io') ∧
      DmVerityVerifier.RefinesFile sha256 fd { v with layer0 := layer0 } := by
  induction history generalizing v io with
  | nil => exact ⟨v.layer0, io, rfl, hv⟩
  | cons call history ih =>
    obtain ⟨block, data⟩ := call
    obtain ⟨layer1, io₁, hcall, hv₁⟩ := (verify_refines hfile hv block data io).2 (hfaults block)
    obtain ⟨layer0, io', hrest, hv'⟩ := ih hv₁ hfaults io₁
    refine ⟨layer0, io', ?_, hv'⟩
    rw [DmVerityVerifier.verifyAll, hcall]
    simp only [hrest, List.map_cons]
    rfl

/-- On a file that does not change, every history of calls on an opened verifier
gives the results of the verifier without state exactly when there is no hash
block at all (a single data block), or the top hash block is readable, or every
path has an unreadable hash block below the top. -/
theorem verifyAll_eq_stateless_iff (hfile : fd.Unchanging) {rootHash : Bytes}
    {hashesOffset hashesSize : Option Nat} {v : DmVerityVerifier} {io₀ io : Io}
    (hopen : DmVerityVerifier.open sha256 fd rootHash hashesOffset hashesSize io₀ = (.ok v, io)) :
    (∀ history : List (Nat × Bytes), (∀ call ∈ history, call.2.length = 4096) →
      ∃ v' io', v.verifyAll sha256 fd io history =
        .ok (history.map (v.stateless sha256 fd), v', io')) ↔
    v.dataBlockCount = 1 ∨ fd.block (wrap64 (v.hashesOffset + 4096)) ≠ none ∨
      ∀ block < v.dataBlockCount,
        ∃ offset ∈ lowerPath (treeOffsets v.hashesOffset v.dataBlockCount) block,
          fd.block offset = none := by
  have hO := DmVerityVerifier.open_ok hopen
  have hv := hO.refinesFile hfile
  -- A faulting path is one call away from a fault; without one the run lemma applies.
  have hfaults : (∀ history : List (Nat × Bytes), (∀ call ∈ history, call.2.length = 4096) →
      ∃ v' io', v.verifyAll sha256 fd io history =
        .ok (history.map (v.stateless sha256 fd), v', io')) ↔ ∀ block, ¬ v.FaultsAt fd block := by
    constructor
    · intro hall block hf
      obtain ⟨v', io', heq⟩ := hall [(block, List.replicate 4096 0)]
        (by simp only [List.mem_singleton, forall_eq, List.length_replicate])
      rw [DmVerityVerifier.verifyAll, (verify_refines hfile hv block _ io).1 hf] at heq
      cases heq
    · intro hf history _
      obtain ⟨layer0, io', hrun, -⟩ := verifyAll_refines hfile hv hf io history
      exact ⟨_, io', hrun⟩
  rw [hfaults]
  by_cases hone : v.dataBlockCount = 1
  · simp only [hone, true_or, iff_true]
    rintro block ⟨-, hf⟩
    rw [treeOffsets, if_pos hone] at hf
    exact hf
  · have htree : treeOffsets v.hashesOffset v.dataBlockCount =
        levelOffsets v.hashesOffset (levelSizes v.dataBlockCount) := if_neg hone
    rw [or_iff_right hone]
    simp only [DmVerityVerifier.FaultsAt, htree, faults_levelOffsets_iff (levelSizes_ne_nil _)]
    constructor
    · intro h
      by_cases htop : fd.block (wrap64 (v.hashesOffset + 4096)) = none
      · refine .inr fun block hblock => ?_
        by_contra hall
        exact h block ⟨hblock, htop, fun offset hmem hnone => hall ⟨offset, hmem, hnone⟩⟩
      · exact .inl htop
    · rintro (htop | hlower) block ⟨hblock, hnone, hreadable⟩
      · exact htop hnone
      · obtain ⟨offset, hmem, hbad⟩ := hlower block hblock
        exact hreadable offset hmem hbad

/-! ## The exception -/

/-- The superblock of a tree over two blocks, without salt. -/
def twoBlocks : VeritySuperBlock := .formatted (List.replicate 16 0) 2 []

theorem twoBlocks_wellFormed : twoBlocks.WellFormed :=
  VeritySuperBlock.formatted_wellFormed List.length_replicate (by decide) (by decide)

/-- A hashes file for two data blocks whose second block, the top hash block,
cannot be read (`EIO`). -/
def unreadableTop : HashesFile where
  size := .ok 8192
  pread _ offset size := if offset = 0 ∧ size = 4096 then .data twoBlocks.block else .error 5

theorem unreadableTop_superBlock (io : Io) :
    preadFull unreadableTop 4096 0 io =
      (some twoBlocks.block, { io with reads := io.reads + 1 }) := by
  simp only [preadFull, unreadableTop, and_self, if_true,
    VeritySuperBlock.block_length twoBlocks_wellFormed]

theorem unreadableTop_topBlock (io : Io) :
    preadFull unreadableTop 4096 4096 io =
      (none, { io with reads := io.reads + 1, errno := 5 }) := by
  simp [preadFull, unreadableTop]

/-- With an all-zero root hash this file is opened, whatever the hash function. -/
theorem unreadableTop_opened (sha256 : Bytes → Sha256Digest) :
    ∃ v io, DmVerityVerifier.open sha256 unreadableTop Sha256Digest.zero.val none none .init =
      (.ok v, io) ∧ v.dataBlockCount = 2 ∧ v.hashesOffset = 0 := by
  have hnew : TopMostHashTreeLayer.new sha256 unreadableTop (wrap64 (0 + 4096)) 2 4096 []
      { Io.init with reads := Io.init.reads + 1 } =
      ({ hashesCount := 2, hashesPerBlock := 128, hashBlock := none, digest := .zero },
        { Io.init with reads := 2, errno := 5 }) := by
    rw [wrap64_of_lt (by decide), TopMostHashTreeLayer.new, Nat.zero_add, unreadableTop_topBlock]
    rfl
  have hopen := @DmVerityVerifier.open_eq_buildLayers sha256 unreadableTop .zero none none 8192
    twoBlocks.block .init _ twoBlocks rfl (by decide) (by decide) (unreadableTop_superBlock .init)
    (VeritySuperBlock.ofBytes_block twoBlocks_wellFormed)
    (VeritySuperBlock.formatted_supported (by decide)) (by decide) (by decide)
  rw [@DmVerityVerifier.buildLayers_eq sha256 unreadableTop _ _ _ ⟨1, 2⟩ [] _
    (by decide) (by decide)
    (by decide) hnew rfl] at hopen
  exact ⟨_, _, hopen, rfl, rfl⟩

/-- On this file, opened with an all-zero root hash, a call on the first block
does not give the result of the verifier without state. -/
theorem not_verifyAll_eq_stateless :
    ¬ ∀ (sha256 : Bytes → Sha256Digest) (fd : HashesFile) (rootHash : Bytes)
        (hashesOffset hashesSize : Option Nat) (v : DmVerityVerifier) (io : Io), fd.Unchanging →
      DmVerityVerifier.open sha256 fd rootHash hashesOffset hashesSize .init = (.ok v, io) →
      ∀ history : List (Nat × Bytes), (∀ call ∈ history, call.2.length = 4096) →
        ∃ v' io', v.verifyAll sha256 fd io history =
          .ok (history.map (v.stateless sha256 fd), v', io') := by
  intro h
  have hfile : unreadableTop.Unchanging := fun _ _ _ _ => rfl
  obtain ⟨v, io, hopen, hcount, hoffset⟩ := unreadableTop_opened fun _ => .zero
  have hO := DmVerityVerifier.open_ok hopen
  have hfault : v.FaultsAt unreadableTop 0 := by
    have hsizes : levelSizes 2 = [1] := by
      rw [levelSizes]
      rfl
    refine ⟨by omega, ?_⟩
    rw [treeOffsets, hcount, if_neg (by decide), hsizes, hoffset]
    show (preadFull unreadableTop 4096 4096 .init).1 = none
    rw [unreadableTop_topBlock]
  obtain ⟨v', io', hrun⟩ := h _ _ _ _ _ v io hfile hopen [(0, List.replicate 4096 0)]
    (by simp only [List.mem_singleton, forall_eq, List.length_replicate])
  rw [DmVerityVerifier.verifyAll,
    (verify_refines hfile (hO.refinesFile hfile) _ _ io).1 hfault] at hrun
  cases hrun

theorem verifyAll_eq_stateless_iff_unreadableTop :
    ∃ v io, DmVerityVerifier.open (fun _ => .zero) unreadableTop Sha256Digest.zero.val none none
      .init = (.ok v, io) ∧
    ((∀ history : List (Nat × Bytes), (∀ call ∈ history, call.2.length = 4096) →
      ∃ v' io', v.verifyAll (fun _ => .zero) unreadableTop io history =
        .ok (history.map (v.stateless (fun _ => .zero) unreadableTop), v', io')) ↔
    v.dataBlockCount = 1 ∨ unreadableTop.block (wrap64 (v.hashesOffset + 4096)) ≠ none ∨
      ∀ block < v.dataBlockCount,
        ∃ offset ∈ lowerPath (treeOffsets v.hashesOffset v.dataBlockCount) block,
          unreadableTop.block offset = none) := by
  obtain ⟨v, io, hopen, -⟩ := unreadableTop_opened fun _ => .zero
  exact ⟨v, io, hopen, verifyAll_eq_stateless_iff (fun _ _ _ _ => rfl) hopen⟩

end DmVerity
