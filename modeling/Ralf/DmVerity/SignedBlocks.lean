import Ralf.DmVerity.Binding
import Ralf.DmVerity.LiveRead

/-!
# Blocks that were signed

A root hash is signed for one image. `source` is the storage that an image is read from, with the
verifier that was opened with the root hash. The storage is not trusted: what it gives can depend on
everything that was read before. `source_trusted` says that each block that the verifier accepts is
the one of the image, unless two different strings with one digest have been hashed.
-/

namespace DmVerity

open AuthTree

variable {sha256 : Bytes → Sha256Digest} {salt : Bytes}

/-! ## The tree of an image -/

/-- The strings that are hashed when the tree is built. -/
def treeStrings (sha256 : Bytes → Sha256Digest) (salt : Bytes) (blocks : List Bytes) : Set Bytes :=
  {string | ∃ block ∈ blocks ++ (hashLevels sha256 salt blocks).flatten, string = salt ++ block}

/-- Every block of the image is authentic under the root of its tree. -/
theorem authentic_of_tree {blocks : List Bytes} (hlen : ∀ block ∈ blocks, block.length = 4096)
    {index : Nat} (hindex : index < blocks.length) :
    Authentic (hashing sha256 salt) (treeStrings sha256 salt blocks) (treeRoot sha256 salt blocks)
      128 (hashLevels sha256 salt blocks).length index blocks[index] := by
  induction hcount : blocks.length using Nat.strong_induction_on generalizing blocks index with
  | _ n ih =>
    subst hcount
    have hblock := hlen _ (List.getElem_mem hindex)
    have hstring : salt ++ blocks[index] ∈ treeStrings sha256 salt blocks :=
      ⟨_, List.mem_append_left _ (List.getElem_mem hindex), rfl⟩
    by_cases hmore : 1 < blocks.length
    · have hparent : index / 128 < (hashLevel sha256 salt blocks).length := by
        rw [hashLevel_length, Nat.ceilDiv_eq_add_pred_div]
        omega
      have hlevels : hashLevels sha256 salt blocks =
          hashLevel sha256 salt blocks :: hashLevels sha256 salt (hashLevel sha256 salt blocks) := by
        rw [hashLevels, if_pos hmore]
      have hroot : treeRoot sha256 salt blocks =
          treeRoot sha256 salt (hashLevel sha256 salt blocks) := by
        rw [treeRoot, if_pos hmore]
      have habove := ih _ (hashLevel_length_lt sha256 salt hmore) hashLevel_block_length hparent rfl
      have hsub : treeStrings sha256 salt (hashLevel sha256 salt blocks) ⊆
          treeStrings sha256 salt blocks := by
        rintro _ ⟨block, hmem, rfl⟩
        refine ⟨block, List.mem_append_right _ ?_, rfl⟩
        rwa [hlevels, List.flatten_cons]
      rw [hroot, hlevels, List.length_cons]
      refine .child (habove.mono hsub) hblock hstring ?_
      exact slot_of_slotMatches (slotMatches_hashLevel hindex hparent)
    · obtain ⟨block, rfl⟩ : ∃ block, blocks = [block] :=
        List.length_eq_one_iff.mp (by omega)
      obtain rfl : index = 0 := by simpa using hindex
      rw [hashLevels, if_neg hmore, treeRoot, if_neg hmore]
      exact .top hblock hstring rfl

theorem treeDepth_eq {blocks : List Bytes} (hpos : 0 < blocks.length)
    (hlt : blocks.length + 127 < 2 ^ 64) :
    treeDepth blocks.length = (hashLevels sha256 salt blocks).length := by
  unfold treeDepth
  split
  · next hone =>
    rw [hashLevels, if_neg (by omega)]
    rfl
  · have hsizes := (@layerDetails_spec maxLevels blocks.length (by unfold maxLevels; omega)
      (by decide) hlt).1
    rw [← List.length_map (·.hashBlocks), hsizes, ← hashLevels_sizes (by omega), List.length_map]

/-! ## Opened verifiers -/

/-- A verifier that was opened with a root hash that is not zero has read its top block. -/
theorem Opened.topBlockRead {fd : HashesFile} {rootHash : Bytes} {v : DmVerityVerifier} {io : Io}
    (h : Opened sha256 fd rootHash v io) (hroot : v.rootHash ≠ .zero) : v.topBlockRead := by
  intro layer hlayer
  cases h.layered with
  | single hone hsingle =>
    cases hsingle.symm.trans hlayer
    trivial
  | tree hone hdetails hnew hdigest htree =>
    cases htree.symm.trans hlayer
    refine stackLayers_topBlockRead.mpr ?_
    obtain ⟨-, -, ⟨-, -, hzero⟩ | ⟨bytes, io₂, -, hblock, -⟩⟩ :=
      TopMostHashTreeLayer.new_cases hnew
    · exact absurd (hdigest.symm.trans hzero) hroot
    · show _ ≠ none
      rw [hblock]
      exact Option.some_ne_none bytes

/-- A layer that keeps the invariant has no fault. -/
theorem Verified.no_fault {root : Sha256Digest} {log : Set Bytes} {depth block : Nat}
    {layer : IHashTreeLayer} (hv : Verified sha256 salt root log depth layer) {fd : HashesFile}
    (digest : Sha256Digest) (io : Io) (fault : Fault) :
    layer.verifyBlock sha256 fd block digest io ≠ .error fault := by
  induction hv generalizing block digest io with
  | singleDataBlock =>
    intro h
    cases h
  | topMost hper hblock hauth =>
    simp only [IHashTreeLayer.verifyBlock, TopMostHashTreeLayer.verifyBlock, hblock]
    split
    · next heq =>
      split at heq
      · cases heq
      · cases heq
    · intro h
      cases h
  | @hashTree depth layer parent hparent hsalt hsize hper hcache ih =>
    rw [IHashTreeLayer.verifyBlock]
    split
    · intro h
      cases h
    dsimp only
    split
    · intro h
      cases h
    split
    · intro h
      cases h
    · split
      · next hrec =>
        intro heq
        cases heq
        exact ih _ _ hrec
      · intro h
        cases h
      · intro h
        cases h

/-- A verifier that keeps the invariant has no fault. -/
theorem verify_ok {root : Sha256Digest} {depth : Nat} {v : DmVerityVerifier} {io : Io}
    (hv : v.Bound sha256 root depth io) (fd : HashesFile) (block : Nat) (data : Bytes) :
    ∃ result v' io', v.verify sha256 fd block data io = .ok (result, v', io') ∧
      v'.dataBlockCount = v.dataBlockCount ∧ io.log ⊆ io'.log ∧
      (result = true → block < v.dataBlockCount) := by
  obtain ⟨layer, hlayer, hverified⟩ := hv
  simp only [DmVerityVerifier.verify, hlayer]
  split
  · exact ⟨false, v, io, rfl, rfl, subset_rfl, fun hok => absurd hok Bool.false_ne_true⟩
  · next hblock =>
    have hsub : io.log ⊆ (sha256Digest sha256 data v.salt io).2.log :=
      fun _ hx => List.mem_cons_of_mem _ hx
    split
    · next hrec => exact absurd hrec ((hverified.mono hsub).no_fault _ _ _)
    · next hrec =>
      exact ⟨_, _, _, rfl, rfl, hsub.trans (verifyBlock_spec (hverified.mono hsub) hrec).1,
        fun _ => Nat.not_le.mp hblock⟩

/-! ## Storage -/

/-- Storage with a data file and a hashes file. What it gives can be another thing each time: `pread
time offset size` is the answer to a read of the data file that is made after `time` others. -/
structure Storage where
  pread : Nat → Nat → Nat → ReadResult
  pread_le : ∀ time offset size bytes, pread time offset size = .data bytes → bytes.length ≤ size
  hashes : HashesFile

/-- The verifier, what it changed in the world, and the number of reads of the data file. -/
structure LiveState where
  verifier : DmVerityVerifier
  io : Io
  reads : Nat

/-- The storage with a verifier of it. A `verify` that faults gives nothing; `verify_ok` says that
there is none. -/
def Storage.source (sha256 : Bytes → Sha256Digest) (storage : Storage) : BlockSource LiveState where
  pread w offset size := (storage.pread w.reads offset size, { w with reads := w.reads + 1 })
  verify w n data :=
    match w.verifier.verify sha256 storage.hashes n data w.io with
    | .error _ => (false, w)
    | .ok (result, verifier, io) => (result, { w with verifier := verifier, io := io })
  pread_le w := storage.pread_le w.reads

theorem BlockSource.fetch_error {ω : Type} {src : BlockSource ω} {base n errno : Nat} {w w' : ω}
    (hread : src.pread w (wrap64 (base + n * kBlockSize)) kBlockSize = (.error errno, w')) :
    src.fetch base n w = (none, w') := by
  rw [fetch, hread]

theorem BlockSource.fetch_data {ω : Type} {src : BlockSource ω} {base n : Nat} {bytes : Bytes}
    {w w' : ω}
    (hread : src.pread w (wrap64 (base + n * kBlockSize)) kBlockSize = (.data bytes, w')) :
    src.fetch base n w =
      if bytes.length ≠ kBlockSize then (none, w')
      else (if (src.verify w' n bytes).1 then some bytes else none, (src.verify w' n bytes).2) := by
  rw [fetch, hread]

section
variable {storage : Storage} {root : Sha256Digest} {depth count base : Nat} {w : LiveState}

/-- The invariant of the verifier, for a tree over `count` blocks. -/
structure LiveState.Bound (sha256 : Bytes → Sha256Digest) (root : Sha256Digest)
    (depth count : Nat) (w : LiveState) : Prop where
  verifier : w.verifier.Bound sha256 root depth w.io
  count_eq : w.verifier.dataBlockCount = count

/-- One block: the invariant is kept, what was hashed stays in the log, and a block that is accepted
is authentic. -/
theorem fetch_spec (hw : w.Bound sha256 root depth count) (n : Nat) :
    ((storage.source sha256).fetch base n w).2.Bound sha256 root depth count ∧
      w.io.log ⊆ ((storage.source sha256).fetch base n w).2.io.log ∧
      ∀ bytes, ((storage.source sha256).fetch base n w).1 = some bytes → n < count ∧
        Authentic (hashing sha256 w.verifier.salt)
          ((storage.source sha256).fetch base n w).2.io.log root 128 depth n bytes := by
  have hread : (storage.source sha256).pread w (wrap64 (base + n * kBlockSize)) kBlockSize =
      (storage.pread w.reads (wrap64 (base + n * kBlockSize)) kBlockSize,
        { w with reads := w.reads + 1 }) := rfl
  cases hresult : storage.pread w.reads (wrap64 (base + n * kBlockSize)) kBlockSize with
  | error errno =>
    rw [hresult] at hread
    rw [BlockSource.fetch_error hread]
    exact ⟨⟨hw.verifier, hw.count_eq⟩, subset_rfl, nofun⟩
  | data bytes =>
    rw [hresult] at hread
    rw [BlockSource.fetch_data hread]
    by_cases hlen : bytes.length = kBlockSize
    · obtain ⟨result, v', io', hverify, hcount, hlog, hlt⟩ :=
        verify_ok hw.verifier storage.hashes n bytes
      obtain ⟨hbound, -, hauth⟩ := verify_spec hw.verifier hverify
      have hcall : (storage.source sha256).verify { w with reads := w.reads + 1 } n bytes =
          (result, ⟨v', io', w.reads + 1⟩) := by
        simp only [Storage.source, hverify]
      rw [if_neg (not_not.mpr hlen), hcall]
      refine ⟨⟨hbound, hcount.trans hw.count_eq⟩, hlog, fun bytes' hbytes => ?_⟩
      cases result with
      | false => cases hbytes
      | true =>
        cases hbytes
        exact ⟨hw.count_eq ▸ hlt rfl, hauth rfl hlen⟩
    · rw [if_pos hlen]
      exact ⟨⟨hw.verifier, hw.count_eq⟩, subset_rfl, nofun⟩

/-- No two different strings with one digest were hashed, neither here nor when the tree was
built. -/
def LiveState.CollisionFree (sha256 : Bytes → Sha256Digest) (salt : Bytes) (blocks : List Bytes)
    (w : LiveState) : Prop :=
  ¬ Collision sha256 (w.io.log ∪ treeStrings sha256 salt blocks)

/-- With a verifier for the tree of an image, the blocks that are accepted are those of the image,
as long as no collision is hashed. -/
theorem source_trusted {blocks : List Bytes} (hlen : ∀ block ∈ blocks, block.length = 4096)
    (hlt : blocks.length + 127 < 2 ^ 64) :
    Trusted (storage.source sha256) base
      (LiveState.Bound sha256 (treeRoot sha256 salt blocks) (treeDepth blocks.length)
        blocks.length)
      (LiveState.CollisionFree sha256 salt blocks) blocks.flatten where
  keeps hw := (fetch_spec hw _).1
  before hw hfree hcollision :=
    hfree (hcollision.mono (Set.union_subset_union_left _ (fetch_spec hw _).2.1))
  block_eq hw hfree hfetch := by
    obtain ⟨hindex, hauth⟩ := (fetch_spec hw _).2.2 _ hfetch
    rw [treeDepth_eq (Nat.zero_lt_of_lt hindex) hlt] at hauth
    rcases authentic_binding (hashing_compatible _ _) hauth (authentic_of_tree hlen hindex) with
      rfl | hcollision
    · exact (Bytes.slice_flatten hlen hindex).symm
    · exact absurd hcollision hfree

end

/-! ## Protected files -/

/-- A file with the blocks of an image. -/
def signedFile (blocks : List Bytes) (hlt : blocks.flatten.length < 2 ^ 63) : DataFile where
  contents := blocks.flatten
  length_lt := hlt
  pread offset size := .data (Bytes.slice blocks.flatten offset size)
  pread_prefix := by
    rintro offset size bytes ⟨⟩
    exact List.prefix_rfl

theorem DmVerityVerifier.open_dataBlockSize {fd : HashesFile} {rootHash : Bytes}
    {hashesOffset hashesSize : Option Nat} {v : DmVerityVerifier} {io io' : Io}
    (h : «open» sha256 fd rootHash hashesOffset hashesSize io = (.ok v, io')) :
    v.dataBlockSize = 4096 := by
  obtain ⟨_, _, _, _, -, -, -, -, -, -, hbuild⟩ := open_inv h
  rw [(buildLayers_ok rfl rfl hbuild).1]
  rfl

/-- What opening a protected file checks, and how the reader starts. -/
theorem LiveFile.open_ok {length : Nat} {dataFileOffset dataFileSize : Option Nat}
    {v : DmVerityVerifier} {directIo : Bool}
    {memory : { bytes : Bytes // bytes.length = kBlockSize }} {f : LiveFile}
    (h : «open» length dataFileOffset dataFileSize (.ok v) directIo memory = .ok f) :
    f.fileSize ≤ wrap64 (v.dataBlockCount * kBlockSize) ∧ f.blockBufferNumber = sizeMax := by
  unfold «open» at h
  split at h
  · cases h
  · dsimp only at h
    split_ifs at h with hblock hcovers
    cases h
    rw [not_not.mp hblock] at hcovers
    exact ⟨Nat.not_lt.mp hcovers, rfl⟩

theorem LiveFile.open_size_lt {length : Nat} {dataFileOffset dataFileSize : Option Nat}
    {v : DmVerityVerifier} {directIo : Bool}
    {memory : { bytes : Bytes // bytes.length = kBlockSize }} {f : LiveFile}
    (h : «open» length dataFileOffset dataFileSize (.ok v) directIo memory = .ok f) :
    f.fileSize < 2 ^ 64 :=
  (open_ok h).1.trans_lt (wrap64_lt _)

/-- A verifier and a protected file that were opened on storage with the root hash of an image, for
as many blocks as the image has. -/
structure OpenedOn (sha256 : Bytes → Sha256Digest) (salt : Bytes) (blocks : List Bytes)
    (storage : Storage) (f : LiveFile) (w : LiveState) : Prop where
  block_length : ∀ block ∈ blocks, block.length = 4096
  length_lt : blocks.flatten.length < 2 ^ 63
  root_ne : treeRoot sha256 salt blocks ≠ .zero
  verifier : ∃ hashesOffset hashesSize, DmVerityVerifier.open sha256 storage.hashes
    (treeRoot sha256 salt blocks).val hashesOffset hashesSize .init = (.ok w.verifier, w.io)
  count_eq : w.verifier.dataBlockCount = blocks.length
  file : ∃ length dataFileOffset dataFileSize directIo memory,
    LiveFile.open length dataFileOffset dataFileSize (.ok w.verifier) directIo memory = .ok f

namespace OpenedOn

variable {blocks : List Bytes} {storage : Storage} {f : LiveFile} {w : LiveState}

theorem size_lt (h : OpenedOn sha256 salt blocks storage f w) : f.fileSize < 2 ^ 64 := by
  obtain ⟨_, _, _, _, _, hfile⟩ := h.file
  exact LiveFile.open_size_lt hfile

/-- Two different strings have one digest, among those that are hashed by the opening, by these
reads and by building the tree of the image. -/
def Collides (_ : OpenedOn sha256 salt blocks storage f w) (reads : List (Bytes × Nat)) : Prop :=
  Collision sha256
    ((f.after (storage.source sha256) reads w).2.io.log ∪ treeStrings sha256 salt blocks)

theorem bound (h : OpenedOn sha256 salt blocks storage f w) :
    w.Bound sha256 (treeRoot sha256 salt blocks) (treeDepth blocks.length) blocks.length := by
  obtain ⟨hashesOffset, hashesSize, hverifier⟩ := h.verifier
  have hopen := DmVerityVerifier.open_ok hverifier
  have hroot : w.verifier.rootHash = treeRoot sha256 salt blocks := Subtype.ext hopen.rootHash
  have hbound := hopen.bound (hopen.topBlockRead (hroot ▸ h.root_ne))
  rw [hroot, h.count_eq] at hbound
  exact ⟨hbound, h.count_eq⟩

theorem trusted (h : OpenedOn sha256 salt blocks storage f w) :
    Trusted (storage.source sha256) f.fileOffset
      (LiveState.Bound sha256 (treeRoot sha256 salt blocks) (treeDepth blocks.length)
        blocks.length)
      (LiveState.CollisionFree sha256 salt blocks) blocks.flatten := by
  obtain ⟨hashesOffset, hashesSize, hverifier⟩ := h.verifier
  exact source_trusted h.block_length (h.count_eq ▸ (DmVerityVerifier.open_ok hverifier).add_lt)

/-- The protected file lies in the image, and its block buffer is empty. -/
theorem sound (h : OpenedOn sha256 salt blocks storage f w) :
    LiveFile.Sound (signedFile blocks h.length_lt) f.fileOffset f.fileSize f ∧
      f.fileSize ≤ blocks.flatten.length := by
  obtain ⟨_, _, _, _, _, hfile⟩ := h.file
  obtain ⟨hcovers, hempty⟩ := LiveFile.open_ok hfile
  refine ⟨⟨rfl, rfl, .inl hempty⟩, ?_⟩
  rw [Bytes.length_flatten h.block_length, ← h.count_eq]
  exact hcovers.trans (wrap64_le _)

end OpenedOn

/-- Whatever the storage gives, every read of a sequence that succeeds gives bytes of the image
whose root hash the protected file was opened with, or these reads hash a collision. -/
theorem protected_reads {blocks : List Bytes} {storage : Storage} {f : LiveFile} {w : LiveState}
    (h : OpenedOn sha256 salt blocks storage f w) (reads : List (Bytes × Nat)) :
    h.Collides reads ∨ List.Forall₂
      (fun read result => result.1 = true →
        result.2 = Bytes.slice blocks.flatten read.2 read.1.length)
      reads (f.readAll (storage.source sha256) reads w) := by
  by_cases hfree : h.Collides reads
  · exact .inl hfree
  · obtain ⟨hsound, hcovers⟩ := h.sound
    exact .inr (LiveFile.readAll_trusted h.trusted hcovers reads hsound h.bound hfree).2

/-! ### An image of two blocks -/

theorem treeRoot_eq_hash (sha256 : Bytes → Sha256Digest) (salt : Bytes) (blocks : List Bytes) :
    ∃ bytes, treeRoot sha256 salt blocks = sha256 bytes := by
  fun_induction treeRoot sha256 salt blocks with
  | case1 blocks hmore ih => exact ih
  | case2 blocks hone => exact ⟨_, rfl⟩

/-- A read of a part of the first block loads this block. -/
theorem LiveFile.read_first {ω : Type} {src : BlockSource ω} {f : LiveFile} {buffer block : Bytes}
    {w w' : ω} (hempty : f.blockBufferNumber = sizeMax) (hdirect : f.directIo = false)
    (hpos : 0 < buffer.length) (hlt : buffer.length < kBlockSize) (hfits : buffer.length ≤ f.fileSize)
    (hread : f.readAndVerifyBlock src 0 f.blockBuffer 0 w = (true, block, w')) :
    ∃ f', f.read src buffer buffer.length 0 w =
      (true, block.slice 0 buffer.length, f', w') := by
  have hloaded : (f.loadBlock src 0 w).1 = true ∧ (f.loadBlock src 0 w).2.2 = w' ∧
      (f.loadBlock src 0 w).2.1.blockBuffer = block := by
    unfold loadBlock
    rw [if_neg (by rw [hempty]; decide)]
    exact ⟨congrArg Prod.fst hread, congrArg (·.2.2) hread, congrArg (·.2.1) hread⟩
  rcases hload : f.loadBlock src 0 w with ⟨ok, f', w₁⟩
  rw [hload] at hloaded
  obtain ⟨rfl, rfl, rfl⟩ := hloaded
  refine ⟨f', ?_⟩
  have hblocks : f.readBlocks src buffer 0 buffer.length 0 w =
      (true, buffer, (0, buffer.length, 0), w) := by
    rw [readBlocks, if_neg (Nat.not_le.mpr hlt)]
  have hpart : f.readPartialBlock src buffer 0 0 0 buffer.length w =
      (true, f'.blockBuffer.slice 0 buffer.length, f', w₁) := by
    have hlength : (f'.blockBuffer.slice 0 buffer.length).length = buffer.length :=
      Bytes.slice_length (by rw [f'.blockBuffer_length]; omega)
    rw [readPartialBlock, if_neg (by unfold kBlockSize at *; omega), hload]
    dsimp only
    rw [Bytes.overwrite_whole hlength]
  have hbody : f.readBody src buffer 0 buffer.length 0 w =
      (true, f'.blockBuffer.slice 0 buffer.length, f', w₁) := by
    rw [readBody, hblocks]
    exact (if_pos hpos).trans hpart
  rw [read, if_neg (by omega), hdirect]
  exact hbody

/-- Storage where every second read of the data gives other bytes than those of an image. -/
def changingStorage {blocks : List Bytes}
    (area : Embedded prefixHash [] (List.replicate 16 0) blocks [] [] none none) : Storage where
  pread time offset size :=
    .data <| Bytes.slice
      (if time % 2 = 0 then blocks.flatten else List.replicate 8192 2) offset size
  pread_le _ _ _ _ h := by
    cases h
    exact Bytes.slice_length_le _ _ _
  hashes := area.file

theorem changingStorage_opened {blocks : List Bytes}
    (area : Embedded prefixHash [] (List.replicate 16 0) blocks [] [] none none)
    (hblocks : ∀ block ∈ blocks, block.length = 4096) (hcount : blocks.length = 2) :
    ∃ f w, OpenedOn prefixHash [] blocks (changingStorage area) f w ∧
      ∀ buffer : Bytes, 0 < buffer.length → buffer.length < 4096 →
        (f.read ((changingStorage area).source prefixHash) buffer buffer.length 0 w).1 = true ∧
        (f.read ((changingStorage area).source prefixHash) buffer buffer.length 0 w).2.1 =
          Bytes.slice blocks.flatten 0 buffer.length := by
  obtain ⟨v, io, hopen, hdata, -, haccepts⟩ := area.accepts .init
  obtain ⟨bytes, hroot⟩ := treeRoot_eq_hash prefixHash [] blocks
  have hlength : blocks.flatten.length = 8192 := by
    rw [Bytes.length_flatten hblocks, hcount]
  have hopened : LiveFile.open 8192 none none (.ok v) false
      ⟨List.replicate 4096 0, List.length_replicate⟩ =
      .ok ⟨0, 8192, false, List.replicate 4096 0, List.length_replicate, sizeMax⟩ := by
    have hrange : checkAndCalcFileRange 8192 none none = .ok (0, 8192) := rfl
    have hcovers : ¬ 8192 > wrap64 (v.dataBlockCount * 4096) := by
      rw [hdata, hcount]
      decide
    rw [LiveFile.open, hrange]
    dsimp only
    rw [DmVerityVerifier.open_dataBlockSize hopen, if_neg (by decide), if_neg hcovers]
  refine ⟨_, ⟨v, io, 0⟩, ⟨hblocks, hlength ▸ by decide, hroot ▸ prefixHash_ne_zero bytes,
    ⟨none, none, hopen⟩, hdata, ⟨8192, none, none, false, _, hopened⟩⟩, fun buffer hpos hlt => ?_⟩
  have hfirst : 0 < blocks.length := by omega
  obtain ⟨results, v₁, io₁, hrun, hverify⟩ := haccepts []
  cases hrun
  obtain ⟨v₂, io₂, hverify⟩ := hverify 0 hfirst
  have hblock : Bytes.slice blocks.flatten 0 4096 = blocks[0] :=
    (Bytes.slice_flatten hblocks hfirst).trans rfl
  have hblockLength : blocks[0].length = kBlockSize := hblocks _ (List.getElem_mem hfirst)
  generalize hf : (⟨0, 8192, false, List.replicate 4096 0, List.length_replicate, sizeMax⟩ : LiveFile) =
    f
  have hloaded : f.readAndVerifyBlock ((changingStorage area).source prefixHash) 0 f.blockBuffer 0
      ⟨v, io, 0⟩ = (true, blocks[0], ⟨v₂, io₂, 1⟩) := by
    subst hf
    have hdata : ((changingStorage area).source prefixHash).pread ⟨v, io, 0⟩ (wrap64 (0 + 0 * kBlockSize))
        kBlockSize = (.data blocks[0], ⟨v, io, 1⟩) := by
      rw [← hblock]
      rfl
    have hcall : ((changingStorage area).source prefixHash).verify ⟨v, io, 1⟩ 0 blocks[0] =
        (true, ⟨v₂, io₂, 1⟩) := by
      simp only [Storage.source, changingStorage, hverify]
    have hwhole : Bytes.overwrite (List.replicate 4096 0) 0 blocks[0] = blocks[0] :=
      Bytes.overwrite_whole (hblockLength.trans List.length_replicate.symm)
    have hself : blocks[0].slice 0 kBlockSize = blocks[0] := by
      rw [← hblockLength]
      exact Bytes.slice_zero_self _
    rw [LiveFile.readAndVerifyBlock, hdata]
    dsimp only
    rw [hwhole, if_neg (not_not.mpr hblockLength), hself]
    have hok := congrArg Prod.fst hcall
    have hstate := congrArg Prod.snd hcall
    exact Prod.ext hok (Prod.ext rfl hstate)
  subst hf
  obtain ⟨f', hread⟩ := LiveFile.read_first rfl rfl hpos hlt (by dsimp only; omega) hloaded
  rw [hread]
  refine ⟨rfl, ?_⟩
  rw [← hblock]
  exact Bytes.slice_slice (by omega)

theorem twoDataBlocks_block_length : ∀ block ∈ twoDataBlocks, block.length = 4096 := by
  intro block hmem
  rw [twoDataBlocks, List.mem_cons, List.mem_singleton] at hmem
  obtain rfl | rfl := hmem
  · exact List.length_replicate
  · exact List.length_replicate

/-- Two reads, the first over both blocks. -/
def twoReads : List (Bytes × Nat) := [(List.replicate 4 0, 4094), (List.replicate 2 0, 0)]

/-- Reads of this storage. -/
theorem protected_reads_changing : ∃ f w, ∃ h : OpenedOn prefixHash [] twoDataBlocks
    (changingStorage (twoDataBlocks_area prefixHash)) f w, h.Collides twoReads ∨ List.Forall₂
      (fun read result => result.1 = true →
        result.2 = Bytes.slice twoDataBlocks.flatten read.2 read.1.length)
      twoReads
        (f.readAll ((changingStorage (twoDataBlocks_area prefixHash)).source prefixHash) twoReads
          w) := by
  obtain ⟨f, w, h, -⟩ := changingStorage_opened (twoDataBlocks_area prefixHash)
    twoDataBlocks_block_length rfl
  exact ⟨f, w, h, protected_reads h twoReads⟩

end DmVerity
