import Ralf.DmVerity.Stateless

/-!
# The range of the hashes

`open` compares sizes that are 64-bit products. A superblock with `127 * 2 ^ 52` data blocks passes
both checks with a range of two blocks: the product of the data size is a multiple of `2 ^ 64`, and
so is nearly that of the hash blocks. And a tree over a single block is opened with any range, even
one that ends before the superblock does. `open_bounds_iff` says that these are the only cases in
which the limits are not those of the exact numbers.
-/

namespace DmVerity

variable {sha256 : Bytes → Sha256Digest} {fd fd' : HashesFile} {lo hi : Nat}

/-- The hash blocks of a tree, in exact numbers; a single data block has none. -/
def hashTreeBlocks (n : Nat) : Nat := if n = 1 then 0 else (levelSizes n).sum

/-- Another file gives the same for every read inside a range. -/
def HashesFile.AgreesInside (fd fd' : HashesFile) (lo hi : Nat) : Prop :=
  ∀ time offset size, lo ≤ offset → offset + size ≤ hi →
    fd'.pread time offset size = fd.pread time offset size

/-! ## Reads of layers -/

/-- The hash blocks that the layers read are in a range. -/
def IHashTreeLayer.ReadsInside (lo hi : Nat) : IHashTreeLayer → Prop
  | .singleDataBlock _ => True
  | .topMost _ => True
  | .hashTree layer parent =>
    (∀ block < layer.hashesCount, lo ≤ layer.blockOffset (block / layer.hashesPerBlock) ∧
      layer.blockOffset (block / layer.hashesPerBlock) + layer.hashBlockSize ≤ hi) ∧
      parent.ReadsInside lo hi

theorem HashesFile.AgreesInside.preadFull_eq (h : fd.AgreesInside fd' lo hi) {size offset : Nat}
    (hlo : lo ≤ offset) (hhi : offset + size ≤ hi) (io : Io) :
    preadFull fd' size offset io = preadFull fd size offset io := by
  unfold preadFull
  rw [h io.reads offset size hlo hhi]

/-- A check reads in the range, and leaves layers that do. -/
theorem IHashTreeLayer.ReadsInside.verifyBlock (hagree : fd.AgreesInside fd' lo hi)
    {layer : IHashTreeLayer} (h : layer.ReadsInside lo hi) (block : Nat) (digest : Sha256Digest)
    (io : Io) :
    layer.verifyBlock sha256 fd' block digest io = layer.verifyBlock sha256 fd block digest io ∧
      ∀ result layer' io', layer.verifyBlock sha256 fd block digest io = .ok (result, layer', io') →
        layer'.ReadsInside lo hi := by
  induction layer generalizing block digest io with
  | singleDataBlock layer =>
    refine ⟨rfl, fun result layer' io' hok => ?_⟩
    cases hok
    exact h
  | topMost layer =>
    refine ⟨rfl, fun result layer' io' hok => ?_⟩
    unfold IHashTreeLayer.verifyBlock at hok
    split at hok
    · cases hok
    · cases hok
      exact h
  | hashTree layer parent ih =>
    obtain ⟨hinside, hparent⟩ := h
    unfold IHashTreeLayer.verifyBlock
    by_cases hcount : block ≥ layer.hashesCount
    · rw [if_pos hcount, if_pos hcount]
      refine ⟨rfl, fun result layer' io' hok => ?_⟩
      cases hok
      exact ⟨hinside, hparent⟩
    rw [if_neg hcount, if_neg hcount]
    obtain ⟨hlo, hhi⟩ := hinside block (Nat.not_le.mp hcount)
    dsimp only
    cases layer.verifiedHashBlocks.find (block / layer.hashesPerBlock) with
    | some hashBlock =>
      refine ⟨rfl, fun result layer' io' hok => ?_⟩
      cases hok
      exact ⟨hinside, hparent⟩
    | none =>
      rw [hagree.preadFull_eq hlo hhi]
      rcases preadFull fd layer.hashBlockSize (layer.blockOffset (block / layer.hashesPerBlock)) io
        with ⟨_ | hashBlock, io₁⟩
      · refine ⟨rfl, fun result layer' io' hok => ?_⟩
        cases hok
        exact ⟨hinside, hparent⟩
      dsimp only [sha256Digest]
      obtain ⟨heq, hleft⟩ := ih hparent (block / layer.hashesPerBlock)
        (sha256 (layer.salt ++ hashBlock))
        { io₁ with hashed := (layer.salt ++ hashBlock) :: io₁.hashed }
      rw [heq]
      refine ⟨rfl, fun result layer' io' hok => ?_⟩
      split at hok
      · cases hok
      · next hverify =>
        cases hok
        exact ⟨hinside, hleft _ _ _ hverify⟩
      · next hverify =>
        cases hok
        exact ⟨hinside, hleft _ _ _ hverify⟩

/-- Calls of `verify` read in the range. -/
theorem verifyAll_inside (hagree : fd.AgreesInside fd' lo hi) (history : List (Nat × Bytes))
    {v : DmVerityVerifier} (h : ∀ layer ∈ v.layer0, layer.ReadsInside lo hi) (io : Io) :
    v.verifyAll sha256 fd' io history = v.verifyAll sha256 fd io history := by
  induction history generalizing v io with
  | nil => rfl
  | cons call rest ih =>
    obtain ⟨block, data⟩ := call
    have hstep : v.verify sha256 fd' block data io = v.verify sha256 fd block data io ∧
        ∀ result v' io', v.verify sha256 fd block data io = .ok (result, v', io') →
          ∀ layer ∈ v'.layer0, layer.ReadsInside lo hi := by
      unfold DmVerityVerifier.verify
      cases hlayer : v.layer0 with
      | none =>
        refine ⟨rfl, fun result v' io' hok => ?_⟩
        cases hok
        exact h
      | some layer =>
        dsimp only
        split
        · refine ⟨rfl, fun result v' io' hok => ?_⟩
          cases hok
          exact h
        obtain ⟨heq, hleft⟩ := @IHashTreeLayer.ReadsInside.verifyBlock sha256 _ _ _ _ hagree _
          (h layer hlayer) block (sha256Digest sha256 data v.salt io).1
          (sha256Digest sha256 data v.salt io).2
        rw [heq]
        refine ⟨rfl, fun result v' io' hok => ?_⟩
        split at hok
        · cases hok
        · next hverify =>
          cases hok
          intro layer' hlayer'
          cases hlayer'
          exact hleft _ _ _ hverify
    unfold DmVerityVerifier.verifyAll
    rw [hstep.1]
    split
    · rfl
    · next hok => rw [ih (hstep.2 _ _ _ hok)]

/-! ## Sizes -/

theorem layerDetails_cover {levels n : Nat} (hn : n + 127 < 2 ^ 64) :
    ∀ details ∈ layerDetails 128 levels n, details.dataBlocks ≤ details.hashBlocks * 128 := by
  induction levels generalizing n with
  | zero => exact fun details hmem => nomatch hmem
  | succ levels ih =>
    rw [layerDetails_succ, divRoundUp_eq_ceilDiv hn]
    have hle := ceilDiv_le_self n
    refine List.forall_mem_cons.mpr ⟨?_, ?_⟩
    · show n ≤ n ⌈/⌉ 128 * 128
      rw [Nat.ceilDiv_eq_add_pred_div]
      omega
    · split_ifs
      · exact ih (by omega)
      · exact fun details hmem => nomatch hmem

/-- A tree has no more hash blocks than data blocks. -/
theorem levelSizes_sum_le (n : Nat) (h : 2 ≤ n) : (levelSizes n).sum ≤ n := by
  induction n using Nat.strong_induction_on with
  | _ n ih =>
    rw [levelSizes]
    rw [Nat.ceilDiv_eq_add_pred_div]
    split_ifs with hmore
    · have hrest := ih ((n + 128 - 1) / 128) (by omega) hmore
      rw [List.sum_cons]
      omega
    · rw [List.sum_singleton]
      omega

/-- The size of a hash area does not wrap when there are not more hash blocks than the data limit
has blocks. -/
theorem wrap64_area {blocks : Nat} (h : blocks ≤ 131072) :
    wrap64 ((1 + wrap64 blocks) * 4096) = (1 + blocks) * 4096 := by
  have hblocks : wrap64 blocks = blocks := wrap64_of_lt (by omega)
  rw [hblocks]
  exact wrap64_of_lt (by omega)

/-- The lower levels read their hash blocks, one level behind the other. -/
theorem stackLayers_inside {salt : Bytes} {layer : IHashTreeLayer} {layerOffset : Nat}
    {details : LayerDetails} {lower : List LayerDetails} (hlayer : layer.ReadsInside lo hi)
    (hlo : lo ≤ layerOffset)
    (hhi : layerOffset + 4096 * ((details :: lower).map (·.hashBlocks)).sum ≤ hi)
    (hlt : hi < 2 ^ 64)
    (hcover : ∀ details ∈ lower, details.dataBlocks ≤ details.hashBlocks * 128) :
    (stackLayers 4096 salt layer layerOffset details lower).ReadsInside lo hi := by
  induction lower generalizing layer layerOffset details with
  | nil => exact hlayer
  | cons next lower ih =>
    obtain ⟨hnext, hlower⟩ := List.forall_mem_cons.mp hcover
    simp only [List.map_cons, List.sum_cons] at hhi
    have hoffset : wrap64 (layerOffset + details.hashBlocks * 4096) =
        layerOffset + details.hashBlocks * 4096 := wrap64_of_lt (by omega)
    rw [stackLayers, hoffset]
    refine ih ⟨fun block hblock => ?_, hlayer⟩ (by omega) ?_ hlower
    · have hindex : block / 128 < next.hashBlocks := by
        have hblock : block < next.dataBlocks := hblock
        omega
      have hblockOffset : (HashTreeLayer.new (layerOffset + details.hashBlocks * 4096)
          next.dataBlocks 4096 salt).blockOffset (block / 128) =
            layerOffset + details.hashBlocks * 4096 + block / 128 * 4096 :=
        wrap64_of_lt (by dsimp only [HashTreeLayer.new]; omega)
      show lo ≤ HashTreeLayer.blockOffset _ (block / 128) ∧
        HashTreeLayer.blockOffset _ (block / 128) + 4096 ≤ hi
      rw [hblockOffset]
      omega
    · simp only [List.map_cons, List.sum_cons]
      omega

/-! ## Opened verifiers -/

/-- The limits of an opened verifier in exact numbers: the data, the superblock with all hash
blocks, and the reads of every sequence of calls, for which the rest of the file does not matter. -/
structure ExactBounds (sha256 : Bytes → Sha256Digest) (fd : HashesFile) (v : DmVerityVerifier)
    (io : Io) : Prop where
  dataSize : v.dataBlockCount * 4096 ≤ 512 * 1024 * 1024
  fits : (1 + hashTreeBlocks v.dataBlockCount) * 4096 ≤ v.hashesSize
  reads : ∀ fd', fd.AgreesInside fd' v.hashesOffset (v.hashesOffset + v.hashesSize) →
    ∀ history, v.verifyAll sha256 fd' io history = v.verifyAll sha256 fd io history

/-- The range of an opened verifier, and the check of the hash blocks as the code makes it. -/
theorem DmVerityVerifier.open_range {rootHash : Bytes} {hashesOffset hashesSize : Option Nat}
    {v : DmVerityVerifier} {io io' : Io}
    (h : «open» sha256 fd rootHash hashesOffset hashesSize io = (.ok v, io')) :
    ∃ fileSize, fd.size = .ok fileSize ∧ v.hashesOffset + v.hashesSize ≤ fileSize ∧
      (v.dataBlockCount ≠ 1 →
        wrap64 ((1 + totalHashBlocks (layerDetails 128 maxLevels v.dataBlockCount).reverse) * 4096) ≤
          v.hashesSize) := by
  obtain ⟨fileSize, root, buf, io₁, hfile, -, hoffset, hsize, -, -, hbuild⟩ := open_inv h
  obtain ⟨heq, -⟩ := buildLayers_ok rfl rfl hbuild
  have hfits := buildLayers_fits hbuild
  rw [heq]
  refine ⟨fileSize, hfile, ?_, hfits⟩
  show hashesOffset.getD 0 + hashesSize.getD (fileSize - hashesOffset.getD 0) ≤ fileSize
  omega

/-- For a file with a size of an `off_t`, and every superblock and range that `open` accepts: the
limits are exact if and only if the data size is a 64-bit number, and a tree over a single block has
a range for its superblock. -/
theorem open_bounds_iff (sha256 : Bytes → Sha256Digest) (fd : HashesFile) (rootHash : Bytes)
    (hashesOffset hashesSize : Option Nat) (io io' : Io) (v : DmVerityVerifier)
    (hfile : ∀ fileSize, fd.size = .ok fileSize → fileSize < 2 ^ 63)
    (hopen : DmVerityVerifier.«open» sha256 fd rootHash hashesOffset hashesSize io = (.ok v, io')) :
    ExactBounds sha256 fd v io' ↔
      v.dataBlockCount * 4096 < 2 ^ 64 ∧ (v.dataBlockCount = 1 → 4096 ≤ v.hashesSize) := by
  have hopened := DmVerityVerifier.open_ok hopen
  obtain ⟨fileSize, hsize, hrange, hfits⟩ := DmVerityVerifier.open_range hopen
  have hfileSize := hfile fileSize hsize
  constructor
  · rintro ⟨hdata, hfit, -⟩
    refine ⟨by omega, fun hone => ?_⟩
    rw [hone, hashTreeBlocks, if_pos rfl] at hfit
    exact hfit
  · rintro ⟨hproduct, hsingle⟩
    have hdata := hopened.dataSize_le
    rw [wrap64_of_lt hproduct] at hdata
    have hn : v.dataBlockCount + 127 < 2 ^ 64 := by omega
    cases hopened.layered with
    | single hone hlayer =>
      refine ⟨hdata, ?_, fun fd' hagree history => verifyAll_inside hagree history ?_ io'⟩
      · rw [hone, hashTreeBlocks, if_pos rfl]
        exact hsingle hone
      · intro layer hmem
        rw [hlayer] at hmem
        cases hmem
        trivial
    | @tree top lower topLayer io₁ hone hdetails hnew hroot hlayer =>
      obtain ⟨hsizes, -, -⟩ :=
        @layerDetails_spec maxLevels v.dataBlockCount (by unfold maxLevels; omega) (by decide) hn
      have hne := hopened.dataBlockCount_ne
      have hsum := levelSizes_sum_le v.dataBlockCount (by omega)
      have htotal : ((top :: lower).map (·.hashBlocks)).sum = (levelSizes v.dataBlockCount).sum := by
        rw [← hdetails, List.map_reverse, List.sum_reverse, hsizes]
      have hfit := hfits hone
      rw [hdetails, totalHashBlocks, htotal, wrap64_area (Nat.le_trans hsum (by omega))] at hfit
      refine ⟨hdata, ?_, fun fd' hagree history => verifyAll_inside hagree history ?_ io'⟩
      · rwa [hashTreeBlocks, if_neg hone]
      · intro layer hmem
        rw [hlayer] at hmem
        cases hmem
        have hoffset : wrap64 (v.hashesOffset + 4096) = v.hashesOffset + 4096 :=
          wrap64_of_lt (by omega)
        rw [hoffset]
        refine stackLayers_inside trivial (by omega) ?_ (by omega) fun details hdetail => ?_
        · rw [htotal]
          omega
        · have hmem : details ∈ (layerDetails 128 maxLevels v.dataBlockCount).reverse :=
            hdetails ▸ List.mem_cons_of_mem _ hdetail
          exact layerDetails_cover hn details (List.mem_reverse.mp hmem)

/-- A file of two blocks: a superblock for a number of data blocks, and a hash block of zeros. -/
def twoBlockFile (dataBlocks : Nat) : HashesFile where
  size := .ok 8192
  pread _ offset _ := .data <|
    if offset = 0 then (VeritySuperBlock.formatted (List.replicate 16 0) dataBlocks []).block
    else List.replicate 4096 0

theorem twoBlockFile_opens {dataBlocks : Nat} {top : LayerDetails} {lower : List LayerDetails}
    (hlt : dataBlocks < 2 ^ 64) (hne : dataBlocks ≠ 0) (hone : dataBlocks ≠ 1)
    (hle : wrap64 (dataBlocks * 4096) ≤ 512 * 1024 * 1024)
    (hdetails : (layerDetails 128 maxLevels dataBlocks).reverse = top :: lower)
    (hfit : wrap64 ((1 + totalHashBlocks (top :: lower)) * 4096) ≤ 8192) :
    ∃ v io, DmVerityVerifier.«open» (fun _ => .zero) (twoBlockFile dataBlocks) Sha256Digest.zero.val
      none none .init = (.ok v, io) ∧ v.dataBlockCount = dataBlocks := by
  have hwf := @VeritySuperBlock.formatted_wellFormed (List.replicate 16 0) [] dataBlocks
    List.length_replicate hlt (by decide)
  have hread : preadFull (twoBlockFile dataBlocks) 4096 0 .init =
      (some (VeritySuperBlock.formatted (List.replicate 16 0) dataBlocks []).block,
        { Io.init with reads := 1 }) := by
    unfold preadFull twoBlockFile
    dsimp only
    rw [if_pos rfl, if_pos (VeritySuperBlock.block_length hwf)]
    rfl
  have hread' : preadFull (twoBlockFile dataBlocks) 4096 4096 { Io.init with reads := 1 } =
      (some (List.replicate 4096 0), { Io.init with reads := 2 }) := by
    unfold preadFull twoBlockFile
    dsimp only
    rw [if_neg (by decide : ¬ (4096 : Nat) = 0), if_pos List.length_replicate]
  have hnew : TopMostHashTreeLayer.new (fun _ => .zero) (twoBlockFile dataBlocks) (wrap64 (0 + 4096))
      top.dataBlocks 4096 [] { Io.init with reads := 1 } =
        (⟨top.dataBlocks, 128, some (List.replicate 4096 0), .zero⟩,
          ⟨2, 0, [List.replicate 4096 0]⟩) := by
    have hoffset : wrap64 (0 + 4096) = 4096 := by decide
    unfold TopMostHashTreeLayer.new
    rw [hoffset, hread']
    rfl
  have hopen := @DmVerityVerifier.open_eq_buildLayers (fun _ => .zero) (twoBlockFile dataBlocks)
    Sha256Digest.zero none none 8192 _ .init _ _ rfl (Nat.zero_le _) (Nat.le_refl _) hread
    (VeritySuperBlock.ofBytes_block hwf) (VeritySuperBlock.formatted_supported (by decide)) hne hle
  exact ⟨_, _, hopen.trans (DmVerityVerifier.buildLayers_eq hone hdetails hfit hnew rfl), rfl⟩

/-- A superblock for `127 * 2 ^ 52` data blocks is accepted with a range of two blocks. -/
theorem not_open_bounds :
    ¬ ∀ (sha256 : Bytes → Sha256Digest) (fd : HashesFile) (rootHash : Bytes)
      (hashesOffset hashesSize : Option Nat) (io io' : Io) (v : DmVerityVerifier),
      (∀ fileSize, fd.size = .ok fileSize → fileSize < 2 ^ 63) →
      DmVerityVerifier.«open» sha256 fd rootHash hashesOffset hashesSize io = (.ok v, io') →
      ExactBounds sha256 fd v io' := by
  intro h
  obtain ⟨v, io, hopen, hcount⟩ := @twoBlockFile_opens (127 * 2 ^ 52) ⟨1, 8⟩ _ (by decide) (by decide)
    (by decide) (by decide) rfl (by decide +kernel)
  have hbounds := h (fun _ => .zero) (twoBlockFile (127 * 2 ^ 52)) Sha256Digest.zero.val none none
    .init io v (fun fileSize hsize => by cases hsize; decide) hopen
  have hdata := hbounds.dataSize
  rw [hcount] at hdata
  omega

/-- The theorem on a tree over two blocks. -/
theorem open_bounds_iff_two :
    ∃ v io, DmVerityVerifier.«open» (fun _ => .zero) (twoBlockFile 2) Sha256Digest.zero.val none none
        .init = (.ok v, io) ∧
      (ExactBounds (fun _ => .zero) (twoBlockFile 2) v io ↔
        v.dataBlockCount * 4096 < 2 ^ 64 ∧ (v.dataBlockCount = 1 → 4096 ≤ v.hashesSize)) := by
  obtain ⟨v, io, hopen, -⟩ := @twoBlockFile_opens 2 ⟨1, 2⟩ [] (by decide) (by decide) (by decide)
    (by decide) rfl (by decide)
  exact ⟨v, io, hopen, open_bounds_iff (fun _ => .zero) (twoBlockFile 2) Sha256Digest.zero.val none
    none .init io v (fun fileSize hsize => by cases hsize; decide) hopen⟩

end DmVerity
