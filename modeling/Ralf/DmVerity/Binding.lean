import Ralf.Lib.AuthTree
import Ralf.DmVerity.Builder

/-!
# Merkle binding

Two verifiers opened with one root hash and one block count accept the same
block at every index, unless two different strings with one digest were hashed
on the way. Nothing is assumed about the hashes files, which may change between
reads, about the superblocks or about the hash function.

Every layer object keeps the invariant `Verified`: the hash blocks in its cache
are authentic in the sense of `AuthTree.Authentic`. A `verify` that returns
`true` then makes the data block itself authentic (`verify_spec`), and binding
is `AuthTree.authentic_binding`.
-/

namespace DmVerity

open AuthTree

variable {sha256 : Bytes → Sha256Digest} {fd : HashesFile}

/-- The strings that were hashed. -/
def Io.log (io : Io) : Set Bytes := {bytes | bytes ∈ io.hashed}

/-- The tree of 4096-byte blocks with 32-byte digest slots, under a salt. -/
def hashing (sha256 : Bytes → Sha256Digest) (salt : Bytes) : Hashing Sha256Digest Bytes Bytes where
  hash := sha256
  encode block := salt ++ block
  valid block := block.length = 4096
  slot block i :=
    if h : (block.slice (i * kSha256DigestSize) kSha256DigestSize).length = 32 then
      some ⟨block.slice (i * kSha256DigestSize) kSha256DigestSize, h⟩
    else none

theorem hashing_compatible (salt₁ salt₂ : Bytes) :
    Compatible (hashing sha256 salt₁) (hashing sha256 salt₂) where
  hash_eq := rfl
  slot_eq := rfl
  encode_inj := by
    intro b₁ b₂ h₁ h₂ heq
    exact List.append_inj_right' heq (Eq.trans h₁ h₂.symm)

theorem slot_of_slotMatches {salt hashBlock : Bytes} {block : Nat} {digest : Sha256Digest}
    (h : slotMatches 128 hashBlock block digest = true) :
    (hashing sha256 salt).slot hashBlock (block % 128) = some digest := by
  have heq := of_decide_eq_true h
  have hlen := congrArg List.length heq
  rw [digest.property] at hlen
  simp only [hashing, dif_pos hlen]
  exact congrArg some (Subtype.ext heq)

/-- A block whose digest is the one in its slot of an authentic hash block is authentic. -/
theorem authentic_of_slotMatches {salt hashBlock data : Bytes} {root digest : Sha256Digest}
    {log : Set Bytes} {depth block : Nat}
    (hparent : Authentic (hashing sha256 salt) log root 128 depth (block / 128) hashBlock)
    (hlen : data.length = 4096) (hlog : salt ++ data ∈ log) (hdigest : sha256 (salt ++ data) = digest)
    (hmatches : slotMatches 128 hashBlock block digest = true) :
    Authentic (hashing sha256 salt) log root 128 (depth + 1) block data := by
  refine .child hparent hlen hlog ?_
  rw [slot_of_slotMatches hmatches, ← hdigest]
  rfl

/-! ## The invariant -/

/-- `Verified sha256 salt root log depth layer`: every hash block the layer has
in memory is authentic; the blocks it checks stand `depth` levels below the top. -/
inductive Verified (sha256 : Bytes → Sha256Digest) (salt : Bytes) (root : Sha256Digest)
    (log : Set Bytes) : Nat → IHashTreeLayer → Prop
  | singleDataBlock {layer : SingleDataBlockLayer} : layer.rootHash = root →
      Verified sha256 salt root log 0 (.singleDataBlock layer)
  | topMost {layer : TopMostHashTreeLayer} {hashBlock : Bytes} : layer.hashesPerBlock = 128 →
      layer.hashBlock = some hashBlock →
      (∀ index, Authentic (hashing sha256 salt) log root 128 0 index hashBlock) →
      Verified sha256 salt root log 1 (.topMost layer)
  | hashTree {depth : Nat} {layer : HashTreeLayer} {parent : IHashTreeLayer} :
      Verified sha256 salt root log depth parent → layer.salt = salt → layer.hashBlockSize = 4096 →
      layer.hashesPerBlock = 128 →
      layer.verifiedHashBlocks.Sound (Authentic (hashing sha256 salt) log root 128 depth) →
      Verified sha256 salt root log (depth + 1) (.hashTree layer parent)

theorem Verified.mono {salt : Bytes} {root : Sha256Digest} {log log' : Set Bytes} {depth : Nat}
    {layer : IHashTreeLayer} (h : Verified sha256 salt root log depth layer) (hsub : log ⊆ log') :
    Verified sha256 salt root log' depth layer := by
  induction h with
  | singleDataBlock hroot => exact .singleDataBlock hroot
  | topMost hper hblock hauth => exact .topMost hper hblock fun index => (hauth index).mono hsub
  | hashTree _ hsalt hsize hper hcache ih =>
    exact .hashTree ih hsalt hsize hper (hcache.mono fun _ _ hb => hb.mono hsub)

/-- One call of a layer keeps the invariant, and `true` means that a block with
the checked digest is authentic. -/
theorem verifyBlock_spec {salt : Bytes} {root : Sha256Digest} {depth : Nat}
    {layer layer' : IHashTreeLayer} {block : Nat} {digest : Sha256Digest} {io io' : Io}
    {result : Bool} (hv : Verified sha256 salt root io.log depth layer)
    (h : layer.verifyBlock sha256 fd block digest io = .ok (result, layer', io')) :
    io.log ⊆ io'.log ∧ Verified sha256 salt root io'.log depth layer' ∧
    (result = true → ∀ data : Bytes, data.length = 4096 → salt ++ data ∈ io.log →
      sha256 (salt ++ data) = digest →
      Authentic (hashing sha256 salt) io'.log root 128 depth block data) := by
  induction layer generalizing depth layer' block digest io io' result with
  | singleDataBlock layer =>
    cases hv with
    | singleDataBlock hroot =>
      cases h
      refine ⟨le_refl _, .singleDataBlock hroot, fun hres data hlen hlog hdigest => ?_⟩
      unfold SingleDataBlockLayer.verifyBlock at hres
      split_ifs at hres
      exact .top hlen hlog (by rw [← hroot, of_decide_eq_true hres]; exact hdigest)
  | topMost layer =>
    cases hv with
    | @topMost _ hashBlock hper hblock hauth =>
      simp only [IHashTreeLayer.verifyBlock, TopMostHashTreeLayer.verifyBlock, hblock, hper] at h
      split_ifs at h with hcount
      · cases h
        exact ⟨le_refl _, .topMost hper hblock hauth, fun hres => absurd hres (by simp)⟩
      · cases h
        exact ⟨le_refl _, .topMost hper hblock hauth, fun hres data hlen hlog hdigest =>
          authentic_of_slotMatches (hauth _) hlen hlog hdigest hres⟩
  | hashTree layer parent ih =>
    cases hv with
    | @hashTree depth _ _ hparent hsalt hsize hper hcache =>
      simp only [IHashTreeLayer.verifyBlock, hper, hsize, hsalt] at h
      split_ifs at h with hcount
      · cases h
        exact ⟨le_refl _, .hashTree hparent hsalt hsize hper hcache, fun hres =>
          absurd hres (by simp)⟩
      · split at h
        · next hashBlock hfind =>
          cases h
          exact ⟨le_refl _, .hashTree hparent hsalt hsize hper hcache,
            fun hres data hlen hlog hdigest =>
              authentic_of_slotMatches (hcache.find hfind) hlen hlog hdigest hres⟩
        · split at h
          · next io₁ hread =>
            cases h
            have hlog : io.log = io'.log := by
              unfold Io.log
              rw [hashed_of_preadFull hread]
            rw [← hlog]
            exact ⟨le_refl _, .hashTree hparent hsalt hsize hper hcache,
              fun hres => absurd hres (by simp)⟩
          · next hashBlock io₁ hread =>
            -- The hash block was read and its salted digest logged; the parent decides.
            set io₂ := (sha256Digest sha256 hashBlock salt io₁).2 with hio₂
            have hsub : io.log ⊆ io₂.log := by
              intro x hx
              refine List.mem_cons_of_mem _ ?_
              rw [hashed_of_preadFull hread]
              exact hx
            have hself : salt ++ hashBlock ∈ io₂.log := List.mem_cons_self
            split at h
            · cases h
            · next parent' io₃ hrec =>
              cases h
              obtain ⟨hsub', hparent', -⟩ := ih (hparent.mono hsub) hrec
              have hcache' := hcache.mono fun _ _ hb => hb.mono (hsub.trans hsub')
              exact ⟨hsub.trans hsub', .hashTree hparent' hsalt hsize hper hcache',
                fun hres => absurd hres (by simp)⟩
            · next parent' io₃ hrec =>
              cases h
              obtain ⟨hsub', hparent', hauth⟩ := ih (hparent.mono hsub) hrec
              have hcache' := hcache.mono fun _ _ hb => hb.mono (hsub.trans hsub')
              have hblock := hauth rfl hashBlock (length_of_preadFull hread) hself rfl
              exact ⟨hsub.trans hsub', .hashTree hparent' hsalt hsize hper
                (HashTreeLayer.store_sound hcache' hblock), fun hres data hlen hlog hdigest =>
                  authentic_of_slotMatches hblock hlen (hsub' (hsub hlog)) hdigest hres⟩

/-! ## Opened verifiers -/

/-- The hash block of the top layer was read. -/
def IHashTreeLayer.topBlockRead : IHashTreeLayer → Prop
  | .singleDataBlock _ => True
  | .topMost layer => layer.hashBlock ≠ none
  | .hashTree _ parent => parent.topBlockRead

/-- The top hash block was read in full when the tree was opened. -/
def DmVerityVerifier.topBlockRead (v : DmVerityVerifier) : Prop :=
  ∀ layer ∈ v.layer0, layer.topBlockRead

theorem stackLayers_topBlockRead {size : Nat} {salt : Bytes} {layer : IHashTreeLayer}
    {offset : Nat} {above : LayerDetails} {lower : List LayerDetails} :
    (stackLayers size salt layer offset above lower).topBlockRead ↔ layer.topBlockRead := by
  induction lower generalizing layer offset above with
  | nil => rfl
  | cons details rest ih => exact ih

theorem stackLayers_verified {salt : Bytes} {root : Sha256Digest} {log : Set Bytes} {depth : Nat}
    {layer : IHashTreeLayer} (hv : Verified sha256 salt root log depth layer) {offset : Nat}
    {above : LayerDetails} {lower : List LayerDetails} :
    Verified sha256 salt root log (depth + lower.length)
      (stackLayers 4096 salt layer offset above lower) := by
  induction lower generalizing depth layer offset above with
  | nil => exact hv
  | cons details rest ih =>
    have hdepth : depth + (details :: rest).length = depth + 1 + rest.length := by
      rw [List.length_cons]
      omega
    rw [hdepth]
    exact ih (.hashTree hv rfl rfl rfl .empty)

/-- The number of hash levels over `dataBlockCount` blocks. -/
def treeDepth (dataBlockCount : Nat) : Nat :=
  if dataBlockCount = 1 then 0 else (layerDetails 128 maxLevels dataBlockCount).length

/-- The invariant of a verifier object. -/
def DmVerityVerifier.Bound (sha256 : Bytes → Sha256Digest) (root : Sha256Digest) (depth : Nat)
    (v : DmVerityVerifier) (io : Io) : Prop :=
  ∃ layer, v.layer0 = some layer ∧ Verified sha256 v.salt root io.log depth layer

/-- An opened verifier satisfies the invariant. -/
theorem Opened.bound {rootHash : Bytes} {v : DmVerityVerifier} {io : Io}
    (h : Opened sha256 fd rootHash v io) (htop : v.topBlockRead) :
    v.Bound sha256 v.rootHash (treeDepth v.dataBlockCount) io := by
  cases h.layered with
  | single hone hlayer =>
    refine ⟨_, hlayer, ?_⟩
    rw [treeDepth, if_pos hone]
    exact .singleDataBlock rfl
  | @tree top lower topLayer io₁ hone hdetails hnew hroot hlayer =>
    refine ⟨_, hlayer, ?_⟩
    have hdepth : treeDepth v.dataBlockCount = 1 + lower.length := by
      rw [treeDepth, if_neg hone, ← List.length_reverse, hdetails, List.length_cons, Nat.add_comm]
    rw [hdepth]
    obtain ⟨-, hper, ⟨-, hnone, -⟩ | ⟨bytes, io₂, hread, hblock, hdigest, rfl⟩⟩ :=
      TopMostHashTreeLayer.new_cases hnew
    · exact absurd hnone (stackLayers_topBlockRead.mp (htop _ hlayer))
    · refine stackLayers_verified (.topMost hper hblock fun index => ?_)
      exact .top (length_of_preadFull hread) List.mem_cons_self (hdigest.symm.trans hroot)

/-- One `verify` call keeps the invariant; `true` makes the block authentic. -/
theorem verify_spec {root : Sha256Digest} {depth : Nat} {v v' : DmVerityVerifier} {io io' : Io}
    {block : Nat} {data : Bytes} {result : Bool} (hv : v.Bound sha256 root depth io)
    (h : v.verify sha256 fd block data io = .ok (result, v', io')) :
    v'.Bound sha256 root depth io' ∧ v'.salt = v.salt ∧
    (result = true → data.length = 4096 →
      Authentic (hashing sha256 v.salt) io'.log root 128 depth block data) := by
  obtain ⟨layer, hlayer, hverified⟩ := hv
  simp only [DmVerityVerifier.verify, hlayer] at h
  split_ifs at h with hcount
  · cases h
    exact ⟨⟨layer, hlayer, hverified⟩, rfl, fun hres => absurd hres (by simp)⟩
  · have hsub : io.log ⊆ (sha256Digest sha256 data v.salt io).2.log :=
      fun _ hx => List.mem_cons_of_mem _ hx
    split at h
    · cases h
    · next layer' io₁ hrec =>
      cases h
      obtain ⟨-, hverified', hauth⟩ := verifyBlock_spec (hverified.mono hsub) hrec
      exact ⟨⟨layer', rfl, hverified'⟩, rfl,
        fun hres hlen => hauth hres data hlen List.mem_cons_self rfl⟩

/-- A history of `verify` calls keeps the invariant. -/
theorem verifyAll_bound {root : Sha256Digest} {depth : Nat} {history : List (Nat × Bytes)}
    {v v' : DmVerityVerifier} {io io' : Io} {results : List Bool}
    (hv : v.Bound sha256 root depth io)
    (h : v.verifyAll sha256 fd io history = .ok (results, v', io')) :
    v'.Bound sha256 root depth io' ∧ v'.salt = v.salt := by
  induction history generalizing v io results with
  | nil =>
    cases h
    exact ⟨hv, rfl⟩
  | cons call history ih =>
    simp only [DmVerityVerifier.verifyAll] at h
    split at h
    · cases h
    · next result v₁ io₁ hcall =>
      obtain ⟨hv₁, hsalt₁, -⟩ := verify_spec hv hcall
      split at h
      · cases h
      · next results' v₂ io₂ hrest =>
        cases h
        obtain ⟨hv', hsalt'⟩ := ih hv₁ hrest
        exact ⟨hv', hsalt'.trans hsalt₁⟩

/-- A layer that refines a file with a readable top block has read it. -/
theorem Refines.topBlockRead {salt : Bytes} {root : Sha256Digest} {offsets : List Nat} {count : Nat}
    {layer : IHashTreeLayer} (hR : Refines sha256 fd salt root offsets count layer)
    (htop : ∀ offset ∈ offsets.getLast?, fd.block offset ≠ none) : layer.topBlockRead := by
  induction hR with
  | singleDataBlock => trivial
  | topMost _ _ _ hread _ => exact fun hnone => htop _ rfl (hread.trans hnone)
  | hashTree _ _ _ _ _ _ ih => exact ih htop

/-- Merkle binding: after any histories, two verifiers with one root hash and one
block count accept the same block at an index, or two different strings hashed in
the two runs have one digest. -/
theorem merkle_binding {fd₁ fd₂ : HashesFile} {rootHash : Bytes}
    {offset₁ size₁ offset₂ size₂ : Option Nat} {v₁ v₂ : DmVerityVerifier} {io₁ io₂ : Io}
    (hopen₁ : DmVerityVerifier.open sha256 fd₁ rootHash offset₁ size₁ .init = (.ok v₁, io₁))
    (hopen₂ : DmVerityVerifier.open sha256 fd₂ rootHash offset₂ size₂ .init = (.ok v₂, io₂))
    (hcount : v₁.dataBlockCount = v₂.dataBlockCount)
    (htop₁ : v₁.topBlockRead) (htop₂ : v₂.topBlockRead)
    {history₁ history₂ : List (Nat × Bytes)} {results₁ results₂ : List Bool}
    {v₁' v₂' : DmVerityVerifier} {io₁' io₂' : Io}
    (hrun₁ : v₁.verifyAll sha256 fd₁ io₁ history₁ = .ok (results₁, v₁', io₁'))
    (hrun₂ : v₂.verifyAll sha256 fd₂ io₂ history₂ = .ok (results₂, v₂', io₂'))
    {block : Nat} {d₁ d₂ : Bytes} (hd₁ : d₁.length = 4096) (hd₂ : d₂.length = 4096)
    {w₁ w₂ : DmVerityVerifier} {io₁'' io₂'' : Io}
    (hverify₁ : v₁'.verify sha256 fd₁ block d₁ io₁' = .ok (true, w₁, io₁''))
    (hverify₂ : v₂'.verify sha256 fd₂ block d₂ io₂' = .ok (true, w₂, io₂'')) :
    d₁ = d₂ ∨ Collision sha256 (io₁''.log ∪ io₂''.log) := by
  have hO₁ := DmVerityVerifier.open_ok hopen₁
  have hO₂ := DmVerityVerifier.open_ok hopen₂
  have hroot : v₁.rootHash = v₂.rootHash := Subtype.ext (hO₁.rootHash.trans hO₂.rootHash.symm)
  obtain ⟨hb₁, -⟩ := verifyAll_bound (hO₁.bound htop₁) hrun₁
  obtain ⟨hb₂, -⟩ := verifyAll_bound (hO₂.bound htop₂) hrun₂
  obtain ⟨-, -, hauth₁⟩ := verify_spec hb₁ hverify₁
  obtain ⟨-, -, hauth₂⟩ := verify_spec hb₂ hverify₂
  have h₁ := hauth₁ rfl hd₁
  have h₂ := hauth₂ rfl hd₂
  rw [← hroot, ← hcount] at h₂
  exact authentic_binding (hashing_compatible _ _) h₁ h₂

/-! ### Two images with one root hash -/

/-- The first of `twoDataBlocks` with another last byte. -/
def otherBlock : Bytes := List.replicate 4095 0 ++ [1]

def otherDataBlocks : List Bytes := [otherBlock, List.replicate 4096 1]

theorem otherBlock_length : otherBlock.length = 4096 := by
  rw [otherBlock, List.length_append, List.length_replicate, List.length_singleton]

theorem otherBlock_ne : List.replicate 4096 0 ≠ otherBlock := by
  intro heq
  have hlast := congrArg List.getLast? heq
  rw [otherBlock, List.getLast?_concat, List.getLast?_replicate] at hlast
  cases hlast

/-- The hash does not tell the two blocks apart. -/
theorem prefixHash_otherBlock : prefixHash otherBlock = prefixHash (List.replicate 4096 0) := by
  have htake : ∀ bytes : Bytes, (bytes ++ List.replicate 31 0).take 31 = List.replicate 31 0 →
      (prefixHash bytes).val = 1 :: List.replicate 31 0 := fun bytes h => congrArg (1 :: ·) h
  have hreplicate : ∀ (n : Nat) (rest : Bytes), 31 ≤ n →
      (List.replicate n 0 ++ rest).take 31 = List.replicate 31 0 := by
    intro n rest hn
    rw [List.take_append_of_le_length (by rwa [List.length_replicate]), List.take_replicate,
      Nat.min_eq_left hn]
  refine Subtype.ext ((htake _ ?_).trans (htake _ ?_).symm)
  · rw [otherBlock, List.append_assoc]
    exact hreplicate 4095 _ (by decide)
  · exact hreplicate 4096 _ (by decide)

/-- A level only depends on the digests of the blocks. -/
theorem hashLevel_congr {salt : Bytes} {blocks blocks' : List Bytes}
    (h : blocks.map (fun block => (sha256 (salt ++ block)).val) =
      blocks'.map fun block => (sha256 (salt ++ block)).val) :
    hashLevel sha256 salt blocks = hashLevel sha256 salt blocks' := by
  have hlength : blocks.length = blocks'.length := by
    rw [← List.length_map, h, List.length_map]
  unfold hashLevel hashBlock
  rw [hlength]
  simp only [List.map_take, List.map_drop, h]

theorem otherDataBlocks_root :
    treeRoot prefixHash [] otherDataBlocks = treeRoot prefixHash [] twoDataBlocks := by
  have hlevel : hashLevel prefixHash [] otherDataBlocks = hashLevel prefixHash [] twoDataBlocks := by
    refine hashLevel_congr ?_
    simp only [otherDataBlocks, twoDataBlocks, List.map_cons, List.nil_append,
      prefixHash_otherBlock]
  rw [treeRoot, if_pos (by decide : 1 < otherDataBlocks.length), hlevel]
  exact (by rw [treeRoot, if_pos (by decide)] : treeRoot prefixHash [] twoDataBlocks = _).symm

/-- The top hash block of an area is read. -/
theorem Embedded.topBlockRead {salt uuid before after : Bytes} {blocks : List Bytes}
    {hashesOffset hashesSize : Option Nat} {v : DmVerityVerifier} {io : Io}
    (h : Embedded sha256 salt uuid blocks before after hashesOffset hashesSize)
    (hmore : 1 < blocks.length)
    (hopen : DmVerityVerifier.open sha256 h.file (treeRoot sha256 salt blocks).val hashesOffset
      hashesSize .init = (.ok v, io))
    (hcount : v.dataBlockCount = blocks.length) (hoffset : v.hashesOffset = before.length) :
    v.topBlockRead := by
  obtain ⟨top, htop, -⟩ := topBlock_of_holds hmore h.holds
  have hfile : h.file.Unchanging := HashesFile.ofBytes_unchanging _
  intro layer hlayer
  obtain ⟨layer', hlayer', hR⟩ := (DmVerityVerifier.open_ok hopen).refinesFile hfile
  obtain rfl : layer' = layer := Option.some.inj (hlayer'.symm.trans hlayer)
  rw [hoffset, hcount, h.treeOffsets_eq] at hR
  refine hR.topBlockRead fun offset hoff => ?_
  rw [levelOffsets_getLast? offset hoff, htop]
  exact Option.some_ne_none _

theorem otherDataBlocks_area :
    Embedded prefixHash [] (List.replicate 16 0) otherDataBlocks (List.replicate 4096 7) []
      (some 4096) none :=
  twoBlocks_area prefixHash rfl List.length_replicate.symm (by rw [List.length_replicate])

/-- One run over an area alone in its file, after a block was verified, and one over another area,
behind other bytes. They accept different blocks at one index, and hashed both. -/
theorem merkle_binding_twoDataBlocks :
    ∃ v₁ io₁ results v₁' io₁' w₁ io₁'' v₂ io₂ w₂ io₂'',
      DmVerityVerifier.open prefixHash (twoDataBlocks_area prefixHash).file
        (treeRoot prefixHash [] twoDataBlocks).val none none .init = (.ok v₁, io₁) ∧
      v₁.verifyAll prefixHash (twoDataBlocks_area prefixHash).file io₁
        [(1, List.replicate 4096 1)] = .ok (results, v₁', io₁') ∧
      v₁'.verify prefixHash (twoDataBlocks_area prefixHash).file 0 (List.replicate 4096 0) io₁' =
        .ok (true, w₁, io₁'') ∧
      DmVerityVerifier.open prefixHash otherDataBlocks_area.file
        (treeRoot prefixHash [] twoDataBlocks).val (some 4096) none .init = (.ok v₂, io₂) ∧
      v₂.verify prefixHash otherDataBlocks_area.file 0 otherBlock io₂ =
        .ok (true, w₂, io₂'') ∧
      Collision prefixHash (io₁''.log ∪ io₂''.log) := by
  obtain ⟨v₁, io₁, hopen₁, hcount₁, hoffset₁, hall₁⟩ := (twoDataBlocks_area prefixHash).accepts .init
  obtain ⟨v₂, io₂, hopen₂, hcount₂, hoffset₂, hall₂⟩ := otherDataBlocks_area.accepts .init
  have htop₁ := (twoDataBlocks_area prefixHash).topBlockRead (by decide) hopen₁ hcount₁ hoffset₁
  have htop₂ := otherDataBlocks_area.topBlockRead (by decide) hopen₂ hcount₂ hoffset₂
  obtain ⟨results, v₁', io₁', hrun₁, haccept₁⟩ := hall₁ [(1, List.replicate 4096 1)]
  obtain ⟨w₁, io₁'', haccept₁⟩ := haccept₁ 0 (by decide)
  have hverify₁ : v₁'.verify prefixHash (twoDataBlocks_area prefixHash).file 0
    (List.replicate 4096 0) io₁' = .ok (true, w₁, io₁'') := haccept₁
  obtain ⟨_, v₂', io₂', hrun₂, haccept₂⟩ := hall₂ []
  obtain ⟨w₂, io₂'', hverify₂⟩ := haccept₂ 0 (by decide)
  rw [otherDataBlocks_root] at hopen₂
  have hcount : v₁.dataBlockCount = v₂.dataBlockCount := by
    rw [hcount₁, hcount₂]
    decide
  have hbinding := merkle_binding hopen₁ hopen₂ hcount htop₁ htop₂ hrun₁ hrun₂
    List.length_replicate otherBlock_length hverify₁ hverify₂
  cases hrun₂
  refine ⟨v₁, io₁, results, v₁', io₁', w₁, io₁'', v₂, io₂, w₂, io₂'', hopen₁, hrun₁, hverify₁,
    hopen₂, hverify₂, hbinding.resolve_left otherBlock_ne⟩

end DmVerity
