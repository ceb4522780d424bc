import Ralf.DmVerity.Verifier

/-!
# What opening a hash tree leaves

`open_ok` is everything that a successful `open` has checked and built, as a record.
-/

namespace DmVerity

variable {sha256 : Bytes → Sha256Digest} {fd : HashesFile}

/-! ## Reads -/

@[simp] theorem preadFull_hashed (size offset : Nat) (io : Io) :
    (preadFull fd size offset io).2.hashed = io.hashed := by
  unfold preadFull
  split <;> rfl

theorem hashed_of_preadFull {size offset : Nat} {io io' : Io} {bytes : Option Bytes}
    (h : preadFull fd size offset io = (bytes, io')) : io'.hashed = io.hashed := by
  rw [← @preadFull_hashed fd size offset io, h]

theorem length_of_preadFull {size offset : Nat} {io io' : Io} {bytes : Bytes}
    (h : preadFull fd size offset io = (some bytes, io')) : bytes.length = size := by
  unfold preadFull at h
  split at h
  · rw [Prod.mk.injEq] at h
    split_ifs at h with hlen
    · rw [← Option.some.inj h.1, hlen]
    · exact absurd h.1 (by simp)
  · exact absurd (Prod.mk.inj h).1 (by simp)

/-! ## The top layer -/

/-- The two ways in which the constructor of the top layer ends. -/
theorem TopMostHashTreeLayer.new_cases {offset count size : Nat} {salt : Bytes} {io io' : Io}
    {layer : TopMostHashTreeLayer} (h : new sha256 fd offset count size salt io = (layer, io')) :
    layer.hashesCount = count ∧ layer.hashesPerBlock = size / kSha256DigestSize ∧
    ((preadFull fd size offset io = (none, io') ∧ layer.hashBlock = none ∧ layer.digest = .zero) ∨
      ∃ bytes io₁, preadFull fd size offset io = (some bytes, io₁) ∧
        layer.hashBlock = some bytes ∧ layer.digest = sha256 (salt ++ bytes) ∧
        io' = { io₁ with hashed := (salt ++ bytes) :: io₁.hashed }) := by
  unfold new at h
  rcases hread : preadFull fd size offset io with ⟨bytes | bytes, io₁⟩
  · simp only [hread, Prod.mk.injEq] at h
    obtain ⟨rfl, rfl⟩ := h
    exact ⟨rfl, rfl, .inl ⟨rfl, rfl, rfl⟩⟩
  · simp only [hread, sha256Digest, Prod.mk.injEq] at h
    obtain ⟨rfl, rfl⟩ := h
    exact ⟨rfl, rfl, .inr ⟨bytes, io₁, rfl, rfl, rfl, rfl⟩⟩

/-! ## The cache of a layer -/

/-- Storing a related block keeps a cache sound, whatever is evicted. -/
theorem HashTreeLayer.store_sound {R : Nat → Bytes → Prop} {layer : HashTreeLayer}
    {hashBlockIndex : Nat} {hashBlock : Bytes} (hcache : layer.verifiedHashBlocks.Sound R)
    (hblock : R hashBlockIndex hashBlock) :
    (layer.store hashBlockIndex hashBlock).verifiedHashBlocks.Sound R := by
  unfold store
  dsimp only
  split
  · exact hcache.eraseBegin.emplace hblock
  · exact hcache.emplace hblock

/-! ## The level list -/

theorem layerDetails_succ (hashesPerBlock levels dataBlocks : Nat) :
    layerDetails hashesPerBlock (levels + 1) dataBlocks =
      ⟨divRoundUp dataBlocks hashesPerBlock, dataBlocks⟩ ::
        if divRoundUp dataBlocks hashesPerBlock > 1 then
          layerDetails hashesPerBlock levels (divRoundUp dataBlocks hashesPerBlock)
        else [] := rfl

theorem layerDetails_ne_nil (hashesPerBlock levels dataBlocks : Nat) :
    layerDetails hashesPerBlock (levels + 1) dataBlocks ≠ [] := by
  rw [layerDetails_succ]
  exact List.cons_ne_nil _ _

/-! ## Success -/

/-- What `configure` takes from a superblock that it accepts. -/
theorem DmVerityVerifier.configure_ok {v v' : DmVerityVerifier} {superBlock : VeritySuperBlock}
    (h : v.configure superBlock = .ok v') :
    superBlock.Supported ∧ superBlock.dataBlocks ≠ 0 ∧
    wrap64 (superBlock.dataBlocks * 4096) ≤ 512 * 1024 * 1024 ∧
    v' = { v with
      hashBlockSize := 4096
      dataBlockSize := 4096
      dataBlockCount := superBlock.dataBlocks
      salt := superBlock.salt.take superBlock.saltSize
      hashesPerBlock := 128 } := by
  unfold configure at h
  split at h
  · exact absurd h (by simp)
  · next hcheck =>
    have hs := VeritySuperBlock.checkSuperBlock_ok_iff.mp hcheck
    split_ifs at h with hcount
    rw [hs.hashBlockSize, hs.dataBlockSize] at h
    rw [hs.dataBlockSize, not_or, Nat.not_lt] at hcount
    exact ⟨hs, hcount.1, hcount.2, (Except.ok.inj h).symm⟩

/-- The layers of an opened verifier: the root hash alone, or a top layer whose
digest is the root hash with the lower layers stacked below it. -/
inductive Layered (sha256 : Bytes → Sha256Digest) (fd : HashesFile)
    (v : DmVerityVerifier) (io : Io) :
    Prop
  | single : v.dataBlockCount = 1 → v.layer0 = some (.singleDataBlock ⟨v.rootHash⟩) →
      Layered sha256 fd v io
  | tree {top : LayerDetails} {lower : List LayerDetails} {topLayer : TopMostHashTreeLayer}
      {io₁ : Io} : v.dataBlockCount ≠ 1 →
      (layerDetails 128 maxLevels v.dataBlockCount).reverse = top :: lower →
      TopMostHashTreeLayer.new sha256 fd (wrap64 (v.hashesOffset + 4096)) top.dataBlocks 4096 v.salt
        io₁ = (topLayer, io) →
      topLayer.digest = v.rootHash →
      v.layer0 = some (stackLayers 4096 v.salt (.topMost topLayer) (wrap64 (v.hashesOffset + 4096))
        top lower) →
      Layered sha256 fd v io

/-- What holds of a verifier, and of the world, when `open` has succeeded. -/
structure Opened (sha256 : Bytes → Sha256Digest) (fd : HashesFile) (rootHash : Bytes)
    (v : DmVerityVerifier) (io : Io) : Prop where
  rootHash : v.rootHash.val = rootHash
  dataBlockCount_ne : v.dataBlockCount ≠ 0
  dataBlockCount_lt : v.dataBlockCount < 2 ^ 64
  dataSize_le : wrap64 (v.dataBlockCount * 4096) ≤ 512 * 1024 * 1024
  layered : Layered sha256 fd v io

/-- A successful `buildLayers` of a configured verifier. -/
theorem DmVerityVerifier.buildLayers_ok {v v' : DmVerityVerifier} {io io' : Io}
    (hsize : v.hashBlockSize = 4096) (hper : v.hashesPerBlock = 128)
    (h : v.buildLayers sha256 fd io = (.ok v', io')) :
    v' = { v with layer0 := v'.layer0 } ∧ Layered sha256 fd v' io' := by
  cases v
  cases hsize
  cases hper
  unfold buildLayers at h
  split_ifs at h with hone
  · rw [Prod.mk.injEq] at h
    obtain ⟨h, rfl⟩ := h
    cases h
    exact ⟨rfl, .single hone rfl⟩
  · split at h
    · next hnil => exact absurd (List.reverse_eq_nil_iff.mp hnil) (layerDetails_ne_nil _ _ _)
    · next top lower hdetails =>
      dsimp only at h
      split_ifs at h with hfit hroot
      · exact absurd (Prod.mk.inj h).1 (by simp)
      · exact absurd (Prod.mk.inj h).1 (by simp)
      · rw [Prod.mk.injEq] at h
        obtain ⟨h, rfl⟩ := h
        cases h
        exact ⟨rfl, .tree hone hdetails rfl (not_not.mp hroot) rfl⟩

/-- The lower levels are built only when the hash blocks fit the range, in 64-bit arithmetic. -/
theorem DmVerityVerifier.buildLayers_fits {v v' : DmVerityVerifier} {io io' : Io}
    (h : v.buildLayers sha256 fd io = (.ok v', io')) (hone : v.dataBlockCount ≠ 1) :
    wrap64 ((1 + totalHashBlocks (layerDetails v.hashesPerBlock maxLevels v.dataBlockCount).reverse) *
      v.hashBlockSize) ≤ v.hashesSize := by
  unfold buildLayers at h
  rw [if_neg hone] at h
  split at h
  · next hnil => exact absurd (List.reverse_eq_nil_iff.mp hnil) (layerDetails_ne_nil _ _ _)
  · next top lower hdetails =>
    rw [hdetails]
    dsimp only at h
    split at h
    · cases h
    · next hfit => exact Nat.not_lt.mp hfit

/-- The verifier object after a superblock was accepted, before its layers are built. -/
def DmVerityVerifier.configured (rootHash : Sha256Digest) (hashesOffset hashesSize : Nat)
    (superBlock : VeritySuperBlock) : DmVerityVerifier where
  rootHash := rootHash
  hashesOffset := hashesOffset
  hashesSize := hashesSize
  hashBlockSize := 4096
  hashesPerBlock := 128
  dataBlockSize := 4096
  dataBlockCount := superBlock.dataBlocks
  salt := superBlock.salt.take superBlock.saltSize

/-- What `open` checks and reads before it builds the layers, when it succeeds. -/
theorem DmVerityVerifier.open_inv {rootHash : Bytes} {hashesOffset hashesSize : Option Nat}
    {v : DmVerityVerifier} {io io' : Io}
    (h : «open» sha256 fd rootHash hashesOffset hashesSize io = (.ok v, io')) :
    ∃ fileSize root buf io₁, fd.size = .ok fileSize ∧ root.val = rootHash ∧
      hashesOffset.getD 0 ≤ fileSize ∧
      hashesSize.getD (fileSize - hashesOffset.getD 0) ≤ fileSize - hashesOffset.getD 0 ∧
      (VeritySuperBlock.ofBytes buf).dataBlocks ≠ 0 ∧
      wrap64 ((VeritySuperBlock.ofBytes buf).dataBlocks * 4096) ≤ 512 * 1024 * 1024 ∧
      (configured root (hashesOffset.getD 0) (hashesSize.getD (fileSize - hashesOffset.getD 0))
        (.ofBytes buf)).buildLayers sha256 fd io₁ = (.ok v, io') := by
  unfold «open» at h
  split_ifs at h with hroot
  · split at h
    · exact absurd (Prod.mk.inj h).1 (by simp)
    · next fileSize hfile =>
      dsimp only at h
      split_ifs at h with hoffset hsize
      · exact absurd (Prod.mk.inj h).1 (by simp)
      · exact absurd (Prod.mk.inj h).1 (by simp)
      · unfold parseDmVeritySuperBlock at h
        split at h
        · exact absurd (Prod.mk.inj h).1 (by simp)
        · next buf io₁ hread =>
          split at h
          · exact absurd (Prod.mk.inj h).1 (by simp)
          · next v₁ hconf =>
            obtain ⟨-, hne, hle, rfl⟩ := configure_ok hconf
            exact ⟨fileSize, ⟨rootHash, hroot⟩, buf, io₁, hfile, rfl, Nat.not_lt.mp hoffset,
              Nat.not_lt.mp hsize, hne, hle, h⟩
  · exact absurd (Prod.mk.inj h).1 (by simp)

/-- What a successful `open` has established. -/
theorem DmVerityVerifier.open_ok {rootHash : Bytes} {hashesOffset hashesSize : Option Nat}
    {v : DmVerityVerifier} {io io' : Io}
    (h : «open» sha256 fd rootHash hashesOffset hashesSize io = (.ok v, io')) :
    Opened sha256 fd rootHash v io' := by
  obtain ⟨fileSize, root, buf, io₁, -, hroot, -, -, hne, hle, hbuild⟩ := open_inv h
  obtain ⟨heq, hlayered⟩ := buildLayers_ok rfl rfl hbuild
  rw [heq] at hlayered ⊢
  exact ⟨hroot, hne, VeritySuperBlock.dataBlocks_lt buf, hle, hlayered⟩

/-! ## Conditions for success -/

/-- `open` on a range inside the file that starts with a supported superblock goes
on to build the layers. -/
theorem DmVerityVerifier.open_eq_buildLayers {rootHash : Sha256Digest}
    {hashesOffset hashesSize : Option Nat} {fileSize : Nat} {buf : Bytes} {io io' : Io}
    {superBlock : VeritySuperBlock} (hfile : fd.size = .ok fileSize)
    (hoffset : hashesOffset.getD 0 ≤ fileSize)
    (hsize : hashesSize.getD (fileSize - hashesOffset.getD 0) ≤ fileSize - hashesOffset.getD 0)
    (hread : preadFull fd 4096 (hashesOffset.getD 0) io = (some buf, io'))
    (hbuf : .ofBytes buf = superBlock) (hsupported : superBlock.Supported)
    (hcount : superBlock.dataBlocks ≠ 0)
    (hle : wrap64 (superBlock.dataBlocks * 4096) ≤ 512 * 1024 * 1024) :
    «open» sha256 fd rootHash.val hashesOffset hashesSize io =
      (configured rootHash (hashesOffset.getD 0)
        (hashesSize.getD (fileSize - hashesOffset.getD 0)) superBlock).buildLayers
          sha256 fd io' := by
  have hcheck := VeritySuperBlock.checkSuperBlock_ok_iff.mpr hsupported
  have hlimit : ¬ (superBlock.dataBlocks = 0 ∨
      wrap64 (superBlock.dataBlocks * 4096) > 512 * 1024 * 1024) :=
    not_or.mpr ⟨hcount, Nat.not_lt.mpr hle⟩
  simp only [«open», kSha256DigestSize, rootHash.property, dif_pos, hfile,
    if_neg (Nat.not_lt.mpr hoffset), if_neg (Nat.not_lt.mpr hsize), parseDmVeritySuperBlock, hread,
    hbuf, configure, hcheck, hsupported.hashBlockSize, hsupported.dataBlockSize, if_neg hlimit]
  rfl

/-- The layer of a tree over a single block. -/
theorem DmVerityVerifier.buildLayers_single {v : DmVerityVerifier} {io : Io}
    (hone : v.dataBlockCount = 1) :
    v.buildLayers sha256 fd io =
      (.ok { v with layer0 := some (.singleDataBlock ⟨v.rootHash⟩) }, io) := if_pos hone

/-- The layers of a tree with more than one block, when the top block has the
digest `rootHash`. -/
theorem DmVerityVerifier.buildLayers_eq {v : DmVerityVerifier} {io io' : Io}
    {top : LayerDetails} {lower : List LayerDetails} {topLayer : TopMostHashTreeLayer}
    (hone : v.dataBlockCount ≠ 1)
    (hdetails : (layerDetails v.hashesPerBlock maxLevels v.dataBlockCount).reverse = top :: lower)
    (hfit : wrap64 ((1 + totalHashBlocks (top :: lower)) * v.hashBlockSize) ≤ v.hashesSize)
    (hnew : TopMostHashTreeLayer.new sha256 fd (wrap64 (v.hashesOffset + v.hashBlockSize))
      top.dataBlocks v.hashBlockSize v.salt io = (topLayer, io'))
    (hroot : topLayer.digest = v.rootHash) :
    v.buildLayers sha256 fd io =
      (.ok { v with layer0 := some (stackLayers v.hashBlockSize v.salt (.topMost topLayer)
        (wrap64 (v.hashesOffset + v.hashBlockSize)) top lower) }, io') := by
  simp only [buildLayers, if_neg hone, hdetails, if_neg (Nat.not_lt.mpr hfit), hnew, hroot, ne_eq,
    not_true, if_false]

end DmVerity
