import Ralf.Erofs.DirectoryReads

/-!
# Images with unreadable blocks

Parts of an image cannot be read, and what a read of them leaves in a buffer is left open. The
data of a flat directory can be read if and only if none of its bytes is in such a part
(`dataReadable_iff`).

`failures_without_influence`: as long as the unreadable parts do not meet the data of the
directories that are reached, failed reads have no influence on what the reader gives.
-/

namespace Erofs

variable {σ τ : Type}

/-! ## Data in parts that can be read -/

/-- The data is in plain blocks, or in plain blocks with a tail behind the inode. -/
def ErofsInode.IsFlat (inode : ErofsInode) : Prop :=
  inode.dataFormat = .flatPlain ∨
    inode.dataFormat = .flatInline ∧ ¬ inode.superBlock.blockSize ∣ inode.size

/-- When a data reader fills buffers exactly if all their bytes can be read, the blocks of the data
can be read exactly if all bytes of it can be. -/
theorem exists_readsBlocks_iff {file : IErofsImageFile σ} {lz4 : Lz4} {blockSize size : Nat}
    {reader : IErofsInodeDataReader} {P : Nat → Prop} (hpos : 0 < blockSize)
    (hread : ∀ (buffer : Bytes) offset s, offset < size → blockSize ∣ offset →
      buffer.length = min blockSize (size - offset) →
      ∃ success data s', reader.read file lz4 buffer offset s = .ok (success, data, reader, s') ∧
        (success = true ↔ ∀ i < buffer.length, P (offset + i)))
    {inode : ErofsInode} (hsize : inode.size = size) {offset : Nat} {s : σ}
    (hreader : ∀ s, inode.dataReader file s = .ok (some reader, s))
    (hoffset : blockSize ∣ offset ∨ size ≤ offset) :
    (∃ blocks, ReadsBlocks file lz4 blockSize inode offset s blocks) ↔
      ∀ i, offset ≤ i → i < size → P i := by
  generalize hleft : size - offset = left
  induction left using Nat.strong_induction_on generalizing inode offset s with
  | _ left ih =>
  rcases Nat.lt_or_ge offset size with hlt | hge
  swap
  · exact iff_of_true ⟨[], .done (hsize.trans_le hge)⟩ fun i hle hi => by omega
  have hdvd := hoffset.resolve_right (Nat.not_le.mpr hlt)
  -- a read at the offset, with any buffer of the right size
  have hturn : ∀ buffer : Bytes, buffer.length = min blockSize (size - offset) →
      ∃ success data s', inode.read file lz4 buffer offset s =
          .ok (if success = true then (buffer.length : Int) else -1, data,
            { inode with inodeReader := some reader }, s') ∧
        (success = true ↔ ∀ i < buffer.length, P (offset + i)) := by
    intro buffer hbuffer
    obtain ⟨success, data, s', hfill, hsuccess⟩ := hread buffer offset s hlt hdvd hbuffer
    refine ⟨success, data, s', ?_, hsuccess⟩
    unfold ErofsInode.read
    rw [if_neg (by omega), hreader s, hsize, Nat.min_eq_left (by omega)]
    dsimp only
    rw [List.take_length, hfill, List.drop_length]
    dsimp only
    rw [List.append_nil]
  have hnext : ∀ s', (∃ blocks, ReadsBlocks file lz4 blockSize
        { inode with inodeReader := some reader } (offset + min blockSize (size - offset)) s'
          blocks) ↔
      ∀ i, offset + min blockSize (size - offset) ≤ i → i < size → P i := by
    intro s'
    refine @ih (size - (offset + min blockSize (size - offset))) (by omega)
      { inode with inodeReader := some reader } hsize _ s' (fun _ => rfl) ?_ rfl
    rcases Nat.le_total blockSize (size - offset) with hle | hle
    · rw [Nat.min_eq_left hle]
      exact .inl (Nat.dvd_add hdvd (Nat.dvd_refl _))
    · rw [Nat.min_eq_right hle]
      omega
  constructor
  · rintro ⟨blocks, hblocks⟩ i hle hi
    cases hblocks with
    | done hend => omega
    | @block _ inode' _ _ s' buffer block rest _ hbuffer hfill hrest =>
      rw [hsize] at hbuffer
      obtain ⟨success, data, s'', hfill', hsuccess⟩ := hturn buffer hbuffer
      rw [hfill'] at hfill
      obtain ⟨hrd, hsame⟩ := Prod.mk.inj (Except.ok.inj hfill)
      obtain ⟨-, hsame⟩ := Prod.mk.inj hsame
      obtain ⟨rfl, rfl⟩ := Prod.mk.inj hsame
      split at hrd
      swap
      · omega
      next hsucceeds =>
      rcases Nat.lt_or_ge i (offset + buffer.length) with hnear | hfar
      · have hbyte := hsuccess.mp hsucceeds (i - offset) (by omega)
        rwa [Nat.add_sub_cancel' hle] at hbyte
      · rw [hbuffer] at hrest hfar
        exact (hnext _).mp ⟨rest, hrest⟩ i hfar hi
  · intro hall
    obtain ⟨success, data, s', hfill, hsuccess⟩ :=
      hturn (List.replicate (min blockSize (size - offset)) 0) List.length_replicate
    rw [List.length_replicate] at hfill hsuccess
    obtain ⟨rest, hrest⟩ := (hnext s').mpr fun i hle hi => hall i (by omega) hi
    have hsucceeds := hsuccess.mpr fun i hi => hall (offset + i) (by omega) (by omega)
    rw [if_pos hsucceeds] at hfill
    have hlength : (List.replicate (min blockSize (size - offset)) (0 : UInt8)).length =
        min blockSize (size - offset) := List.length_replicate
    refine ⟨data :: rest, @ReadsBlocks.block σ file lz4 blockSize inode
      { inode with inodeReader := some reader } offset s s' _ data rest (hlt.trans_eq hsize.symm)
      (hlength.trans (by rw [hsize])) ?_ ?_⟩
    · rw [hlength]
      exact hfill
    · rw [hlength]
      exact hrest

/-- An image of which only some bytes can be read. A read that meets another one fails, and leaves
in the buffer what `leaves` says. -/
def damagedImage (size : Nat) (hsize : size < 2 ^ 64) (byte : Nat → UInt8) (readable : Nat → Bool)
    (leaves : Bytes → Nat → Bytes) : IErofsImageFile Unit where
  size := size
  size_lt := hsize
  read _ buffer offset :=
    if offset < size ∧ ((List.range buffer.length).all fun i =>
        decide (offset + i < size) && readable (offset + i)) = true then
      (true, (List.range buffer.length).map fun i => byte (offset + i), ())
    else (false, resize (leaves buffer offset) buffer.length, ())
  read_length _ buffer offset := by
    split
    · simp
    · simp [resize]
      omega

section
variable {size : Nat} {hsize : size < 2 ^ 64} {byte : Nat → UInt8} {readable : Nat → Bool}
  {leaves leaves' : Bytes → Nat → Bytes} {lz4 : Lz4} {superBlock : ErofsSuperBlock} {n : Nat}

theorem damagedImage_read (buffer : Bytes) (offset : Nat) (s : Unit) :
    ∃ success data, (damagedImage size hsize byte readable leaves).read s buffer offset =
        (success, data, ()) ∧
      (success = true ↔ offset < size ∧
        ∀ i < buffer.length, offset + i < size ∧ readable (offset + i) = true) := by
  have hall : ((List.range buffer.length).all fun i =>
        decide (offset + i < size) && readable (offset + i)) = true ↔
      ∀ i < buffer.length, offset + i < size ∧ readable (offset + i) = true := by
    simp only [List.all_eq_true, List.mem_range, Bool.and_eq_true, decide_eq_true_eq]
  unfold damagedImage
  dsimp only
  split
  · next hread => exact ⟨true, _, rfl, iff_of_true rfl (hread.imp id hall.mp)⟩
  · next hread =>
    exact ⟨false, _, rfl, iff_of_false Bool.false_ne_true fun h => hread (h.imp id hall.mpr)⟩

/-- What failed reads leave is the only difference. -/
theorem damagedImage_agree : Agree (fun _ _ => True)
    (damagedImage size hsize byte readable leaves)
    (damagedImage size hsize byte readable leaves') where
  size := rfl
  read s t buffer buffer' offset := by
    rintro - hlength
    unfold damagedImage
    dsimp only
    rw [hlength]
    split
    · exact ⟨rfl, trivial⟩
    · trivial

theorem damagedImage_read_iff {buffer : Bytes} {offset : Nat} (s : Unit) (hpos : 0 < buffer.length) :
    ∃ success data, (damagedImage size hsize byte readable leaves).read s buffer offset =
        (success, data, ()) ∧
      (success = true ↔
        ∀ i < buffer.length, offset + i < size ∧ readable (offset + i) = true) := by
  obtain ⟨success, data, hread, hsuccess⟩ :=
    @damagedImage_read size hsize byte readable leaves buffer offset s
  refine ⟨success, data, hread, hsuccess.trans ?_⟩
  rw [and_iff_right_iff_imp]
  exact fun hall => (hall 0 hpos).1

/-- An inode that was just made has no data reader. -/
theorem ErofsInode.new_fresh {file : IErofsImageFile σ} {hints : Nat} {s s' : σ} {inode : ErofsInode}
    (h : ErofsInode.new file superBlock n hints s = (inode, s')) :
    inode.superBlock = superBlock ∧ inode.inodeReader = none := by
  unfold ErofsInode.new at h
  dsimp only at h
  split at h
  · cases h
    exact ⟨rfl, rfl⟩
  split at h
  · cases h
    unfold processCompactInode
    split
    · exact ⟨rfl, rfl⟩
    · exact ⟨rfl, rfl⟩
  split at h
  · cases h
    exact ⟨rfl, rfl⟩
  · cases h
    unfold processExtendedInode
    split
    · exact ⟨rfl, rfl⟩
    split
    · exact ⟨rfl, rfl⟩
    · exact ⟨rfl, rfl⟩

/-- A read of plain blocks succeeds if all its bytes can be read. -/
theorem flatPlain_read_iff {reader : ErofsInodeFlatPlainDataReader} {buffer : Bytes} {offset : Nat}
    (s : Unit) (hpos : 0 < buffer.length) (hfits : offset + buffer.length ≤ reader.dataSize)
    (hwrap : reader.blocksAddress + offset < 2 ^ 64) :
    ∃ success data,
      reader.read (damagedImage size hsize byte readable leaves) buffer offset s =
        (success, data, ()) ∧
      (success = true ↔ ∀ i < buffer.length,
        reader.blocksAddress + offset + i < size ∧
          readable (reader.blocksAddress + offset + i) = true) := by
  unfold ErofsInodeFlatPlainDataReader.read
  rw [if_neg (by omega), wrap64_of_lt hwrap]
  exact damagedImage_read_iff s hpos

/-- A read of one block of inline data succeeds if all its bytes can be read, in the blocks or in
the tail. -/
theorem flatInline_read_iff {blockAddr tailBlockAddr blockSize dataSize k : Nat} {buffer : Bytes}
    (s : Unit) (hoffset : blockSize * k < dataSize)
    (hbuffer : buffer.length = min blockSize (dataSize - blockSize * k)) (hpos : 0 < blockSize)
    (htail : tailBlockAddr < size) (hwrap : k < dataSize / blockSize →
      blockAddr + blockSize * k < 2 ^ 64) :
    ∃ success data,
      (ErofsInodeFlatInlineDataReader.new blockAddr tailBlockAddr blockSize dataSize).read
          (damagedImage size hsize byte readable leaves) buffer (blockSize * k) s =
        (success, data, ()) ∧
      (success = true ↔ ∀ i < buffer.length,
        let place := if k < dataSize / blockSize then blockAddr + blockSize * k + i
          else tailBlockAddr + i
        place < size ∧ readable place = true) := by
  have hlt : dataSize < dataSize / blockSize * blockSize + blockSize := Nat.lt_div_mul_add hpos
  have hle := Nat.div_mul_le_self dataSize blockSize
  unfold ErofsInodeFlatInlineDataReader.read ErofsInodeFlatInlineDataReader.new
  dsimp only
  generalize dataSize / blockSize = whole at hlt hle hwrap
  have hmul : whole * blockSize = blockSize * whole := Nat.mul_comm _ _
  rw [if_neg (by omega)]
  by_cases hk : k < whole
  · have hnext : blockSize * k + blockSize ≤ blockSize * whole := by
      rw [← Nat.mul_succ]
      exact Nat.mul_le_mul_left blockSize hk
    rw [wrap64_of_lt (hwrap hk)]
    have hlength : buffer.length = blockSize := by omega
    obtain ⟨success, data, hread, hsuccess⟩ :=
      @damagedImage_read_iff size hsize byte readable leaves buffer (blockAddr + blockSize * k) s
        (by omega)
    simp only [if_pos hk]
    by_cases hlast : blockSize * k + buffer.length ≥ whole * blockSize
    · -- the read of the tail is for no bytes
      rw [if_pos hlast, if_neg (by omega),
        List.take_of_length_le (by omega), List.drop_of_length_le (by omega), hread]
      obtain ⟨empty, tail, htailRead, hempty⟩ :=
        @damagedImage_read size hsize byte readable leaves [] tailBlockAddr s
      rw [hempty.mpr ⟨htail, fun i hi => absurd hi (Nat.not_lt_zero i)⟩] at htailRead
      cases success with
      | false => exact ⟨false, _, rfl, hsuccess⟩
      | true =>
        simp only [htailRead]
        exact ⟨true, _, rfl, hsuccess⟩
    · rw [if_neg hlast, hread]
      exact ⟨success, data, rfl, hsuccess⟩
  · obtain rfl : k = whole := by
      refine Nat.le_antisymm (Nat.le_of_lt_succ ?_) (Nat.not_lt.mp hk)
      exact Nat.lt_of_mul_lt_mul_left (a := blockSize) (by rw [Nat.mul_succ]; omega)
    rw [if_pos (by omega), if_pos (by omega), show blockSize * k - k * blockSize = 0 by omega,
      Nat.add_zero, wrap64_of_lt (htail.trans hsize)]
    simp only [if_neg hk]
    exact damagedImage_read_iff s (by omega)

/-- The data of a flat directory inside the image can be read if and only if all its bytes can
be. -/
theorem dataReadable_iff {inode : ErofsInode}
    (hinode : (ErofsInode.new (damagedImage size hsize byte readable leaves)
      superBlock n 0 ()).1 = inode) (htype : inode.type = .directory) (hflat : inode.IsFlat)
    (hpos : 0 < superBlock.blockSize) (hinside : ∀ i < inode.size, inode.address i < size) :
    DataReadable (damagedImage size hsize byte readable leaves) lz4 superBlock () n ↔
      ∀ i < inode.size, readable (inode.address i) = true := by
  obtain ⟨hsuper, hfresh⟩ := ErofsInode.new_fresh (Prod.mk.eta.symm.trans
    (congrArg (fun x => (x, _)) hinode))
  have hstate : (ErofsInode.new (damagedImage size hsize byte readable leaves)
    superBlock n 0 ()).2 = () := rfl
  have hdata : DataReadable (damagedImage size hsize byte readable leaves) lz4 superBlock () n ↔
      ∃ blocks, ReadsBlocks (damagedImage size hsize byte readable leaves) lz4
        superBlock.blockSize inode 0 () blocks := by
    unfold DataReadable DirectoryData
    rw [hinode]
    exact ⟨fun h => (h htype).imp fun _ hblocks => hblocks.2,
      fun h _ => h.imp fun _ hblocks => ⟨htype, hblocks⟩⟩
  have hall : (∀ i, 0 ≤ i → i < inode.size → inode.address i < size ∧
      readable (inode.address i) = true) ↔ ∀ i < inode.size, readable (inode.address i) = true :=
    ⟨fun h i hi => (h i (Nat.zero_le i) hi).2, fun h i _ hi => ⟨hinside i hi, h i hi⟩⟩
  rw [hdata, ← hall]
  rcases hflat with hformat | ⟨hformat, hdvd⟩
  · have haddress : ∀ i, inode.address i = inode.rawBlockAddress + i := by
      intro i
      unfold ErofsInode.address
      rw [if_neg]
      rintro ⟨hinline, -⟩
      rw [hformat] at hinline
      cases hinline
    refine @exists_readsBlocks_iff _ _ lz4 _ inode.size
      (.flatPlain ⟨inode.rawBlockAddress, inode.size⟩) _ hpos ?_ inode rfl 0 () ?_ (.inl ?_)
    · intro buffer offset s hlt _ hbuffer
      have hplace := hinside offset hlt
      rw [haddress] at hplace
      obtain ⟨success, data, hread, hsuccess⟩ := @flatPlain_read_iff size hsize byte readable leaves
        ⟨inode.rawBlockAddress, inode.size⟩ buffer offset s (by omega)
        (show _ ≤ inode.size by omega) (hplace.trans hsize)
      refine ⟨success, data, (), ?_, hsuccess.trans ?_⟩
      · unfold IErofsInodeDataReader.read
        dsimp only
        rw [hread]
      · simp only [haddress, Nat.add_assoc]
    · intro s
      unfold ErofsInode.dataReader ErofsInode.createReader
      rw [hfresh, hformat]
    · exact Nat.dvd_zero _
  · have hlt := @Nat.lt_div_mul_add inode.size _ hpos
    have hle := Nat.div_mul_le_self inode.size superBlock.blockSize
    rw [hsuper] at hdvd
    have htail : inode.size / superBlock.blockSize * superBlock.blockSize < inode.size := by
      refine Nat.lt_of_le_of_ne hle fun heq => hdvd ⟨_, heq.symm.trans (Nat.mul_comm _ _)⟩
    have haddress : ∀ k i, superBlock.blockSize * k + i < inode.size →
        i < superBlock.blockSize →
        inode.address (superBlock.blockSize * k + i) =
          if k < inode.size / superBlock.blockSize then
            inode.rawBlockAddress + superBlock.blockSize * k + i
          else wrap64 (inode.inodeFileOffset + inode.inodeHeaderSize) + i := by
      intro k i hi hsmall
      unfold ErofsInode.address
      rw [hsuper]
      dsimp only
      generalize inode.size / superBlock.blockSize = whole at hlt hle
      have hmul : whole * superBlock.blockSize = superBlock.blockSize * whole := Nat.mul_comm _ _
      by_cases hk : k < whole
      · have hnext : superBlock.blockSize * k + superBlock.blockSize ≤
            superBlock.blockSize * whole := by
          rw [← Nat.mul_succ]
          exact Nat.mul_le_mul_left superBlock.blockSize hk
        rw [if_neg (by omega), if_pos hk, Nat.add_assoc]
      · have hge := Nat.mul_le_mul_left superBlock.blockSize (Nat.not_lt.mp hk)
        obtain rfl : k = whole := by
          refine Nat.le_antisymm (Nat.le_of_lt_succ ?_) (Nat.not_lt.mp hk)
          exact Nat.lt_of_mul_lt_mul_left (a := superBlock.blockSize) (by
            rw [Nat.mul_succ]
            omega)
        rw [if_pos ⟨hformat, by omega⟩, if_neg hk]
        omega
    refine @exists_readsBlocks_iff _ _ lz4 _ inode.size
      (.flatInline (.new inode.rawBlockAddress
        (wrap64 (inode.inodeFileOffset + inode.inodeHeaderSize)) superBlock.blockSize inode.size))
      _ hpos ?_ inode rfl 0 () ?_ (.inl (Nat.dvd_zero _))
    · intro buffer offset s hoffset hk hbuffer
      obtain ⟨k, rfl⟩ := hk
      have htailPlace := hinside _ htail
      have htailAddress := haddress (inode.size / superBlock.blockSize) 0
      rw [Nat.add_zero, Nat.mul_comm] at htailAddress
      rw [htailAddress htail hpos, if_neg (Nat.lt_irrefl _), Nat.add_zero] at htailPlace
      have hwrap : k < inode.size / superBlock.blockSize →
          inode.rawBlockAddress + superBlock.blockSize * k < 2 ^ 64 := by
        intro hk
        have hplace := hinside _ hoffset
        have hplaceAddress := haddress k 0 hoffset hpos
        rw [Nat.add_zero, if_pos hk] at hplaceAddress
        rw [hplaceAddress] at hplace
        exact hplace.trans hsize
      obtain ⟨success, data, hread, hsuccess⟩ :=
        @flatInline_read_iff size hsize byte readable leaves inode.rawBlockAddress _ _ _ k buffer s
          hoffset hbuffer hpos htailPlace hwrap
      refine ⟨success, data, (), ?_, hsuccess.trans (forall_congr' fun i => imp_congr_right fun hi => ?_)⟩
      · unfold IErofsInodeDataReader.read
        dsimp only
        rw [hread]
      · rw [haddress k i (by omega) (by omega)]
    · intro s
      unfold ErofsInode.dataReader ErofsInode.createReader
      rw [hfresh, hformat, hsuper]

end

/-! ## Failed reads have no influence -/

/-- A file that counts its failed reads. -/
def IErofsImageFile.counting (file : IErofsImageFile σ) : IErofsImageFile (σ × Nat) where
  size := file.size
  size_lt := file.size_lt
  read s buffer offset :=
    match file.read s.1 buffer offset with
    | (true, data, s') => (true, data, (s', s.2))
    | (false, data, s') => (false, data, (s', s.2 + 1))
  read_length s buffer offset := by
    have hlength := file.read_length s.1 buffer offset
    split
    · next hread =>
      rw [hread] at hlength
      exact hlength
    · next hread =>
      rw [hread] at hlength
      exact hlength

/-- As long as no read fails, counting changes nothing and the count stays. -/
theorem counting_agree {S : σ → τ → Prop} {file : IErofsImageFile σ} {file' : IErofsImageFile τ}
    (h : Agree S file file') (failures : Nat) :
    Agree (fun s t => S s.1 t ∧ s.2 = failures) file.counting file' where
  size := h.size
  read s t buffer buffer' offset := by
    rintro ⟨hs, hcount⟩ hbuffer
    unfold IErofsImageFile.counting
    obtain ⟨_, _, _, _, hx, hy⟩ | ⟨data, s', t', hx, hy, hs'⟩ :=
      (h.read s.1 t buffer buffer' offset hs hbuffer).cases
    · simp only [hx, hy]
      trivial
    · simp only [hx, hy]
      exact ⟨rfl, hs', hcount⟩

namespace ErofsReader

variable {lz4 : Lz4}

/-- No directory is given for which a read of the file failed, if its data can be read. -/
theorem readDirectory_failed {S : σ → τ → Prop} {file : IErofsImageFile σ}
    {file' : IErofsImageFile τ} (h : Agree S file file') {superBlock : ErofsSuperBlock}
    {n : Nat} {reader reader' : ErofsReader} {s s' : σ} {t : τ} {failures failures' : Nat}
    {entries : Option (List DirEntry)} (hs : S s t)
    (hbuffer : superBlock.blockSize ≤ reader.dirBlockBuffer.length)
    (hdata : DataReadable file lz4 superBlock s n)
    (hread : readDirectory file.counting lz4 superBlock n reader (s, failures) =
      .ok (entries, reader', (s', failures'))) (hne : failures' ≠ failures) : entries = none := by
  by_contra hsome
  obtain ⟨entries, rfl⟩ := Option.ne_none_iff_exists'.mp hsome
  have hcounting := counting_agree h failures
  have htype := readDirectory_type hread
  rw [(ErofsInode.new_alike hcounting (s := (s, failures)) (t := t) ⟨hs, rfl⟩ superBlock n 0).1,
    ← (ErofsInode.new_alike h hs superBlock n 0).1] at htype
  obtain ⟨blocks, hdata⟩ := hdata htype
  obtain ⟨⟨_, -, hcount⟩, -⟩ :=
    @readDirectory_dirents _ _ file.counting file' lz4 _ hcounting (s, failures) (s', failures') t
      ⟨hs, rfl⟩ superBlock n blocks (hdata.alike h hs) entries reader reader' hbuffer hread
  exact hne hcount

/-- For files that agree but for what their failed reads leave: no directory whose data can be read
is given when a read of the file failed, and in runs through such directories only, failed reads
have no influence on the entries. The data of a flat directory can be read if none of its bytes is in
a part of the image that cannot be. -/
theorem failures_without_influence {S : σ → τ → Prop} {file : IErofsImageFile σ}
    {file' : IErofsImageFile τ} (h : Agree S file file') :
    (∀ superBlock dirInode reader s t failures entries reader' s' failures', S s t →
      superBlock.blockSize ≤ reader.dirBlockBuffer.length →
      DataReadable file lz4 superBlock s dirInode →
      readDirectory file.counting lz4 superBlock dirInode reader (s, failures) =
          .ok (entries, reader', (s', failures')) →
        failures' ≠ failures → entries = none) ∧
    (∀ calls s t reader reader' s₁ t₁ entries entries' final final' s₂ t₂, S s t →
      (∀ superBlock, superBlockOf file s = some superBlock →
        ReachedReadable S file lz4 superBlock) →
      ErofsReader.new file lz4 s = .ok (reader, s₁) →
      takeNext file lz4 calls reader s₁ = .ok (entries, final, s₂) →
      ErofsReader.new file' lz4 t = .ok (reader', t₁) →
      takeNext file' lz4 calls reader' t₁ = .ok (entries', final', t₂) →
      entries = entries') ∧
    ∀ size hsize byte readable leaves superBlock n inode,
      (ErofsInode.new (damagedImage size hsize byte readable leaves) superBlock n 0 ()).1 = inode →
      inode.type = .directory → inode.IsFlat → 0 < superBlock.blockSize →
      (∀ i < inode.size, inode.address i < size) →
      (DataReadable (damagedImage size hsize byte readable leaves) lz4 superBlock () n ↔
        ∀ i < inode.size, readable (inode.address i) = true) := by
  refine ⟨fun superBlock dirInode reader s t failures entries reader' s' failures' hs hbuffer hdata
    hread hne => readDirectory_failed h hs hbuffer hdata hread hne, ?_,
    fun size hsize byte readable leaves superBlock n inode hinode htype hflat hpos hinside =>
      dataReadable_iff hinode htype hflat hpos hinside⟩
  intro calls s t reader reader' s₁ t₁ entries entries' final final' s₂ t₂ hs hreadable hnew htake
    hnew' htake'
  obtain ⟨buffer', hbuffer', rfl, -, hgo⟩ := new_lockstep h hs hreadable hnew hnew'
  obtain ⟨_, -, -, heq, -⟩ := takeNext_lockstep h calls reader hbuffer' hgo _ _ htake htake'
  exact heq

/-! ### A directory of two blocks -/

/-- An LZ4 that is not used. -/
def noLz4 : Lz4 where
  decompress _ _ dst := (false, dst)
  decompress_length _ _ _ := rfl
  decompress_determined _ _ _ _ _ := ⟨rfl, fun h => nomatch h⟩

/-- The bytes of an image with a root directory of 13 bytes, whose block is at 8192. -/
def rootByte (offset : Nat) : UInt8 :=
  match offset with
  | 1024 => 0xe2
  | 1025 => 0xe1
  | 1026 => 0xf5
  | 1027 => 0xe0
  -- blocks of 4096 bytes, and the root inode 64
  | 1036 => 12
  | 1038 => 64
  -- the mode, the size and the block of the inode
  | 2052 => 0xed
  | 2053 => 0x41
  | 2056 => 13
  | 2064 => 2
  | _ => 0

/-- A directory block with one entry. -/
def oneEntryBlock (nid fileType name : UInt8) : Bytes :=
  [nid, 0, 0, 0, 0, 0, 0, 0, 12, 0, fileType, 0, name]

/-- The bytes of an image whose root directory has an entry in each of two blocks: the directory
`a`, the inode 65, and the empty file `b`, the inode 66. The directory has an empty file `c`, the
inode 200, which is in another block of inodes. -/
def treeByte (offset : Nat) : UInt8 :=
  if offset < 8192 then
    match offset with
    -- the root directory has 4109 bytes
    | 2057 => 16
    | 2084 => 0xed
    | 2085 => 0x41
    | 2088 => 13
    | 2096 => 4
    | 2116 => 0xa4
    | 2117 => 0x81
    | 6404 => 0xa4
    | 6405 => 0x81
    | _ => rootByte offset
  else if offset < 12288 then (oneEntryBlock 65 2 97).getD (offset - 8192) 0
  else if offset < 16384 then (oneEntryBlock 66 1 98).getD (offset - 12288) 0
  else (oneEntryBlock 200 1 99).getD (offset - 16384) 0

theorem treeImage_size_lt : 20480 < 2 ^ 64 := by decide

/-- The image, of which the bytes from `first` to `last` cannot be read. A read of them leaves an
entry with a name. -/
def treeImage (first last : Nat) (name : UInt8) : IErofsImageFile Unit :=
  damagedImage 20480 treeImage_size_lt treeByte (fun i => decide (i < first ∨ last < i))
    fun _ _ => oneEntryBlock 64 1 name

/-- The superblock of the image. -/
def treeSuperBlock : ErofsSuperBlock := ⟨⟨0xe0f5e1e2, 0, 0, 12, 0, 64, 0, 0, 0, 0⟩, 4096⟩

/-- The entries that the first calls of `next` give. -/
def entriesOf (file : IErofsImageFile Unit) (calls : Nat) : Option (List (Option ErofsEntry)) :=
  match ErofsReader.new file noLz4 () with
  | .error _ => none
  | .ok (reader, _) =>
    match takeNext file noLz4 calls reader () with
    | .error _ => none
    | .ok (entries, _, _) => some entries

theorem exists_run_of_entriesOf {file : IErofsImageFile Unit} {calls : Nat}
    {entries : List (Option ErofsEntry)} (h : entriesOf file calls = some entries) :
    ∃ reader final, ErofsReader.new file noLz4 () = .ok (reader, ()) ∧
      takeNext file noLz4 calls reader () = .ok (entries, final, ()) := by
  unfold entriesOf at h
  split at h
  · cases h
  next reader _ hnew =>
  split at h
  · cases h
  next final _ htake =>
  cases h
  exact ⟨reader, final, hnew, htake⟩

/-- What reading a directory gives, and the number of reads that failed. -/
def readCounting (file : IErofsImageFile Unit) (n : Nat) :
    Option (Option (List DirEntry) × Nat) :=
  match readDirectory file.counting noLz4 treeSuperBlock n
      { dirBlockBuffer := List.replicate 4096 0 } ((), 0) with
  | .error _ => none
  | .ok (entries, _, (_, failures)) => some (entries, failures)

theorem treeImage_agree (first last : Nat) (name name' : UInt8) : Agree (fun _ _ => True)
    (treeImage first last name) (treeImage first last name') :=
  damagedImage_agree

/-- The inode 200 cannot be read, and its directories can. -/
theorem treeImage_readable (name : UInt8)
    (hroot : DirectoryEntries (treeImage 4096 8191 name) noLz4 treeSuperBlock () 64
      [⟨65, [97], .directory⟩, ⟨66, [98], .regular⟩])
    (hsub : DirectoryEntries (treeImage 4096 8191 name) noLz4 treeSuperBlock () 65
      [⟨200, [99], .regular⟩]) :
    ReachedReadable (fun (_ _ : Unit) => True) (treeImage 4096 8191 name) noLz4 treeSuperBlock := by
  have hagree := treeImage_agree 4096 8191 name name
  have hreached : ∀ n, Reached (fun (_ _ : Unit) => True) (treeImage 4096 8191 name) noLz4
      treeSuperBlock n → n = 64 ∨ n = 65 := by
    intro n hn
    induction hn with
    | root => exact .inl rfl
    | sub _ _ hentries hentry htype ih =>
      rcases ih with rfl | rfl
      · obtain rfl := hroot.eq hagree trivial hentries
        rcases List.mem_pair.mp hentry with rfl | rfl
        · exact .inr rfl
        · cases htype
      · obtain rfl := hsub.eq hagree trivial hentries
        obtain rfl := List.mem_singleton.mp hentry
        cases htype
  intro n hn s t _ _
  rcases hreached n hn with rfl | rfl
  · obtain ⟨blocks, hdata, -⟩ := hroot
    exact ⟨blocks, hdata⟩
  · obtain ⟨blocks, hdata, -⟩ := hsub
    exact ⟨blocks, hdata⟩

/-- The third entry of an image cannot be read: the reader stops there, and what the failed read
leaves has no influence on the entries before. -/
theorem failures_without_influence_inode :
    entriesOf (treeImage 4096 8191 97) 3 = entriesOf (treeImage 4096 8191 98) 3 ∧
      ((entriesOf (treeImage 4096 8191 97) 3).map fun entries => entries.map Option.isSome) =
        some [true, true, false] ∧
      (readCounting (treeImage 4096 8191 97) 200).map Prod.fst = some none := by
  have hroot : DirectoryEntries (treeImage 4096 8191 97) noLz4 treeSuperBlock () 64
      [⟨65, [97], .directory⟩, ⟨66, [98], .regular⟩] :=
    @directoryEntries_of_directoryBlocks _ _ _ _ _ _ _ 3 (by decide +kernel)
  have hsub : DirectoryEntries (treeImage 4096 8191 97) noLz4 treeSuperBlock () 65
      [⟨200, [99], .regular⟩] :=
    @directoryEntries_of_directoryBlocks _ _ _ _ _ _ _ 3 (by decide +kernel)
  have hsuper : superBlockOf (treeImage 4096 8191 97) () = some treeSuperBlock := by decide +kernel
  have hsome : ((entriesOf (treeImage 4096 8191 97) 3).map fun entries =>
      entries.map Option.isSome) = some [true, true, false] := by decide +kernel
  have hsome' : ((entriesOf (treeImage 4096 8191 98) 3).map fun entries =>
      entries.map Option.isSome) = some [true, true, false] := by decide +kernel
  have hcount : (readCounting (treeImage 4096 8191 97) 200).map Prod.snd = some 1 := by
    decide +kernel
  obtain ⟨entries, hentries, -⟩ := Option.map_eq_some_iff.mp hsome
  obtain ⟨entries', hentries', -⟩ := Option.map_eq_some_iff.mp hsome'
  obtain ⟨⟨directory, failures⟩, hread, hfailed⟩ := Option.map_eq_some_iff.mp hcount
  obtain rfl : failures = 1 := hfailed
  have hagree := treeImage_agree 4096 8191 97 98
  have hmain := @failures_without_influence _ _ noLz4 _ _ _ hagree
  obtain ⟨reader, final, hnew, htake⟩ := exists_run_of_entriesOf hentries
  obtain ⟨reader', final', hnew', htake'⟩ := exists_run_of_entriesOf hentries'
  refine ⟨?_, hsome, ?_⟩
  · rw [hentries, hentries']
    refine congrArg some (hmain.2.1 3 () () _ _ _ _ _ _ _ _ _ _ trivial ?_ hnew htake hnew' htake')
    rintro superBlock hsuper'
    obtain rfl := Option.some.inj (hsuper.symm.trans hsuper')
    exact treeImage_readable 97 hroot hsub
  · rw [hread]
    unfold readCounting at hread
    split at hread
    · cases hread
    next hdirectory =>
    cases hread
    refine congrArg some (hmain.1 treeSuperBlock 200 _ () () 0 _ _ () 1 trivial
      List.length_replicate.ge (fun htype => ?_) hdirectory (by decide))
    -- the inode cannot be read, so that it has no type
    exact absurd htype (by decide +kernel)

/-- The read of a directory block fails, the directory is given, and an entry comes from what the
read left in the buffer. -/
theorem not_failures_without_influence :
    readCounting (treeImage 12288 16383 99) 64 =
        some (some [⟨65, [97], .directory⟩, ⟨64, [99], .regular⟩], 1) ∧
      entriesOf (treeImage 12288 16383 99) 2 ≠ entriesOf (treeImage 12288 16383 100) 2 := by
  constructor
  · decide +kernel
  · decide +kernel

end ErofsReader

end Erofs
