import Ralf.DmVerity.ProtectedFile

/-!
# Reads of a protected file

`read_spec`: a read inside the range succeeds exactly when every block that
overlaps it can be read in full and verifies, and then the buffer holds the bytes
of the range. Neither depends on the block buffer or on direct I/O, so
`readAll_spec` says the same of every call of a sequence. A read of no bytes may
still load a block (`read_empty`).

The invariant is `Coherent`: the block buffer is marked empty, or holds the
verified block whose number it is marked with.
-/

namespace DmVerity

namespace DmVerityProtectedFile

variable {file : DataFile} {verify : Nat → Bytes → Bool}

/-- Block `n` of the range that starts at `fileOffset` is read in full and verifies. -/
def Verifies (file : DataFile) (verify : Nat → Bytes → Bool) (fileOffset n : Nat) : Prop :=
  ∃ bytes, file.pread (wrap64 (fileOffset + n * kBlockSize)) kBlockSize = .data bytes ∧
    bytes.length = kBlockSize ∧ verify n bytes = true

/-- The block buffer is marked empty or holds the block it is marked with. -/
structure Coherent (verify : Nat → Bytes → Bool) (fileOffset fileSize : Nat)
    (f : DmVerityProtectedFile file) : Prop where
  offset_eq : f.fileOffset = fileOffset
  size_eq : f.fileSize = fileSize
  buffer : f.blockBufferNumber = sizeMax ∨ verify f.blockBufferNumber f.blockBuffer = true ∧
    file.pread (wrap64 (fileOffset + f.blockBufferNumber * kBlockSize)) kBlockSize =
      .data f.blockBuffer

/-- Block `n` starts at a valid file offset. -/
def InRange (fileOffset n : Nat) : Prop := fileOffset + n * kBlockSize < 2 ^ 63

theorem InRange.offset_eq {fileOffset n : Nat} (h : InRange fileOffset n) :
    wrap64 (fileOffset + n * kBlockSize) = fileOffset + n * kBlockSize :=
  wrap64_of_lt (Nat.lt_trans h (by decide))

theorem InRange.ne_sizeMax {fileOffset n : Nat} (h : InRange fileOffset n) : n ≠ sizeMax := by
  simp only [InRange, kBlockSize, sizeMax] at *
  omega

/-- What a full read of a block gives. -/
theorem InRange.bytes_eq {fileOffset n : Nat} (h : InRange fileOffset n) {bytes : Bytes}
    (hread : file.pread (wrap64 (fileOffset + n * kBlockSize)) kBlockSize = .data bytes)
    (hlen : bytes.length = kBlockSize) :
    bytes = file.contents.slice (fileOffset + n * kBlockSize) kBlockSize := by
  have hpre := file.pread_prefix _ _ _ hread
  rw [h.offset_eq] at hpre
  refine hpre.eq_of_length_le ?_
  rw [hlen]
  exact Bytes.slice_length_le _ _ _

/-! ## Single blocks -/

theorem readAndVerifyBlock_spec {f : DmVerityProtectedFile file} {n pos : Nat} {buffer : Bytes}
    (hpos : pos + kBlockSize ≤ buffer.length) (hn : InRange f.fileOffset n) :
    ((f.readAndVerifyBlock verify n buffer pos).1 = true ↔ Verifies file verify f.fileOffset n) ∧
    ((f.readAndVerifyBlock verify n buffer pos).1 = true →
      (f.readAndVerifyBlock verify n buffer pos).2 = buffer.overwrite pos
        (file.contents.slice (f.fileOffset + n * kBlockSize) kBlockSize)) := by
  unfold readAndVerifyBlock
  rcases hread : file.pread (f.blockOffset n) kBlockSize with bytes | errno
  · have hself : bytes.length = kBlockSize →
      (buffer.overwrite pos bytes).slice pos kBlockSize = bytes := by
      intro hlen
      rw [← hlen]
      exact Bytes.slice_overwrite_self (by omega)
    simp only [Bool.and_eq_true, decide_eq_true_eq]
    constructor
    · constructor
      · rintro ⟨hlen, hverify⟩
        rw [hself hlen] at hverify
        exact ⟨bytes, hread, hlen, hverify⟩
      · rintro ⟨bytes', hread', hlen, hverify⟩
        obtain rfl : bytes' = bytes := ReadResult.data.inj (hread'.symm.trans hread)
        exact ⟨hlen, by rw [hself hlen]; exact hverify⟩
    · rintro ⟨hlen, -⟩
      rw [hn.bytes_eq hread hlen]
  · simp only [Bool.false_eq_true, false_iff, false_implies, and_true]
    rintro ⟨bytes, hread', -⟩
    cases hread.symm.trans hread'

theorem loadBlock_spec {fileOffset fileSize : Nat} {f f' : DmVerityProtectedFile file} {n : Nat}
    {ok : Bool} (hf : Coherent verify fileOffset fileSize f) (hn : InRange fileOffset n)
    (h : f.loadBlock verify n = (ok, f')) :
    Coherent verify fileOffset fileSize f' ∧ (ok = true ↔ Verifies file verify fileOffset n) ∧
    (ok = true →
      f'.blockBuffer = file.contents.slice (fileOffset + n * kBlockSize) kBlockSize) := by
  obtain ⟨rfl, hsize, hbuffer⟩ := hf
  unfold loadBlock at h
  split_ifs at h with hcached
  · -- A hit: the invariant says what the buffer holds.
    cases h
    subst hcached
    obtain ⟨hverify, hread⟩ := hbuffer.resolve_left hn.ne_sizeMax
    exact ⟨⟨rfl, hsize, hbuffer⟩, iff_of_true rfl ⟨_, hread, f.blockBuffer_length, hverify⟩,
      fun _ => hn.bytes_eq hread f.blockBuffer_length⟩
  · have hlength := f.blockBuffer_length
    obtain ⟨hiff, hbytes⟩ := @readAndVerifyBlock_spec file verify f n 0 f.blockBuffer
      (by rw [Nat.zero_add, hlength]) hn
    split at h
    next ok' blockBuffer hread =>
    rw [hread] at hiff hbytes
    cases h
    have hover : ok = true →
        blockBuffer = file.contents.slice (f.fileOffset + n * kBlockSize) kBlockSize := by
      intro hok
      obtain ⟨bytes, hpread, hlen, -⟩ := hiff.mp hok
      have heq : blockBuffer = _ := hbytes hok
      rw [← hn.bytes_eq hpread hlen] at heq ⊢
      rw [heq, Bytes.overwrite, hlen, List.take_zero, List.nil_append, Nat.zero_add,
        List.drop_eq_nil_of_le (Nat.le_of_eq hlength), List.append_nil]
    refine ⟨⟨rfl, hsize, ?_⟩, hiff, hover⟩
    cases ok with
    | false => exact .inl rfl
    | true =>
      obtain ⟨bytes, hpread, hlen, hverify⟩ := hiff.mp rfl
      have heq : blockBuffer = bytes := (hover rfl).trans (hn.bytes_eq hpread hlen).symm
      subst heq
      exact .inr ⟨hverify, hpread⟩

/-! ## Filling the caller's buffer -/

/-- The first `pos` bytes of the buffer are the file's bytes from `start` on. -/
structure Filled (file : DataFile) (start pos : Nat) (buffer : Bytes) : Prop where
  le : pos ≤ buffer.length
  eq : buffer.slice 0 pos = file.contents.slice start pos

theorem Filled.zero (start : Nat) (buffer : Bytes) : Filled file start 0 buffer :=
  ⟨Nat.zero_le _, by rw [Bytes.slice_size_zero, Bytes.slice_size_zero]⟩

/-- A copied piece of the file extends the filled part. -/
theorem Filled.overwrite {start pos offset amount : Nat} {buffer : Bytes}
    (h : Filled file start pos buffer) (hoffset : offset = start + pos)
    (hfile : offset + amount ≤ file.contents.length) (hamount : pos + amount ≤ buffer.length) :
    (buffer.overwrite pos (file.contents.slice offset amount)).length = buffer.length ∧
    Filled file start (pos + amount)
      (buffer.overwrite pos (file.contents.slice offset amount)) := by
  have hlen := Bytes.slice_length hfile
  have hlength : (buffer.overwrite pos (file.contents.slice offset amount)).length =
    buffer.length :=
    Bytes.overwrite_length (by rw [hlen]; exact hamount)
  refine ⟨hlength, by rw [hlength]; exact hamount, ?_⟩
  have hnew := @Bytes.slice_overwrite_self buffer (file.contents.slice offset amount) pos h.le
  rw [hlen] at hnew
  rw [← Bytes.slice_append_slice, Nat.zero_add, hnew,
    Bytes.slice_overwrite_before (Nat.le_of_eq (Nat.zero_add pos)) h.le, h.eq, hoffset,
    Bytes.slice_append_slice]

theorem Filled.full {start size : Nat} {buffer : Bytes} (h : Filled file start size buffer)
    (hsize : buffer.length = size) : buffer = file.contents.slice start size := by
  rw [← h.eq, ← hsize, Bytes.slice_zero_self]

/-- All blocks from `first` up to `last` verify. -/
def GoodBlocks (file : DataFile) (verify : Nat → Bytes → Bool)
    (fileOffset first last : Nat) : Prop :=
  ∀ n, first ≤ n → n < last → Verifies file verify fileOffset n

theorem goodBlocks_self {fileOffset first : Nat} : GoodBlocks file verify fileOffset first first :=
  fun _ hle hlt => absurd hlt (Nat.not_lt.mpr hle)

theorem goodBlocks_cons {fileOffset first last : Nat} (h : first < last) :
    GoodBlocks file verify fileOffset first last ↔
      Verifies file verify fileOffset first ∧
        GoodBlocks file verify fileOffset (first + 1) last := by
  constructor
  · exact fun hall => ⟨hall first le_rfl h, fun n hle => hall n (Nat.le_of_succ_le hle)⟩
  · rintro ⟨hfirst, hrest⟩ n hle hlt
    rcases Nat.eq_or_lt_of_le hle with rfl | hlt'
    · exact hfirst
    · exact hrest n hlt' hlt

/-! ## The stages of a read -/

variable {fileOffset fileSize start : Nat}

/-- A block that starts at or before a position of the file is in range. -/
theorem inRange_of_le {n position : Nat} (h : fileOffset + n * kBlockSize ≤ position)
    (hle : position < file.contents.length) : InRange fileOffset n :=
  Nat.lt_of_le_of_lt h (Nat.lt_trans hle file.length_lt)

theorem readPartialBlock_spec {f f' : DmVerityProtectedFile file}
    {buffer buffer' : Bytes} {ok : Bool}
    {pos n offset size : Nat} (hf : Coherent verify fileOffset fileSize f)
    (hoffset : offset < kBlockSize) (hsize : size ≤ kBlockSize - offset) (hpos : 0 < size)
    (hfilled : Filled file start pos buffer)
    (hstart : fileOffset + n * kBlockSize + offset = start + pos)
    (hfile : start + pos + size ≤ file.contents.length) (hbuffer : pos + size ≤ buffer.length)
    (h : f.readPartialBlock verify buffer pos n offset size = (ok, buffer', f')) :
    Coherent verify fileOffset fileSize f' ∧ (ok = true ↔ Verifies file verify fileOffset n) ∧
    (ok = true → buffer'.length = buffer.length ∧ Filled file start (pos + size) buffer') := by
  have hn : InRange fileOffset n := @inRange_of_le file _ _ (start + pos) (by omega) (by omega)
  unfold readPartialBlock at h
  rw [if_neg (by omega)] at h
  rcases hload : f.loadBlock verify n with ⟨loaded, f₁⟩
  obtain ⟨hf₁, hiff, hblock⟩ := loadBlock_spec hf hn hload
  rw [hload] at h
  cases loaded with
  | false =>
    cases h
    exact ⟨hf₁, hiff, fun hok => absurd hok (by simp)⟩
  | true =>
    cases h
    refine ⟨hf₁, hiff, fun _ => ?_⟩
    rw [hblock rfl, Bytes.slice_slice (by omega), hstart]
    exact hfilled.overwrite rfl hfile hbuffer

/-- The state of a read between two stages: the buffer is filled up to a block boundary. -/
structure AtBlock (file : DataFile) (fileOffset start total : Nat) (buffer : Bytes)
    (pos size blkNumber : Nat) : Prop where
  filled : Filled file start pos buffer
  length_eq : buffer.length = total
  pos_add : pos + size = total
  aligned : 0 < size → fileOffset + blkNumber * kBlockSize = start + pos
  file_le : start + total ≤ file.contents.length

theorem readBlocks_spec {f : DmVerityProtectedFile file} {total size : Nat} :
    ∀ {buffer buffer' : Bytes} {ok : Bool} {pos blkNumber pos' size' blkNumber' : Nat},
    AtBlock file f.fileOffset start total buffer pos size blkNumber →
    f.readBlocks verify buffer pos size blkNumber = (ok, buffer', pos', size', blkNumber') →
    (ok = true ↔ GoodBlocks file verify f.fileOffset blkNumber (blkNumber + size / kBlockSize)) ∧
    (ok = true → AtBlock file f.fileOffset start total buffer' pos' size' blkNumber' ∧
      size' = size % kBlockSize ∧ blkNumber' = blkNumber + size / kBlockSize) := by
  induction size using Nat.strong_induction_on with
  | _ size ih =>
    intro buffer buffer' ok pos blkNumber pos' size' blkNumber' hat h
    rw [readBlocks] at h
    split_ifs at h with hmore
    · have halign := hat.aligned (Nat.lt_of_lt_of_le (by decide) hmore)
      have htotal := hat.pos_add
      have hfile := hat.file_le
      have hpos : 0 < kBlockSize := by decide
      have hn : InRange f.fileOffset blkNumber :=
        @inRange_of_le file _ _ (start + pos) (by omega) (by omega)
      obtain ⟨hiff, hbytes⟩ := @readAndVerifyBlock_spec file verify f blkNumber pos buffer
        (by rw [hat.length_eq]; omega) hn
      have hdiv : blkNumber + size / kBlockSize =
          blkNumber + 1 + (size - kBlockSize) / kBlockSize := by
        rw [Nat.div_eq_sub_div hpos hmore]
        omega
      rcases hread : f.readAndVerifyBlock verify blkNumber buffer pos with ⟨good, buffer₁⟩
      rw [hread] at h hiff hbytes
      rw [hdiv, goodBlocks_cons (Nat.lt_of_lt_of_le (Nat.lt_succ_self _) (Nat.le_add_right _ _)),
        ← hiff]
      cases good with
      | false =>
        cases h
        simp
      | true =>
        have heq : buffer₁ = _ := hbytes rfl
        obtain ⟨hlength, hfilled⟩ := @Filled.overwrite file start pos _ kBlockSize buffer hat.filled
          halign (by omega) (by rw [hat.length_eq]; omega)
        rw [← heq] at hlength hfilled
        have hnext : AtBlock file f.fileOffset start total buffer₁ (pos + kBlockSize)
            (size - kBlockSize) (blkNumber + 1) :=
          ⟨hfilled, hlength.trans hat.length_eq, by omega, fun _ => by
            rw [Nat.succ_mul]
            omega, hfile⟩
        obtain ⟨hrest, hend⟩ := ih (size - kBlockSize) (by omega) hnext h
        refine ⟨by simpa only [true_and] using hrest, fun hok => ?_⟩
        obtain ⟨hat', hsize', hblk'⟩ := hend hok
        exact ⟨hat', hsize'.trans (Nat.mod_eq_sub_mod hmore).symm, hblk'⟩
    · cases h
      have hlt := Nat.lt_of_not_le hmore
      rw [Nat.div_eq_of_lt hlt, Nat.mod_eq_of_lt hlt]
      exact ⟨iff_of_true rfl goodBlocks_self, fun _ => ⟨hat, rfl, rfl⟩⟩

/-- What a read from `first` on reports: success for good blocks, with the bytes. -/
structure Outcome (file : DataFile) (verify : Nat → Bytes → Bool) (fileOffset fileSize start total
    first last : Nat) (ok : Bool) (buffer : Bytes) (f : DmVerityProtectedFile file) : Prop where
  coherent : Coherent verify fileOffset fileSize f
  ok_iff : ok = true ↔ GoodBlocks file verify fileOffset first last
  buffer_eq : ok = true → buffer = file.contents.slice start total

theorem readBody_spec {f f' : DmVerityProtectedFile file} {buffer buffer' : Bytes} {ok : Bool}
    {total pos size blkNumber : Nat} (hf : Coherent verify fileOffset fileSize f)
    (hat : AtBlock file fileOffset start total buffer pos size blkNumber)
    (h : f.readBody verify buffer pos size blkNumber = (ok, buffer', f')) :
    Outcome file verify fileOffset fileSize start total blkNumber
      (blkNumber + (size + (kBlockSize - 1)) / kBlockSize) ok buffer' f' := by
  have hoffset := hf.offset_eq
  subst hoffset
  rcases hblocks : f.readBlocks verify buffer pos size blkNumber with
    ⟨good, buffer₁, pos₁, size₁, blkNumber₁⟩
  obtain ⟨hiff, hend⟩ := readBlocks_spec hat hblocks
  rw [readBody, hblocks] at h
  -- The whole blocks are a prefix of all blocks of the read.
  have hsub : GoodBlocks file verify f.fileOffset blkNumber
        (blkNumber + (size + (kBlockSize - 1)) / kBlockSize) →
      GoodBlocks file verify f.fileOffset blkNumber (blkNumber + size / kBlockSize) := by
    have hle : size / kBlockSize ≤ (size + (kBlockSize - 1)) / kBlockSize :=
      Nat.div_le_div_right (Nat.le_add_right _ _)
    exact fun hall n hle' hlt => hall n hle' (by omega)
  cases good with
  | false =>
    cases h
    refine ⟨hf, iff_of_false (by simp) fun hall => ?_, fun hok => absurd hok (by simp)⟩
    exact absurd (hiff.mpr (hsub hall)) (by simp)
  | true =>
    obtain ⟨hat₁, hsize₁, hblk₁⟩ := hend rfl
    have hgood := hiff.mp rfl
    dsimp only at h
    split_ifs at h with htail
    · have hlt : size₁ < kBlockSize := by
        rw [hsize₁]
        exact Nat.mod_lt _ (by decide)
      have htotal := hat₁.pos_add
      have hfile := hat₁.file_le
      obtain ⟨hf', hverifies, hfilled⟩ := readPartialBlock_spec hf (by decide) (Nat.le_of_lt hlt)
        htail hat₁.filled (hat₁.aligned htail) (by omega) (by rw [hat₁.length_eq]; omega) h
      have hlast : blkNumber + (size + (kBlockSize - 1)) / kBlockSize = blkNumber₁ + 1 := by
        simp only [kBlockSize] at *
        omega
      refine ⟨hf', ?_, fun hok => ?_⟩
      · rw [hverifies, hlast]
        constructor
        · intro hv n hle hlt'
          rcases Nat.lt_or_ge n blkNumber₁ with hn | hn
          · exact hgood n hle (hblk₁ ▸ hn)
          · exact (Nat.le_antisymm (Nat.le_of_lt_succ hlt') hn) ▸ hv
        · exact fun hall => hall blkNumber₁ (hblk₁ ▸ Nat.le_add_right _ _) (Nat.lt_succ_self _)
      · obtain ⟨hlength, hfull⟩ := hfilled hok
        rw [htotal] at hfull
        exact hfull.full (hlength.trans hat₁.length_eq)
    · cases h
      have hzero : size % kBlockSize = 0 := by omega
      have hlast : (size + (kBlockSize - 1)) / kBlockSize = size / kBlockSize := by
        simp only [kBlockSize] at *
        omega
      have hpos : pos₁ = total := by
        have := hat₁.pos_add
        omega
      rw [hlast]
      refine ⟨hf, iff_of_true rfl hgood, fun _ => ?_⟩
      exact (hpos ▸ hat₁.filled).full hat₁.length_eq

theorem readDirectLoop_spec {total size : Nat} :
    ∀ {f f' : DmVerityProtectedFile file} {buffer buffer' : Bytes} {ok : Bool}
      {pos offset blkNumber : Nat}, Coherent verify fileOffset fileSize f →
    Filled file start pos buffer → buffer.length = total → pos + size = total →
    (0 < size → fileOffset + blkNumber * kBlockSize + offset % kBlockSize = start + pos) →
    start + total ≤ file.contents.length →
    f.readDirectLoop verify buffer pos size offset blkNumber = (ok, buffer', f') →
    Outcome file verify fileOffset fileSize start total blkNumber
      (if size = 0 then blkNumber
        else blkNumber + (offset % kBlockSize + size + (kBlockSize - 1)) / kBlockSize)
      ok buffer' f' := by
  induction size using Nat.strong_induction_on with
  | _ size ih =>
    intro f f' buffer buffer' ok pos offset blkNumber hf hfilled hlength htotal halign hfile h
    rw [readDirectLoop] at h
    split_ifs at h with hmore
    · rw [if_neg (by omega)]
      have hoffset := Nat.mod_lt offset (by decide : 0 < kBlockSize)
      have hstart := halign hmore
      have hn : InRange fileOffset blkNumber :=
        @inRange_of_le file _ _ (start + pos) (by omega) (by omega)
      have hlast : blkNumber <
          blkNumber + (offset % kBlockSize + size + (kBlockSize - 1)) / kBlockSize := by
        simp only [kBlockSize] at *
        omega
      rcases hload : f.loadBlock verify blkNumber with ⟨good, f₁⟩
      obtain ⟨hf₁, hiff, hblock⟩ := loadBlock_spec hf hn hload
      rw [hload] at h
      cases good with
      | false =>
        cases h
        refine ⟨hf₁, iff_of_false (by simp) fun hall => ?_, fun hok => absurd hok (by simp)⟩
        exact absurd (hiff.mpr (hall blkNumber le_rfl hlast)) (by simp)
      | true =>
        dsimp only at h
        set amount := min size (kBlockSize - offset % kBlockSize) with hamount
        have hpos : 0 < amount := by omega
        rw [hblock rfl, Bytes.slice_slice (by omega)] at h
        obtain ⟨hlength', hfilled'⟩ :=
          @Filled.overwrite file start pos _ amount buffer hfilled hstart
          (by omega) (by omega)
        have hrest := ih (size - amount) (by omega) hf₁ hfilled' (hlength'.trans hlength) (by omega)
          (fun _ => by
            rw [Nat.succ_mul, Nat.zero_mod]
            omega) hfile h
        refine ⟨hrest.coherent, hrest.ok_iff.trans ?_, hrest.buffer_eq⟩
        have hcount : (if size - amount = 0 then blkNumber + 1 else
            blkNumber + 1 + (0 % kBlockSize + (size - amount) + (kBlockSize - 1)) / kBlockSize) =
            blkNumber + (offset % kBlockSize + size + (kBlockSize - 1)) / kBlockSize := by
          simp only [kBlockSize] at *
          split_ifs <;> omega
        rw [hcount, goodBlocks_cons hlast]
        exact (and_iff_right (hiff.mp rfl)).symm
    · cases h
      obtain rfl : size = 0 := by omega
      obtain rfl : pos = total := by omega
      rw [if_pos rfl]
      exact ⟨hf, iff_of_true rfl goodBlocks_self, fun _ => hfilled.full hlength⟩

/-! ## Whole reads -/

/-- The outcome of a call: every block that overlaps the range can be read in full
and verifies, and the buffer holds the bytes of the range. -/
structure ReadsRange (file : DataFile) (verify : Nat → Bytes → Bool) (fileOffset size offset : Nat)
    (ok : Bool) (buffer : Bytes) : Prop where
  ok_iff : ok = true ↔ ∀ n, n * kBlockSize < offset + size → offset < (n + 1) * kBlockSize →
    Verifies file verify fileOffset n
  buffer_eq : ok = true → buffer = file.contents.slice (fileOffset + offset) size

theorem goodBlocks_iff {size offset : Nat} :
    GoodBlocks file verify fileOffset (offset / kBlockSize)
      ((offset + size + (kBlockSize - 1)) / kBlockSize) ↔
    ∀ n, n * kBlockSize < offset + size → offset < (n + 1) * kBlockSize →
      Verifies file verify fileOffset n := by
  constructor
  · intro hall n hlt hlt'
    refine hall n ?_ ?_
    · simp only [kBlockSize] at *
      omega
    · simp only [kBlockSize] at *
      omega
  · intro hall n hle hlt
    refine hall n ?_ ?_
    · simp only [kBlockSize] at *
      omega
    · simp only [kBlockSize] at *
      omega

theorem Outcome.readsRange {f : DmVerityProtectedFile file} {buffer : Bytes} {ok : Bool}
    {size offset last : Nat} (h : Outcome file verify fileOffset fileSize (fileOffset + offset) size
      (offset / kBlockSize) last ok buffer f)
    (hlast : last = (offset + size + (kBlockSize - 1)) / kBlockSize) :
    Coherent verify fileOffset fileSize f ∧
      ReadsRange file verify fileOffset size offset ok buffer := by
  subst hlast
  exact ⟨h.coherent, h.ok_iff.trans goodBlocks_iff, h.buffer_eq⟩

/-- One read inside the range, buffered or direct, whatever the block buffer holds. -/
theorem read_spec {f f' : DmVerityProtectedFile file} {buffer buffer' : Bytes} {ok : Bool}
    {size offset : Nat} (hf : Coherent verify fileOffset fileSize f) (hsize : 0 < size)
    (hrange : offset + size ≤ fileSize) (hbuffer : buffer.length = size)
    (h : f.read verify buffer size offset = (ok, buffer', f')) :
    Coherent verify fileOffset fileSize f' ∧
    ReadsRange file verify fileOffset size offset ok buffer' := by
  have hle := f.range_le
  have hoffset := hf.offset_eq
  have hfileSize := hf.size_eq
  have hfilled := @Filled.zero file (fileOffset + offset) buffer
  have hdiv := Nat.div_add_mod' offset kBlockSize
  have hmod := Nat.mod_lt offset (by decide : 0 < kBlockSize)
  rw [read, if_neg (by omega)] at h
  split_ifs at h with hdirect
  · -- Direct I/O: the loop starts inside the first block.
    refine (readDirectLoop_spec hf hfilled hbuffer (Nat.zero_add _) (fun _ => by omega) (by omega)
      h).readsRange ?_
    rw [if_neg (by omega)]
    simp only [kBlockSize] at *
    omega
  · dsimp only at h
    split_ifs at h with haligned
    · -- A partial head, then the blocks after it.
      set amount := min size (kBlockSize - offset % kBlockSize) with hamount
      rcases hhead : f.readPartialBlock verify buffer 0 (offset / kBlockSize) (offset % kBlockSize)
        amount with ⟨good, buffer₁, f₁⟩
      obtain ⟨hf₁, hiff, hfilled₁⟩ := readPartialBlock_spec hf hmod (by omega) (by omega) hfilled
        (by omega) (by omega) (by omega) hhead
      rw [hhead] at h
      have hlast : offset / kBlockSize <
          (offset + size + (kBlockSize - 1)) / kBlockSize := by
        simp only [kBlockSize] at *
        omega
      cases good with
      | false =>
        cases h
        refine ⟨hf₁, iff_of_false (by simp) fun hall => ?_, fun hok => absurd hok (by simp)⟩
        have hgood := goodBlocks_iff.mpr hall
        exact absurd (hiff.mpr (hgood _ le_rfl hlast)) (by simp)
      | true =>
        obtain ⟨hlength₁, hfilled₁⟩ := hfilled₁ rfl
        rw [Nat.zero_add] at hfilled₁
        have hbody := readBody_spec hf₁ ⟨hfilled₁, hlength₁.trans hbuffer, by omega,
          fun hmore => by rw [Nat.succ_mul]; omega, by omega⟩ h
        have hcount : offset / kBlockSize + 1 + (size - amount + (kBlockSize - 1)) / kBlockSize =
            (offset + size + (kBlockSize - 1)) / kBlockSize := by
          simp only [kBlockSize] at *
          omega
        refine ⟨hbody.coherent, hbody.ok_iff.trans ?_, hbody.buffer_eq⟩
        rw [hcount, ← goodBlocks_iff, goodBlocks_cons hlast]
        exact (and_iff_right (hiff.mp rfl)).symm
    · refine (readBody_spec hf ⟨hfilled, hbuffer, Nat.zero_add _, fun _ => by omega, by omega⟩
        h).readsRange ?_
      simp only [kBlockSize] at *
      omega

/-! ## Reads keep the size of the buffer -/

theorem readPartialBlock_length {f : DmVerityProtectedFile file} {buffer : Bytes}
    {pos nblock offset size : Nat} (h : pos + size ≤ buffer.length) :
    (f.readPartialBlock verify buffer pos nblock offset size).2.1.length = buffer.length := by
  unfold readPartialBlock
  split_ifs
  · rfl
  · rcases f.loadBlock verify nblock with ⟨_ | _, f₁⟩
    · rfl
    · have hle := Bytes.slice_length_le f₁.blockBuffer offset size
      exact Bytes.overwrite_length (by omega)

theorem readBlocks_length {f : DmVerityProtectedFile file} {buffer : Bytes}
    {pos size blkNumber : Nat} (h : pos + size ≤ buffer.length) :
    (f.readBlocks verify buffer pos size blkNumber).2.1.length = buffer.length ∧
    (f.readBlocks verify buffer pos size blkNumber).2.2.1 +
      (f.readBlocks verify buffer pos size blkNumber).2.2.2.1 = pos + size := by
  fun_induction f.readBlocks verify buffer pos size blkNumber with
  | case1 buffer pos size blkNumber hmore buffer' hread =>
    have hlength := @readAndVerifyBlock_length file verify f blkNumber pos buffer (by omega)
    rw [hread] at hlength
    exact ⟨hlength, rfl⟩
  | case2 buffer pos size blkNumber hmore buffer' hread ih =>
    have hlength := @readAndVerifyBlock_length file verify f blkNumber pos buffer (by omega)
    rw [hread] at hlength
    obtain ⟨hrest, hsum⟩ := ih (by rw [hlength]; omega)
    exact ⟨hrest.trans hlength, by omega⟩
  | case3 buffer pos size blkNumber hmore => exact ⟨rfl, rfl⟩

theorem readBody_length {f : DmVerityProtectedFile file} {buffer : Bytes}
    {pos size blkNumber : Nat} (h : pos + size ≤ buffer.length) :
    (f.readBody verify buffer pos size blkNumber).2.1.length = buffer.length := by
  obtain ⟨hlength, hsum⟩ := @readBlocks_length file verify f buffer pos size blkNumber h
  unfold readBody
  rcases hblocks : f.readBlocks verify buffer pos size blkNumber with
    ⟨_ | _, buffer₁, pos₁, size₁, blkNumber₁⟩
  · rw [hblocks] at hlength
    exact hlength
  · rw [hblocks] at hlength hsum
    dsimp only at hlength hsum ⊢
    split_ifs
    · rw [readPartialBlock_length (by omega), hlength]
    · exact hlength

theorem readDirectLoop_length {f : DmVerityProtectedFile file} {buffer : Bytes}
    {pos size offset blkNumber : Nat} (h : pos + size ≤ buffer.length) :
    (f.readDirectLoop verify buffer pos size offset blkNumber).2.1.length = buffer.length := by
  fun_induction f.readDirectLoop verify buffer pos size offset blkNumber with
  | case1 => rfl
  | case2 f buffer pos size offset blkNumber hmore f₁ hload blkOffset blkAmount ih =>
    have hle := Bytes.slice_length_le f₁.blockBuffer blkOffset blkAmount
    have hlength := @Bytes.overwrite_length buffer (f₁.blockBuffer.slice blkOffset blkAmount) pos
      (by omega)
    rw [ih (by omega), hlength]
  | case3 => rfl

theorem read_length {f : DmVerityProtectedFile file} {buffer : Bytes} {size offset : Nat}
    (h : size ≤ buffer.length) : (f.read verify buffer size offset).2.1.length = buffer.length := by
  unfold read
  split_ifs
  · rfl
  · exact readDirectLoop_length (by omega)
  · dsimp only
    split_ifs
    · set amount := min size (kBlockSize - offset % kBlockSize) with hamount
      have hhead := @readPartialBlock_length file verify f buffer 0 (offset / kBlockSize)
        (offset % kBlockSize) amount (by omega)
      rcases hread : f.readPartialBlock verify buffer 0 (offset / kBlockSize)
        (offset % kBlockSize) amount with ⟨_ | _, buffer₁, f₁⟩
      · rw [hread] at hhead
        exact hhead
      · rw [hread] at hhead
        dsimp only at hhead ⊢
        rw [readBody_length (by omega), hhead]
    · exact readBody_length (by omega)

/-! ## Reads of no bytes -/

theorem readBody_empty {f : DmVerityProtectedFile file} {pos blkNumber : Nat} :
    f.readBody verify [] pos 0 blkNumber = (true, [], f) := by
  rw [readBody, readBlocks]
  rfl

/-- A read of no bytes inside the range loads the block it points into, unless it is aligned. -/
theorem read_empty {f f' : DmVerityProtectedFile file} {buffer : Bytes} {ok : Bool} {offset : Nat}
    (hf : Coherent verify fileOffset fileSize f) (hoffset : offset < fileSize)
    (h : f.read verify [] 0 offset = (ok, buffer, f')) :
    Coherent verify fileOffset fileSize f' ∧ buffer = [] ∧
    (Verifies file verify fileOffset (offset / kBlockSize) → ok = true) := by
  have hle := f.range_le
  have hstart := hf.offset_eq
  have hfileSize := hf.size_eq
  have hdiv := Nat.div_add_mod' offset kBlockSize
  rw [read, if_neg (by omega)] at h
  split_ifs at h with hdirect
  · rw [readDirectIo, readDirectLoop, if_neg (Nat.lt_irrefl 0)] at h
    cases h
    exact ⟨hf, rfl, fun _ => rfl⟩
  · dsimp only at h
    split_ifs at h with haligned
    · have hmod := Nat.mod_lt offset (by decide : 0 < kBlockSize)
      have hn : InRange fileOffset (offset / kBlockSize) :=
        @inRange_of_le file _ _ (fileOffset + offset) (by omega) (by omega)
      rw [Nat.zero_min, readPartialBlock, if_neg (by omega)] at h
      rcases hload : f.loadBlock verify (offset / kBlockSize) with ⟨loaded, f₁⟩
      obtain ⟨hf₁, hiff, -⟩ := loadBlock_spec hf hn hload
      rw [hload] at h
      cases loaded with
      | false =>
        cases h
        exact ⟨hf₁, rfl, hiff.mpr⟩
      | true =>
        dsimp only at h
        rw [Bytes.slice_size_zero] at h
        cases (readBody_empty.symm.trans h)
        exact ⟨hf₁, rfl, fun _ => rfl⟩
    · cases (readBody_empty.symm.trans h)
      exact ⟨hf, rfl, fun _ => rfl⟩

/-- Every read keeps the invariant. -/
theorem read_coherent {f : DmVerityProtectedFile file} {buffer : Bytes} {size offset : Nat}
    (hf : Coherent verify fileOffset fileSize f) (hbuffer : buffer.length = size) :
    Coherent verify fileOffset fileSize (f.read verify buffer size offset).2.2 := by
  by_cases hrange : offset ≥ f.fileSize ∨ size > f.fileSize - offset
  · rw [read, if_pos hrange]
    exact hf
  · have hsize := hf.size_eq
    rcases Nat.eq_zero_or_pos size with rfl | hpos
    · obtain rfl := List.eq_nil_of_length_eq_zero hbuffer
      exact (read_empty hf (by omega) rfl).1
    · exact (read_spec hf hpos (by omega) hbuffer rfl).1

/-! ## Sequences of reads -/

/-- A call of a sequence: a buffer, its size, and the offset to read at. -/
structure ReadCall where
  buffer : Bytes
  size : Nat
  offset : Nat

/-- A sequence of reads, with the result and the buffer of each. -/
def readAll (verify : Nat → Bytes → Bool) (f : DmVerityProtectedFile file) :
    List ReadCall → List (Bool × Bytes)
  | [] => []
  | call :: calls =>
    match f.read verify call.buffer call.size call.offset with
    | (ok, buffer, f) => (ok, buffer) :: f.readAll verify calls

theorem readAll_forall₂ {f : DmVerityProtectedFile file} {calls : List ReadCall}
    (hf : Coherent verify fileOffset fileSize f)
    (hcalls : ∀ call ∈ calls, 0 < call.size ∧ call.offset + call.size ≤ fileSize ∧
      call.buffer.length = call.size) :
    List.Forall₂ (fun call result =>
      ReadsRange file verify fileOffset call.size call.offset result.1 result.2)
      calls (f.readAll verify calls) := by
  induction calls generalizing f with
  | nil => exact .nil
  | cons call calls ih =>
    obtain ⟨hsize, hrange, hbuffer⟩ := hcalls call List.mem_cons_self
    rcases hread : f.read verify call.buffer call.size call.offset with ⟨ok, buffer, f'⟩
    obtain ⟨hf', hspec⟩ := read_spec hf hsize hrange hbuffer hread
    rw [readAll, hread]
    exact .cons hspec (ih hf' fun call' hmem => hcalls call' (List.mem_cons_of_mem _ hmem))

/-- A reader that was just opened has nothing in its block buffer. -/
theorem open_coherent {dataFileOffset dataFileSize : Option Nat}
    {verifier : Result IDmVerityVerifier}
    {directIo : Bool} {memory : { bytes : Bytes // bytes.length = kBlockSize }}
    {f : DmVerityProtectedFile file}
    (h : «open» file dataFileOffset dataFileSize verifier directIo memory = .ok f) :
    Coherent verify f.fileOffset f.fileSize f := by
  unfold «open» at h
  split at h
  · cases h
  · split at h
    · cases h
    · split_ifs at h
      cases h
      exact ⟨rfl, rfl, .inl rfl⟩

/-- Every call of a sequence of reads inside the range of an opened file succeeds
exactly when the blocks it overlaps can be read in full and verify, and then gives
the bytes of the file. This holds for buffered and for direct readers alike, and
after any calls before. -/
theorem readAll_spec {dataFileOffset dataFileSize : Option Nat} {verifier : IDmVerityVerifier}
    {directIo : Bool} {memory : { bytes : Bytes // bytes.length = kBlockSize }}
    {f : DmVerityProtectedFile file}
    (h : «open» file dataFileOffset dataFileSize (.ok verifier) directIo memory = .ok f)
    {calls : List ReadCall} (hcalls : ∀ call ∈ calls, 0 < call.size ∧
      call.offset + call.size ≤ f.fileSize ∧ call.buffer.length = call.size) :
    List.Forall₂ (fun call result =>
      ReadsRange file verifier.verify f.fileOffset call.size call.offset result.1 result.2)
      calls (f.readAll verifier.verify calls) :=
  readAll_forall₂ (open_coherent h) hcalls

/-- `open` succeeds on a range inside the file that the verifier covers. -/
theorem open_succeeds {dataFileOffset dataFileSize : Option Nat} {verifier : IDmVerityVerifier}
    {directIo : Bool} {memory : { bytes : Bytes // bytes.length = kBlockSize }} {range : Nat × Nat}
    (hrange : checkAndCalcFileRange file.contents.length dataFileOffset dataFileSize = .ok range)
    (hsize : verifier.blockSize = 4096)
    (hcovers : range.2 ≤ wrap64 (verifier.dataBlockCount * verifier.blockSize)) :
    ∃ f, «open» file dataFileOffset dataFileSize (.ok verifier) directIo memory = .ok f ∧
      f.fileOffset = range.1 ∧ f.fileSize = range.2 := by
  unfold «open»
  split
  · next hcheck => cases hcheck.symm.trans hrange
  · next range' hcheck =>
    cases hcheck.symm.trans hrange
    dsimp only
    rw [if_neg (not_not.mpr hsize), if_neg (Nat.not_lt.mpr hcovers)]
    exact ⟨_, rfl, rfl, rfl⟩

/-- A data file of two blocks. -/
def twoBlockFile : DataFile where
  contents := List.replicate 8192 7
  length_lt := by
    rw [List.length_replicate]
    decide
  pread offset size := .data (Bytes.slice (List.replicate 8192 7) offset size)
  pread_prefix := by
    rintro offset size bytes ⟨⟩
    exact List.prefix_rfl

/-- Two overlapping reads across the block boundary. -/
def twoCalls : List ReadCall :=
  [⟨List.replicate 200 0, 200, 4000⟩, ⟨List.replicate 4196 0, 4196, 3996⟩]

theorem readAll_spec_twoBlockFile :
    ∃ f : DmVerityProtectedFile twoBlockFile,
      «open» twoBlockFile none none (.ok ⟨4096, 2, fun _ _ => true⟩) false
        ⟨List.replicate 4096 0, List.length_replicate⟩ = .ok f ∧
      List.Forall₂ (fun call result =>
        ReadsRange twoBlockFile (fun _ _ => true) f.fileOffset call.size
        call.offset result.1 result.2) twoCalls (f.readAll (fun _ _ => true) twoCalls) := by
  have hrange : checkAndCalcFileRange twoBlockFile.contents.length none none = .ok (0, 8192) := by
    rw [twoBlockFile, List.length_replicate]
    rfl
  obtain ⟨f, hopen, -, hsize⟩ :=
    @open_succeeds twoBlockFile none none ⟨4096, 2, fun _ _ => true⟩ false
    ⟨List.replicate 4096 0, List.length_replicate⟩ _ hrange rfl (by decide)
  refine ⟨f, hopen, readAll_spec hopen ?_⟩
  rw [hsize]
  simp only [twoCalls, List.mem_cons, List.not_mem_nil, or_false, forall_eq_or_imp, forall_eq,
    List.length_replicate]
  decide

end DmVerityProtectedFile

end DmVerity
