import Ralf.DmVerity.LiveFile
import Ralf.DmVerity.ProtectedRead

/-!
# Reads from storage that changes

`read_any`: when every block that the verifier accepts is the block of one image, a read that
succeeds gives bytes of that image, whatever the storage does and whatever was read before. What
can make the verifier err is seen in the state that the read leaves, so only the blocks that are
read matter.
-/

namespace DmVerity

variable {ω : Type}

/-- Reads a block and verifies it. -/
def BlockSource.fetch (src : BlockSource ω) (base n : Nat) (w : ω) : Option Bytes × ω :=
  match src.pread w (wrap64 (base + n * kBlockSize)) kBlockSize with
  | (.error _, w) => (none, w)
  | (.data bytes, w) =>
    if bytes.length ≠ kBlockSize then (none, w)
    else
      let (ok, w) := src.verify w n bytes
      (if ok then some bytes else none, w)

/-- Reads blocks one after the other and verifies each. -/
def BlockSource.fetchAll (src : BlockSource ω) (base : Nat) : List Nat → ω → ω
  | [], w => w
  | n :: ns, w => src.fetchAll base ns (src.fetch base n w).2

theorem BlockSource.fetchAll_append (src : BlockSource ω) (base : Nat) (ns ms : List Nat) (w : ω) :
    src.fetchAll base (ns ++ ms) w = src.fetchAll base ms (src.fetchAll base ns w) := by
  induction ns generalizing w with
  | nil => rfl
  | cons n ns ih => exact ih _

/-- From `w` to `w'` some blocks are read and verified, and nothing else. -/
def BlockSource.Fetches (src : BlockSource ω) (base : Nat) (w w' : ω) : Prop :=
  ∃ ns, src.fetchAll base ns w = w'

theorem BlockSource.Fetches.refl (src : BlockSource ω) (base : Nat) (w : ω) :
    src.Fetches base w w :=
  ⟨[], rfl⟩

theorem BlockSource.Fetches.trans {src : BlockSource ω} {base : Nat} {w w₁ w' : ω}
    (h : src.Fetches base w w₁) (h' : src.Fetches base w₁ w') : src.Fetches base w w' := by
  obtain ⟨ns, rfl⟩ := h
  obtain ⟨ms, rfl⟩ := h'
  exact ⟨ns ++ ms, src.fetchAll_append base ns ms w⟩

/-- From the states in `I`, the verified blocks are those of an image while the state is `good`. A
state that is good after a block was good before it. -/
structure Trusted (src : BlockSource ω) (base : Nat) (I good : ω → Prop) (image : Bytes) :
    Prop where
  keeps : ∀ {n w}, I w → I (src.fetch base n w).2
  before : ∀ {n w}, I w → good (src.fetch base n w).2 → good w
  block_eq : ∀ {n w bytes}, I w → good (src.fetch base n w).2 →
    (src.fetch base n w).1 = some bytes → bytes = image.slice (n * kBlockSize) kBlockSize

namespace Trusted

variable {src : BlockSource ω} {I good : ω → Prop} {image : Bytes} {base : Nat} {w w' : ω}

theorem keeps_all (ht : Trusted src base I good image) (h : src.Fetches base w w') (hw : I w) :
    I w' := by
  obtain ⟨ns, rfl⟩ := h
  induction ns generalizing w with
  | nil => exact hw
  | cons n ns ih => exact ih (ht.keeps hw)

theorem before_all (ht : Trusted src base I good image) (h : src.Fetches base w w') (hw : I w)
    (hgood : good w') : good w := by
  obtain ⟨ns, rfl⟩ := h
  induction ns generalizing w with
  | nil => exact hgood
  | cons n ns ih => exact ht.before hw (ih (ht.keeps hw) hgood)

end Trusted

namespace LiveFile

open DmVerityProtectedFile

variable {src : BlockSource ω}

/-! ## Reads keep the size of the buffer -/

theorem readPartialBlock_length {f : LiveFile} {buffer : Bytes} {pos nblock offset size : Nat}
    {w : ω} (h : pos + size ≤ buffer.length) :
    (f.readPartialBlock src buffer pos nblock offset size w).2.1.length = buffer.length := by
  unfold readPartialBlock
  split_ifs
  · rfl
  · rcases f.loadBlock src nblock w with ⟨_ | _, f₁, w₁⟩
    · rfl
    · have hle := Bytes.slice_length_le f₁.blockBuffer offset size
      exact Bytes.overwrite_length (by omega)

theorem readBlocks_length {f : LiveFile} {buffer : Bytes} {pos size blkNumber : Nat} {w : ω}
    (h : pos + size ≤ buffer.length) :
    (f.readBlocks src buffer pos size blkNumber w).2.1.length = buffer.length ∧
      (f.readBlocks src buffer pos size blkNumber w).2.2.1.1 +
        (f.readBlocks src buffer pos size blkNumber w).2.2.1.2.1 = pos + size := by
  fun_induction f.readBlocks src buffer pos size blkNumber w with
  | case1 buffer pos size blkNumber w hmore buffer' w' hread =>
    have hlength := @readAndVerifyBlock_length ω src f blkNumber pos buffer w (by omega)
    rw [hread] at hlength
    exact ⟨hlength, rfl⟩
  | case2 buffer pos size blkNumber w hmore buffer' w' hread ih =>
    have hlength := @readAndVerifyBlock_length ω src f blkNumber pos buffer w (by omega)
    rw [hread] at hlength
    obtain ⟨hrest, hsum⟩ := ih (by rw [hlength]; omega)
    exact ⟨hrest.trans hlength, by omega⟩
  | case3 => exact ⟨rfl, rfl⟩

theorem readBody_length {f : LiveFile} {buffer : Bytes} {pos size blkNumber : Nat} {w : ω}
    (h : pos + size ≤ buffer.length) :
    (f.readBody src buffer pos size blkNumber w).2.1.length = buffer.length := by
  obtain ⟨hlength, hsum⟩ := @readBlocks_length ω src f buffer pos size blkNumber w h
  unfold readBody
  rcases hblocks : f.readBlocks src buffer pos size blkNumber w with
    ⟨_ | _, buffer₁, ⟨pos₁, size₁, blkNumber₁⟩, w₁⟩
  · rw [hblocks] at hlength
    exact hlength
  · rw [hblocks] at hlength hsum
    dsimp only at hlength hsum ⊢
    split_ifs
    · rw [readPartialBlock_length (by omega), hlength]
    · exact hlength

theorem readDirectLoop_length {f : LiveFile} {buffer : Bytes} {pos size offset blkNumber : Nat}
    {w : ω} (h : pos + size ≤ buffer.length) :
    (f.readDirectLoop src buffer pos size offset blkNumber w).2.1.length = buffer.length := by
  fun_induction f.readDirectLoop src buffer pos size offset blkNumber w with
  | case1 => rfl
  | case2 f buffer pos size offset blkNumber w hmore f₁ w₁ hload blkOffset blkAmount ih =>
    have hle := Bytes.slice_length_le f₁.blockBuffer blkOffset blkAmount
    have hlength := @Bytes.overwrite_length buffer (f₁.blockBuffer.slice blkOffset blkAmount) pos
      (by omega)
    rw [ih (by omega), hlength]
  | case3 => rfl

theorem read_length {f : LiveFile} {buffer : Bytes} {size offset : Nat} {w : ω}
    (h : size ≤ buffer.length) : (f.read src buffer size offset w).2.1.length = buffer.length := by
  unfold read
  split_ifs
  · rfl
  · exact readDirectLoop_length (by omega)
  · dsimp only
    split_ifs
    · set amount := min size (kBlockSize - offset % kBlockSize) with hamount
      have hhead := @readPartialBlock_length ω src f buffer 0 (offset / kBlockSize)
        (offset % kBlockSize) amount w (by omega)
      rcases hread : f.readPartialBlock src buffer 0 (offset / kBlockSize)
        (offset % kBlockSize) amount w with ⟨_ | _, buffer₁, f₁, w₁⟩
      · rw [hread] at hhead
        exact hhead
      · rw [hread] at hhead
        dsimp only at hhead ⊢
        rw [readBody_length (by omega), hhead]
    · exact readBody_length (by omega)

/-! ## The blocks that are read -/

theorem readAndVerifyBlock_fetch {f : LiveFile} {n pos : Nat} {buffer : Bytes} {w : ω}
    (hpos : pos ≤ buffer.length) :
    (f.readAndVerifyBlock src n buffer pos w).2.2 = (src.fetch f.fileOffset n w).2 ∧
      ((f.readAndVerifyBlock src n buffer pos w).1 = true →
        ∃ bytes, (src.fetch f.fileOffset n w).1 = some bytes ∧ bytes.length = kBlockSize ∧
          (f.readAndVerifyBlock src n buffer pos w).2.1 = buffer.overwrite pos bytes) := by
  unfold readAndVerifyBlock BlockSource.fetch
  rcases src.pread w (wrap64 (f.fileOffset + n * kBlockSize)) kBlockSize with ⟨bytes | errno, w'⟩
  · dsimp only
    by_cases hlen : bytes.length = kBlockSize
    · have hself : (buffer.overwrite pos bytes).slice pos kBlockSize = bytes := by
        rw [← hlen]
        exact Bytes.slice_overwrite_self hpos
      rw [if_neg (not_not.mpr hlen), if_neg (not_not.mpr hlen), hself]
      exact ⟨rfl, fun hok => ⟨bytes, if_pos hok, hlen, rfl⟩⟩
    · rw [if_pos hlen, if_pos hlen]
      exact ⟨rfl, fun hok => absurd hok Bool.false_ne_true⟩
  · exact ⟨rfl, fun hok => absurd hok Bool.false_ne_true⟩

theorem readAndVerifyBlock_fetches (f : LiveFile) (n : Nat) {pos : Nat} {buffer : Bytes} (w : ω)
    (hpos : pos ≤ buffer.length) :
    src.Fetches f.fileOffset w (f.readAndVerifyBlock src n buffer pos w).2.2 :=
  ⟨[n], (readAndVerifyBlock_fetch hpos).1.symm⟩

/-- A stage of a read leaves the range alone and reads blocks. -/
structure Moves (src : BlockSource ω) (f : LiveFile) (w : ω) (f' : LiveFile) (w' : ω) : Prop where
  offset_eq : f'.fileOffset = f.fileOffset
  fetches : src.Fetches f.fileOffset w w'

theorem Moves.refl (f : LiveFile) (w : ω) : Moves src f w f w :=
  ⟨rfl, .refl _ _ _⟩

theorem Moves.trans {f f₁ f' : LiveFile} {w w₁ w' : ω} (h : Moves src f w f₁ w₁)
    (h' : Moves src f₁ w₁ f' w') : Moves src f w f' w' :=
  ⟨h'.offset_eq.trans h.offset_eq, h.fetches.trans (h.offset_eq ▸ h'.fetches)⟩

theorem loadBlock_moves {f f' : LiveFile} {n : Nat} {w w' : ω} {ok : Bool}
    (h : f.loadBlock src n w = (ok, f', w')) : Moves src f w f' w' := by
  unfold loadBlock at h
  split_ifs at h
  · cases h
    exact .refl f w
  · cases h
    exact ⟨rfl, readAndVerifyBlock_fetches f n w (Nat.zero_le _)⟩

theorem readPartialBlock_moves {f f' : LiveFile} {buffer buffer' : Bytes}
    {pos n offset size : Nat} {w w' : ω} {ok : Bool}
    (h : f.readPartialBlock src buffer pos n offset size w = (ok, buffer', f', w')) :
    Moves src f w f' w' := by
  unfold readPartialBlock at h
  split_ifs at h
  · cases h
    exact .refl f w
  · rcases hload : f.loadBlock src n w with ⟨_ | _, f₁, w₁⟩
    · rw [hload] at h
      cases h
      exact loadBlock_moves hload
    · rw [hload] at h
      cases h
      exact loadBlock_moves hload

theorem readBlocks_fetches {f : LiveFile} {buffer : Bytes} {pos size blkNumber : Nat} {w : ω}
    (hfits : pos + size ≤ buffer.length) :
    src.Fetches f.fileOffset w (f.readBlocks src buffer pos size blkNumber w).2.2.2 := by
  fun_induction f.readBlocks src buffer pos size blkNumber w with
  | case1 buffer pos size blkNumber w hmore buffer' w' hread =>
    have hfetches := @readAndVerifyBlock_fetches ω src f blkNumber pos buffer w (by omega)
    rwa [hread] at hfetches
  | case2 buffer pos size blkNumber w hmore buffer' w' hread ih =>
    have hfetches := @readAndVerifyBlock_fetches ω src f blkNumber pos buffer w (by omega)
    have hlength := @readAndVerifyBlock_length ω src f blkNumber pos buffer w (by omega)
    rw [hread] at hfetches hlength
    exact hfetches.trans (ih (by rw [hlength]; omega))
  | case3 => exact .refl _ _ _

theorem readBody_moves {f : LiveFile} {buffer : Bytes} {pos size blkNumber : Nat} {w : ω}
    (hfits : pos + size ≤ buffer.length) :
    Moves src f w (f.readBody src buffer pos size blkNumber w).2.2.1
      (f.readBody src buffer pos size blkNumber w).2.2.2 := by
  have hblocks := @readBlocks_fetches ω src f buffer pos size blkNumber w hfits
  unfold readBody
  rcases hout : f.readBlocks src buffer pos size blkNumber w with
    ⟨_ | _, buffer₁, ⟨pos₁, size₁, blkNumber₁⟩, w₁⟩
  · rw [hout] at hblocks
    exact ⟨rfl, hblocks⟩
  · rw [hout] at hblocks
    have hmoved : Moves src f w f w₁ := ⟨rfl, hblocks⟩
    dsimp only
    split_ifs
    · exact hmoved.trans (readPartialBlock_moves rfl)
    · exact hmoved

theorem readDirectLoop_moves {f : LiveFile} {buffer : Bytes} {pos size offset blkNumber : Nat}
    {w : ω} :
    Moves src f w (f.readDirectLoop src buffer pos size offset blkNumber w).2.2.1
      (f.readDirectLoop src buffer pos size offset blkNumber w).2.2.2 := by
  fun_induction f.readDirectLoop src buffer pos size offset blkNumber w with
  | case1 f buffer pos size offset blkNumber w hmore f₁ w₁ hload => exact loadBlock_moves hload
  | case2 f buffer pos size offset blkNumber w hmore f₁ w₁ hload blkOffset blkAmount ih =>
    exact (loadBlock_moves hload).trans ih
  | case3 => exact .refl _ _

/-- A read moves the state by reading and verifying blocks. -/
theorem read_moves {f : LiveFile} {buffer : Bytes} {size offset : Nat} {w : ω}
    (hfits : size ≤ buffer.length) :
    Moves src f w (f.read src buffer size offset w).2.2.1
      (f.read src buffer size offset w).2.2.2 := by
  unfold read
  split_ifs
  · exact .refl f w
  · exact readDirectLoop_moves
  · dsimp only
    split_ifs
    · set amount := min size (kBlockSize - offset % kBlockSize) with hamount
      have hhead := @readPartialBlock_length ω src f buffer 0 (offset / kBlockSize)
        (offset % kBlockSize) amount w (by omega)
      rcases hread : f.readPartialBlock src buffer 0 (offset / kBlockSize)
        (offset % kBlockSize) amount w with ⟨_ | _, buffer₁, f₁, w₁⟩
      · exact readPartialBlock_moves hread
      · rw [hread] at hhead
        dsimp only at hhead ⊢
        exact (readPartialBlock_moves hread).trans (readBody_moves (by omega))
    · exact readBody_moves (by omega)

/-- The object and the state after some reads. -/
def after (src : BlockSource ω) : LiveFile → List (Bytes × Nat) → ω → LiveFile × ω
  | f, [], w => (f, w)
  | f, (buffer, offset) :: reads, w =>
    let out := f.read src buffer buffer.length offset w
    after src out.2.2.1 reads out.2.2.2

theorem after_concat (f : LiveFile) (reads : List (Bytes × Nat)) (buffer : Bytes) (offset : Nat)
    (w : ω) :
    f.after src (reads ++ [(buffer, offset)]) w =
      (((f.after src reads w).1.read src buffer buffer.length offset
          (f.after src reads w).2).2.2.1,
        ((f.after src reads w).1.read src buffer buffer.length offset
          (f.after src reads w).2).2.2.2) := by
  induction reads generalizing f w with
  | nil => rfl
  | cons read reads ih => exact ih _ _

theorem after_moves {f : LiveFile} {w : ω} (reads : List (Bytes × Nat)) :
    Moves src f w (f.after src reads w).1 (f.after src reads w).2 := by
  induction reads generalizing f w with
  | nil => exact .refl f w
  | cons read reads ih => exact (read_moves le_rfl).trans ih

/-! ## Trusted blocks -/

variable {I good : ω → Prop} {image : DataFile} {base fileSize start : Nat}

/-- The block buffer is marked empty or holds a block of the image. -/
structure Sound (image : DataFile) (base fileSize : Nat) (f : LiveFile) : Prop where
  offset_eq : f.fileOffset = base
  size_eq : f.fileSize = fileSize
  buffer : f.blockBufferNumber = sizeMax ∨
    f.blockBuffer = image.contents.slice (f.blockBufferNumber * kBlockSize) kBlockSize

theorem readAndVerifyBlock_trusted (ht : Trusted src base I good image.contents) {f : LiveFile}
    {n pos : Nat} {buffer : Bytes} {w : ω} (hbase : f.fileOffset = base)
    (hpos : pos ≤ buffer.length) (hw : I w)
    (hgood : good (f.readAndVerifyBlock src n buffer pos w).2.2)
    (hok : (f.readAndVerifyBlock src n buffer pos w).1 = true) :
    (image.contents.slice (n * kBlockSize) kBlockSize).length = kBlockSize ∧
      (f.readAndVerifyBlock src n buffer pos w).2.1 =
        buffer.overwrite pos (image.contents.slice (n * kBlockSize) kBlockSize) := by
  obtain ⟨hstate, hbytes⟩ := @readAndVerifyBlock_fetch ω src f n pos buffer w hpos
  rw [hbase] at hstate hbytes
  obtain ⟨bytes, hfetch, hlen, heq⟩ := hbytes hok
  rw [heq, ← ht.block_eq hw (hstate ▸ hgood) hfetch]
  exact ⟨hlen, rfl⟩

theorem loadBlock_trusted (ht : Trusted src base I good image.contents) {f f' : LiveFile} {n : Nat}
    {w w' : ω} {ok : Bool} (hf : Sound image base fileSize f)
    (hn : n * kBlockSize ≤ image.contents.length) (hw : I w)
    (h : f.loadBlock src n w = (ok, f', w')) (hgood : good w') :
    Sound image base fileSize f' ∧
      (ok = true → f'.blockBuffer = image.contents.slice (n * kBlockSize) kBlockSize) := by
  unfold loadBlock at h
  split_ifs at h with hcached
  · -- A hit: the invariant says what the buffer holds.
    cases h
    refine ⟨hf, fun _ => ?_⟩
    have hne : f.blockBufferNumber ≠ sizeMax := by
      have hlt := image.length_lt
      simp only [kBlockSize, sizeMax] at *
      omega
    rw [hcached]
    exact hf.buffer.resolve_left hne
  · have hlength := f.blockBuffer_length
    have hbytes := @readAndVerifyBlock_trusted ω src I good image base ht f n 0 f.blockBuffer w
      hf.offset_eq (Nat.zero_le _) hw
    cases h
    have hover : (f.readAndVerifyBlock src n f.blockBuffer 0 w).1 = true →
        (f.readAndVerifyBlock src n f.blockBuffer 0 w).2.1 =
          image.contents.slice (n * kBlockSize) kBlockSize := by
      intro hok
      obtain ⟨hlen, heq⟩ := hbytes hgood hok
      rw [heq, Bytes.overwrite, hlen, List.take_zero, List.nil_append, Nat.zero_add,
        List.drop_eq_nil_of_le (Nat.le_of_eq hlength), List.append_nil]
    refine ⟨⟨hf.offset_eq, hf.size_eq, ?_⟩, hover⟩
    dsimp only
    split
    · next hok => exact .inr (hover hok)
    · exact .inl rfl

/-! ## The stages of a read -/

theorem readPartialBlock_trusted (ht : Trusted src base I good image.contents) {f f' : LiveFile}
    {buffer buffer' : Bytes} {ok : Bool} {pos n offset size : Nat} {w w' : ω}
    (hf : Sound image base fileSize f) (hw : I w) (hoffset : offset < kBlockSize)
    (hsize : size ≤ kBlockSize - offset) (hfilled : Filled image start pos buffer)
    (hstart : n * kBlockSize + offset = start + pos)
    (hfile : start + pos + size ≤ image.contents.length) (hbuffer : pos + size ≤ buffer.length)
    (h : f.readPartialBlock src buffer pos n offset size w = (ok, buffer', f', w'))
    (hgood : good w') :
    Sound image base fileSize f' ∧ (ok = true →
      buffer'.length = buffer.length ∧ Filled image start (pos + size) buffer') := by
  unfold readPartialBlock at h
  rw [if_neg (by omega)] at h
  rcases hload : f.loadBlock src n w with ⟨loaded, f₁, w₁⟩
  have hblock := loadBlock_trusted ht hf (by omega) hw hload
  rw [hload] at h
  cases loaded with
  | false =>
    cases h
    exact ⟨(hblock hgood).1, fun hok => absurd hok Bool.false_ne_true⟩
  | true =>
    cases h
    refine ⟨(hblock hgood).1, fun _ => ?_⟩
    rw [(hblock hgood).2 rfl, Bytes.slice_slice (by omega), hstart]
    exact hfilled.overwrite rfl hfile hbuffer

theorem readBlocks_trusted (ht : Trusted src base I good image.contents) {f : LiveFile}
    (hbase : f.fileOffset = base) {total size : Nat} :
    ∀ {buffer buffer' : Bytes} {pos blkNumber pos' size' blkNumber' : Nat} {w w' : ω},
    AtBlock image 0 start total buffer pos size blkNumber → I w →
    f.readBlocks src buffer pos size blkNumber w =
      (true, buffer', (pos', size', blkNumber'), w') → good w' →
    AtBlock image 0 start total buffer' pos' size' blkNumber' ∧ size' < kBlockSize := by
  induction size using Nat.strong_induction_on with
  | _ size ih =>
    intro buffer buffer' pos blkNumber pos' size' blkNumber' w w' hat hw h hgood
    rw [readBlocks] at h
    split_ifs at h with hmore
    · have halign := hat.aligned (Nat.lt_of_lt_of_le (by decide) hmore)
      have htotal := hat.pos_add
      have hlength := hat.length_eq
      have hfile := hat.file_le
      have hpos : 0 < kBlockSize := by decide
      rw [Nat.zero_add] at halign
      have hfetches := @readAndVerifyBlock_fetches ω src f blkNumber pos buffer w hat.filled.le
      have hbytes := @readAndVerifyBlock_trusted ω src I good image base ht f blkNumber pos
        buffer w hbase hat.filled.le hw
      have hkept := @readAndVerifyBlock_length ω src f blkNumber pos buffer w (by omega)
      rcases hread : f.readAndVerifyBlock src blkNumber buffer pos w with ⟨_ | _, buffer₁, w₁⟩
      · rw [hread] at h
        cases h
      · rw [hread] at h hfetches hbytes hkept
        dsimp only at hfetches hkept
        rw [hbase] at hfetches
        have hw₁ := ht.keeps_all hfetches hw
        -- The blocks after this one leave a good state, so this one did.
        have hrest := @readBlocks_fetches ω src f buffer₁ (pos + kBlockSize) (size - kBlockSize)
          (blkNumber + 1) w₁ (by omega)
        dsimp only at h
        rw [h, hbase] at hrest
        obtain ⟨-, heq⟩ := hbytes (ht.before_all hrest hw₁ hgood) rfl
        obtain ⟨hlength', hfilled⟩ := @Filled.overwrite image start pos _ kBlockSize buffer
          hat.filled halign (by omega) (by omega)
        rw [← heq] at hlength' hfilled
        have hnext : AtBlock image 0 start total buffer₁ (pos + kBlockSize) (size - kBlockSize)
            (blkNumber + 1) :=
          ⟨hfilled, hlength'.trans hat.length_eq, by omega, fun _ => by
            rw [Nat.succ_mul]
            omega, hfile⟩
        exact ih (size - kBlockSize) (by omega) hnext hw₁ h hgood
    · cases h
      exact ⟨hat, Nat.lt_of_not_le hmore⟩

/-- What a read leaves behind in a good state, and the bytes that it gives. -/
structure Outcome (image : DataFile) (base fileSize start total : Nat)
    (out : Bool × Bytes × LiveFile × ω) : Prop where
  sound : Sound image base fileSize out.2.2.1
  buffer_eq : out.1 = true → out.2.1 = image.contents.slice start total

theorem readBody_trusted (ht : Trusted src base I good image.contents) {f : LiveFile}
    {buffer : Bytes} {total pos size blkNumber : Nat} {w : ω} (hf : Sound image base fileSize f)
    (hw : I w) (hat : AtBlock image 0 start total buffer pos size blkNumber)
    (hgood : good (f.readBody src buffer pos size blkNumber w).2.2.2) :
    Outcome image base fileSize start total (f.readBody src buffer pos size blkNumber w) := by
  have hfetches := @readBlocks_fetches ω src f buffer pos size blkNumber w
    (by rw [hat.length_eq, hat.pos_add])
  rcases hblocks : f.readBlocks src buffer pos size blkNumber w with
    ⟨_ | _, buffer₁, ⟨pos₁, size₁, blkNumber₁⟩, w₁⟩
  · rw [readBody, hblocks]
    exact ⟨hf, fun hok => absurd hok Bool.false_ne_true⟩
  · rw [readBody, hblocks] at hgood ⊢
    rw [hblocks, hf.offset_eq] at hfetches
    have hw₁ := ht.keeps_all hfetches hw
    dsimp only at hgood ⊢
    by_cases htail : size₁ > 0
    · rw [if_pos htail] at hgood ⊢
      rcases hrest : f.readPartialBlock src buffer₁ pos₁ blkNumber₁ 0 size₁ w₁ with
        ⟨ok, buffer', f', w'⟩
      rw [hrest] at hgood
      have hmoves := readPartialBlock_moves hrest
      obtain ⟨hat₁, hlt⟩ := readBlocks_trusted ht hf.offset_eq hat hw hblocks
        (ht.before_all (hf.offset_eq ▸ hmoves.fetches) hw₁ hgood)
      have htotal := hat₁.pos_add
      have hfile := hat₁.file_le
      have halign : blkNumber₁ * kBlockSize + 0 = start + pos₁ := by
        have := hat₁.aligned htail
        omega
      have hsize : size₁ ≤ kBlockSize - 0 := Nat.le_of_lt hlt
      obtain ⟨hf', hfilled⟩ := readPartialBlock_trusted ht hf hw₁ (show 0 < kBlockSize by decide)
        hsize hat₁.filled halign (by omega) (by rw [hat₁.length_eq]; omega) hrest hgood
      refine ⟨hf', fun hok => ?_⟩
      obtain ⟨hlength, hfull⟩ := hfilled hok
      rw [htotal] at hfull
      exact hfull.full (hlength.trans hat₁.length_eq)
    · rw [if_neg htail] at hgood ⊢
      obtain ⟨hat₁, -⟩ := readBlocks_trusted ht hf.offset_eq hat hw hblocks hgood
      have htotal := hat₁.pos_add
      have hpos : pos₁ = total := by omega
      exact ⟨hf, fun _ => (hpos ▸ hat₁.filled).full hat₁.length_eq⟩

theorem readDirectLoop_trusted (ht : Trusted src base I good image.contents) {total size : Nat} :
    ∀ {f : LiveFile} {buffer : Bytes} {pos offset blkNumber : Nat} {w : ω},
    Sound image base fileSize f → I w → Filled image start pos buffer → buffer.length = total →
    pos + size = total →
    (0 < size → blkNumber * kBlockSize + offset % kBlockSize = start + pos) →
    start + total ≤ image.contents.length →
    good (f.readDirectLoop src buffer pos size offset blkNumber w).2.2.2 →
    Outcome image base fileSize start total
      (f.readDirectLoop src buffer pos size offset blkNumber w) := by
  induction size using Nat.strong_induction_on with
  | _ size ih =>
    intro f buffer pos offset blkNumber w hf hw hfilled hlength htotal halign hfile hgood
    rw [readDirectLoop] at hgood ⊢
    by_cases hmore : size > 0
    · rw [if_pos hmore] at hgood ⊢
      have hoffset := Nat.mod_lt offset (by decide : 0 < kBlockSize)
      have hstart := halign hmore
      rcases hload : f.loadBlock src blkNumber w with ⟨loaded, f₁, w₁⟩
      have hblock := loadBlock_trusted ht hf (by omega) hw hload
      have hmoves := loadBlock_moves hload
      have hfetches := hf.offset_eq ▸ hmoves.fetches
      rw [hload] at hgood
      cases loaded with
      | false => exact ⟨(hblock hgood).1, fun hok => absurd hok Bool.false_ne_true⟩
      | true =>
        have hw₁ := ht.keeps_all hfetches hw
        have hoffset₁ : f₁.fileOffset = base := hmoves.offset_eq.trans hf.offset_eq
        dsimp only at hgood ⊢
        set amount := min size (kBlockSize - offset % kBlockSize) with hamount
        -- The loop leaves a good state, so this block did.
        have hrest := (@readDirectLoop_moves ω src f₁ (buffer.overwrite pos
          (f₁.blockBuffer.slice (offset % kBlockSize) amount)) (pos + amount) (size - amount) 0
          (blkNumber + 1) w₁).fetches
        obtain ⟨hf₁, hbuffer⟩ := hblock (ht.before_all (hoffset₁ ▸ hrest) hw₁ hgood)
        have hpos : 0 < amount := by omega
        rw [hbuffer rfl, Bytes.slice_slice (by omega)] at hgood ⊢
        obtain ⟨hlength', hfilled'⟩ :=
          @Filled.overwrite image start pos _ amount buffer hfilled hstart (by omega) (by omega)
        refine ih (size - amount) (by omega) hf₁ hw₁ hfilled' (hlength'.trans hlength) (by omega)
          (fun _ => ?_) hfile hgood
        rw [Nat.succ_mul, Nat.zero_mod]
        omega
    · rw [if_neg hmore]
      have hpos : pos = total := by omega
      exact ⟨hf, fun _ => (hpos ▸ hfilled).full hlength⟩

/-! ## Whole reads -/

/-- A read inside the file, buffered or direct, after any reads before. -/
theorem read_trusted (ht : Trusted src base I good image.contents) {f : LiveFile} {buffer : Bytes}
    {offset : Nat} {w : ω} (hf : Sound image base fileSize f) (hw : I w)
    (hcovers : fileSize ≤ image.contents.length) (hoffset : offset < fileSize)
    (hrange : offset + buffer.length ≤ fileSize)
    (hgood : good (f.read src buffer buffer.length offset w).2.2.2) :
    Outcome image base fileSize offset buffer.length
      (f.read src buffer buffer.length offset w) := by
  have hfilled := @Filled.zero image offset buffer
  have hdiv := Nat.div_add_mod' offset kBlockSize
  have hmod := Nat.mod_lt offset (by decide : 0 < kBlockSize)
  have hfileSize := hf.size_eq
  unfold read at hgood ⊢
  rw [if_neg (by omega)] at hgood ⊢
  by_cases hdirect : f.directIo = true
  · -- direct I/O starts inside the first block
    rw [if_pos hdirect] at hgood ⊢
    exact readDirectLoop_trusted ht hf hw hfilled rfl (Nat.zero_add _) (fun _ => by omega)
      (by omega) hgood
  · rw [if_neg hdirect] at hgood ⊢
    dsimp only at hgood ⊢
    by_cases hunaligned : offset % kBlockSize ≠ 0
    · -- a partial head, then the blocks after it
      rw [if_pos hunaligned] at hgood ⊢
      set amount := min buffer.length (kBlockSize - offset % kBlockSize) with hamount
      rcases hhead : f.readPartialBlock src buffer 0 (offset / kBlockSize) (offset % kBlockSize)
        amount w with ⟨loaded, buffer₁, f₁, w₁⟩
      have hblock := readPartialBlock_trusted ht hf hw hmod (by omega) hfilled
        (by omega) (by omega) (by omega) hhead
      have hmoves := readPartialBlock_moves hhead
      have hkept := @readPartialBlock_length ω src f buffer 0 (offset / kBlockSize)
        (offset % kBlockSize) amount w (by omega)
      rw [hhead] at hgood hkept
      dsimp only at hkept
      cases loaded with
      | false => exact ⟨(hblock hgood).1, fun hok => absurd hok Bool.false_ne_true⟩
      | true =>
        dsimp only at hgood ⊢
        have hw₁ := ht.keeps_all (hf.offset_eq ▸ hmoves.fetches) hw
        have hoffset₁ : f₁.fileOffset = base := hmoves.offset_eq.trans hf.offset_eq
        have hrest := (@readBody_moves ω src f₁ buffer₁ amount (buffer.length - amount)
          (offset / kBlockSize + 1) w₁ (by omega)).fetches
        obtain ⟨hf₁, hfilled₁⟩ := hblock (ht.before_all (hoffset₁ ▸ hrest) hw₁ hgood)
        obtain ⟨hlength₁, hfilled₁⟩ := hfilled₁ rfl
        rw [Nat.zero_add] at hfilled₁
        exact readBody_trusted ht hf₁ hw₁ ⟨hfilled₁, hlength₁, by omega,
          fun hmore => by rw [Nat.succ_mul]; omega, by omega⟩ hgood
    · rw [if_neg hunaligned] at hgood ⊢
      exact readBody_trusted ht hf hw ⟨hfilled, rfl, Nat.zero_add _, fun _ => by omega, by omega⟩
        hgood

/-- A read at any offset: what it leaves, and the bytes that it gives when it succeeds. -/
theorem read_any (ht : Trusted src base I good image.contents) {f : LiveFile} {w : ω}
    (hf : Sound image base fileSize f) (hw : I w) (hcovers : fileSize ≤ image.contents.length)
    (buffer : Bytes) (offset : Nat)
    (hgood : good (f.read src buffer buffer.length offset w).2.2.2) :
    Sound image base fileSize (f.read src buffer buffer.length offset w).2.2.1 ∧
    ((f.read src buffer buffer.length offset w).1 = true →
      offset < fileSize ∧ offset + buffer.length ≤ fileSize ∧
        (f.read src buffer buffer.length offset w).2.1 =
          image.contents.slice offset buffer.length) := by
  by_cases hrange : offset ≥ fileSize ∨ buffer.length > fileSize - offset
  · rw [read, if_pos (by rwa [hf.size_eq])]
    exact ⟨hf, fun hok => absurd hok Bool.false_ne_true⟩
  · have hoffset : offset < fileSize := Nat.lt_of_not_le fun hend => hrange (.inl hend)
    have hfits : offset + buffer.length ≤ fileSize := by omega
    have hout := read_trusted ht hf hw hcovers hoffset hfits hgood
    exact ⟨hout.sound, fun hok => ⟨hoffset, hfits, hout.buffer_eq hok⟩⟩

/-- A sequence of reads that leaves a good state: the block buffer is sound, and every read that
succeeds gives bytes of the image. -/
theorem readAll_trusted (ht : Trusted src base I good image.contents)
    (hcovers : fileSize ≤ image.contents.length) (reads : List (Bytes × Nat)) {f : LiveFile} {w : ω}
    (hf : Sound image base fileSize f) (hw : I w) (hgood : good (f.after src reads w).2) :
    Sound image base fileSize (f.after src reads w).1 ∧
      List.Forall₂ (fun read result => result.1 = true →
        result.2 = image.contents.slice read.2 read.1.length) reads (f.readAll src reads w) := by
  induction reads generalizing f w with
  | nil => exact ⟨hf, .nil⟩
  | cons read reads ih =>
    have hmoves := @read_moves ω src f read.1 read.1.length read.2 w le_rfl
    have hw' := ht.keeps_all (hf.offset_eq ▸ hmoves.fetches) hw
    have hrest := (@after_moves ω src (f.read src read.1 read.1.length read.2 w).2.2.1
      (f.read src read.1 read.1.length read.2 w).2.2.2 reads).fetches
    rw [hmoves.offset_eq, hf.offset_eq] at hrest
    obtain ⟨hf', hbytes⟩ := read_any ht hf hw hcovers read.1 read.2
      (ht.before_all hrest hw' hgood)
    obtain ⟨hsound, hresults⟩ := ih hf' hw' hgood
    exact ⟨hsound, .cons (fun hok => (hbytes hok).2.2) hresults⟩

end LiveFile

end DmVerity
