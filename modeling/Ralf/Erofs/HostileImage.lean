import Ralf.DmVerity.SignedBlocks
import Ralf.Erofs.InodeContents
import Ralf.Erofs.RepeatedRuns
import Ralf.Erofs.UnreadableBlocks

/-!
# Images on hostile storage

An EROFS image is read through dm-verity from storage that may give anything. `hostile_image`: the
inodes that are opened are those of the signed image, and what is read of them is theirs, unless the
reads that were made hash two different strings with one digest.

The argument puts a third image between the two. `mendedImage` fails where the storage fails and
gives the signed bytes otherwise. As long as no collision was hashed it is the storage
(`mendedImage_repeats`), and what succeeds on it succeeds on the signed image
(`mendedImage_gives`).
-/

namespace Erofs

open DmVerity AuthTree PartialSequence

variable {σ τ ω : Type}

/-! ## Reads of an inode -/

/-- Reads of an inode, one after the other: the data of each, or `none` for a read that fails. -/
def readInode (file : IErofsImageFile σ) (lz4 : Lz4) :
    ErofsInode → List (Bytes × Nat) → σ → Except Fault (List (Option Bytes) × σ)
  | _, [], s => .ok ([], s)
  | inode, (buffer, offset) :: calls, s =>
    match inode.read file lz4 buffer offset s with
    | .error fault => .error fault
    | .ok (rd, data, inode, s) =>
      match readInode file lz4 inode calls s with
      | .error fault => .error fault
      | .ok (results, s) =>
        .ok ((if rd = -1 then none else some (data.take rd.toNat)) :: results, s)

section
variable {S : σ → τ → Prop} {Q : σ → Prop} {file : IErofsImageFile σ} {file' : IErofsImageFile τ}
  {lz4 : Lz4} {inode inode' : ErofsInode} {calls : List (Bytes × Nat)}
  {results : List (Option Bytes)} {buffer : Bytes} {offset : Nat} {s s' : σ} {t : τ}

/-- The first read of a sequence, and the reads after it. -/
theorem readInode_cons
    (h : readInode file lz4 inode ((buffer, offset) :: calls) s = .ok (results, s')) :
    ∃ rd data inode' s₁ rest, inode.read file lz4 buffer offset s = .ok (rd, data, inode', s₁) ∧
      readInode file lz4 inode' calls s₁ = .ok (rest, s') ∧
      results = (if rd = -1 then none else some (data.take rd.toNat)) :: rest := by
  rw [readInode] at h
  split at h
  · cases h
  next rd data inode' s₁ hread =>
  split at h
  · cases h
  next rest s₂ hrest =>
  cases h
  exact ⟨rd, data, inode', s₁, rest, hread, hrest, rfl⟩

/-- Reads that end well are the same with a file that repeats the first. -/
theorem readInode_repeated {file' : IErofsImageFile σ} (h : Repeats Q file file')
    (hread : readInode file lz4 inode calls s = .ok (results, s')) (hend : Q s') :
    readInode file' lz4 inode calls s = .ok (results, s') ∧ Q s := by
  induction calls generalizing inode s results with
  | nil =>
    cases hread
    exact ⟨rfl, hend⟩
  | cons call calls ih =>
    obtain ⟨rd, data, inode', s₁, rest, hfirst, hrest, rfl⟩ := readInode_cons hread
    obtain ⟨hrest', hbetween⟩ := ih hrest
    obtain ⟨hfirst', hbegin⟩ := ErofsInode.read_repeated h hfirst hbetween
    rw [readInode, hfirst']
    dsimp only
    rw [hrest']
    exact ⟨rfl, hbegin⟩

/-- Reads that all succeed have the same results from a file that covers the first. -/
theorem readInode_covered (h : Covers S file file') (hs : S s t) {datas : List Bytes}
    (hread : readInode file lz4 inode calls s = .ok (datas.map some, s')) :
    ∃ t', readInode file' lz4 inode calls t = .ok (datas.map some, t') := by
  induction calls generalizing inode s t datas with
  | nil =>
    rw [readInode, Except.ok.injEq, Prod.mk.injEq] at hread
    exact ⟨t, by rw [readInode, hread.1]⟩
  | cons call calls ih =>
    obtain ⟨rd, data, inode', s₁, rest, hfirst, hrest, hresults⟩ := readInode_cons hread
    cases datas with
    | nil => cases hresults
    | cons first datas =>
      rw [List.map_cons, List.cons.injEq] at hresults
      obtain ⟨hresult, rfl⟩ := hresults
      by_cases hfailed : rd = -1
      · rw [if_pos hfailed] at hresult
        cases hresult
      · rw [if_neg hfailed] at hresult
        obtain ⟨data', t₁, hfirst', hs₁, hdata⟩ :=
          ErofsInode.read_covered h hs rfl hfirst hfailed
        obtain ⟨t', hrest'⟩ := ih hs₁ hrest
        refine ⟨t', ?_⟩
        rw [readInode, hfirst']
        dsimp only
        rw [hrest', if_neg hfailed, ← hdata, ← hresult]
        rfl

/-- Whatever reads fail, those that succeed give the contents. -/
theorem readInode_contents {byte : Nat → UInt8} {made : ErofsInode} {all : List ReadAt}
    (hfile : GivesBytes file byte) (hordered : made.Ordered file.size_lt byte all)
    (hbounds : made.InBounds all) (hkeeps : made.Keeps lz4 file.size_lt byte all inode)
    (hcalls : calls.flatMap (fun call => made.readAt call.1 call.2) ⊆ all)
    (hread : readInode file lz4 inode calls s = .ok (results, s')) :
    List.Forall₂ (fun call result => ∀ data, result = some data →
      readRange (made.content lz4 file.size_lt byte) call.2
        (min call.1.length (made.size - call.2)) = some data) calls results := by
  induction calls generalizing inode s results with
  | nil =>
    cases hread
    exact .nil
  | cons call calls ih =>
    rw [List.flatMap_cons, List.append_subset] at hcalls
    obtain ⟨rd, data, inode', s₁, rest, hfirst, hrest, rfl⟩ := readInode_cons hread
    obtain ⟨hkeeps', hdata⟩ := hkeeps.read hfile hordered hbounds hcalls.1 hfirst
    refine .cons (fun data' hresult => ?_) (ih hkeeps' hcalls.2 hrest)
    by_cases hfailed : rd = -1
    · rw [if_pos hfailed] at hresult
      cases hresult
    · rw [if_neg hfailed] at hresult
      obtain ⟨hrd, hrange⟩ := hdata hfailed
      rw [hrd, Int.toNat_natCast] at hresult
      cases hresult
      exact hrange

end

/-! ## Hostile storage -/

/-- An image that is read through dm-verity, whatever the storage gives. -/
def liveImage (src : BlockSource ω) (size : Nat) (hsize : size < 2 ^ 64) :
    IErofsImageFile (LiveFile × ω) where
  size := size
  size_lt := hsize
  read s buffer offset :=
    let out := s.1.read src buffer buffer.length offset s.2
    (out.1, out.2.1, out.2.2)
  read_length _ _ _ := LiveFile.read_length le_rfl

section
variable {sha256 : Bytes → Sha256Digest} {salt : Bytes} {blocks : List Bytes} {storage : Storage}
  {f : LiveFile} {w : LiveState}

/-- A protected file and its storage after some reads. -/
def AfterReads (_ : OpenedOn sha256 salt blocks storage f w) : Type :=
  {s : LiveFile × LiveState // ∃ reads, f.after (storage.source sha256) reads w = s}

theorem afterReads_read (h : OpenedOn sha256 salt blocks storage f w) (s : AfterReads h) (buffer : Bytes)
    (offset : Nat) : ∃ reads, f.after (storage.source sha256) reads w =
      (s.val.1.read (storage.source sha256) buffer buffer.length offset s.val.2).2.2 := by
  obtain ⟨_, reads, rfl⟩ := s
  exact ⟨reads ++ [(buffer, offset)], LiveFile.after_concat f reads buffer offset w⟩

/-- The image on the storage, from its states after some reads. -/
def reachedImage (h : OpenedOn sha256 salt blocks storage f w) :
    IErofsImageFile (AfterReads h) where
  size := f.fileSize
  size_lt := h.size_lt
  read s buffer offset :=
    let out := (liveImage (storage.source sha256) f.fileSize h.size_lt).read s.val buffer offset
    (out.1, out.2.1, ⟨out.2.2, afterReads_read h s buffer offset⟩)
  read_length _ _ _ := LiveFile.read_length le_rfl

/-- Two different strings have one digest, among those that are hashed by the opening, by the reads
that led to the state and by building the tree of the image. -/
def AfterReads.Collides {h : OpenedOn sha256 salt blocks storage f w} (s : AfterReads h) : Prop :=
  Collision sha256 (s.val.2.io.log ∪ treeStrings sha256 salt blocks)

/-- The bytes of the signed image. -/
def signedByte (blocks : List Bytes) (offset : Nat) : UInt8 := blocks.flatten.getD offset 0

/-- The signed image on a device that fails no read. -/
def signedImage (h : OpenedOn sha256 salt blocks storage f w) : IErofsImageFile Unit :=
  imageOf f.fileSize h.size_lt (signedByte blocks)

/-- A read that leaves a state without a collision finds one without a collision, and gives the
signed bytes if it succeeds. -/
theorem reachedImage_read {h : OpenedOn sha256 salt blocks storage f w} {s s' : AfterReads h}
    {buffer data : Bytes} {offset : Nat} {success : Bool}
    (hread : (reachedImage h).read s buffer offset = (success, data, s')) (hfree : ¬ s'.Collides) :
    ¬ s.Collides ∧ (success = true →
      (signedImage h).read () buffer offset = (true, data, ())) := by
  obtain ⟨_, reads, rfl⟩ := s
  obtain ⟨hstart, hcovers⟩ := h.sound
  have hmoves := @LiveFile.after_moves _ (storage.source sha256) f w reads
  have hbound := h.trusted.keeps_all hmoves.fetches h.bound
  have hnext := (@LiveFile.read_moves _ (storage.source sha256)
    (f.after (storage.source sha256) reads w).1 buffer buffer.length offset
    (f.after (storage.source sha256) reads w).2 le_rfl).fetches
  rw [hmoves.offset_eq] at hnext
  have hdata := congrArg (·.2.1) hread
  obtain rfl : _ = s' := congrArg (·.2.2) hread
  have hbefore := h.trusted.before_all hnext hbound hfree
  have hsound := (LiveFile.readAll_trusted h.trusted hcovers reads hstart h.bound hbefore).1
  refine ⟨fun hcollides => hbefore hcollides, fun hsuccess => ?_⟩
  obtain ⟨hoffset, hfits, hslice⟩ :=
    (LiveFile.read_any h.trusted hsound hbound hcovers buffer offset hfree).2
      ((congrArg Prod.fst hread).trans hsuccess)
  have hinside : ¬(offset ≥ f.fileSize ∨ buffer.length > f.fileSize - offset) := by omega
  have hsigned : (List.range buffer.length).map (fun i => signedByte blocks (offset + i)) = data :=
    (Bytes.map_getD_range (hfits.trans hcovers)).trans (hslice.symm.trans hdata)
  rw [← hsigned]
  exact if_neg hinside

/-- The image on the storage, mended: a read fails as it does on the storage, and one that succeeds
gives the signed bytes. -/
def mendedImage (h : OpenedOn sha256 salt blocks storage f w) : IErofsImageFile (AfterReads h) where
  size := f.fileSize
  size_lt := h.size_lt
  read s buffer offset :=
    let out := (reachedImage h).read s buffer offset
    let signed := (signedImage h).read () buffer offset
    if out.1 then (signed.1, signed.2.1, out.2.2) else out
  read_length s buffer offset := by
    dsimp only
    split
    · exact (signedImage h).read_length () buffer offset
    · exact (reachedImage h).read_length s buffer offset

theorem mendedImage_gives (h : OpenedOn sha256 salt blocks storage f w) :
    GivesBytes (mendedImage h) (signedByte blocks) where
  size := rfl
  read := by
    intro s t buffer buffer' offset data s' _ hlength hread
    unfold mendedImage at hread
    dsimp only at hread
    split at hread
    · rcases hsigned : (signedImage h).read () buffer offset with ⟨success, bytes, _⟩
      rw [hsigned] at hread
      cases hread
      obtain ⟨t', hsigned', -⟩ :=
        (imageOf_gives h.size_lt (signedByte blocks)).read trivial hlength hsigned
      exact ⟨t', hsigned', trivial⟩
    · next hfailed => exact absurd (congrArg Prod.fst hread) hfailed

/-- Without a collision the mended image is the image on the storage. -/
theorem mendedImage_repeats (h : OpenedOn sha256 salt blocks storage f w) :
    Repeats (fun s => ¬ s.Collides) (reachedImage h) (mendedImage h) where
  size := rfl
  read := by
    intro s s' buffer data offset success hread hfree
    obtain ⟨hbefore, hbytes⟩ := reachedImage_read hread hfree
    refine ⟨?_, hbefore⟩
    unfold mendedImage
    dsimp only
    rw [hread]
    cases success with
    | false => rfl
    | true =>
      rw [hbytes rfl]
      rfl

/-- The results of reads of an inode. If they all succeeded, the signed image has the same results.
Whatever failed, each read that succeeded gave the contents that the inode has in the signed image,
if its extents are in order. -/
structure SignedReads (h : OpenedOn sha256 salt blocks storage f w) (lz4 : Lz4)
    (inode : ErofsInode) (calls : List (Bytes × Nat)) (results : List (Option Bytes)) : Prop where
  same : ∀ datas : List Bytes, results = datas.map some →
    readInode (signedImage h) lz4 inode calls () = .ok (results, ())
  contents : inode.Ordered h.size_lt (signedByte blocks)
      (calls.flatMap fun call => inode.readAt call.1 call.2) →
    List.Forall₂ (fun call result => ∀ data, result = some data →
      readRange (inode.content lz4 h.size_lt (signedByte blocks)) call.2
        (min call.1.length (inode.size - call.2)) = some data) calls results

/-- Reads of an inode from the storage that hash no collision. -/
theorem signedReads_of_free {h : OpenedOn sha256 salt blocks storage f w} {lz4 : Lz4}
    {inode : ErofsInode} (hfresh : inode.inodeReader = none) {calls : List (Bytes × Nat)}
    {results : List (Option Bytes)} {s s' : AfterReads h}
    (hread : readInode (reachedImage h) lz4 inode calls s = .ok (results, s'))
    (hfree : ¬ s'.Collides) : SignedReads h lz4 inode calls results := by
  have hmended := (readInode_repeated (mendedImage_repeats h) hread hfree).1
  refine ⟨fun datas hdatas => ?_, fun hordered => ?_⟩
  · subst hdatas
    obtain ⟨_, hsigned⟩ := readInode_covered (t := ()) (mendedImage_gives h) trivial hmended
    exact hsigned
  · have hbounds : inode.InBounds (calls.flatMap fun call => inode.readAt call.1 call.2) := by
      intro call hcall
      obtain ⟨client, -, hclient⟩ := List.mem_flatMap.mp hcall
      exact ErofsInode.inBounds_readAt inode client.1 client.2 call hclient
    exact readInode_contents (mendedImage_gives h) hordered hbounds
      (ErofsInode.keeps_made hfresh) (List.Subset.refl _) hmended

/-- An image on hostile storage. After any reads, an inode that is opened and valid is the one of the
signed image, and what is read of it then is the inode's, each unless the reads up to there hash a
collision. -/
theorem hostile_image (h : OpenedOn sha256 salt blocks storage f w) (lz4 : Lz4) :
    ∀ (s s' : AfterReads h) (superBlock : ErofsSuperBlock) (inodeNumber hints : Nat)
      (inode : ErofsInode),
      ErofsInode.new (reachedImage h) superBlock inodeNumber hints s = (inode, s') →
      inode.isValid = true →
        (s'.Collides ∨
          ErofsInode.new (signedImage h) superBlock inodeNumber hints () = (inode, ())) ∧
        ∀ s₁ calls results s₂,
          readInode (reachedImage h) lz4 inode calls s₁ = .ok (results, s₂) →
            s₂.Collides ∨ SignedReads h lz4 inode calls results := by
  intro s s' superBlock inodeNumber hints inode hnew hvalid
  refine ⟨?_, fun s₁ calls results s₂ hread => ?_⟩
  · by_cases hcollides : s'.Collides
    · exact .inl hcollides
    · have hmended := (ErofsInode.new_repeated (mendedImage_repeats h) hnew hcollides).1
      obtain ⟨_, hsigned, -⟩ :=
        ErofsInode.new_covered (t := ()) (mendedImage_gives h) trivial hmended hvalid
      exact .inr hsigned
  · by_cases hcollides : s₂.Collides
    · exact .inl hcollides
    · exact .inr (signedReads_of_free (ErofsInode.new_fresh hnew).2 hread hcollides)

/-! ### An image with one inode -/

/-- The inode of a file of five bytes, in the block behind the inode. -/
def fiveBytesInode : Bytes :=
  [0, 0, 0, 0, 0xa4, 0x81, 0, 0, 5, 0, 0, 0, 0, 0, 0, 0, 1, 0, 0, 0, 0, 0, 0, 0, 0, 0, 0, 0, 0, 0, 0,
    0]

/-- An image of two blocks, with this inode and its data. -/
def inodeBlocks : List Bytes :=
  [fiveBytesInode ++ List.replicate 4064 0, List.replicate 4096 7]

def inodeSuperBlock : ErofsSuperBlock where
  superBlock :=
    { magic := 0xe0f5e1e2, checksum := 0, featureCompat := 0, blockSizeBits := 12
      extensionSlots := 0, rootInode := 0, buildTimeSec := 0, buildTimeNSec := 0, metaBlockAddr := 0
      featureIncompat := 0 }
  blockSize := 4096

theorem inodeBlocks_area :
    Embedded prefixHash [] (List.replicate 16 0) inodeBlocks [] [] none none :=
  twoBlocks_area prefixHash rfl rfl (by decide)

theorem inodeBlocks_length : ∀ block ∈ inodeBlocks, block.length = 4096 := by
  intro block hmem
  rw [inodeBlocks, List.mem_cons, List.mem_singleton] at hmem
  obtain rfl | rfl := hmem
  · rw [List.length_append, List.length_replicate]
    rfl
  · exact List.length_replicate

/-- The inode, read from storage that changes. -/
theorem hostile_image_changing :
    ∃ f w, ∃ h : OpenedOn prefixHash [] inodeBlocks (changingStorage inodeBlocks_area) f w,
      ∃ (s s' : AfterReads h) (inode : ErofsInode),
        ErofsInode.new (reachedImage h) inodeSuperBlock 0 0 s = (inode, s') ∧
        inode.isValid = true ∧
        (s'.Collides ∨
          ErofsInode.new (signedImage h) inodeSuperBlock 0 0 () = (inode, ())) ∧
        ∀ s₁ calls results s₂,
          readInode (reachedImage h) ErofsReader.noLz4 inode calls s₁ = .ok (results, s₂) →
            s₂.Collides ∨ SignedReads h ErofsReader.noLz4 inode calls results := by
  obtain ⟨f, w, h, hfirst⟩ := changingStorage_opened inodeBlocks_area inodeBlocks_length rfl
  let s : AfterReads h := ⟨(f, w), [], rfl⟩
  obtain ⟨hok, hdata⟩ := hfirst (List.replicate 32 0) (by decide) (by decide)
  have hslice : Bytes.slice inodeBlocks.flatten 0 32 = fiveBytesInode := by
    rw [inodeBlocks, List.flatten_cons, List.append_assoc]
    exact Bytes.slice_append_eq rfl
  have hread : (reachedImage h).readBytes 32 0 s =
      (some fiveBytesInode, ((reachedImage h).read s (List.replicate 32 0) 0).2.2) := by
    have hfilled : (reachedImage h).read s (List.replicate 32 0) 0 =
        (true, fiveBytesInode, ((reachedImage h).read s (List.replicate 32 0) 0).2.2) :=
      Prod.ext hok (Prod.ext (hdata.trans hslice) rfl)
    rw [IErofsImageFile.readBytes]
    generalize (reachedImage h).read s (List.replicate 32 0) 0 = filled at hfilled ⊢
    rw [hfilled]
  have hnew : ErofsInode.new (reachedImage h) inodeSuperBlock 0 0 s =
      (ErofsInode.processCompactInode
          { superBlock := inodeSuperBlock, inodeNumber := 0, inodeFileOffset := 0,
            inodeReaderHints := 0 }
          fiveBytesInode,
        ((reachedImage h).read s (List.replicate 32 0) 0).2.2) := by
    have hoffset : inodeSuperBlock.inodeOffset 0 = 0 := by decide
    rw [ErofsInode.new]
    dsimp only
    rw [hoffset, hread]
    exact if_pos (by decide)
  exact ⟨f, w, h, s, _, _, hnew, by decide,
    hostile_image h ErofsReader.noLz4 s _ inodeSuperBlock 0 0 _ hnew (by decide)⟩

end

end Erofs
