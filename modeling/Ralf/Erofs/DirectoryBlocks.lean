import Ralf.Erofs.UnreadableBlocks

/-!
# Entries that are accepted

An entry of a directory block that is accepted has a valid name and an inode number of 32
bits. Its name lies in the block, so that the bytes behind the block do not matter for it,
and there is no fault, whatever they are.
-/

namespace Erofs

/-! ## Names and inode numbers -/

/-- The inode number has 32 bits and the name is valid. -/
structure DirEntry.WellFormed (entry : DirEntry) : Prop where
  inode : entry.inode ≤ 2 ^ 32 - 1
  fileName : validateFileName entry.fileName = true

section
variable {data data' : Bytes} {dataSize nEntries i : Nat} {entries results : List DirEntry}

theorem processDirent_wellFormed {entry : DirEntry}
    (h : processDirent data dataSize nEntries i = .ok (some (some entry))) : entry.WellFormed := by
  unfold processDirent at h
  dsimp only at h
  split at h
  · cases h
  next hdirent =>
  split at h
  · cases h
  split at h
  · cases h
  split at h
  · cases h
  split at h
  · cases h
  next hname =>
  cases h
  exact ⟨Nat.le_of_not_lt fun hlt => hdirent (.inl hlt), not_not.mp hname⟩

theorem processDirents_wellFormed {count : Nat}
    (h : processDirents data dataSize nEntries count i entries = .ok (some results))
    (hentries : ∀ entry ∈ entries, entry.WellFormed) : ∀ entry ∈ results, entry.WellFormed := by
  induction count generalizing i entries with
  | zero =>
    cases h
    exact hentries
  | succ count ih =>
    obtain ⟨entry, hentry, hrest⟩ := Attempt.andThen_eq_ok h
    refine ih hrest fun other hother => ?_
    rcases List.mem_append.mp hother with hother | hother
    · exact hentries other hother
    · obtain rfl := Option.mem_toList.mp hother
      exact processDirent_wellFormed hentry

theorem processDirectoryBlock_wellFormed
    (h : processDirectoryBlock data dataSize entries = .ok (some results))
    (hentries : ∀ entry ∈ entries, entry.WellFormed) : ∀ entry ∈ results, entry.WellFormed := by
  unfold processDirectoryBlock at h
  dsimp only at h
  split at h
  · cases h
  · exact processDirents_wellFormed h hentries

/-! ## The bytes behind the block -/

theorem strnlen_inside {offset maxLength : Nat} (h : offset + maxLength ≤ data.length) :
    strnlen data offset maxLength =
      .ok (((data.drop offset).take maxLength).takeWhile (· ≠ 0)).length := by
  rw [← List.take_takeWhile, List.length_take]
  unfold strnlen
  dsimp only
  split
  · next hle => rw [Nat.min_eq_left hle]
  · next hlt =>
    rw [if_pos, Nat.min_eq_right (Nat.le_of_not_le hlt)]
    rw [List.length_drop]
    omega

theorem nameLength_given {dirent : ErofsDirEntry} {n : Nat}
    (htake : data.take dataSize = data'.take dataSize)
    (hlength : dataSize ≤ data'.length) (hentries : nEntries * dirEntrySize ≤ dataSize)
    (hi : i < nEntries)
    (hoffset : dirent.nameOffset ≤ dataSize) (hbound : dirent.nameOffset ≤ 2 ^ 64)
    (h : nameLength data dataSize nEntries i dirent = .ok n) :
    nameLength data' dataSize nEntries i dirent = .ok n := by
  unfold nameLength at h ⊢
  split
  · next hlast =>
    rw [if_pos hlast] at h
    have hfits : dirent.nameOffset + wrapSub64 dataSize dirent.nameOffset ≤ dataSize := by
      have hle := wrapSub64_le hoffset hbound
      omega
    have hslice := @Bytes.slice_congr data data' dataSize dirent.nameOffset
      (wrapSub64 dataSize dirent.nameOffset) htake hfits
    unfold Bytes.slice at hslice
    rw [strnlen_inside (hfits.trans hlength), ← hslice, ← strnlen_ok h]
  · next hlast =>
    rw [if_neg hlast] at h
    rw [← ofBlock_congr htake (Nat.le_trans (Nat.mul_le_mul_right _ (by omega)) hentries)]
    exact h

/-- An entry that is accepted is accepted whatever is behind the block. -/
theorem processDirent_given {entry : Option DirEntry}
    (htake : data.take dataSize = data'.take dataSize)
    (hlength : dataSize ≤ data'.length) (hentries : nEntries * dirEntrySize ≤ dataSize)
    (hi : i < nEntries)
    (h : processDirent data dataSize nEntries i = .ok (some entry)) :
    processDirent data' dataSize nEntries i = .ok (some entry) := by
  have hdirent : ErofsDirEntry.ofBlock data i = ErofsDirEntry.ofBlock data' i :=
    ofBlock_congr htake (Nat.le_trans (Nat.mul_le_mul_right _ hi) hentries)
  have hbound : (ErofsDirEntry.ofBlock data' i).nameOffset ≤ 2 ^ 64 :=
    (Bytes.uint_lt _ 8 2).le.trans (by decide)
  unfold processDirent at h ⊢
  rw [hdirent] at h
  generalize ErofsDirEntry.ofBlock data' i = dirent at h hbound
  dsimp only at h ⊢
  split at h
  · cases h
  next htype =>
  rw [if_neg htype]
  split at h
  · cases h
  next n hname =>
  split at h
  · cases h
  next hfits =>
  rw [nameLength_given htake hlength hentries hi (by omega) hbound hname]
  dsimp only
  rw [if_neg hfits, ← Bytes.slice_congr htake (by omega)]
  exact h

theorem processDirents_given {count : Nat} (htake : data.take dataSize = data'.take dataSize)
    (hlength : dataSize ≤ data'.length) (hentries : nEntries * dirEntrySize ≤ dataSize)
    (hi : i + count = nEntries)
    (h : processDirents data dataSize nEntries count i entries = .ok (some results)) :
    processDirents data' dataSize nEntries count i entries = .ok (some results) := by
  induction count generalizing i entries with
  | zero => exact h
  | succ count ih =>
    obtain ⟨entry, hentry, hrest⟩ := Attempt.andThen_eq_ok h
    unfold processDirents
    rw [processDirent_given htake hlength hentries (by omega) hentry]
    exact ih (by omega) hrest

theorem processDirectoryBlock_given (htake : data.take dataSize = data'.take dataSize)
    (hlength : dataSize ≤ data'.length) (hsize : dirEntrySize ≤ dataSize)
    (h : processDirectoryBlock data dataSize entries = .ok (some results)) :
    processDirectoryBlock data' dataSize entries = .ok (some results) := by
  unfold processDirectoryBlock at h ⊢
  rw [ofBlock_congr htake (by rw [Nat.zero_add, Nat.one_mul]; exact hsize)] at h
  dsimp only at h ⊢
  split at h
  · cases h
  · next hoffset =>
    rw [if_neg hoffset]
    refine processDirents_given htake hlength ?_ (Nat.zero_add _) h
    exact (Nat.div_mul_le_self _ _).trans (by omega)

end

/-! ## Directories -/

namespace ErofsReader

variable {σ τ : Type} {file : IErofsImageFile σ} {file' : IErofsImageFile τ} {lz4 : Lz4}

theorem readDirectoryLoop_wellFormed {blockSize blocks offset : Nat}
    {results entries : List DirEntry}
    {inode : ErofsInode} {reader reader' : ErofsReader} {s s' : σ}
    (h : readDirectoryLoop file lz4 blockSize blocks offset results inode reader s =
      .ok (some entries, reader', s'))
    (hresults : ∀ entry ∈ results, entry.WellFormed) : ∀ entry ∈ entries, entry.WellFormed := by
  induction blocks generalizing offset results inode reader s with
  | zero =>
    cases h
    exact hresults
  | succ blocks ih =>
    rw [readDirectoryLoop_succ] at h
    split at h
    · dsimp only at h
      split at h
      · cases h
      split at h
      · cases h
      split at h
      · cases h
      split at h
      · cases h
      · cases h
      · next hblock => exact ih h (processDirectoryBlock_wellFormed hblock hresults)
    · cases h
      exact hresults

/-- The entries of a directory are well formed. -/
theorem readDirectory_wellFormed {superBlock : ErofsSuperBlock} {dirInode : Nat}
    {entries : List DirEntry} {reader reader' : ErofsReader} {s s' : σ}
    (h : reader.readDirectory file lz4 superBlock dirInode s = .ok (some entries, reader', s')) :
    ∀ entry ∈ entries, entry.WellFormed := by
  unfold readDirectory at h
  dsimp only at h
  split at h
  · cases h
  · exact readDirectoryLoop_wellFormed h fun _ hmem => nomatch hmem

theorem readDirectoryLoop_given {S : σ → τ → Prop} (hagree : Agree S file file')
    {s s' : σ} {t : τ} (hs : S s t) {blockSize count offset : Nat} {results entries : List DirEntry}
    {inode : ErofsInode} {blocks : List Bytes}
    (hdata : ReadsBlocks file' lz4 blockSize inode offset t blocks)
    {reader reader' : ErofsReader} {buffer' : Bytes}
    (hsize : blockSize ≤ reader.dirBlockBuffer.length)
    (hlength : buffer'.length = reader.dirBlockBuffer.length)
    (h : readDirectoryLoop file lz4 blockSize count offset results inode reader s =
      .ok (some entries, reader', s')) :
    ∃ final t', readDirectoryLoop file' lz4 blockSize count offset results inode
      { reader with dirBlockBuffer := buffer' } t = .ok (some entries, final, t') := by
  induction count generalizing offset results inode reader buffer' s t blocks with
  | zero =>
    cases h
    exact ⟨_, _, rfl⟩
  | succ count ih =>
    rw [readDirectoryLoop_succ] at h ⊢
    split at h
    swap
    · next hge =>
      rw [if_neg hge]
      cases h
      exact ⟨_, _, rfl⟩
    next hlt =>
    rw [if_pos hlt]
    dsimp only at h ⊢
    generalize hamount : min blockSize (inode.size - offset) = amount at h
    split at h
    · cases h
    next hsmall =>
    rw [if_neg hsmall]
    have htaken : (reader.dirBlockBuffer.take amount).length = amount := by
      rw [List.length_take]
      omega
    have htaken' : (buffer'.take amount).length = (reader.dirBlockBuffer.take amount).length := by
      rw [List.length_take, List.length_take, hlength]
    obtain ⟨block, rest, inode₁, s₁, t₁, rfl, hs₁, hx, hy, hrest⟩ :=
      hdata.next hagree hs hlt (htaken.trans hamount.symm) htaken'
    rw [hx] at h
    rw [hy]
    dsimp only at h ⊢
    rw [htaken] at hrest
    split at h
    · cases h
    next hne =>
    rw [if_neg hne]
    have hblock := ErofsInode.read_length hx
    have hfilled := length_take_append_drop amount hblock
    have hfilled' : (block ++ buffer'.drop amount).length =
        (block ++ reader.dirBlockBuffer.drop amount).length := by
      rw [List.length_append, List.length_append, List.length_drop, List.length_drop, hlength]
    split at h
    · cases h
    · cases h
    · next results' hprocess =>
      rw [processDirectoryBlock_given (take_filled hblock hlength)
        (by rw [hfilled', hfilled]; omega) (Nat.not_lt.mp hsmall) hprocess]
      refine @ih s₁ t₁ hs₁ _ _ _ _ hrest
        { reader with dirBlockBuffer := block ++ reader.dirBlockBuffer.drop amount } _ ?_ ?_ h
      · rw [hfilled]
        exact hsize
      · exact hfilled'

/-- A directory that can be read and is given is given whatever the buffer holds. -/
theorem readDirectory_given {S : σ → τ → Prop} (hagree : Agree S file file')
    {s s' : σ} {t : τ} (hs : S s t) {superBlock : ErofsSuperBlock} {dirInode : Nat}
    (hdata : DataReadable file lz4 superBlock s dirInode) {entries : List DirEntry}
    {reader reader' : ErofsReader} {buffer' : Bytes}
    (hsize : superBlock.blockSize ≤ reader.dirBlockBuffer.length)
    (hlength : buffer'.length = reader.dirBlockBuffer.length)
    (h : reader.readDirectory file lz4 superBlock dirInode s = .ok (some entries, reader', s')) :
    ∃ final t', readDirectory file' lz4 superBlock dirInode
      { reader with dirBlockBuffer := buffer' } t =
      .ok (some entries, final, t') := by
  obtain ⟨hinode, hstate⟩ := ErofsInode.new_alike hagree hs superBlock dirInode 0
  have htype := readDirectory_type h
  obtain ⟨blocks, hdata⟩ := hdata htype
  obtain ⟨-, hblocks⟩ := hdata.alike hagree hs
  unfold readDirectory at h ⊢
  dsimp only at h ⊢
  rw [← hinode] at hblocks ⊢
  rw [if_neg (not_not.mpr htype)] at h ⊢
  refine readDirectoryLoop_given hagree (hstate fun hunknown => ?_) hblocks hsize hlength h
  rw [hunknown] at htype
  cases htype

end ErofsReader

end Erofs
