import Ralf.Erofs.DirectoryBlocks

/-!
# The paths of entries

The names of an image are checked, so that the path of an entry that is given is relative and
none of its names is special. The reader keeps this of the directories on its stack and of the
entries of the current directory.
-/

namespace Erofs

open Posix

/-- A path of names that are not special. -/
def PlainPath (path : FilePath) : Prop := ∃ names, path = FilePath.ofNames names ∧ Plain names

theorem append_eq_ofNames {names : List Bytes} {name : Bytes}
    (hname : validateFileName name = true) :
    (FilePath.ofNames names).append name = FilePath.ofNames (names ++ [name]) := by
  unfold validateFileName at hname
  simp only [Bool.and_eq_true, List.all_eq_true, decide_eq_true_eq] at hname
  obtain ⟨⟨⟨⟨hempty, -⟩, -⟩, -⟩, hchars⟩ := hname
  unfold FilePath.append
  rw [if_neg, if_neg]
  · rfl
  · rintro rfl
    cases hempty
  · rintro rfl
    exact (hchars _ List.mem_cons_self).1 rfl

theorem plain_concat {names : List Bytes} {name : Bytes} (h : Plain names)
    (hname : validateFileName name = true) : Plain (names ++ [name]) := by
  unfold validateFileName at hname
  simp only [Bool.and_eq_true, decide_eq_true_eq] at hname
  intro other hother
  rcases List.mem_append.mp hother with hother | hother
  · exact h other hother
  · obtain rfl := List.mem_singleton.mp hother
    exact ⟨hname.1.1.2, hname.1.2⟩

theorem PlainPath.append {path : FilePath} {entry : DirEntry} (h : PlainPath path)
    (hentry : entry.WellFormed) : PlainPath (path.append entry.fileName) := by
  obtain ⟨names, rfl, hplain⟩ := h
  exact ⟨_, append_eq_ofNames hentry.fileName, plain_concat hplain hentry.fileName⟩

namespace ErofsReader

/-- The directories that a reader still has to read, and the entries of the current one, have names
that are not special. -/
structure PlainNames (reader : ErofsReader) : Prop where
  stack : ∀ dir ∈ reader.dirStack, PlainPath dir.path
  entries : ∀ entry ∈ reader.currentDir, entry.WellFormed

section
variable {σ : Type} {file : IErofsImageFile σ} {lz4 : Lz4} {superBlock : ErofsSuperBlock}
  {reader reader' : ErofsReader} {s s' : σ}

theorem nextDirectory_plainNames {stack : List Directory} {found : Bool}
    (h : nextDirectory file lz4 superBlock stack reader s = .ok (found, reader', s'))
    (hstack : ∀ dir ∈ stack, PlainPath dir.path)
    (hentries : ∀ entry ∈ reader.currentDir, entry.WellFormed) : reader'.PlainNames := by
  induction stack generalizing reader s with
  | nil =>
    cases h
    exact ⟨fun _ hmem => (nomatch hmem), hentries⟩
  | cons front rest ih =>
    unfold nextDirectory at h
    split at h
    · cases h
    · next hread =>
      obtain ⟨buffer, reads, rfl⟩ := readDirectory_frame hread
      cases h
      exact ⟨hstack, hentries⟩
    · next hread =>
      obtain ⟨buffer, reads, rfl⟩ := readDirectory_frame hread
      exact ih h (fun dir hdir => hstack dir (List.mem_cons_of_mem _ hdir)) hentries
    · next hread =>
      cases h
      exact ⟨hstack, readDirectory_wellFormed hread⟩

theorem AtEntry.wellFormed {front : Directory} {dirEntry : DirEntry}
    (h : reader.AtEntry superBlock front dirEntry)
    (hplain : reader.PlainNames) : dirEntry.WellFormed :=
  hplain.entries _ (List.mem_of_getElem? h.dirEntry)

theorem AtEntry.plainPath {front : Directory} {dirEntry : DirEntry}
    (h : reader.AtEntry superBlock front dirEntry) (hplain : reader.PlainNames) :
    PlainPath (front.path.append dirEntry.fileName) :=
  (hplain.stack _ (List.mem_of_head? h.front)).append (h.wellFormed hplain)

theorem PlainNames.advance {front : Directory} {dirEntry : DirEntry}
    (h : reader.PlainNames) (hat : reader.AtEntry superBlock front dirEntry) :
    (reader.advance front dirEntry).PlainNames := by
  refine ⟨fun dir hdir => ?_, h.entries⟩
  unfold ErofsReader.advance at hdir
  dsimp only at hdir
  split at hdir
  · rcases List.mem_append.mp hdir with hdir | hdir
    · exact h.stack dir hdir
    · rw [List.mem_singleton.mp hdir]
      exact hat.plainPath h
  · exact h.stack dir hdir

theorem next_plainNames {entry : Option ErofsEntry} (hplain : reader.PlainNames)
    (h : reader.next file lz4 s = .ok (entry, reader', s')) :
    reader'.PlainNames ∧ ∀ given ∈ entry, PlainPath given.path := by
  cases next_cases h with
  | idle => exact ⟨hplain, fun _ hgiven => nomatch hgiven⟩
  | invalid hat =>
      exact ⟨⟨(hplain.advance hat).stack, hplain.entries⟩, fun _ hgiven => nomatch hgiven⟩
  | within hat =>
    refine ⟨hplain.advance hat, fun given hgiven => ?_⟩
    cases hgiven
    exact hat.plainPath hplain
  | @across superBlock front dirEntry inode s₁ s₂ reader₁ found hat hinode hvalid hlast hnext =>
    refine ⟨nextDirectory_plainNames hnext ?_ fun _ hmem => (nomatch hmem), fun given hgiven => ?_⟩
    · exact fun dir hdir => (hplain.advance hat).stack dir (List.mem_of_mem_tail hdir)
    · cases found with
      | true =>
        cases hgiven
        exact hat.plainPath hplain
      | false => cases hgiven

theorem new_plainNames (h : ErofsReader.new file lz4 s = .ok (reader, s')) : reader.PlainNames := by
  have hidle : ∀ reader : ErofsReader, reader.dirStack = [] → reader.currentDir = [] →
    reader.PlainNames := by
    intro reader hstack hcurrent
    refine ⟨fun _ hmem => ?_, fun _ hmem => ?_⟩
    · rw [hstack] at hmem
      cases hmem
    · rw [hcurrent] at hmem
      cases hmem
  unfold ErofsReader.new at h
  dsimp only at h
  split at h
  · cases h
    exact hidle _ rfl rfl
  split at h
  · cases h
  · cases h
    exact hidle _ rfl rfl
  split at h
  · cases h
    exact hidle _ rfl rfl
  split at h
  · cases h
  · next hread =>
    obtain ⟨buffer, reads, rfl⟩ := readDirectory_frame hread
    cases h
    exact hidle _ rfl rfl
  · next hread =>
    obtain ⟨buffer, reads, rfl⟩ := readDirectory_frame hread
    cases h
    exact hidle _ rfl rfl
  · next hread =>
    cases h
    refine ⟨fun dir hdir => ?_, readDirectory_wellFormed hread⟩
    rw [List.mem_singleton.mp hdir]
    exact ⟨[], rfl, fun _ hmem => nomatch hmem⟩

end

end ErofsReader

end Erofs
