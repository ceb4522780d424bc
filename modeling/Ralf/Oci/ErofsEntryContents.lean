import Ralf.Erofs.InodeContents
import Ralf.Oci.ErofsImageExtraction

/-!
# What reads of an entry of an image give

An entry of an image has an inode, which was perhaps read before. `ImageSource.readEntry_gives` says
that what its reads give, when they give something, is a range of the contents of the inode.
-/

namespace Oci

open Posix Erofs PartialSequence

/-- Where an entry of an image comes from: an image, the inode as it was made, and the inode after
reads of its data that were made before. Any read of the image file may fail. -/
structure ImageSource where
  {σ : Type}
  file : IErofsImageFile σ
  byte : Nat → UInt8
  gives : GivesBytes file byte
  lz4 : Lz4
  path : FilePath
  made : ErofsInode
  unread : made.inodeReader = none
  prior : List ReadAt
  inode : ErofsInode
  used : ErofsInode.Used file lz4 made prior inode
  state : σ

namespace ImageSource

variable (source : ImageSource)

/-- The entry, as it is wrapped. -/
def entry : OCIErofsImageEntry :=
  .new ⟨source.path, source.inode⟩
    (OCIErofsImageEntry.readEntry source.file source.lz4 source.inode source.state)

/-- The bytes of the data. -/
def content : Nat → Option UInt8 := source.made.content source.lz4 source.file.size_lt source.byte

/-- The contents, if the image has all of it. -/
def contents : Option Bytes := source.made.contents source.lz4 source.file.size_lt source.byte

/-- The reads that copying a number of blocks makes. -/
def copyReads (count : Nat) : List (Nat × Nat) :=
  (List.range count).map fun k => (4096, 4096 * k)

/-- The reads that writing the entry makes, with their sizes and offsets. -/
def writeReads : List (Nat × Nat) :=
  match source.made.type with
  | .regular => copyReads ((source.made.size + 4095) / 4096)
  | .symlink => [(pathMax - 1, 0)]
  | _ => []

/-- All reads, those that were made before and those that writing makes. -/
def calls : List ReadAt :=
  source.prior ++ source.writeReads.flatMap fun read =>
    source.made.readAt (List.replicate read.1 0) read.2

/-- The condition on compressed data for all reads. -/
def Ordered : Prop := source.made.Ordered source.file.size_lt source.byte source.calls

variable {source} {data : Bytes} {size offset : Nat} {before : List (Nat × Nat)}

theorem inode_size : source.inode.size = source.made.size := by rw [source.used.same]

theorem inode_type : source.inode.type = source.made.type := by rw [source.used.same]

theorem inBounds_calls : source.made.InBounds source.calls := by
  intro call hcall
  rcases List.mem_append.mp hcall with hcall | hcall
  · exact source.used.inBounds call hcall
  · obtain ⟨read, -, hread⟩ := List.mem_flatMap.mp hcall
    exact ErofsInode.inBounds_readAt _ _ _ call hread

/-- What a read gives is a range of the contents, whatever was read before. -/
theorem readEntry_gives (hordered : source.Ordered) {inode : ErofsInode} {s : source.σ}
    (hkeeps : source.made.Keeps source.lz4 source.file.size_lt source.byte source.calls inode)
    (hbefore : before ⊆ source.writeReads) (hread : (size, offset) ∈ source.writeReads)
    (hgives : OCIErofsImageEntry.readEntry source.file source.lz4 inode s before size offset =
      (none, data)) (hdata : data ≠ []) :
    data.length = min size (source.made.size - offset) ∧
      readRange source.content offset data.length = some data := by
  have hcalls : ∀ read ∈ source.writeReads,
      source.made.readAt (List.replicate read.1 0) read.2 ⊆ source.calls :=
    fun read hmem call hcall => List.mem_append_right _ (List.mem_flatMap.mpr ⟨read, hmem, hcall⟩)
  induction before generalizing inode s with
  | nil =>
    unfold OCIErofsImageEntry.readEntry at hgives
    split at hgives
    · cases hgives
      exact absurd rfl hdata
    next amount filled inode' s' hfilled =>
    split at hgives
    · exact absurd (congrArg Prod.snd hgives).symm hdata
    next hamount =>
    cases hgives
    have hlast : source.made.readAt (List.replicate size 0) offset ⊆ source.calls :=
      hcalls _ hread
    obtain ⟨-, hgiven⟩ := hkeeps.read source.gives hordered inBounds_calls hlast hfilled
    obtain ⟨rfl, hrange⟩ := hgiven (by omega)
    rw [List.length_replicate] at hrange ⊢
    rw [Int.toNat_natCast]
    have hlength := length_of_readRange hrange
    rw [hlength]
    exact ⟨rfl, hrange⟩
  | cons read rest ih =>
    unfold OCIErofsImageEntry.readEntry at hgives
    split at hgives
    · cases hgives
      exact absurd rfl hdata
    next hfilled =>
    obtain ⟨hkeeps', -⟩ := hkeeps.read source.gives hordered inBounds_calls
      (hcalls _ (hbefore List.mem_cons_self)) hfilled
    exact ih hkeeps' (fun _ hmem => hbefore (List.mem_cons_of_mem _ hmem)) hgives

theorem keeps (hordered : source.Ordered) :
    source.made.Keeps source.lz4 source.file.size_lt source.byte source.calls source.inode :=
  source.used.keeps source.gives hordered inBounds_calls source.unread
    fun _ hcall => List.mem_append_left _ hcall

/-! ## The reads of writing -/

theorem entry_type : source.entry.type = source.made.type := inode_type

theorem entry_size (htype : source.made.type ≠ .directory) :
    source.entry.size = source.made.size := by
  have htype' : source.inode.type ≠ .directory := by
    rw [inode_type]
    exact htype
  exact (if_neg htype').trans inode_size

theorem copyReads_succ (count : Nat) :
    copyReads (count + 1) = copyReads count ++ [(4096, 4096 * count)] := by
  unfold copyReads
  rw [List.range_succ, List.map_append]
  rfl

theorem mem_writeReads (htype : source.made.type = .regular) {k : Nat}
    (hk : 4096 * k < source.made.size) : (4096, 4096 * k) ∈ source.writeReads := by
  unfold writeReads
  rw [htype]
  refine List.mem_map.mpr ⟨k, List.mem_range.mpr ?_, rfl⟩
  omega

theorem copyReads_subset (htype : source.made.type = .regular) {count : Nat}
    (hcount : 4096 * count < source.made.size) : copyReads count ⊆ source.writeReads := by
  intro read hread
  obtain ⟨k, hk, rfl⟩ := List.mem_map.mp hread
  have hlt := List.mem_range.mp hk
  exact mem_writeReads htype (by omega)

/-- A read of the loop that copies the contents. -/
theorem copy_read (hordered : source.Ordered) (htype : source.made.type = .regular) {count : Nat}
    (hcount : 4096 * count < source.made.size)
    (hread : source.entry.read (copyReads count) 4096 (4096 * count) = (none, data))
    (hdata : data ≠ []) :
    data.length = min 4096 (source.made.size - 4096 * count) ∧
      readRange source.content (4096 * count) data.length = some data :=
  readEntry_gives hordered (keeps hordered) (copyReads_subset htype hcount)
    (mem_writeReads htype hcount) hread hdata

/-- The read of the target of a symlink. -/
theorem link_read (hordered : source.Ordered) (htype : source.made.type = .symlink)
    (hread : source.entry.read [] (pathMax - 1) 0 = (none, data)) (hdata : data ≠ []) :
    data.length = min (pathMax - 1) source.made.size ∧
      readRange source.content 0 data.length = some data := by
  have hmem : (pathMax - 1, 0) ∈ source.writeReads := by
    unfold writeReads
    rw [htype]
    exact List.mem_cons_self
  exact readEntry_gives hordered (keeps hordered) (List.nil_subset _) hmem hread hdata

end ImageSource

end Oci
