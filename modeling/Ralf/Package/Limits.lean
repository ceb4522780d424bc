import Ralf.Package.ExtractTo

/-!
# Extraction limits

`extractLoop` checks the limit on bytes before an entry is written, with the size that the
entry declares, and the limit on entries after it was written. `Outcome` says how the loop
ends, over the entries and the bytes that each one has. `limits_iff` compares that with what
the limits are for: extracting fails for a package that exceeds one, and only then, and
nothing beyond a limit is written.
-/

namespace Posix

variable {α β : Type}

/-- Every result that a script can give. -/
def Gives (script : Script α) (P : α → Prop) : Prop := ∀ w, P (script w).1

theorem Gives.pure {P : α → Prop} {a : α} (h : P a) : Gives (pure a : Script α) P := fun _ => h

theorem Gives.any (script : Script α) : Gives script fun _ => True := fun _ => trivial

theorem Gives.bind {script : Script α} {next : α → Script β} {P : α → Prop} {Q : β → Prop}
    (h : Gives script P) (hnext : ∀ a, P a → Gives (next a) Q) : Gives (script >>= next) Q := by
  intro w
  rw [bind_apply]
  exact hnext _ (h w) _

end Posix

namespace Package

open Posix Archive Oci

variable {sha256 : Bytes → Bytes} {faults : Nat → Option Errno} {targetDir : Location}
  {options : ExtractOptions} {maxBytes maxEntries : Nat}

/-! ## The bytes of an entry -/

/-- An error with the code of the limits. -/
def IsLimit (error : Error) : Prop := error.code = .ralf .packageExtractLimitExceeded

/-- Where the last data block ends. -/
def blocksEnd : List DataBlock → Nat → Nat
  | [], currentOffset => currentOffset
  | block :: rest, _ => blocksEnd rest (block.offset.toNat + block.bytes.length)

namespace EntryImpl

/-- The bytes of a file or a symlink. A directory has none. -/
def bytes : EntryImpl → Nat
  | archive entry state =>
    match entry.kind with
    | .directory => 0
    | .symlink target => target.length
    | .file _ _ => blocksEnd state.archive.blocks 0
  | erofs entry =>
    match entry.type with
    | .regular => entry.size
    | .symlink => (entry.read [] (pathMax - 1) 0).2.length
    | _ => 0

/-- The size is a 64-bit number, and what the entry reads from has its own error codes. -/
def Honest (entry : EntryImpl) : Prop :=
  entry.size < 2 ^ 64 ∧
    match entry with
    | archive _ state => ∀ error, state.error = some error → ¬ IsLimit error
    | erofs entry => ∀ before n offset error,
      (entry.read before n offset).1 = some error → ¬ IsLimit error

end EntryImpl

/-- Writing an entry fails with an error of its own or gives its number of bytes. -/
def Amount (n : Nat) : Result Nat → Prop
  | .error error => ¬ IsLimit error
  | .ok amount => amount = n

theorem not_isLimit_ralf {code : ErrorCode} {what : String}
    (h : code ≠ .packageExtractLimitExceeded) : ¬ IsLimit (.ralf code what) :=
  fun hlimit => h (StdErrorCode.ralf.inj hlimit)

theorem not_isLimit_system (errno : Nat) (what : String) : ¬ IsLimit (.system errno what) :=
  fun hlimit => nomatch hlimit

/-- Without the option to skip existing files only directories are skipped. -/
theorem checkExtraction_gives
    (hoptions : ExtractOptions.has options ExtractOption.skipExistingFiles = false)
    (path : FilePath) (type : FileType) (perms : Nat) :
    Gives (checkExtraction faults targetDir path type perms options) fun result =>
      match result with
      | .error error => ¬ IsLimit error
      | .ok .skip => type = .directory
      | .ok .extract => True := by
  unfold checkExtraction
  refine Gives.bind (Gives.any _) fun result _ => ?_
  cases result with
  | error errno =>
    dsimp only
    split
    · exact Gives.pure trivial
    · exact Gives.pure (not_isLimit_system _ _)
  | ok st =>
    dsimp only
    split
    · exact Gives.pure (not_isLimit_ralf (by decide))
    rw [hoptions, if_neg Bool.false_ne_true]
    split
    · split
      · next htype =>
        split
        · exact Gives.pure htype
        · refine Gives.bind (Gives.any _) fun result _ => ?_
          cases result with
          | error errno => exact Gives.pure (not_isLimit_system _ _)
          | ok _ => exact Gives.pure htype
      · refine Gives.bind (Gives.any _) fun result _ => ?_
        cases result with
        | error errno => exact Gives.pure (not_isLimit_ralf (by decide))
        | ok _ => exact Gives.pure trivial
    · refine Gives.bind (Gives.any _) fun result _ => ?_
      cases result with
      | error errno => exact Gives.pure (not_isLimit_system _ _)
      | ok _ => exact Gives.pure trivial

/-! ### Entries of an archive -/

theorem writeBlocks_gives (path : FilePath) (loc : Location) (maxSize : Nat)
    (blocks : List DataBlock)
    (currentOffset : Nat) (digested : Bytes) :
    Gives (writeBlocks faults path loc maxSize blocks currentOffset digested) fun result =>
      match result with
      | .error error => ¬ IsLimit error
      | .ok (offset, _) => offset = blocksEnd blocks currentOffset := by
  induction blocks generalizing currentOffset digested with
  | nil => exact Gives.pure rfl
  | cons block rest ih =>
    unfold writeBlocks
    dsimp only
    split
    · exact Gives.pure (not_isLimit_ralf (by decide))
    split
    · exact Gives.pure (not_isLimit_ralf (by decide))
    split
    · exact Gives.pure (not_isLimit_ralf (by decide))
    refine Gives.bind (Gives.any _) fun result _ => ?_
    cases result with
    | error errno => exact Gives.pure (not_isLimit_ralf (by decide))
    | ok _ => exact ih _ _

theorem doFileWrite_gives (path : FilePath) (perms : Nat) (digest : Option Bytes) (loc : Location)
    (maxSize : Nat) (archive : LibarchiveReader) :
    Gives (doFileWrite sha256 faults path perms digest loc maxSize archive)
      (Amount (blocksEnd archive.blocks 0)) := by
  unfold doFileWrite
  refine Gives.bind (writeBlocks_gives _ _ _ _ _ _) fun result hresult => ?_
  rcases result with error | ⟨currentOffset, digested⟩
  · exact Gives.pure hresult
  · dsimp only
    split
    · exact Gives.pure (not_isLimit_ralf (by decide))
    split
    · exact Gives.pure (not_isLimit_ralf (by decide))
    refine Gives.bind (Gives.any _) fun result _ => ?_
    cases result with
    | error errno => exact Gives.pure (not_isLimit_system _ _)
    | ok _ => exact Gives.pure hresult

theorem writeDirectory_gives
    (hoptions : ExtractOptions.has options ExtractOption.skipExistingFiles = false)
    (entry : PackageEntry) : Gives (writeDirectory faults targetDir entry options) (Amount 0) := by
  unfold writeDirectory
  refine Gives.bind (checkExtraction_gives hoptions _ _ _) fun result hresult => ?_
  rcases result with error | _ | _
  · exact Gives.pure hresult
  · exact Gives.pure rfl
  · refine Gives.bind (Gives.any _) fun result _ => ?_
    cases result with
    | error errno => exact Gives.pure (not_isLimit_system _ _)
    | ok _ => exact Gives.bind (Gives.any _) fun _ _ => Gives.pure rfl

theorem writeSymlink_gives
    (hoptions : ExtractOptions.has options ExtractOption.skipExistingFiles = false)
    (entry : PackageEntry) (target : Bytes) (maxSize : Nat) :
    Gives (writeSymlink faults targetDir entry target maxSize options) (Amount target.length) := by
  unfold writeSymlink
  split
  · exact Gives.pure (not_isLimit_ralf (by decide))
  refine Gives.bind (checkExtraction_gives hoptions _ _ _) fun result hresult => ?_
  rcases result with error | _ | _
  · exact Gives.pure hresult
  · exact Gives.pure rfl
  · refine Gives.bind (Gives.any _) fun result _ => ?_
    cases result with
    | error errno => exact Gives.pure (not_isLimit_system _ _)
    | ok _ => exact Gives.bind (Gives.any _) fun _ _ => Gives.pure rfl

theorem writeFile_gives
    (hoptions : ExtractOptions.has options ExtractOption.skipExistingFiles = false)
    (entry : PackageEntry) (digest : Option Bytes) (index maxSize : Nat) {state : SharedReadState}
    (hstate : ∀ error, state.error = some error → ¬ IsLimit error) :
    Gives (writeFile sha256 faults targetDir entry digest index maxSize options state)
      (Amount (blocksEnd state.archive.blocks 0)) := by
  unfold writeFile
  cases hread : checkReadState index state with
  | error error =>
    refine Gives.pure ?_
    unfold checkReadState at hread
    cases herror : state.error with
    | some own =>
      rw [herror] at hread
      cases hread
      exact hstate _ herror
    | none =>
      rw [herror] at hread
      dsimp only at hread
      split at hread
      · cases hread
        exact not_isLimit_ralf (by decide)
      · cases hread
  | ok _ =>
    refine Gives.bind (checkExtraction_gives hoptions _ _ _) fun result hresult => ?_
    rcases result with error | _ | _
    · exact Gives.pure hresult
    · cases hresult
    refine Gives.bind (Gives.any _) fun result _ => ?_
    cases result with
    | error errno => exact Gives.pure (not_isLimit_system _ _)
    | ok loc =>
      refine Gives.bind (doFileWrite_gives _ _ _ _ _ _) fun result hwrite => ?_
      cases result with
      | error error => exact Gives.bind (Gives.any _) fun _ _ => Gives.pure hwrite
      | ok size =>
        refine Gives.bind (Gives.any _) fun result _ => ?_
        cases result with
        | error errno =>
          refine Gives.bind (Gives.any _) fun _ _ => ?_
          exact Gives.bind (Gives.any _) fun _ _ => Gives.pure (not_isLimit_system _ _)
        | ok _ => exact Gives.bind (Gives.any _) fun _ _ => Gives.pure hwrite

/-! ### Entries of an image -/

/-- With its own size as the limit, a copy ends exactly there. -/
theorem copyContents_gives {image : OCIErofsImageEntry} (loc : Location)
    (hread : ∀ before n offset error, (image.read before n offset).1 = some error → ¬ IsLimit error)
    (fuel : Nat) (before : List (Nat × Nat)) (offset : Nat) (hfuel : image.size ≤ offset + fuel)
    (hoffset : offset ≤ image.size) :
    Gives (image.copyContents faults loc image.size fuel before offset) (Amount image.size) := by
  induction fuel generalizing before offset with
  | zero => exact Gives.pure (Nat.le_antisymm hoffset hfuel)
  | succ fuel ih =>
    unfold OCIErofsImageEntry.copyContents
    split
    · dsimp only
      split
      · refine Gives.pure fun hlimit => ?_
        cases herror : (image.read before 4096 offset).1 with
        | none =>
          rw [herror] at hlimit
          cases hlimit
        | some error =>
          rw [herror] at hlimit
          exact hread _ _ _ _ herror hlimit
      · next hdata =>
        split
        · exact Gives.pure (not_isLimit_ralf (by decide))
        · next hsize =>
          refine Gives.bind (Gives.any _) fun result _ => ?_
          cases result with
          | error errno => exact Gives.pure (not_isLimit_system _ _)
          | ok _ =>
            have hpos := List.length_pos_of_ne_nil fun hnil => hdata (.inr hnil)
            exact ih _ _ (by omega) (by omega)
    · next hend => exact Gives.pure (Nat.le_antisymm hoffset (Nat.not_lt.mp hend))

theorem create_gives {image : OCIErofsImageEntry}
    (hread : ∀ before n offset error, (image.read before n offset).1 = some error → ¬ IsLimit error) :
    Gives (image.create faults targetDir image.size) (Amount (EntryImpl.erofs image).bytes) := by
  obtain ⟨path, type, permissions, size, modificationTime, read⟩ := image
  unfold OCIErofsImageEntry.create
  cases type with
  | regular =>
    dsimp only
    unfold OCIErofsImageEntry.writeFile
    refine Gives.bind (Gives.any _) fun result _ => ?_
    cases result with
    | error errno => exact Gives.pure (not_isLimit_system _ _)
    | ok loc =>
      refine Gives.bind (copyContents_gives loc hread _ [] 0 (Nat.zero_add _).ge (Nat.zero_le _))
        fun result hresult => ?_
      cases result with
      | error error => exact Gives.pure hresult
      | ok offset =>
        refine Gives.bind (Gives.any _) fun result _ => ?_
        cases result with
        | error errno => exact Gives.pure (not_isLimit_system _ _)
        | ok _ => exact Gives.pure hresult
  | directory =>
    dsimp only
    unfold OCIErofsImageEntry.writeDirectory
    refine Gives.bind (Gives.any _) fun result _ => ?_
    cases result with
    | error errno => exact Gives.pure (not_isLimit_system _ _)
    | ok _ => exact Gives.pure rfl
  | symlink =>
    dsimp only
    unfold OCIErofsImageEntry.writeSymlink
    dsimp only
    split
    · exact Gives.pure (not_isLimit_ralf (by decide))
    split
    · exact Gives.pure (not_isLimit_ralf (by decide))
    refine Gives.bind (Gives.any _) fun result _ => ?_
    cases result with
    | error errno => exact Gives.pure (not_isLimit_system _ _)
    | ok _ => exact Gives.pure rfl
  | character => exact Gives.pure (not_isLimit_ralf (by decide))
  | block => exact Gives.pure (not_isLimit_ralf (by decide))
  | fifo => exact Gives.pure (not_isLimit_ralf (by decide))
  | socket => exact Gives.pure (not_isLimit_ralf (by decide))
  | unknown => exact Gives.pure (not_isLimit_ralf (by decide))

theorem writeTo_gives
    (hoptions : ExtractOptions.has options ExtractOption.skipExistingFiles = false)
    {entry : EntryImpl} (hhonest : entry.Honest) :
    Gives (entry.writeTo sha256 faults targetDir entry.size options) (Amount entry.bytes) := by
  obtain ⟨-, hown⟩ := hhonest
  cases entry with
  | archive entry state =>
    obtain ⟨path, kind, size, perms, modTime⟩ := entry
    cases kind with
    | directory => exact writeDirectory_gives hoptions _
    | symlink target => exact writeSymlink_gives hoptions _ _ _
    | file digest index => exact writeFile_gives hoptions _ _ _ _ hown
  | erofs image =>
    refine Gives.bind (checkExtraction_gives hoptions _ _ _) fun result hresult => ?_
    rcases result with error | _ | _
    · exact Gives.pure hresult
    · obtain ⟨path, type, permissions, size, modificationTime, read⟩ := image
      cases hresult
      exact Gives.pure rfl
    · refine Gives.bind (create_gives hown) fun result hcreate => ?_
      cases result with
      | error error => exact Gives.pure hcreate
      | ok amount => exact Gives.bind (Gives.any _) fun _ _ => Gives.pure hcreate

/-! ## How the loop ends -/

/-- The bytes of the entries before an index. -/
def bytesBefore (entries : List EntryImpl) (i : Nat) : Nat :=
  ((entries.take i).map EntryImpl.bytes).sum

/-- The entries before an index with their bytes. -/
def firsts (entries : List EntryImpl) (i : Nat) : List (EntryImpl × Nat) :=
  (entries.take i).map fun entry => (entry, entry.bytes)

/-- The sum that is compared with the limit exceeds it, for the size that the entry declares. -/
def Refused (maxBytes : Nat) (entries : List EntryImpl) (i : Nat) : Prop :=
  ∃ entry, entries[i]? = some entry ∧ maxBytes < wrap64 (bytesBefore entries i + entry.size)

/-- The loop gets to an index, unless it fails. -/
structure Reaches (maxBytes maxEntries : Nat) (entries : List EntryImpl) (i : Nat) : Prop where
  admitted : ∀ j < i, ¬ Refused maxBytes entries j
  below : i < maxEntries ∨ i = 0

/-- The four ways in which extracting ends. -/
inductive Outcome (maxBytes maxEntries : Nat) (entries : List EntryImpl) : Extraction → Prop
  | size {i : Nat} {error : Error} (hreach : Reaches maxBytes maxEntries entries i)
      (hrefused : Refused maxBytes entries i) (hlimit : IsLimit error) :
      Outcome maxBytes maxEntries entries ⟨.error error, firsts entries i⟩
  | count {i : Nat} {error : Error} (hreach : Reaches maxBytes maxEntries entries i)
      (hi : i < entries.length) (hadmitted : ¬ Refused maxBytes entries i)
      (hlast : maxEntries ≤ i + 1) (hlimit : IsLimit error) :
      Outcome maxBytes maxEntries entries ⟨.error error, firsts entries (i + 1)⟩
  | failed {i : Nat} {error : Error} (hreach : Reaches maxBytes maxEntries entries i)
      (hi : i ≤ entries.length) (hother : ¬ IsLimit error) :
      Outcome maxBytes maxEntries entries ⟨.error error, firsts entries i⟩
  | finished {dirModTimes : List (FilePath × Int)}
      (hreach : Reaches maxBytes maxEntries entries entries.length) :
      Outcome maxBytes maxEntries entries ⟨.ok dirModTimes, firsts entries entries.length⟩

section
variable {entries : List EntryImpl} {i : Nat} {entry : EntryImpl}

theorem bytesBefore_succ (h : entries[i]? = some entry) :
    bytesBefore entries (i + 1) = bytesBefore entries i + entry.bytes := by
  unfold bytesBefore
  rw [List.take_add_one, h, Option.toList_some, List.map_append, List.sum_append,
    List.map_singleton,
    List.sum_singleton]

theorem firsts_succ (h : entries[i]? = some entry) :
    firsts entries (i + 1) = firsts entries i ++ [(entry, entry.bytes)] := by
  unfold firsts
  rw [List.take_add_one, h, Option.toList_some, List.map_append, List.map_singleton]

theorem bytesBefore_mono {j : Nat} (h : i ≤ j) : bytesBefore entries i ≤ bytesBefore entries j := by
  induction j, h using Nat.le_induction with
  | base => exact Nat.le_refl _
  | succ j _ ih =>
    cases hget : entries[j]? with
    | none =>
      unfold bytesBefore at ih ⊢
      rwa [List.take_add_one, hget, Option.toList_none, List.append_nil]
    | some entry =>
      rw [bytesBefore_succ hget]
      exact Nat.le_add_right_of_le ih

theorem sum_firsts (entries : List EntryImpl) (i : Nat) :
    ((firsts entries i).map Prod.snd).sum = bytesBefore entries i := by
  unfold firsts bytesBefore
  rw [List.map_map]
  rfl

theorem length_firsts (h : i ≤ entries.length) : (firsts entries i).length = i := by
  unfold firsts
  rw [List.length_map, List.length_take, Nat.min_eq_left h]

theorem Reaches.succ (hreach : Reaches maxBytes maxEntries entries i)
    (hadmitted : ¬ Refused maxBytes entries i) (hbelow : i + 1 < maxEntries) :
    Reaches maxBytes maxEntries entries (i + 1) where
  admitted j hj := by
    rcases Nat.lt_succ_iff_lt_or_eq.mp hj with hlt | rfl
    · exact hreach.admitted j hlt
    · exact hadmitted
  below := .inl hbelow

/-- The loop from an index on, by induction on the entries that are left. -/
theorem extractLoop_outcome
    (hoptions : ExtractOptions.has options ExtractOption.skipExistingFiles = false)
    (hhonest : ∀ entry ∈ entries, entry.Honest) {rest : List EntryImpl}
    (hrest : entries.drop i = rest) (hi : i ≤ entries.length)
    (hreach : Reaches maxBytes maxEntries entries i)
    (dirModTimes : List (FilePath × Int)) (w : World) :
    Outcome maxBytes maxEntries entries
      (extractLoop sha256 faults targetDir maxBytes maxEntries options rest
        (wrap64 (bytesBefore entries i)) i dirModTimes (firsts entries i) w).1 := by
  induction rest generalizing i dirModTimes w with
  | nil =>
    obtain rfl := Nat.le_antisymm hi (List.drop_eq_nil_iff.mp hrest)
    exact .finished hreach
  | cons entry rest ih =>
    have hget : entries[i]? = some entry := by
      rw [← Nat.add_zero i, ← List.getElem?_drop, hrest]
      rfl
    have hlt : i < entries.length := (List.getElem?_eq_some_iff.mp hget).1
    have hdrop : entries.drop (i + 1) = rest := by
      rw [← List.drop_drop, hrest]
      rfl
    have hsum : ∀ n, wrap64 (wrap64 (bytesBefore entries i) + n) = wrap64
      (bytesBefore entries i + n) :=
      fun n => Nat.mod_add_mod _ _ _
    have hwrite := @writeTo_gives sha256 faults targetDir options hoptions entry
      (hhonest entry (List.mem_of_getElem? hget)) w
    unfold extractLoop
    dsimp only
    rw [hsum]
    split
    · next hsize => exact .size hreach ⟨entry, hget, hsize⟩ rfl
    next hsize =>
    have hadmitted : ¬ Refused maxBytes entries i := by
      rintro ⟨_, hget', hrefused⟩
      rw [hget] at hget'
      cases hget'
      exact hsize hrefused
    rw [bind_apply]
    generalize entry.writeTo sha256 faults targetDir entry.size options w = written at hwrite
    obtain ⟨result, w'⟩ := written
    cases result with
    | error error => exact .failed hreach hi hwrite
    | ok amount =>
      cases hwrite
      dsimp only
      rw [← firsts_succ hget, hsum, ← bytesBefore_succ hget]
      split
      · next hlast => exact .count hreach hlt hadmitted hlast rfl
      · next hlast =>
        exact ih hdrop hlt (hreach.succ hadmitted (Nat.lt_of_not_le hlast)) _ _

theorem extractTo_outcome
    (hoptions : ExtractOptions.has options ExtractOption.skipExistingFiles = false)
    {reader : PackageReaderImpl} (hhonest : ∀ entry ∈ reader.entries, entry.Honest)
    (hreader : ∀ error, reader.error = some error → ¬ IsLimit error) (w : World) :
    Outcome maxBytes maxEntries reader.entries
      (extractTo sha256 faults targetDir maxBytes maxEntries (.ok reader) options w).1 := by
  have hloop :=
    @extractLoop_outcome sha256 faults targetDir options maxBytes maxEntries reader.entries 0
    hoptions hhonest _ rfl (Nat.zero_le _)
      ⟨fun _ hj => absurd hj (Nat.not_lt_zero _), .inr rfl⟩ [] w
  unfold extractTo
  dsimp only
  rw [bind_apply]
  change Outcome maxBytes maxEntries reader.entries
    (extractLoop sha256 faults targetDir maxBytes maxEntries options reader.entries 0 0 []
      [] w).1 at hloop
  generalize extractLoop sha256 faults targetDir maxBytes maxEntries options
    reader.entries 0 0 [] [] w
    = looped at hloop
  obtain ⟨⟨result, written⟩, w'⟩ := looped
  cases result with
  | error error => exact hloop
  | ok dirModTimes =>
    dsimp only at hloop ⊢
    cases herror : reader.error with
    | none => exact hloop
    | some error =>
      cases hloop with
      | finished hreach => exact .failed hreach (Nat.le_refl _) (hreader error herror)

end

/-! ## What the limits are for -/

/-- Extracting fails because of a limit. -/
def Extraction.LimitExceeded (extraction : Extraction) : Prop :=
  ∃ error, extraction.result = .error error ∧ IsLimit error

/-- Extracting fails for another reason. -/
def Extraction.OtherFailure (extraction : Extraction) : Prop :=
  ∃ error, extraction.result = .error error ∧ ¬ IsLimit error

/-- Extracting fails for exactly the packages that exceed a limit, and never writes more. -/
structure ObeysLimits (maxBytes maxEntries : Nat) (entries : List EntryImpl)
    (extraction : Extraction) :
    Prop where
  fails : ¬ extraction.OtherFailure → (extraction.LimitExceeded ↔
    maxEntries < entries.length ∨ maxBytes < bytesBefore entries entries.length)
  bytes : (extraction.written.map Prod.snd).sum ≤ maxBytes
  number : extraction.written.length ≤ maxEntries

/-- The packages and limits for which the checks of the loop do what the limits are for. -/
structure WithinDesign (maxBytes maxEntries : Nat) (entries : List EntryImpl) : Prop where
  /-- The number of entries is the limit only when the bytes exceed theirs. -/
  number : entries.length = maxEntries → entries ≠ [] →
    maxBytes < bytesBefore entries entries.length
  /-- Without an entry to extract, the first one is already too large. -/
  none : maxEntries = 0 → entries ≠ [] → Refused maxBytes entries 0
  /-- No entry declares so much more than it has that the sum exceeds the limit. -/
  declared : entries.length ≤ maxEntries → bytesBefore entries entries.length ≤ maxBytes →
    ∀ i, ¬ Refused maxBytes entries i
  /-- No sum of a declared size wraps to a small one at the entry that goes over the limit. -/
  wrapped : ∀ i < entries.length, i < maxEntries → bytesBefore entries i ≤ maxBytes →
    maxBytes < bytesBefore entries (i + 1) → ∃ j ≤ i, Refused maxBytes entries j

section
variable {entries : List EntryImpl} {i : Nat}

/-- The first entries stay within the limit on bytes as long as the loop refuses none. -/
theorem WithinDesign.bytes_le (hdesign : WithinDesign maxBytes maxEntries entries)
    (hadmitted : ∀ j < i, ¬ Refused maxBytes entries j) (hi : i ≤ entries.length)
    (hlimit : i ≤ maxEntries) :
    bytesBefore entries i ≤ maxBytes := by
  induction i with
  | zero => exact Nat.zero_le _
  | succ i ih =>
    have hbefore := ih (fun j hj => hadmitted j (Nat.lt_succ_of_lt hj)) (Nat.le_of_succ_le hi)
      (Nat.le_of_succ_le hlimit)
    by_contra hover
    obtain ⟨j, hj, hrefused⟩ := hdesign.wrapped i hi hlimit hbefore (Nat.lt_of_not_le hover)
    exact hadmitted j (Nat.lt_succ_of_le hj) hrefused

theorem Reaches.le_maxEntries (hreach : Reaches maxBytes maxEntries entries i) :
    i ≤ maxEntries := by
  rcases hreach.below with hlt | rfl
  · exact hlt.le
  · exact Nat.zero_le _

theorem Refused.lt_length (h : Refused maxBytes entries i) : i < entries.length := by
  obtain ⟨entry, hget, -⟩ := h
  exact (List.getElem?_eq_some_iff.mp hget).1

theorem obeysLimits_of_withinDesign {extraction : Extraction}
    (houtcome : Outcome maxBytes maxEntries entries extraction)
    (hdesign : WithinDesign maxBytes maxEntries entries) :
    ObeysLimits maxBytes maxEntries entries extraction := by
  cases houtcome with
  | @size i error hreach hrefused hlimit =>
    have hi := hrefused.lt_length.le
    refine ⟨fun _ => iff_of_true ⟨error, rfl, hlimit⟩ ?_, ?_, ?_⟩
    · by_contra hneither
      rw [not_or] at hneither
      exact hdesign.declared (Nat.not_lt.mp hneither.1) (Nat.not_lt.mp hneither.2) i hrefused
    · rw [sum_firsts]
      exact hdesign.bytes_le hreach.admitted hi hreach.le_maxEntries
    · rw [length_firsts hi]
      exact hreach.le_maxEntries
  | @count i error hreach hi hadmitted hlast hlimit =>
    have hne : entries ≠ [] := List.ne_nil_of_length_pos (Nat.zero_lt_of_lt hi)
    have hbelow : i < maxEntries := by
      rcases hreach.below with hlt | rfl
      · exact hlt
      · rcases Nat.eq_zero_or_pos maxEntries with hzero | hpos
        · exact absurd (hdesign.none hzero hne) hadmitted
        · exact hpos
    have hall : ∀ j < i + 1, ¬ Refused maxBytes entries j := by
      intro j hj
      rcases Nat.lt_succ_iff_lt_or_eq.mp hj with hlt | rfl
      · exact hreach.admitted j hlt
      · exact hadmitted
    refine ⟨fun _ => iff_of_true ⟨error, rfl, hlimit⟩ ?_, ?_, ?_⟩
    · rcases Nat.lt_or_eq_of_le (Nat.succ_le_of_lt hi) with hlt | heq
      · exact .inl (Nat.lt_of_le_of_lt hlast hlt)
      · exact .inr (hdesign.number (heq.symm.trans (Nat.le_antisymm hbelow hlast)) hne)
    · rw [sum_firsts]
      exact hdesign.bytes_le hall hi hbelow
    · rw [length_firsts hi]
      exact hbelow
  | @failed i error hreach hi hother =>
    refine ⟨fun hnone => absurd ⟨error, rfl, hother⟩ hnone, ?_, ?_⟩
    · rw [sum_firsts]
      exact hdesign.bytes_le hreach.admitted hi hreach.le_maxEntries
    · rw [length_firsts hi]
      exact hreach.le_maxEntries
  | finished hreach =>
    have hbytes := hdesign.bytes_le hreach.admitted (Nat.le_refl _) hreach.le_maxEntries
    refine ⟨fun _ => iff_of_false ?_ ?_, ?_, ?_⟩
    · rintro ⟨_, hresult, -⟩
      cases hresult
    · rintro (hnumber | hmore)
      · exact Nat.not_le.mpr hnumber hreach.le_maxEntries
      · exact Nat.not_le.mpr hmore hbytes
    · rw [sum_firsts]
      exact hbytes
    · rw [length_firsts (Nat.le_refl _)]
      exact hreach.le_maxEntries

theorem withinDesign_of_obeysLimits {extraction : Extraction}
    (houtcome : Outcome maxBytes maxEntries entries extraction)
    (hother : ¬ extraction.OtherFailure)
    (hobeys : ObeysLimits maxBytes maxEntries entries extraction) :
    WithinDesign maxBytes maxEntries entries := by
  have hfails := hobeys.fails hother
  have hbytes := hobeys.bytes
  -- with at least `i` entries written, the ones before `i` do not go over the limit
  have hbelow : ∀ {i k}, extraction.written = firsts entries k → i ≤ k →
    bytesBefore entries i ≤ maxBytes := by
    intro i k hwritten hle
    rw [hwritten, sum_firsts] at hbytes
    exact Nat.le_trans (bytesBefore_mono hle) hbytes
  cases houtcome with
  | @size k error hreach hrefused hlimit =>
    have hexceeds := hfails.mp ⟨error, rfl, hlimit⟩
    refine ⟨fun heq hne => ?_, fun hzero _ => ?_, fun hle hsum => ?_, fun i _ _ _ hover =>
      ⟨k, ?_, hrefused⟩⟩
    · exact hexceeds.resolve_left heq.le.not_gt
    · obtain rfl : k = 0 := hreach.below.resolve_left (hzero ▸ Nat.not_lt_zero k)
      exact hrefused
    · exact absurd hexceeds (not_or.mpr ⟨hle.not_gt, hsum.not_gt⟩)
    · by_contra hlt
      exact absurd (hbelow rfl (Nat.lt_of_not_le hlt)) hover.not_ge
  | @count k error hreach hk hadmitted hlast hlimit =>
    have hexceeds := hfails.mp ⟨error, rfl, hlimit⟩
    refine ⟨fun heq hne => ?_, fun hzero _ => ?_, fun hle hsum => ?_, fun i _ hi _ hover => ?_⟩
    · exact hexceeds.resolve_left heq.le.not_gt
    · have hnumber := hobeys.number
      rw [hzero, length_firsts hk] at hnumber
      exact absurd hnumber (Nat.not_succ_le_zero k)
    · exact absurd hexceeds (not_or.mpr ⟨hle.not_gt, hsum.not_gt⟩)
    · have hle : i + 1 ≤ k + 1 := Nat.le_trans hi hlast
      exact absurd (hbelow rfl hle) hover.not_ge
  | failed hreach hi hown => exact absurd ⟨_, rfl, hown⟩ hother
  | finished hreach =>
    refine ⟨fun heq hne => ?_, fun hzero hne => ?_, fun _ _ i hrefused =>
      ?_, fun i hi _ _ hover => ?_⟩
    · have hzero := hreach.below.resolve_left heq.not_lt
      exact absurd (List.length_eq_zero_iff.mp hzero) hne
    · have hlength := hreach.below.resolve_left (hzero ▸ Nat.not_lt_zero _)
      exact absurd (List.length_eq_zero_iff.mp hlength) hne
    · exact hreach.admitted i hrefused.lt_length hrefused
    · exact absurd (hbelow rfl hi) hover.not_ge

end

/-- The limits do what they are for exactly within the design of their checks; that is enough
for a run that fails for another reason. -/
theorem limits_iff (hoptions : ExtractOptions.has options ExtractOption.skipExistingFiles = false)
    {reader : PackageReaderImpl} (hhonest : ∀ entry ∈ reader.entries, entry.Honest)
    (hreader : ∀ error, reader.error = some error → ¬ IsLimit error) (w : World) :
    let extraction :=
      (extractTo sha256 faults targetDir maxBytes maxEntries (.ok reader) options w).1
    (WithinDesign maxBytes maxEntries reader.entries →
        ObeysLimits maxBytes maxEntries reader.entries extraction) ∧
      (¬ extraction.OtherFailure →
        (ObeysLimits maxBytes maxEntries reader.entries extraction ↔
          WithinDesign maxBytes maxEntries reader.entries)) := by
  intro extraction
  have houtcome := @extractTo_outcome sha256 faults targetDir options maxBytes maxEntries hoptions
    reader hhonest hreader w
  exact ⟨obeysLimits_of_withinDesign houtcome, fun hother =>
    ⟨withinDesign_of_obeysLimits houtcome hother, obeysLimits_of_withinDesign houtcome⟩⟩

/-! ### A package at the limit -/

/-- A directory in a package. -/
def oneDirectory : EntryImpl :=
  .archive (createDirectoryEntry [[100]] 0) ⟨LibarchiveReader.new [], none, false, 0⟩

/-- An empty target directory. -/
def emptyTarget : World := ⟨⟨[([], ⟨.directory, 0o755, 0⟩)]⟩, [], 0⟩

/-- A symlink in a package. -/
def symlinkTo (name : UInt8) (target : Bytes) : EntryImpl :=
  .archive ⟨FilePath.ofNames [[name]], .symlink target, target.length, 0o777, 0⟩
    ⟨LibarchiveReader.new [], none, false, 0⟩

/-- Two symlinks, of two bytes and of three. -/
def twoSymlinks : List EntryImpl := [symlinkTo 97 [120, 121], symlinkTo 98 [120, 121, 122]]

/-- With a limit of four bytes the first one is extracted, and the second one refused. -/
theorem limits_iff_two :
    let extraction := (extractTo (fun _ => []) (fun _ => none) [] 4 3 (.ok ⟨twoSymlinks, none⟩)
      ExtractOption.none emptyTarget).1
    ObeysLimits 4 3 twoSymlinks extraction ∧ extraction.LimitExceeded ∧
      extraction.written.map Prod.snd = [2] := by
  intro extraction
  have hhonest : ∀ entry ∈ twoSymlinks, entry.Honest := by
    intro entry hentry
    have hnone : ∀ error, (none : Option Error) = some error → ¬ IsLimit error := nofun
    rcases List.mem_cons.mp hentry with rfl | hentry
    · exact ⟨by decide, hnone⟩
    · cases List.mem_singleton.mp hentry
      exact ⟨by decide, hnone⟩
  have hfails : extraction.result =
    .error (.ralf .packageExtractLimitExceeded "Package extraction size limit exceeded") := rfl
  refine ⟨(@limits_iff (fun _ => []) (fun _ => none) [] ExtractOption.none 4 3 (by decide)
    ⟨twoSymlinks, none⟩ hhonest nofun emptyTarget).1 ?_, ⟨_, hfails, rfl⟩, rfl⟩
  refine ⟨fun h => absurd h (by decide), fun h => absurd h (by decide),
    fun _ hbytes => absurd hbytes (by decide), fun i hi _ _ hover => ?_⟩
  rcases i with _ | _ | i
  · exact absurd hover (by decide)
  · exact ⟨1, Nat.le_refl 1, _, rfl, by decide⟩
  · exact absurd hi (Nat.not_lt.mpr (Nat.le_add_left 2 i))

/-- One directory does not exceed a limit of one entry, and yet extracting it fails for it. -/
theorem not_limits :
    ¬ ObeysLimits 0 1 [oneDirectory]
      (extractTo (fun _ => []) (fun _ => none) [] 0 1 (.ok ⟨[oneDirectory], none⟩)
        ExtractOption.none emptyTarget).1 := by
  have hfails : (extractTo (fun _ => []) (fun _ => none) [] 0 1 (.ok ⟨[oneDirectory], none⟩)
      ExtractOption.none emptyTarget).1.result =
      .error (.ralf .packageExtractLimitExceeded "Package extraction entry limit exceeded") := rfl
  intro hobeys
  have hexceeds := (hobeys.fails fun ⟨error, hresult, hother⟩ => by
    rw [hfails] at hresult
    cases hresult
    exact hother rfl).mp ⟨_, hfails, rfl⟩
  exact absurd hexceeds (by decide)

end Package
