import Ralf.Erofs.CompactAgreement

/-!
# The packs that a build decodes

A trace of `addCompactIndexes`: the packs that its loops decode, in order, and how they end. The
entries of the trace are compared with the layout of the packed indexes (`placeOf`): every cluster
has one entry, in a pack of 4 or 2 bytes a cluster.

The loops take 2 or 16 clusters off an unsigned counter for each pack. With 2-byte packs, and an
extents offset that is a multiple of 4 but not of 8, the number of clusters in the 4-byte packs at
the start is odd. The first loop then misses its end, and it goes on through the 2-byte packs and
beyond the packed indexes, unless a head that finds no entry in the map stops it before.
`packsInOrder_iff` says that this is the only case.
-/

namespace Erofs

namespace ErofsExtentMap

/-! ## Traces -/

inductive PackKind
  | compact4B
  | singleCompact4B
  | compact2B
  deriving DecidableEq, Repr

def PackKind.pack : PackKind → Pack
  | .compact4B => compact4BIndexes
  | .singleCompact4B => singleCompact4BIndex
  | .compact2B => compact2BIndexes

/-- A pack that is decoded: where it is, and the cluster of its first entry. -/
structure DecodedPack where
  kind : PackKind
  dataOffset : Nat
  clusterIndex : Nat
  deriving DecidableEq, Repr

/-- What a part of a build decodes, and how it ends. -/
structure Trace (α : Type) where
  decoded : List DecodedPack
  outcome : Attempt α

variable {α β : Type}

/-- One part of a build after another. -/
def Trace.andThen (t : Trace α) (f : α → Trace β) : Trace β :=
  match t.outcome with
  | .error fault => ⟨t.decoded, .error fault⟩
  | .ok none => ⟨t.decoded, .ok none⟩
  | .ok (some a) => ⟨t.decoded ++ (f a).decoded, (f a).outcome⟩

theorem Trace.andThen_outcome (t : Trace α) (f : α → Trace β) :
    (t.andThen f).outcome = t.outcome.andThen fun a => (f a).outcome := by
  obtain ⟨decoded, outcome⟩ := t
  rcases outcome with fault | _ | a <;> rfl

theorem Trace.andThen_assoc {γ : Type} (t : Trace α) (f : α → Trace β) (g : β → Trace γ) :
    (t.andThen f).andThen g = t.andThen fun a => (f a).andThen g := by
  obtain ⟨decoded, outcome⟩ := t
  rcases outcome with fault | _ | a
  · rfl
  · rfl
  · unfold Trace.andThen
    dsimp only
    rcases (f a).outcome with fault | _ | b <;> simp

/-- `processIndexes`, traced. -/
def traceIndexes (kind : PackKind) (indexes : Bytes) (clusterSize : Nat)
    (position : PackPosition) : Trace ErofsExtentMap :=
  ⟨[⟨kind, position.dataOffset, position.clusterIndex⟩],
    processIndexes kind.pack indexes clusterSize position⟩

/-- The position after a pack. -/
def PackPosition.next (position : PackPosition) (pack : Pack) (map : ErofsExtentMap) :
    PackPosition where
  map := map
  dataOffset := position.dataOffset + pack.width
  clusterIndex := (position.clusterIndex + pack.count) % 2 ^ 32

@[simp] theorem PackPosition.next_dataOffset (position : PackPosition) (pack : Pack)
    (map : ErofsExtentMap) :
    (position.next pack map).dataOffset = position.dataOffset + pack.width := rfl

theorem PackPosition.next_clusterIndex {position : PackPosition} {pack : Pack}
    (h : position.clusterIndex + pack.count < 2 ^ 32) (map : ErofsExtentMap) :
    (position.next pack map).clusterIndex = position.clusterIndex + pack.count :=
  Nat.mod_eq_of_lt h

/-- `processLoop`, traced. -/
def traceLoop (kind : PackKind) (indexes : Bytes) (clusterSize limit remaining : Nat)
    (position : PackPosition) : Trace (Nat × PackPosition) :=
  if remaining > limit then
    if _h : 0 < kind.pack.width ∧ position.dataOffset + kind.pack.width ≤ indexes.length then
      (traceIndexes kind indexes clusterSize position).andThen fun map =>
        traceLoop kind indexes clusterSize limit
          ((remaining + (2 ^ 32 - kind.pack.count)) % 2 ^ 32) (position.next kind.pack map)
    else ⟨[⟨kind, position.dataOffset, position.clusterIndex⟩], .error .overread⟩
  else ⟨[], .ok (some (remaining, position))⟩
  termination_by indexes.length - position.dataOffset
  decreasing_by
    show indexes.length - (position.dataOffset + kind.pack.width) < _
    omega

/-- `addCompactIndexes`, traced. -/
def traceCompactIndexes (blockSize : Nat) (table : CompactIndexes) (map : ErofsExtentMap) :
    Trace ErofsExtentMap :=
  let clusterSize := table.header.clusterSize blockSize
  let loop (kind : PackKind) := traceLoop kind table.indexes clusterSize
  (loop .compact4B 0 table.compacted4bInitial ⟨map, 0, 0⟩).andThen fun (_, position) =>
  (loop .compact2B 0 table.compacted2b position).andThen fun (_, position) =>
  (loop .compact4B 1 table.compacted4bEnd position).andThen fun (compacted4bEnd, position) =>
  if compacted4bEnd > 0 then traceIndexes .singleCompact4B table.indexes clusterSize position
  else ⟨[], .ok (some position.map)⟩

theorem traceLoop_outcome (kind : PackKind) (indexes : Bytes) (clusterSize limit remaining : Nat)
    (position : PackPosition) :
    (traceLoop kind indexes clusterSize limit remaining position).outcome =
      processLoop kind.pack indexes clusterSize limit remaining position := by
  induction remaining, position using traceLoop.induct kind indexes limit with
  | case1 remaining position hlimit hfits ih =>
    rw [traceLoop, processLoop, if_pos hlimit, if_pos hlimit, dif_pos hfits, dif_pos hfits,
      Trace.andThen_outcome]
    exact congrArg _ (funext ih)
  | case2 remaining position hlimit hfits =>
    rw [traceLoop, processLoop, if_pos hlimit, if_pos hlimit, dif_neg hfits, dif_neg hfits]
  | case3 remaining position hlimit =>
    rw [traceLoop, processLoop, if_neg hlimit, if_neg hlimit]

/-- A trace ends as the build does. -/
theorem traceCompactIndexes_outcome (blockSize : Nat) (table : CompactIndexes)
    (map : ErofsExtentMap) :
    (traceCompactIndexes blockSize table map).outcome = addCompactIndexes blockSize table map := by
  unfold traceCompactIndexes addCompactIndexes
  simp only [Trace.andThen_outcome, traceLoop_outcome]
  refine congrArg _ (funext fun stop => congrArg _ (funext fun stop => congrArg _ (funext
    fun stop => ?_)))
  split
  · rfl
  · rfl

/-! ## The layout -/

/-- Where the entry of a cluster is: the kind and the offset of its pack, and its number in it. -/
structure EntryPlace where
  twoBytes : Bool
  dataOffset : Nat
  index : Nat
  deriving DecidableEq, Repr

/-- The place of the entry of a cluster, with `initial` clusters in the 4-byte packs at the start
and `middle` clusters in the 2-byte packs. -/
def placeOf (initial middle cluster : Nat) : EntryPlace :=
  if cluster < initial then ⟨false, cluster / 2 * 8, cluster % 2⟩
  else if cluster < initial + middle then
    ⟨true, initial * 4 + (cluster - initial) / 16 * 32, (cluster - initial) % 16⟩
  else
    let last := cluster - initial - middle
    ⟨false, initial * 4 + middle * 2 + last / 2 * 8, last % 2⟩

theorem placeOf_initial {initial middle k i : Nat} (hi : i < 2) (h : k * 2 + i < initial) :
    placeOf initial middle (k * 2 + i) = ⟨false, k * 8, i⟩ := by
  rw [placeOf, if_pos h, EntryPlace.mk.injEq]
  exact ⟨rfl, by omega, by omega⟩

theorem placeOf_middle {initial middle k i : Nat} (hi : i < 16) (h : k * 16 + i < middle) :
    placeOf initial middle (initial + k * 16 + i) = ⟨true, initial * 4 + k * 32, i⟩ := by
  rw [placeOf, if_neg (by omega), if_pos (by omega), EntryPlace.mk.injEq]
  exact ⟨rfl, by omega, by omega⟩

theorem placeOf_last {initial middle k i : Nat} (hi : i < 2) :
    placeOf initial middle (initial + middle + k * 2 + i) =
      ⟨false, initial * 4 + middle * 2 + k * 8, i⟩ := by
  rw [placeOf, if_neg (by omega), if_neg (by omega)]
  dsimp only
  rw [EntryPlace.mk.injEq]
  exact ⟨rfl, by omega, by omega⟩

/-- The entries of a pack, with the clusters they are decoded for. -/
def DecodedPack.entries (pack : DecodedPack) : List (Nat × EntryPlace) :=
  (List.range pack.kind.pack.count).map fun i =>
    (pack.clusterIndex + i, ⟨pack.kind = .compact2B, pack.dataOffset, i⟩)

/-- The entries of a number of clusters. -/
def placed (place : Nat → EntryPlace) (start count : Nat) : List (Nat × EntryPlace) :=
  (List.range' start count).map fun cluster => (cluster, place cluster)

/-- A part of a build decodes the entries of `count` clusters, each of them once and in order. It
does not leave the packed indexes, and it decodes less only when a head stops it. -/
structure Trace.Covers (indexes : Bytes) (place : Nat → EntryPlace) (start count : Nat)
    (P : α → Prop) (t : Trace α) : Prop where
  ends : t.outcome ≠ .error .overread
  inside : ∀ pack ∈ t.decoded, pack.dataOffset + pack.kind.pack.width ≤ indexes.length
  inOrder : ∃ n ≤ count, t.decoded.flatMap DecodedPack.entries = placed place start n ∧
    ∀ a, t.outcome = .ok (some a) → n = count ∧ P a

section
variable {indexes : Bytes} {place : Nat → EntryPlace} {start m n : Nat} {P : α → Prop}
  {Q : β → Prop}

theorem placed_add (place : Nat → EntryPlace) (start m n : Nat) :
    placed place start (m + n) = placed place start m ++ placed place (start + m) n := by
  rw [placed, placed, placed, ← List.map_append, List.range'_append_1]

theorem Trace.Covers.nil {a : α} (h : P a) : Covers indexes place start 0 P ⟨[], .ok (some a)⟩ where
  ends := nofun
  inside := nofun
  inOrder := ⟨0, Nat.le_refl 0, rfl, fun a' heq => by cases heq; exact ⟨rfl, h⟩⟩

theorem Trace.Covers.imp {P' : α → Prop} {t : Trace α} (h : Covers indexes place start m P t)
    (himp : ∀ a, P a → P' a) : Covers indexes place start m P' t := by
  obtain ⟨n, hn, hentries, hstop⟩ := h.inOrder
  exact ⟨h.ends, h.inside, n, hn, hentries, fun a ha => ⟨(hstop a ha).1, himp a (hstop a ha).2⟩⟩

/-- Nothing is decoded after a part that a head stops. -/
theorem Trace.Covers.stopped {t : Trace α} {f : α → Trace β} (h : Covers indexes place start m P t)
    (hstop : ∀ a, t.outcome ≠ .ok (some a)) (hle : m ≤ n) :
    Covers indexes place start n Q (t.andThen f) := by
  obtain ⟨k, hk, hentries, -⟩ := h.inOrder
  have hends := h.ends
  have hinside := h.inside
  obtain ⟨decoded, outcome⟩ := t
  rcases outcome with fault | _ | a
  · have hfault : fault ≠ .overread := fun heq => hends (congrArg _ heq)
    exact ⟨fun heq => hfault (Except.error.inj heq), hinside, k, Nat.le_trans hk hle, hentries,
      nofun⟩
  · exact ⟨nofun, hinside, k, Nat.le_trans hk hle, hentries, nofun⟩
  · exact absurd rfl (hstop a)

/-- Parts of a build decode the clusters of one after those of the other. -/
theorem Trace.Covers.andThen {t : Trace α} {f : α → Trace β} (h : Covers indexes place start m P t)
    (hf : ∀ a, P a → Covers indexes place (start + m) n Q (f a)) :
    Covers indexes place start (m + n) Q (t.andThen f) := by
  by_cases hstop : ∀ a, t.outcome ≠ .ok (some a)
  · exact h.stopped hstop (Nat.le_add_right m n)
  obtain ⟨a, ha⟩ := not_forall_not.mp hstop
  obtain ⟨k, hk, hentries, hcount⟩ := h.inOrder
  obtain ⟨rfl, hP⟩ := hcount a ha
  obtain ⟨k', hk', hentries', hcount'⟩ := (hf a hP).inOrder
  unfold Trace.andThen
  rw [ha]
  refine ⟨(hf a hP).ends, List.forall_mem_append.mpr ⟨h.inside, (hf a hP).inside⟩, k + k',
    Nat.add_le_add_left hk' k, ?_, fun b hb => ?_⟩
  · rw [List.flatMap_append, hentries, hentries', placed_add]
  · obtain ⟨rfl, hQ⟩ := hcount' b hb
    exact ⟨rfl, hQ⟩

end

/-! ## Packs in their places -/

section
variable {map : ErofsExtentMap} {fault : Fault}

theorem modifyEntry_error {index : Nat} {f : Extent → Extent}
    (h : map.modifyEntry index f = .error fault) : fault = .outOfBounds := by
  unfold modifyEntry at h
  split at h
  · cases h
  · cases h
    rfl

theorem fillEntry_error {type : ErofsLclusterType} {uncomprOffset blockAddr : Nat}
    (h : map.fillEntry type uncomprOffset blockAddr = .error fault) : fault = .outOfBounds := by
  unfold fillEntry at h
  split at h
  · cases h
  · exact modifyEntry_error h

/-- Adding a head only ever leaves the entries of the map. -/
theorem add_error {type : ErofsLclusterType} {uncomprOffset blockAddr : Nat}
    (h : map.add type uncomprOffset blockAddr = .error fault) : fault = .outOfBounds := by
  unfold add at h
  split_ifs at h
  · exact fillEntry_error h
  · rcases hclose : map.modifyEntry map.lastAddedIndex fun entry =>
        { entry with uncomprSize := wrapSub64 uncomprOffset entry.uncomprOffset }
      with fault' | _ | map' <;> rw [hclose] at h
    · cases h
      exact modifyEntry_error hclose
    · cases h
    · exact fillEntry_error h

theorem addAll_error {heads : List Head} (h : addAll heads map = .error fault) :
    fault = .outOfBounds := by
  induction heads generalizing map with
  | nil => cases h
  | cons head rest ih =>
    rw [addAll] at h
    rcases hadd : map.add head.type head.uncomprOffset head.blockAddr with fault' | _ | map' <;>
      rw [hadd] at h
    · cases h
      exact add_error hadd
    · cases h
    · exact ih h

end

/-- The heads of a pack inside the packed indexes. -/
theorem processIndexes_inside {pack : Pack} {indexes : Bytes} {clusterSize : Nat}
    {position : PackPosition} (hfits : position.dataOffset + pack.width ≤ indexes.length) :
    processIndexes pack indexes clusterSize position =
      addAll (entryHeads clusterSize position.clusterIndex
        (pack.blkaddr (indexes.slice position.dataOffset pack.width))
        (pack.entries (indexes.slice position.dataOffset pack.width))) position.map := by
  rw [processIndexes, if_pos hfits, addEntries_eq]

section
variable {indexes : Bytes} {place : Nat → EntryPlace} {kind : PackKind} {clusterSize : Nat}

variable (kind) in
/-- A pack whose entries are in their places. -/
theorem covers_traceIndexes (position : PackPosition)
    (hfits : position.dataOffset + kind.pack.width ≤ indexes.length)
    (hplace : ∀ i < kind.pack.count,
      place (position.clusterIndex + i) = ⟨kind = .compact2B, position.dataOffset, i⟩) :
    Trace.Covers indexes place position.clusterIndex kind.pack.count (fun _ => True)
      (traceIndexes kind indexes clusterSize position) where
  ends := by
    intro hover
    rw [traceIndexes, processIndexes_inside hfits] at hover
    exact absurd (addAll_error hover) (by decide)
  inside := List.forall_mem_singleton.mpr hfits
  inOrder := by
    refine ⟨kind.pack.count, Nat.le_refl _, ?_, fun _ _ => ⟨rfl, trivial⟩⟩
    rw [traceIndexes, List.flatMap_singleton, placed, List.range'_eq_map_range, List.map_map,
      DecodedPack.entries]
    refine List.map_congr_left fun i hi => ?_
    rw [Function.comp_apply, hplace i (List.mem_range.mp hi)]

/-- A number of packs of one kind. -/
def tracePacks (kind : PackKind) (indexes : Bytes) (clusterSize : Nat) :
    Nat → PackPosition → Trace PackPosition
  | 0, position => ⟨[], .ok (some position)⟩
  | n + 1, position =>
    (traceIndexes kind indexes clusterSize position).andThen fun map =>
      tracePacks kind indexes clusterSize n (position.next kind.pack map)

/-- The last of a number of packs. -/
theorem tracePacks_succ (kind : PackKind) (indexes : Bytes) (clusterSize n : Nat)
    (position : PackPosition) :
    tracePacks kind indexes clusterSize (n + 1) position =
      (tracePacks kind indexes clusterSize n position).andThen fun last =>
        (traceIndexes kind indexes clusterSize last).andThen fun map =>
          ⟨[], .ok (some (last.next kind.pack map))⟩ := by
  induction n generalizing position with
  | zero => rfl
  | succ n ih =>
    rw [tracePacks, tracePacks, Trace.andThen_assoc]
    exact congrArg _ (funext fun map => ih _)

variable (kind) in
/-- The packs at a position, if there is room for them and their entries are in their places. -/
theorem covers_tracePacks (n : Nat) (position : PackPosition)
    (hfits : position.dataOffset + n * kind.pack.width ≤ indexes.length)
    (hcluster : position.clusterIndex + n * kind.pack.count < 2 ^ 32)
    (hplace : ∀ k < n, ∀ i < kind.pack.count,
      place (position.clusterIndex + k * kind.pack.count + i) =
        ⟨kind = .compact2B, position.dataOffset + k * kind.pack.width, i⟩) :
    Trace.Covers indexes place position.clusterIndex (n * kind.pack.count)
      (fun last => last.dataOffset = position.dataOffset + n * kind.pack.width ∧
        last.clusterIndex = position.clusterIndex + n * kind.pack.count)
      (tracePacks kind indexes clusterSize n position) := by
  induction n generalizing position with
  | zero =>
    rw [Nat.zero_mul]
    exact .nil ⟨by rw [Nat.zero_mul, Nat.add_zero], rfl⟩
  | succ n ih =>
    have hwidth : (n + 1) * kind.pack.width = kind.pack.width + n * kind.pack.width := by
      rw [Nat.succ_mul, Nat.add_comm]
    have hcount : (n + 1) * kind.pack.count = kind.pack.count + n * kind.pack.count := by
      rw [Nat.succ_mul, Nat.add_comm]
    rw [hwidth] at hfits
    rw [hcount] at hcluster ⊢
    have hfirst : Trace.Covers indexes place position.clusterIndex kind.pack.count (fun _ => True)
        (traceIndexes kind indexes clusterSize position) :=
      covers_traceIndexes kind position (by omega) fun i hi => by
        simpa using hplace 0 (Nat.succ_pos n) i hi
    refine hfirst.andThen fun map _ => ?_
    have hnext := PackPosition.next_clusterIndex
      (show position.clusterIndex + kind.pack.count < 2 ^ 32 by omega) map
    have hrest := ih (position.next kind.pack map)
    rw [hnext, PackPosition.next_dataOffset] at hrest
    refine (hrest (by omega) (by omega) fun k hk i hi => ?_).imp fun last hlast => ?_
    · have hlater := hplace (k + 1) (Nat.succ_lt_succ hk) i hi
      rwa [Nat.succ_mul, Nat.succ_mul, Nat.add_comm (k * _), Nat.add_comm (k * _),
        ← Nat.add_assoc, ← Nat.add_assoc] at hlater
    · rw [hwidth, ← Nat.add_assoc, ← Nat.add_assoc]
      exact hlast

variable (kind) in
/-- A loop decodes as many packs as its counter has room for. -/
theorem traceLoop_eq_tracePacks (n : Nat) (position : PackPosition) {limit remaining : Nat}
    (hfits : position.dataOffset + n * kind.pack.width ≤ indexes.length)
    (hmore : limit + n * kind.pack.count < remaining + kind.pack.count)
    (hle : n * kind.pack.count ≤ remaining) (hlt : remaining < 2 ^ 32) :
    traceLoop kind indexes clusterSize limit remaining position =
      (tracePacks kind indexes clusterSize n position).andThen
        (traceLoop kind indexes clusterSize limit (remaining - n * kind.pack.count)) := by
  induction n generalizing remaining position with
  | zero =>
    rw [Nat.zero_mul, Nat.sub_zero]
    rfl
  | succ n ih =>
    rw [Nat.succ_mul] at hfits hmore hle ⊢
    have hwidth : 0 < kind.pack.width := by cases kind <;> decide
    have hcounter : (remaining + (2 ^ 32 - kind.pack.count)) % 2 ^ 32 =
        remaining - kind.pack.count := by
      omega
    rw [traceLoop, if_pos (by omega), dif_pos ⟨hwidth, by omega⟩, hcounter, tracePacks,
      Trace.andThen_assoc]
    refine congrArg _ (funext fun map => ?_)
    rw [ih _ (by rw [PackPosition.next_dataOffset]; omega) (by omega) (by omega) (by omega),
      Nat.sub_sub, Nat.add_comm kind.pack.count]

variable (kind) in
/-- A loop whose counter ends at its limit decodes the packs of its clusters. -/
theorem covers_traceLoop (n rest : Nat) (position : PackPosition) {limit : Nat}
    (hlimit : limit < kind.pack.count) (hrest : rest ≤ limit)
    (hfits : position.dataOffset + n * kind.pack.width ≤ indexes.length)
    (hcluster : position.clusterIndex + n * kind.pack.count < 2 ^ 32)
    (hcounter : n * kind.pack.count + rest < 2 ^ 32)
    (hplace : ∀ k < n, ∀ i < kind.pack.count,
      place (position.clusterIndex + k * kind.pack.count + i) =
        ⟨kind = .compact2B, position.dataOffset + k * kind.pack.width, i⟩) :
    Trace.Covers indexes place position.clusterIndex (n * kind.pack.count)
      (fun stop => stop.1 = rest ∧
        stop.2.dataOffset = position.dataOffset + n * kind.pack.width ∧
        stop.2.clusterIndex = position.clusterIndex + n * kind.pack.count)
      (traceLoop kind indexes clusterSize limit (n * kind.pack.count + rest) position) := by
  rw [traceLoop_eq_tracePacks kind n position hfits (by omega) (by omega) hcounter,
    Nat.add_sub_cancel_left]
  refine (covers_tracePacks kind n position hfits hcluster hplace).andThen (n := 0)
    fun last hlast => ?_
  rw [traceLoop, if_neg (Nat.not_lt.mpr hrest)]
  exact .nil ⟨rfl, hlast⟩

/-- A loop over 4-byte packs. -/
theorem covers_traceLoop_4B (n rest : Nat) (position : PackPosition) {limit remaining : Nat}
    (hlimit : limit < 2) (hrest : rest ≤ limit) (hremaining : remaining = n * 2 + rest)
    (hfits : position.dataOffset + n * 8 ≤ indexes.length)
    (hcluster : position.clusterIndex + n * 2 + rest < 2 ^ 32)
    (hplace : ∀ k < n, ∀ i < 2,
      place (position.clusterIndex + k * 2 + i) = ⟨false, position.dataOffset + k * 8, i⟩) :
    Trace.Covers indexes place position.clusterIndex (n * 2)
      (fun stop => stop.1 = rest ∧ stop.2.dataOffset = position.dataOffset + n * 8 ∧
        stop.2.clusterIndex = position.clusterIndex + n * 2)
      (traceLoop .compact4B indexes clusterSize limit remaining position) := by
  subst hremaining
  refine covers_traceLoop .compact4B n rest position hlimit hrest hfits
    (Nat.lt_of_le_of_lt (Nat.le_add_right _ rest) hcluster) ?_ hplace
  show n * 2 + rest < _
  omega

/-- A loop over 2-byte packs. -/
theorem covers_traceLoop_2B (n : Nat) (position : PackPosition)
    (hfits : position.dataOffset + n * 32 ≤ indexes.length)
    (hcluster : position.clusterIndex + n * 16 < 2 ^ 32)
    (hplace : ∀ k < n, ∀ i < 16,
      place (position.clusterIndex + k * 16 + i) = ⟨true, position.dataOffset + k * 32, i⟩) :
    Trace.Covers indexes place position.clusterIndex (n * 16)
      (fun stop => stop.1 = 0 ∧ stop.2.dataOffset = position.dataOffset + n * 32 ∧
        stop.2.clusterIndex = position.clusterIndex + n * 16)
      (traceLoop .compact2B indexes clusterSize 0 (n * 16) position) :=
  covers_traceLoop .compact2B n 0 position (by decide) (Nat.le_refl 0) hfits hcluster
    (Nat.lt_of_le_of_lt (Nat.le_add_left _ _) hcluster) hplace

end

/-! ## Tables whose counters end -/

/-- The counters and the bytes of a table belong to a number of logical clusters. -/
structure CompactIndexes.Counted (table : CompactIndexes) (logicalClusters : Nat) : Prop where
  middle : 16 ∣ table.compacted2b
  total : table.compacted4bInitial + table.compacted2b + table.compacted4bEnd = logicalClusters
  length : table.indexes.length = table.compacted4bInitial * 4 + table.compacted2b * 2 +
    (table.compacted4bEnd + 1) / 2 * 2 * 4
  lt : logicalClusters < 2 ^ 32

/-- The packs of a table are decoded in order, and none beyond the packed indexes. -/
def PacksInOrder (table : CompactIndexes) (logicalClusters : Nat) (t : Trace ErofsExtentMap) :
    Prop :=
  t.Covers table.indexes (placeOf table.compacted4bInitial table.compacted2b) 0 logicalClusters
    fun _ => True

/-- With an even number of clusters in the 4-byte packs at the start, all loops end. -/
theorem packsInOrder_of_even {table : CompactIndexes} {logicalClusters : Nat}
    (h : table.Counted logicalClusters) (heven : 2 ∣ table.compacted4bInitial) (blockSize : Nat)
    (map : ErofsExtentMap) :
    PacksInOrder table logicalClusters (traceCompactIndexes blockSize table map) := by
  obtain ⟨a, ha⟩ := heven
  obtain ⟨b, hb⟩ := h.middle
  have htotal := h.total
  have hlength := h.length
  have hlt := h.lt
  rw [ha, hb] at htotal hlength
  have hcounts : logicalClusters = a * 2 + (b * 16 + (table.compacted4bEnd / 2 * 2 +
      table.compacted4bEnd % 2)) := by
    omega
  unfold PacksInOrder traceCompactIndexes
  dsimp only
  rw [hcounts, ha, hb, Nat.mul_comm 2 a, Nat.mul_comm 16 b]
  -- the 4-byte packs at the start
  refine (covers_traceLoop_4B a 0 ⟨map, 0, 0⟩ (by decide) (Nat.le_refl 0) rfl ?_ ?_
    fun k hk i hi => ?_).andThen fun ⟨_, map, offset, cluster⟩ ⟨_, hoffset, hcluster⟩ => ?_
  · dsimp only
    omega
  · dsimp only
    omega
  · rw [Nat.zero_add, Nat.zero_add, placeOf_initial hi (by omega)]
  dsimp only at hoffset hcluster ⊢
  rw [Nat.zero_add] at hoffset hcluster ⊢
  subst hoffset hcluster
  -- the 2-byte packs
  refine (covers_traceLoop_2B b ⟨map, a * 8, a * 2⟩ ?_ ?_
    fun k hk i hi => ?_).andThen fun ⟨_, map, offset, cluster⟩ ⟨_, hoffset, hcluster⟩ => ?_
  · dsimp only
    omega
  · dsimp only
    omega
  · rw [placeOf_middle hi (by omega), EntryPlace.mk.injEq]
    exact ⟨rfl, by dsimp only; omega, rfl⟩
  dsimp only at hoffset hcluster ⊢
  subst hoffset hcluster
  -- the 4-byte packs at the end
  have hplace : ∀ k, ∀ i < 2, placeOf (a * 2) (b * 16) (a * 2 + b * 16 + k * 2 + i) =
      ⟨false, a * 8 + b * 32 + k * 8, i⟩ := by
    intro k i hi
    rw [placeOf_last hi, EntryPlace.mk.injEq]
    exact ⟨rfl, by omega, rfl⟩
  refine (covers_traceLoop_4B (table.compacted4bEnd / 2) (table.compacted4bEnd % 2)
    ⟨map, a * 8 + b * 32, a * 2 + b * 16⟩ (by decide) (by omega) (Nat.div_add_mod' _ _).symm ?_ ?_
    fun k _ => hplace k).andThen fun ⟨rest, map, offset, cluster⟩ ⟨hrest, hoffset, hcluster⟩ => ?_
  · dsimp only
    omega
  · dsimp only
    omega
  dsimp only at hrest hoffset hcluster ⊢
  subst hrest hoffset hcluster
  -- the entry that is left over
  split
  case isTrue hodd =>
    have hone : table.compacted4bEnd % 2 = 1 := by omega
    rw [hone]
    refine covers_traceIndexes .singleCompact4B ⟨map, _, _⟩ ?_ fun i hi => ?_
    · show a * 8 + b * 32 + table.compacted4bEnd / 2 * 8 + 8 ≤ _
      omega
    · exact hplace _ i (Nat.lt_trans hi (by decide))
  case isFalse heven =>
    rw [Nat.eq_zero_of_not_pos heven]
    exact .nil trivial

/-! ## Tables whose first counter misses its end -/

theorem Trace.mem_andThen {t : Trace α} {f : α → Trace β} {a : α} {pack : DecodedPack}
    (ha : t.outcome = .ok (some a)) (h : pack ∈ (f a).decoded) : pack ∈ (t.andThen f).decoded := by
  unfold Trace.andThen
  rw [ha]
  exact List.mem_append_right _ h

theorem Trace.mem_andThen_left {t : Trace α} {f : α → Trace β} {pack : DecodedPack}
    (h : pack ∈ t.decoded) : pack ∈ (t.andThen f).decoded := by
  obtain ⟨decoded, outcome⟩ := t
  rcases outcome with fault | _ | a
  · exact h
  · exact h
  · exact List.mem_append_left _ h

/-- A loop that goes on decodes the pack at its position. -/
theorem mem_traceLoop (kind : PackKind) (indexes : Bytes) (clusterSize : Nat)
    (position : PackPosition) {limit remaining : Nat} (h : limit < remaining) :
    ⟨kind, position.dataOffset, position.clusterIndex⟩ ∈
      (traceLoop kind indexes clusterSize limit remaining position).decoded := by
  rw [traceLoop, if_pos h]
  split
  · exact Trace.mem_andThen_left (List.mem_singleton.mpr rfl)
  · exact List.mem_singleton.mpr rfl

/-- The place of the first cluster behind an odd number of clusters in 4-byte packs is not in the
last of these packs. -/
theorem placeOf_odd (a middle : Nat) :
    placeOf (a * 2 + 1) middle (a * 2 + 1) ≠ ⟨false, a * 8, 1⟩ := by
  intro heq
  rw [placeOf, if_neg (Nat.lt_irrefl _)] at heq
  split at heq
  · cases heq
  · have hoffset := congrArg EntryPlace.dataOffset heq
    dsimp only at hoffset
    omega

/-- With an odd number of clusters in the 4-byte packs at the start, the packs are decoded in order
only when a head in the packs before the last one stops the build. -/
theorem packsInOrder_odd_iff {table : CompactIndexes} {logicalClusters a : Nat}
    (h : table.Counted logicalClusters) (hodd : table.compacted4bInitial = a * 2 + 1)
    (blockSize : Nat) (map : ErofsExtentMap) :
    PacksInOrder table logicalClusters (traceCompactIndexes blockSize table map) ↔
      ∀ last, (tracePacks .compact4B table.indexes (table.header.clusterSize blockSize) a
        ⟨map, 0, 0⟩).outcome ≠ .ok (some last) := by
  have htotal := h.total
  have hlength := h.length
  have hlt := h.lt
  have hfits : (0 : Nat) + a * 8 ≤ table.indexes.length := by omega
  have hpacks : Trace.Covers table.indexes
      (placeOf table.compacted4bInitial table.compacted2b) 0 (a * 2)
      (fun last : PackPosition => last.dataOffset = 0 + a * 8 ∧ last.clusterIndex = 0 + a * 2)
      (tracePacks .compact4B table.indexes (table.header.clusterSize blockSize) a ⟨map, 0, 0⟩) := by
    refine covers_tracePacks .compact4B a ⟨map, 0, 0⟩ hfits ?_ fun k hk i hi => ?_
    · show 0 + a * 2 < _
      omega
    · have hi : i < 2 := hi
      show placeOf _ _ (0 + k * 2 + i) = ⟨false, 0 + k * 8, i⟩
      rw [Nat.zero_add, Nat.zero_add, placeOf_initial hi (by omega)]
  have hloop : traceLoop .compact4B table.indexes (table.header.clusterSize blockSize) 0
      (a * 2 + 1) ⟨map, 0, 0⟩ =
      (tracePacks .compact4B table.indexes (table.header.clusterSize blockSize) a
        ⟨map, 0, 0⟩).andThen
        (traceLoop .compact4B table.indexes (table.header.clusterSize blockSize) 0
          (a * 2 + 1 - a * 2)) := by
    refine traceLoop_eq_tracePacks .compact4B a ⟨map, 0, 0⟩ hfits ?_ ?_ ?_
    · show 0 + a * 2 < a * 2 + 1 + 2
      omega
    · show a * 2 ≤ a * 2 + 1
      omega
    · omega
  rw [Nat.add_sub_cancel_left] at hloop
  unfold PacksInOrder traceCompactIndexes
  dsimp only
  rw [hodd] at hpacks ⊢
  rw [hloop, Trace.andThen_assoc]
  constructor
  · intro hcovers last hlast
    obtain ⟨-, hend⟩ := hpacks.inOrder.choose_spec.2.2 last hlast
    obtain ⟨n, -, hentries, -⟩ := hcovers.inOrder
    -- the next pack is the last one of these 4-byte packs
    have hmem : (a * 2 + 1, (⟨false, a * 8, 1⟩ : EntryPlace)) ∈
        placed (placeOf (a * 2 + 1) table.compacted2b) 0 n := by
      rw [← hentries]
      refine List.mem_flatMap.mpr ⟨⟨.compact4B, a * 8, a * 2⟩,
        Trace.mem_andThen hlast (Trace.mem_andThen_left ?_), ?_⟩
      · have hfirst := mem_traceLoop .compact4B table.indexes
          (table.header.clusterSize blockSize) last (Nat.lt_succ_self 0)
        rwa [hend.1, hend.2, Nat.zero_add, Nat.zero_add] at hfirst
      · exact List.mem_map.mpr ⟨1, List.mem_range.mpr (show 1 < 2 by decide), rfl⟩
    obtain ⟨cluster, -, heq⟩ := List.mem_map.mp hmem
    obtain ⟨rfl, hplace⟩ := Prod.mk.inj heq
    exact placeOf_odd a _ hplace
  · intro hstop
    exact hpacks.stopped hstop (by omega)

/-! ## When a head stops the build -/

/-- The entries of the first 4-byte packs. -/
def packEntries (indexes : Bytes) (n : Nat) : List Nat :=
  (List.range n).flatMap fun k => compact4BIndexes.entries (indexes.slice (k * 8) 8)

/-- The entries that are heads. -/
def headCount (entries : List Nat) : Nat :=
  entries.countP fun entry => ErofsLclusterType.ofBits (entry / 2 ^ 12) ≠ .nonHead

/-- The heads of the first 4-byte packs. -/
def packsHeads (indexes : Bytes) (clusterSize : Nat) : Nat → List Head
  | 0 => []
  | n + 1 =>
    packsHeads indexes clusterSize n ++
      entryHeads clusterSize (n * 2) (compact4BIndexes.blkaddr (indexes.slice (n * 8) 8))
        (compact4BIndexes.entries (indexes.slice (n * 8) 8))

theorem length_entryHeads (clusterSize clusterIndex blkaddr : Nat) (entries : List Nat) :
    (entryHeads clusterSize clusterIndex blkaddr entries).length = headCount entries := by
  induction entries generalizing clusterIndex blkaddr with
  | nil => rfl
  | cons entry rest ih =>
    rw [entryHeads, headCount, List.countP_cons, ← headCount]
    split
    case isTrue h =>
      rw [ih, if_neg (by rw [decide_eq_true_iff]; exact not_not.mpr h), Nat.add_zero]
    case isFalse h => rw [List.length_cons, ih, if_pos (decide_eq_true h)]

theorem length_packsHeads (indexes : Bytes) (clusterSize n : Nat) :
    (packsHeads indexes clusterSize n).length = headCount (packEntries indexes n) := by
  induction n with
  | zero => rfl
  | succ n ih =>
    rw [packsHeads, List.length_append, ih, length_entryHeads, packEntries, packEntries,
      List.range_succ, List.flatMap_append, List.flatMap_singleton, headCount, headCount, headCount,
      List.countP_append]

/-- The heads of a pack start in its clusters. -/
theorem entryHeads_lt {clusterIndex blkaddr : Nat} {entries : List Nat}
    (hlt : (clusterIndex + entries.length) * 4096 ≤ 2 ^ 64) :
    ∀ head ∈ entryHeads 4096 clusterIndex blkaddr entries,
      head.uncomprOffset < (clusterIndex + entries.length) * 4096 := by
  induction entries generalizing clusterIndex blkaddr with
  | nil => exact fun _ h => absurd h List.not_mem_nil
  | cons entry rest ih =>
    have hlength : clusterIndex + (entry :: rest).length = clusterIndex + 1 + rest.length := by
      rw [List.length_cons]
      omega
    rw [hlength] at hlt ⊢
    rw [entryHeads]
    split
    · exact ih hlt
    · refine List.forall_mem_cons.mpr ⟨?_, ih hlt⟩
      have hlow : entry &&& (4096 - 1) < 2 ^ 12 := Nat.and_lt_two_pow entry (by decide)
      have hor := Nat.two_pow_add_eq_or_of_lt hlow clusterIndex
      show wrap64 (clusterIndex * 4096) ||| _ < _
      rw [wrap64_of_lt (by omega), Nat.mul_comm, ← hor]
      omega

theorem packsHeads_lt {indexes : Bytes} {n : Nat} (hlt : n * 8192 ≤ 2 ^ 64) :
    ∀ head ∈ packsHeads indexes 4096 n, head.uncomprOffset < n * 8192 := by
  induction n with
  | zero => exact fun _ h => absurd h List.not_mem_nil
  | succ n ih =>
    have hlength : ∀ data, (compact4BIndexes.entries data).length = 2 := fun _ => rfl
    have hclusters : (n * 2 + 2) * 4096 = (n + 1) * 8192 := by ring
    have hle : n * 8192 ≤ (n + 1) * 8192 := Nat.mul_le_mul_right _ (Nat.le_succ n)
    intro head hhead
    rw [packsHeads, List.mem_append] at hhead
    rcases hhead with hhead | hhead
    · exact Nat.lt_of_lt_of_le (ih (Nat.le_trans hle hlt) head hhead) hle
    · have hbound := entryHeads_lt (by rw [hlength, hclusters]; exact hlt) head hhead
      rwa [hlength, hclusters] at hbound

/-- The first packs end as their heads do. -/
theorem tracePacks_outcome {indexes : Bytes} {clusterSize : Nat} (n : Nat)
    (hfits : n * 8 ≤ indexes.length) (hcluster : n * 2 < 2 ^ 32) (map : ErofsExtentMap) :
    (tracePacks .compact4B indexes clusterSize n ⟨map, 0, 0⟩).outcome =
      (addAll (packsHeads indexes clusterSize n) map).andThen fun map =>
        .ok (some ⟨map, n * 8, n * 2⟩) := by
  induction n with
  | zero => rfl
  | succ n ih =>
    rw [tracePacks_succ, Trace.andThen_outcome, ih (by omega) (by omega), packsHeads, addAll_append,
      Attempt.andThen_assoc, Attempt.andThen_assoc]
    refine congrArg _ (funext fun map => ?_)
    have hpack : n * 8 + 8 ≤ indexes.length := by omega
    have hnext : ∀ map', (⟨map, n * 8, n * 2⟩ : PackPosition).next compact4BIndexes map' =
        ⟨map', (n + 1) * 8, (n + 1) * 2⟩ := by
      intro map'
      rw [PackPosition.next, PackPosition.mk.injEq, Nat.succ_mul, Nat.succ_mul]
      exact ⟨rfl, rfl, Nat.mod_eq_of_lt (by show n * 2 + 2 < _; omega)⟩
    have hinside : processIndexes compact4BIndexes indexes clusterSize ⟨map, n * 8, n * 2⟩ =
        addAll (entryHeads clusterSize (n * 2)
          (compact4BIndexes.blkaddr (indexes.slice (n * 8) 8))
          (compact4BIndexes.entries (indexes.slice (n * 8) 8))) map :=
      processIndexes_inside hpack
    rw [Attempt.andThen_some, Trace.andThen_outcome]
    show (processIndexes compact4BIndexes indexes clusterSize _).andThen _ = _
    rw [hinside]
    exact congrArg _ (funext fun map' =>
      congrArg (fun last => (.ok (some last) : Attempt PackPosition)) (hnext map'))

theorem forall_andThen_ne {a : Attempt α} {f : α → β} :
    (∀ b, (a.andThen fun x => .ok (some (f x))) ≠ .ok (some b)) ↔ ∀ x, a ≠ .ok (some x) := by
  rcases a with fault | _ | x
  · exact iff_of_true (fun _ => nofun) (fun _ => nofun)
  · exact iff_of_true (fun _ => nofun) (fun _ => nofun)
  · exact iff_of_false (fun h => h (f x) rfl) (fun h => h x rfl)

/-- Heads before the end of the data stop a build when they are more than the entries. -/
theorem addAll_stops_iff {compressedBlocks uncompressedSize : Nat} {heads : List Head}
    (hblocks : compressedBlocks < 2 ^ 64) (hsize : uncompressedSize < 2 ^ 64)
    (hheads : ∀ head ∈ heads, head.uncomprOffset < uncompressedSize) (blockSize : Nat) :
    (∀ map, addAll heads (new uncompressedSize compressedBlocks blockSize 0 0) ≠ .ok (some map)) ↔
      compressedBlocks < heads.length := by
  have hrel := addAll_filling hblocks hsize heads
    (Filling.new compressedBlocks uncompressedSize blockSize) fun _ h => absurd h List.not_mem_nil
  have hpoints : headPoints uncompressedSize (heads.map Head.uncomprOffset) =
      heads.map Head.uncomprOffset := by
    refine List.filter_eq_self.mpr fun offset hoffset => ?_
    obtain ⟨head, hhead, rfl⟩ := List.mem_map.mp hoffset
    exact decide_eq_true (Nat.ne_of_lt (hheads head hhead))
  have hplace : ∀ points, placeAll compressedBlocks uncompressedSize
      (heads.map Head.uncomprOffset) [] = .ok (some points) ↔
      points = heads.map Head.uncomprOffset ∧ heads.length ≤ compressedBlocks := by
    intro points
    rw [placeAll_eq_some_iff (Nat.zero_le _), hpoints, List.nil_append]
    constructor
    · rintro ⟨-, rfl, hle⟩
      exact ⟨rfl, by rwa [List.length_map] at hle⟩
    · rintro ⟨rfl, hle⟩
      refine ⟨fun offset hoffset => ?_, rfl, by rwa [List.length_map]⟩
      obtain ⟨head, hhead, rfl⟩ := List.mem_map.mp hoffset
      exact Nat.le_of_lt (hheads head hhead)
  rw [← Nat.not_le]
  rcases hplaced : placeAll compressedBlocks uncompressedSize (heads.map Head.uncomprOffset) []
    with fault | _ | points <;>
    rcases hadd : addAll heads (new uncompressedSize compressedBlocks blockSize 0 0)
      with fault' | _ | map <;>
    rw [hplaced, hadd] at hrel <;> try exact hrel.elim
  · exact iff_of_true nofun fun hle => by simp [(hplace _).mpr ⟨rfl, hle⟩] at hplaced
  · exact iff_of_true nofun fun hle => by simp [(hplace _).mpr ⟨rfl, hle⟩] at hplaced
  · exact iff_of_false (fun h => h map rfl) (not_not.mpr ((hplace points).mp hplaced).2)

/-! ## The tables of images -/

variable {σ : Type} {file : IErofsImageFile σ}

theorem length_of_readBytes {size offset : Nat} {s s' : σ} {data : Bytes}
    (h : file.readBytes size offset s = (some data, s')) : data.length = size := by
  have hlength := file.read_length s (List.replicate size 0) offset
  unfold IErofsImageFile.readBytes at h
  split at h
  · next hread =>
    cases h
    rwa [hread, List.length_replicate] at hlength
  · cases h

/-- The numbers of clusters of a table that is read. -/
theorem readCompactIndexes_counted {extentsOffset compressedBlocks blockSize uncompressedSize : Nat}
    {s s' : σ} {table : CompactIndexes}
    (h : readCompactIndexes file extentsOffset compressedBlocks blockSize uncompressedSize s =
      .ok (some table, s')) :
    blockSize = 4096 ∧ extentsOffset % 4 = 0 ∧
      (table.header.advise % 2 = 1 → table.header.clusterSize 4096 = 4096) ∧
      (table.compacted4bInitial, table.compacted2b, table.compacted4bEnd) =
        compactedCounts (table.header.advise % 2 = 1) (extentsOffset + 8)
          (divRoundUp uncompressedSize (table.header.clusterSize 4096)) ∧
      table.indexes.length = table.compacted4bInitial * 4 + table.compacted2b * 2 +
        (table.compacted4bEnd + 1) / 2 * 2 * 4 := by
  unfold readCompactIndexes at h
  split_ifs at h with hzero hblock hbig halign <;> try cases h
  rw [not_not] at hblock halign
  subst hblock
  split at h
  · cases h
  · dsimp only at h
    split_ifs at h with halgo hadvise htwo <;> try cases h
    split at h
    · cases h
    · next data s₂ hread =>
      cases h
      refine ⟨rfl, halign, fun hodd => ?_, ?_, ?_⟩
      · exact not_not.mp fun hsize => htwo ⟨hodd, hsize⟩
      · exact (Images.compactedCounts_wrap64 _ _ _)
      · exact length_of_readBytes hread

/-- The number of clusters in the 4-byte packs in front of the 2-byte packs. -/
def initialClusters (extentsOffset : Nat) : Nat := (32 - (extentsOffset + 8) % 32) % 32 / 4

/-- The counts of a table add up. -/
theorem compactedCounts_total {twoBytes : Bool}
    {extentsOffset logicalClusters initial middle last : Nat}
    (h : (initial, middle, last) = compactedCounts twoBytes (extentsOffset + 8) logicalClusters) :
    16 ∣ middle ∧ initial + middle + last = logicalClusters ∧
      initial = if twoBytes = true ∧ initialClusters extentsOffset ≤ logicalClusters then
        initialClusters extentsOffset else 0 := by
  have hinitial : (if (32 - (extentsOffset + 8) % 32) / 4 = 32 / 4 then 0
      else (32 - (extentsOffset + 8) % 32) / 4) = initialClusters extentsOffset := by
    unfold initialClusters
    split <;> omega
  unfold compactedCounts at h
  dsimp only at h
  rw [hinitial] at h
  split_ifs at h with htwo hmore <;> obtain ⟨rfl, hrest⟩ := Prod.mk.inj h <;>
    obtain ⟨rfl, rfl⟩ := Prod.mk.inj hrest
  · exact ⟨Nat.dvd_zero 16, by omega, (if_neg fun hle => absurd hle.2 (Nat.not_le.mpr hmore)).symm⟩
  · exact ⟨Nat.dvd_mul_left _ _, by omega, (if_pos ⟨htwo, Nat.not_lt.mp hmore⟩).symm⟩
  · exact ⟨Nat.dvd_zero 16, by omega, (if_neg fun hle => absurd hle.1 htwo).symm⟩

/-- The loops over the packs of a table end where its layout says: there are no 2-byte packs, or
they start behind whole 4-byte packs, or there are too few clusters for them. Else a head in the
whole 4-byte packs in front of them finds no entry in the map. -/
def LoopsEnd (extentsOffset compressedBlocks logicalClusters : Nat) (table : CompactIndexes) :
    Prop :=
  table.header.advise % 2 = 0 ∨ extentsOffset % 8 = 0 ∨
    logicalClusters < initialClusters extentsOffset ∨
    compressedBlocks < headCount (packEntries table.indexes (initialClusters extentsOffset / 2))

/-- A map without entries is given no head before the end of the data. -/
def NoneWithoutEntries (compressedBlocks uncompressedSize : Nat) (table : CompactIndexes) : Prop :=
  compressedBlocks = 0 →
    ∀ offset, (headPoints uncompressedSize
        ((compactHeads 4096 table).added.map Head.uncomprOffset)).head? = some offset →
      uncompressedSize ≤ offset

section
variable {extentsOffset compressedBlocks blockSize uncompressedSize : Nat} {s s' : σ}
  {table : CompactIndexes}
  (hread : readCompactIndexes file extentsOffset compressedBlocks blockSize uncompressedSize s =
    .ok (some table, s'))

include hread

theorem counted_of_read :
    table.Counted (divRoundUp uncompressedSize (table.header.clusterSize 4096)) := by
  obtain ⟨-, -, -, hcounts, hlength⟩ := readCompactIndexes_counted hread
  obtain ⟨hmiddle, htotal, -⟩ := compactedCounts_total hcounts
  refine ⟨hmiddle, htotal, hlength, ?_⟩
  have hsize := (readCompactIndexes_ok file hread).size_le
  unfold kMaxUncompressedSize at hsize
  have hcluster : table.header.clusterSize 4096 = lclusterSize table.header.clusterBits :=
    wrap64_of_lt (Nat.lt_of_le_of_lt (lclusterSize_le _) (by decide))
  have hpos := lclusterSize_pos table.header.clusterBits
  rw [hcluster]
  exact Nat.lt_of_le_of_lt (divRoundUp_le_of_le_mul hpos (Nat.le_mul_of_pos_right _ hpos))
    (by omega)

/-- The packs of a table are decoded in order exactly if the loops end. -/
theorem packsInOrder_read_iff :
    PacksInOrder table (divRoundUp uncompressedSize (table.header.clusterSize 4096))
        (traceCompactIndexes 4096 table (new uncompressedSize compressedBlocks 4096 0 0)) ↔
      LoopsEnd extentsOffset compressedBlocks
        (divRoundUp uncompressedSize (table.header.clusterSize 4096)) table := by
  obtain ⟨-, halign, hclusterSize, hcounts, hlength⟩ := readCompactIndexes_counted hread
  obtain ⟨-, -, hinitial⟩ := compactedCounts_total hcounts
  have hcounted := counted_of_read hread
  have hsize := (readCompactIndexes_ok file hread).size_le
  have hbounds := (readCompactIndexes_ok file hread).lt file
  have heven : 2 ∣ initialClusters extentsOffset ↔ extentsOffset % 8 = 0 := by
    unfold initialClusters
    omega
  simp only [decide_eq_true_eq] at hinitial
  by_cases hends : table.header.advise % 2 = 0 ∨ extentsOffset % 8 = 0 ∨
      divRoundUp uncompressedSize (table.header.clusterSize 4096) < initialClusters extentsOffset
  · refine iff_of_true (packsInOrder_of_even hcounted ?_ 4096 _) ?_
    · rw [hinitial]
      split_ifs with hmiddle
      · rcases hends with htwo | haligned | hfew
        · omega
        · exact heven.mpr haligned
        · exact absurd hmiddle.2 (Nat.not_le.mpr hfew)
      · exact Nat.dvd_zero 2
    · unfold LoopsEnd
      tauto
  · rw [not_or, not_or, Nat.not_lt] at hends
    obtain ⟨htwo, hunaligned, hle⟩ := hends
    rw [if_pos ⟨by omega, hle⟩] at hinitial
    have hodd : table.compacted4bInitial = initialClusters extentsOffset / 2 * 2 + 1 := by
      have hne := mt heven.mp hunaligned
      omega
    rw [packsInOrder_odd_iff hcounted hodd]
    have htotal := hcounted.total
    have hlt := hcounted.lt
    rw [hclusterSize (by omega)] at hle ⊢
    have hroom : initialClusters extentsOffset / 2 * 8192 < uncompressedSize := by
      unfold divRoundUp at hle
      unfold kMaxUncompressedSize at hsize
      rw [wrap64_of_lt (by omega)] at hle
      omega
    have hbelow : ∀ head ∈ packsHeads table.indexes 4096 (initialClusters extentsOffset / 2),
        head.uncomprOffset < uncompressedSize := fun head hhead =>
      Nat.lt_trans (packsHeads_lt (by omega) head hhead) hroom
    have hstops := addAll_stops_iff hbounds.1 hbounds.2 hbelow 4096
    rw [length_packsHeads] at hstops
    rw [tracePacks_outcome _ (by omega) (by omega)]
    unfold LoopsEnd
    rw [or_iff_right htwo, or_iff_right hunaligned, or_iff_right (Nat.not_lt.mpr hle), ← hstops]
    exact forall_andThen_ne

/-- A build leaves the entries of its map only when the map has none. -/
theorem trace_outOfBounds_iff :
    (traceCompactIndexes 4096 table (new uncompressedSize compressedBlocks 4096 0 0)).outcome ≠
        .error .outOfBounds ↔ NoneWithoutEntries compressedBlocks uncompressedSize table := by
  have hbounds := (readCompactIndexes_ok file hread).lt file
  have hrel := addAll_filling hbounds.1 hbounds.2 (compactHeads 4096 table).added
    (Filling.new compressedBlocks uncompressedSize 4096) fun _ h => absurd h List.not_mem_nil
  have herror : placeAll compressedBlocks uncompressedSize
      ((compactHeads 4096 table).added.map Head.uncomprOffset) [] = .error .outOfBounds ↔
        ¬ NoneWithoutEntries compressedBlocks uncompressedSize table := by
    rw [placeAll_eq_error_iff (Nat.zero_le _)]
    unfold NoneWithoutEntries
    push Not
    exact ⟨fun h => h.2, fun h => ⟨rfl, h⟩⟩
  rw [traceCompactIndexes_outcome, addCompactIndexes_eq, Heads.run, Ne, not_iff_comm, ← herror]
  rcases hplaced : placeAll compressedBlocks uncompressedSize
      ((compactHeads 4096 table).added.map Head.uncomprOffset) [] with fault | _ | points <;>
    rcases hadd : addAll (compactHeads 4096 table).added
      (new uncompressedSize compressedBlocks 4096 0 0) with fault' | _ | map <;>
    rw [hplaced, hadd] at hrel <;> try exact hrel.elim
  · rw [Attempt.andThen_error, hrel, Except.error.injEq, Except.error.injEq]
  · rw [Attempt.andThen_none]
    exact iff_of_false nofun nofun
  · rw [Attempt.andThen_some]
    refine iff_of_false nofun ?_
    split
    · exact fun h => absurd (Except.error.inj h) (by decide)
    · exact nofun

end

/-- The loops of a build decode the entry of every cluster once, in order, and end inside the packed
indexes, exactly if `LoopsEnd`. They do so without leaving the entries of the map exactly if no head
is added to a map without entries as well. -/
theorem packsInOrder_iff {extentsOffset compressedBlocks blockSize uncompressedSize : Nat}
    {s s' : σ} {table : CompactIndexes}
    (hread : readCompactIndexes file extentsOffset compressedBlocks blockSize uncompressedSize s =
      .ok (some table, s')) :
    let logicalClusters := divRoundUp uncompressedSize (table.header.clusterSize blockSize)
    let build := traceCompactIndexes blockSize table
      (new uncompressedSize compressedBlocks blockSize 0 0)
    (PacksInOrder table logicalClusters build ↔
        LoopsEnd extentsOffset compressedBlocks logicalClusters table) ∧
      (PacksInOrder table logicalClusters build ∧ build.outcome ≠ .error .outOfBounds ↔
        LoopsEnd extentsOffset compressedBlocks logicalClusters table ∧
          NoneWithoutEntries compressedBlocks uncompressedSize table) := by
  obtain ⟨rfl, -⟩ := readCompactIndexes_counted hread
  exact ⟨packsInOrder_read_iff hread,
    and_congr (packsInOrder_read_iff hread) (trace_outOfBounds_iff hread)⟩

theorem zeroImage_size_lt : 8192 < 2 ^ 64 := by decide

/-- An image of two blocks of zeros. -/
def zeroImage : IErofsImageFile Unit := imageOf 8192 zeroImage_size_lt fun _ => 0

/-- The one cluster of an image of zeros is in the 4-byte pack at the end. -/
theorem packsInOrder_zeroImage :
    readCompactIndexes zeroImage 0 1 4096 2 () =
        .ok (some ⟨⟨0, 0, 0⟩, 0, 0, 1, List.replicate 8 0⟩, ()) ∧
      PacksInOrder ⟨⟨0, 0, 0⟩, 0, 0, 1, List.replicate 8 0⟩ 1
        (traceCompactIndexes 4096 ⟨⟨0, 0, 0⟩, 0, 0, 1, List.replicate 8 0⟩ (new 2 1 4096 0 0)) := by
  have hread : readCompactIndexes zeroImage 0 1 4096 2 () =
      .ok (some ⟨⟨0, 0, 0⟩, 0, 0, 1, List.replicate 8 0⟩, ()) := rfl
  exact ⟨hread, (packsInOrder_iff hread).1.mpr (.inl rfl)⟩

/-- An image of six blocks of zeros but for the advice in its map header, at offset 4: the packed
indexes have 2-byte packs. -/
def oddOffsetImage : IErofsImageFile Unit :=
  imageOf 24576 (by decide) fun offset => if offset = 8 then 1 else 0

theorem oddOffsetImage_read : readCompactIndexes oddOffsetImage 4 6 4096 20480 () =
    .ok (some ⟨⟨1, 0, 0⟩, 5, 0, 0, List.replicate 20 0⟩, ()) := by
  rfl

/-- With five clusters in the 4-byte packs at the start, the loops do not end. -/
theorem not_packsInOrder :
    ¬ ∀ {σ : Type} (file : IErofsImageFile σ) (extentsOffset compressedBlocks blockSize
      uncompressedSize : Nat) (s s' : σ) (table : CompactIndexes),
      readCompactIndexes file extentsOffset compressedBlocks blockSize uncompressedSize s =
          .ok (some table, s') →
        PacksInOrder table (divRoundUp uncompressedSize (table.header.clusterSize blockSize))
          (traceCompactIndexes blockSize table
            (new uncompressedSize compressedBlocks blockSize 0 0)) := by
  intro h
  have hends := (packsInOrder_read_iff oddOffsetImage_read).mp
    (h _ 4 6 4096 20480 _ _ _ oddOffsetImage_read)
  exact absurd hends (by unfold LoopsEnd; decide +kernel)

end ErofsExtentMap

end Erofs
