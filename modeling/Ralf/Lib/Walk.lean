import Mathlib.Data.List.Basic
import Mathlib.Data.List.Pairwise
import Mathlib.Data.List.Perm.Basic
import Mathlib.Data.Multiset.DershowitzManna
import Mathlib.Order.WellFounded

/-!
# Breadth-first walks

The nodes of a tree list entries, and some entries lead to further nodes. A walk gives the
entries of one node after the other; the nodes that they lead to wait in a queue. What a
node lists may be left open, so that it is a relation.

* `Run.sound`, `Run.closed`, `Run.nodup` and `Run.parentsFirst`: a walk that comes to its end
  has given the entries of the tree, each once and none before the entry above it;
* `terminates_of_rank`: a walk ends when the nodes below a node have a lower rank;
* `Blocked.terminates`: it also ends when there is an entry that cannot be given, however
  deep it is;
* `Step.unending`: it does not end at a place while a branch goes on below it for ever.
-/

namespace Walk

variable {D E : Type}

/-- What the nodes list, the nodes that entries lead to, and the entries that can be given. -/
structure Tree (D E : Type) where
  lists : D → List E → Prop
  sub : D → E → Option D
  given : E → Prop

/-- A node and the way to it: the numbers of the entries that lead there. -/
structure Place (D : Type) where
  route : List Nat
  node : D

/-- An entry, the way to it, and the node that lists it. -/
structure Spot (D E : Type) where
  route : List Nat
  parent : D
  entry : E

/-- The entries of a place. -/
def Place.spots (place : Place D) (entries : List E) : List (Spot D E) :=
  entries.mapIdx fun i entry => ⟨place.route ++ [i], place.node, entry⟩

/-- The place that an entry leads to. -/
def Tree.enter (tree : Tree D E) (spot : Spot D E) : List (Place D) :=
  ((tree.sub spot.parent spot.entry).map (Place.mk spot.route)).toList

/-- The entries of the current node that are still to be given, and the places that wait. -/
structure State (D E : Type) where
  pending : List (Spot D E)
  queue : List (Place D)

inductive Step (tree : Tree D E) : State D E → Option (Spot D E) → State D E → Prop
  | give {spot : Spot D E} {pending : List (Spot D E)} {queue : List (Place D)}
      (h : tree.given spot.entry) :
      Step tree ⟨spot :: pending, queue⟩ (some spot) ⟨pending, queue ++ tree.enter spot⟩
  | expand {place : Place D} {queue : List (Place D)} {entries : List E}
      (h : tree.lists place.node entries) :
      Step tree ⟨[], place :: queue⟩ none ⟨place.spots entries, queue⟩

/-- Steps from one state to another, and the entries that they give. -/
inductive Run (tree : Tree D E) : State D E → List (Spot D E) → State D E → Prop
  | refl (a : State D E) : Run tree a [] a
  | head {a b c : State D E} {spot : Option (Spot D E)} {out : List (Spot D E)}
      (h : Step tree a spot b) (hrest : Run tree b out c) : Run tree a (spot.toList ++ out) c

/-- The nodes of a tree, and the ways to them. -/
inductive At (tree : Tree D E) (root : D) : List Nat → D → Prop
  | root : At tree root [] root
  | sub {route : List Nat} {node node' : D} {entries : List E} {i : Nat} {entry : E}
      (hat : At tree root route node) (hlists : tree.lists node entries)
      (hentry : entries[i]? = some entry) (hsub : tree.sub node entry = some node') :
      At tree root (route ++ [i]) node'

/-- The entries of a tree. -/
inductive EntryAt (tree : Tree D E) (root : D) : Spot D E → Prop
  | intro {route : List Nat} {node : D} {entries : List E} {i : Nat} {entry : E}
      (hat : At tree root route node) (hlists : tree.lists node entries)
      (hentry : entries[i]? = some entry) : EntryAt tree root ⟨route ++ [i], node, entry⟩

/-- The entry above each entry is in front of it, or its route is among those seen. -/
def ParentsFirst : List (List Nat) → List (Spot D E) → Prop
  | _, [] => True
  | seen, spot :: rest => spot.route.dropLast ∈ seen ∧ ParentsFirst (spot.route :: seen) rest

section
variable {tree : Tree D E} {root : D} {a b c : State D E} {spot : Spot D E} {place : Place D}
  {given : Option (Spot D E)} {out out' : List (Spot D E)} {entries : List E}

theorem mem_spots : spot ∈ place.spots entries ↔
    ∃ i entry, entries[i]? = some entry ∧ spot = ⟨place.route ++ [i], place.node, entry⟩ := by
  unfold Place.spots
  rw [List.mem_mapIdx]
  constructor
  · rintro ⟨i, hi, rfl⟩
    exact ⟨i, entries[i], List.getElem?_eq_getElem hi, rfl⟩
  · rintro ⟨i, entry, hentry, rfl⟩
    obtain ⟨hi, rfl⟩ := List.getElem?_eq_some_iff.mp hentry
    exact ⟨i, hi, rfl⟩

theorem mem_enter : place ∈ tree.enter spot ↔
    ∃ node, tree.sub spot.parent spot.entry = some node ∧ place = ⟨spot.route, node⟩ := by
  unfold Tree.enter
  rw [Option.mem_toList, Option.map_eq_some_iff]
  exact exists_congr fun node => and_congr_right fun _ => eq_comm

theorem Run.trans (h : Run tree a out b) (h' : Run tree b out' c) : Run tree a (out ++ out') c := by
  induction h with
  | refl => exact h'
  | head hstep _ ih =>
    rw [List.append_assoc]
    exact .head hstep (ih h')

/-! ## What a walk gives -/

/-- The state is about entries and nodes of the tree. -/
structure Sound (tree : Tree D E) (root : D) (a : State D E) : Prop where
  pending : ∀ spot ∈ a.pending, EntryAt tree root spot
  queue : ∀ place ∈ a.queue, At tree root place.route place.node

theorem EntryAt.enter (h : EntryAt tree root spot) (hplace : place ∈ tree.enter spot) :
    At tree root place.route place.node := by
  obtain ⟨node, hsub, rfl⟩ := mem_enter.mp hplace
  cases h with
  | intro hat hlists hentry => exact .sub hat hlists hentry hsub

theorem Step.sound (h : Step tree a given b) (ha : Sound tree root a) :
    Sound tree root b ∧ ∀ spot ∈ given, EntryAt tree root spot := by
  cases h with
  | give h =>
    have hspot := ha.pending _ List.mem_cons_self
    refine ⟨⟨fun spot hmem => ha.pending spot (List.mem_cons_of_mem _ hmem), ?_⟩, ?_⟩
    · intro place hplace
      rcases List.mem_append.mp hplace with hplace | hplace
      · exact ha.queue place hplace
      · exact hspot.enter hplace
    · rintro _ ⟨⟩
      exact hspot
  | expand h =>
    have hplace := ha.queue _ List.mem_cons_self
    refine ⟨⟨?_, fun place hmem => ha.queue place (List.mem_cons_of_mem _ hmem)⟩,
      fun _ hmem => nomatch hmem⟩
    intro spot hspot
    obtain ⟨i, entry, hentry, rfl⟩ := mem_spots.mp hspot
    exact .intro hplace h hentry

/-- What is given is in the tree. -/
theorem Run.sound (h : Run tree a out b) (ha : Sound tree root a) :
    Sound tree root b ∧ ∀ spot ∈ out, EntryAt tree root spot := by
  induction h with
  | refl => exact ⟨ha, fun _ hmem => nomatch hmem⟩
  | head hstep _ ih =>
    obtain ⟨hb, hgiven⟩ := hstep.sound ha
    obtain ⟨hc, hout⟩ := ih hb
    refine ⟨hc, fun spot hspot => ?_⟩
    rcases List.mem_append.mp hspot with hspot | hspot
    · exact hgiven spot (Option.mem_toList.mp hspot)
    · exact hout spot hspot

/-- A node lists entries that are all given. -/
def Served (tree : Tree D E) (out : List (Spot D E)) (place : Place D) : Prop :=
  ∃ entries, tree.lists place.node entries ∧ ∀ spot ∈ place.spots entries, spot ∈ out

theorem Served.mono (h : Served tree out place) (hsub : ∀ spot ∈ out, spot ∈ out') :
    Served tree out' place := by
  obtain ⟨entries, hlists, hspots⟩ := h
  exact ⟨entries, hlists, fun spot hspot => hsub spot (hspots spot hspot)⟩

/-- A walk that comes to its end has given all entries of the nodes it was led to. -/
theorem Run.closed (h : Run tree a out ⟨[], []⟩) :
    (∀ spot ∈ a.pending, spot ∈ out) ∧ (∀ place ∈ a.queue, Served tree out place) ∧
      ∀ spot ∈ out, ∀ place ∈ tree.enter spot, Served tree out place := by
  generalize hend : (⟨[], []⟩ : State D E) = b at h
  induction h with
  | refl =>
    subst hend
    exact ⟨fun _ hmem => (nomatch hmem), fun _ hmem => (nomatch hmem), fun _ hmem => nomatch hmem⟩
  | @head a b c given out hstep _ ih =>
    obtain ⟨hpending, hqueue, hsub⟩ := ih hend
    have hmono : ∀ spot ∈ out, spot ∈ given.toList ++ out := fun _ => List.mem_append_right _
    cases hstep with
    | @give first pending queue h =>
      refine ⟨fun spot hspot => ?_, fun place hplace => ?_, fun spot hspot place hplace => ?_⟩
      · rcases List.mem_cons.mp hspot with rfl | hspot
        · exact List.mem_cons_self
        · exact hmono _ (hpending spot hspot)
      · exact (hqueue place (List.mem_append_left _ hplace)).mono hmono
      · rcases List.mem_cons.mp hspot with rfl | hspot
        · exact (hqueue place (List.mem_append_right _ hplace)).mono hmono
        · exact (hsub spot hspot place hplace).mono hmono
    | @expand first queue entries h =>
      refine ⟨fun _ hmem => (nomatch hmem), fun place hplace => ?_, hsub⟩
      rcases List.mem_cons.mp hplace with rfl | hplace
      · exact ⟨entries, h, hpending⟩
      · exact hqueue place hplace

/-! ## Each entry once -/

/-- Neither route goes on from the other. -/
def Apart (r s : List Nat) : Prop := ¬ r <+: s ∧ ¬ s <+: r

theorem Apart.symm {r s : List Nat} (h : Apart r s) : Apart s r := ⟨h.2, h.1⟩

/-- The routes of a state. -/
def State.routes (a : State D E) : List (List Nat) :=
  a.pending.map Spot.route ++ a.queue.map Place.route

theorem apart_append {r s : List Nat} (h : Apart r s) (i : Nat) : Apart (r ++ [i]) s := by
  refine ⟨fun hrs => h.1 ((List.prefix_append r [i]).trans hrs), fun hsr => ?_⟩
  rcases List.prefix_concat_iff.mp hsr with rfl | hsr
  · exact h.1 (List.prefix_append r [i])
  · exact h.2 hsr

theorem apart_concat {i j : Nat} (r : List Nat) (h : i ≠ j) : Apart (r ++ [i]) (r ++ [j]) := by
  have hne : ∀ {i j : Nat}, i ≠ j → ¬ r ++ [i] <+: r ++ [j] := by
    intro i j hij hbelow
    have heq := hbelow.eq_of_length (by rw [List.length_append, List.length_append]; rfl)
    exact hij (List.head_eq_of_cons_eq (List.append_cancel_left heq))
  exact ⟨hne h, hne h.symm⟩

theorem pairwise_spots (place : Place D) (entries : List E) :
    ((place.spots entries).map Spot.route).Pairwise Apart := by
  unfold Place.spots
  rw [List.pairwise_map, List.pairwise_iff_getElem]
  intro i j hi hj hij
  rw [List.getElem_mapIdx, List.getElem_mapIdx]
  exact apart_concat _ hij.ne

theorem Step.pairwise (h : Step tree a given b) (ha : a.routes.Pairwise Apart) :
    b.routes.Pairwise Apart := by
  cases h with
  | @give spot pending queue h =>
    have hperm : (spot.route :: (pending.map Spot.route ++ queue.map Place.route)).Perm
        (pending.map Spot.route ++ (queue.map Place.route ++ [spot.route])) := by
      rw [← List.append_assoc]
      exact (List.perm_append_singleton _ _).symm
    have hrest := (hperm.pairwise_iff Apart.symm).mp ha
    refine hrest.sublist ((List.Sublist.refl _).append ?_)
    rw [List.map_append]
    refine (List.Sublist.refl _).append ?_
    unfold Tree.enter
    cases tree.sub spot.parent spot.entry
    · exact List.nil_sublist _
    · exact List.Sublist.refl _
  | @expand place queue entries h =>
    obtain ⟨hfirst, hqueue⟩ := List.pairwise_cons.mp ha
    refine List.pairwise_append.mpr ⟨pairwise_spots place entries, hqueue, ?_⟩
    intro r hr s hs
    obtain ⟨spot, hspot, rfl⟩ := List.mem_map.mp hr
    obtain ⟨i, entry, -, rfl⟩ := mem_spots.mp hspot
    exact apart_append (hfirst s hs) i

/-- What is given is pending, or below a place that waits or a pending entry. -/
theorem Run.extends (h : Run tree a out b) (spot : Spot D E) (hspot : spot ∈ out) :
    (∃ first ∈ a.pending, first.route <+: spot.route) ∨
      ∃ place ∈ a.queue, place.route <+: spot.route ∧ place.route ≠ spot.route := by
  induction h with
  | refl => exact nomatch hspot
  | @head a b c given out hstep _ ih =>
    cases hstep with
    | @give first pending queue h =>
      rcases List.mem_cons.mp hspot with rfl | hspot
      · exact .inl ⟨_, List.mem_cons_self, List.prefix_rfl⟩
      rcases ih hspot with ⟨above, habove, hbelow⟩ | ⟨place, hplace, hbelow, hne⟩
      · exact .inl ⟨above, List.mem_cons_of_mem _ habove, hbelow⟩
      rcases List.mem_append.mp hplace with hplace | hplace
      · exact .inr ⟨place, hplace, hbelow, hne⟩
      · obtain ⟨node, -, rfl⟩ := mem_enter.mp hplace
        exact .inl ⟨_, List.mem_cons_self, hbelow⟩
    | @expand first queue entries h =>
      rcases ih hspot with ⟨above, habove, hbelow⟩ | ⟨place, hplace, hbelow, hne⟩
      · obtain ⟨i, entry, -, rfl⟩ := mem_spots.mp habove
        refine .inr ⟨_, List.mem_cons_self, (List.prefix_append _ _).trans hbelow, fun heq => ?_⟩
        rw [← heq] at hbelow
        have hlength := hbelow.length_le
        rw [List.length_append, List.length_singleton] at hlength
        exact Nat.not_succ_le_self _ hlength
      · exact .inr ⟨place, List.mem_cons_of_mem _ hplace, hbelow, hne⟩

/-- No entry is given twice. -/
theorem Run.nodup (h : Run tree a out b) (ha : a.routes.Pairwise Apart) :
    (out.map Spot.route).Nodup := by
  induction h with
  | refl => exact List.nodup_nil
  | @head a b c given out hstep hrest ih =>
    have hnodup := ih (hstep.pairwise ha)
    cases hstep with
    | expand => exact hnodup
    | @give first pending queue h =>
      obtain ⟨hapart, -⟩ := List.pairwise_cons.mp ha
      refine List.nodup_cons.mpr ⟨fun hmem => ?_, hnodup⟩
      obtain ⟨spot, hspot, hroute⟩ := List.mem_map.mp hmem
      rcases hrest.extends spot hspot with ⟨above, habove, hbelow⟩ | ⟨place, hplace, hbelow, hne⟩
      · rw [hroute] at hbelow
        exact (hapart _ (List.mem_append_left _ (List.mem_map_of_mem habove))).2 hbelow
      · rw [hroute] at hbelow hne
        rcases List.mem_append.mp hplace with hplace | hplace
        · exact (hapart _ (List.mem_append_right _ (List.mem_map_of_mem hplace))).2 hbelow
        · obtain ⟨node, -, rfl⟩ := mem_enter.mp hplace
          exact hne rfl

/-- The entry above is given first. -/
theorem Run.parentsFirst (h : Run tree a out b) (seen : List (List Nat))
    (hpending : ∀ spot ∈ a.pending, spot.route.dropLast ∈ seen)
    (hqueue : ∀ place ∈ a.queue, place.route ∈ seen) : ParentsFirst seen out := by
  induction h generalizing seen with
  | refl => trivial
  | @head a b c given out hstep hrest ih =>
    cases hstep with
    | @give first pending queue h =>
      refine ⟨hpending _ List.mem_cons_self, ih _ (fun spot hspot => ?_) fun place hplace => ?_⟩
      · exact List.mem_cons_of_mem _ (hpending spot (List.mem_cons_of_mem _ hspot))
      · rcases List.mem_append.mp hplace with hplace | hplace
        · exact List.mem_cons_of_mem _ (hqueue place hplace)
        · obtain ⟨node, -, rfl⟩ := mem_enter.mp hplace
          exact List.mem_cons_self
    | @expand place queue entries h =>
      refine ih _ (fun spot hspot => ?_) fun place hplace =>
        hqueue place (List.mem_cons_of_mem _ hplace)
      obtain ⟨i, entry, -, rfl⟩ := mem_spots.mp hspot
      rw [List.dropLast_concat]
      exact hqueue _ List.mem_cons_self

/-! ## The end of a walk -/

/-- There is no walk without end from a state. -/
def Terminates (tree : Tree D E) (a : State D E) : Prop :=
  Acc (fun b a => ∃ spot, Step tree a spot b) a

theorem Run.reaches (h : Run tree a out b) : Relation.ReflTransGen
    (fun b a => ∃ spot, Step tree a spot b) b a := by
  induction h with
  | refl => exact .refl
  | head hstep _ ih => exact ih.tail ⟨_, hstep⟩

theorem Run.terminates (h : Run tree a out b) (ha : Terminates tree a) : Terminates tree b := by
  induction h with
  | refl => exact ha
  | head hstep _ ih => exact ih (ha.inv ⟨_, hstep⟩)

/-- A run that gives something makes a step. -/
theorem Run.transGen (h : Run tree a (spot :: out) b) :
    Relation.TransGen (fun b a => ∃ spot, Step tree a spot b) b a := by
  generalize hout : spot :: out = out' at h
  cases h with
  | refl => cases hout
  | head hstep hrest => exact .tail' hrest.reaches ⟨_, hstep⟩

/-- The places that wait, and those that the pending entries lead to. -/
def State.places (tree : Tree D E) (a : State D E) : List (Place D) :=
  a.queue ++ a.pending.flatMap tree.enter

theorem places_give {pending : List (Spot D E)} {queue : List (Place D)} :
    State.places tree ⟨pending, queue ++ tree.enter spot⟩ = State.places tree
      ⟨spot :: pending, queue⟩ := by
  unfold State.places
  rw [List.flatMap_cons, List.append_assoc]

/-- The nodes that a node leads to. -/
def Tree.Below (tree : Tree D E) (node node' : D) : Prop :=
  ∃ entries, tree.lists node entries ∧ ∃ entry ∈ entries, tree.sub node entry = some node'

theorem below_of_mem_places (h : tree.lists place.node entries) {place' : Place D}
    (hplace : place' ∈ (place.spots entries).flatMap tree.enter) : tree.Below place.node
    place'.node := by
  obtain ⟨spot, hspot, hplace⟩ := List.mem_flatMap.mp hplace
  obtain ⟨i, entry, hentry, rfl⟩ := mem_spots.mp hspot
  obtain ⟨node, hsub, rfl⟩ := mem_enter.mp hplace
  exact ⟨entries, h, entry, List.mem_of_getElem? hentry, hsub⟩

theorem mem_places_of_below {entry : E} {node : D} (hentry : entry ∈ entries)
    (hsub : tree.sub place.node entry = some node) :
    ∃ place' ∈ (place.spots entries).flatMap tree.enter, place'.node = node := by
  obtain ⟨i, hi⟩ := List.mem_iff_getElem?.mp hentry
  exact ⟨⟨_, node⟩, List.mem_flatMap.mpr ⟨_, mem_spots.mpr ⟨i, entry, hi, rfl⟩,
    mem_enter.mpr ⟨node, hsub, rfl⟩⟩, rfl⟩

/-- A walk ends when what is below a node has a lower rank. -/
theorem terminates_of_rank {Good : D → Prop} {rank : D → Nat}
    (hrank : ∀ node node', Good node → tree.Below node node' → Good node' ∧ rank node' < rank node)
    (ha : ∀ place ∈ a.places tree, Good place.node) : Terminates tree a := by
  have hwf : WellFounded
    (Prod.Lex (@Multiset.IsDershowitzMannaLT Nat _) (fun m n : Nat => m < n)) :=
    WellFounded.prod_lex Multiset.wellFounded_isDershowitzMannaLT Nat.lt_wfRel.wf
  let measure : State D E → Multiset Nat × Nat := fun a =>
    (((a.places tree).map fun place => rank place.node : List Nat), a.pending.length)
  induction hm : measure a using hwf.induction generalizing a with
  | _ m ih =>
  refine Acc.intro a fun b hb => ?_
  obtain ⟨given, hstep⟩ := hb
  cases hstep with
  | @give spot pending queue h =>
    refine ih _ ?_ (by rw [places_give]; exact ha) rfl
    subst hm
    show Prod.Lex _ _ (measure _) (measure _)
    have heq : (measure ⟨pending, queue ++ tree.enter spot⟩).1 =
      (measure ⟨spot :: pending, queue⟩).1 := by
      show ((_ : List Nat) : Multiset Nat) = (_ : List Nat)
      rw [places_give]
    exact Prod.lex_def.mpr (.inr ⟨heq, Nat.lt_succ_self _⟩)
  | @expand place queue entries h =>
    have hplace : Good place.node := ha place (List.mem_append_left _ List.mem_cons_self)
    refine ih _ ?_ (fun place' hplace' => ?_) rfl
    · subst hm
      refine Prod.lex_def.mpr (.inl ?_)
      refine ⟨(queue.map fun place => rank place.node : List Nat),
        (((place.spots entries).flatMap tree.enter).map fun place => rank place.node : List Nat),
        {rank place.node}, Multiset.singleton_ne_zero _, ?_, ?_, ?_⟩
      · show ((_ : List Nat) : Multiset Nat) = _
        unfold State.places
        rw [List.map_append, Multiset.coe_add]
      · show ((_ : List Nat) : Multiset Nat) = _
        rw [State.places, List.flatMap_nil, List.append_nil, List.map_cons, ← Multiset.cons_coe,
          ← Multiset.singleton_add]
        exact Multiset.add_comm _ _
      · intro n hn
        obtain ⟨place', hplace', rfl⟩ := List.mem_map.mp (Multiset.mem_coe.mp hn)
        exact ⟨_, Multiset.mem_singleton_self _,
          (hrank _ _ hplace (below_of_mem_places h hplace')).2⟩
    · rcases List.mem_append.mp hplace' with hplace' | hplace'
      · exact ha place' (List.mem_append_left _ (List.mem_cons_of_mem _ hplace'))
      · exact (hrank _ _ hplace (below_of_mem_places h hplace')).1

/-- A walk stops at a pending entry that cannot be given. -/
theorem terminates_of_pending {pending : List (Spot D E)} {queue : List (Place D)}
    (h : ∃ spot ∈ pending, ¬ tree.given spot.entry) : Terminates tree ⟨pending, queue⟩ := by
  induction pending generalizing queue with
  | nil =>
    obtain ⟨spot, hmem, -⟩ := h
    exact nomatch hmem
  | cons first pending ih =>
    refine Acc.intro _ fun b hb => ?_
    obtain ⟨given, hstep⟩ := hb
    cases hstep with
    | give hgiven =>
      obtain ⟨spot, hmem, hspot⟩ := h
      rcases List.mem_cons.mp hmem with rfl | hmem
      · exact absurd hgiven hspot
      · exact ih ⟨spot, hmem, hspot⟩

/-- The pending entries are given first. -/
theorem terminates_of_places (h : Terminates tree ⟨[], a.places tree⟩) : Terminates tree a := by
  obtain ⟨pending, queue⟩ := a
  induction pending generalizing queue with
  | nil =>
    rw [State.places, List.flatMap_nil, List.append_nil] at h
    exact h
  | cons spot pending ih =>
    refine Acc.intro _ fun b hb => ?_
    obtain ⟨given, hstep⟩ := hb
    cases hstep with
    | give =>
      refine ih _ ?_
      rw [places_give]
      exact h

/-- A walk comes to every place that waits. -/
theorem terminates_of_front (hfront : ∀ queue, Terminates tree ⟨[], place :: queue⟩)
    (hplace : place ∈ a.places tree) : Terminates tree a := by
  obtain ⟨before, after, hplaces⟩ := List.append_of_mem hplace
  clear hplace
  induction before generalizing a after with
  | nil =>
    refine terminates_of_places ?_
    rw [hplaces]
    exact hfront after
  | cons first before ih =>
    refine terminates_of_places ?_
    rw [hplaces]
    refine Acc.intro _ fun b hb => ?_
    obtain ⟨given, hstep⟩ := hb
    cases hstep with
    | @expand _ _ entries h =>
      refine ih (after ++ (first.spots entries).flatMap tree.enter) ?_
      show before ++ place :: after ++ _ = _
      rw [List.append_assoc, List.cons_append]

/-- Whatever a node lists, there is an entry among it or below it that cannot be given, or a
node that lists nothing. -/
inductive Blocked (tree : Tree D E) : D → Prop
  | entry {node : D} (h : ∀ entries, tree.lists node entries → ∃ entry ∈ entries,
      ¬ tree.given entry) :
      Blocked tree node
  | sub {node node' : D} (h : ∀ entries, tree.lists node entries →
      ∃ entry ∈ entries, tree.sub node entry = some node')
        (hnode : Blocked tree node') : Blocked tree node

/-- A walk does not get past a place that is blocked. -/
theorem Blocked.terminates (h : Blocked tree place.node) (hplace : place ∈ a.places tree) :
    Terminates tree a := by
  generalize hnode : place.node = node at h
  induction h generalizing a place with
  | entry h =>
    refine terminates_of_front (fun queue => Acc.intro _ fun b hb => ?_) hplace
    obtain ⟨given, hstep⟩ := hb
    cases hstep with
    | expand hlists =>
      rw [hnode] at hlists
      obtain ⟨entry, hentry, hgiven⟩ := h _ hlists
      obtain ⟨i, hi⟩ := List.mem_iff_getElem?.mp hentry
      exact terminates_of_pending ⟨_, mem_spots.mpr ⟨i, entry, hi, rfl⟩, hgiven⟩
  | @sub _ node' h _ ih =>
    refine terminates_of_front (fun queue => Acc.intro _ fun b hb => ?_) hplace
    obtain ⟨given, hstep⟩ := hb
    cases hstep with
    | expand hlists =>
      rw [hnode] at hlists
      obtain ⟨entry, hentry, hsub⟩ := h _ hlists
      obtain ⟨place', hplace', rfl⟩ :=
        @mem_places_of_below _ _ tree place _ entry node' hentry (hnode ▸ hsub)
      exact ih (List.mem_append_right _ hplace') rfl

/-- A step does not leave the nodes below which there is always another one. -/
theorem Step.unending {Endless : D → Prop}
    (hendless : ∀ node, Endless node → ∀ entries, tree.lists node entries →
      ∃ entry ∈ entries, ∃ node', tree.sub node entry = some node' ∧ Endless node')
    (h : Step tree a given b) (ha : ∃ place ∈ a.places tree, Endless place.node) :
    ∃ place ∈ b.places tree, Endless place.node := by
  obtain ⟨place, hplace, hnode⟩ := ha
  cases h with
  | give =>
    rw [← places_give] at hplace
    exact ⟨place, hplace, hnode⟩
  | @expand first queue entries h =>
    rw [State.places, List.flatMap_nil, List.append_nil] at hplace
    rcases List.mem_cons.mp hplace with rfl | hplace
    · obtain ⟨entry, hentry, node', hsub, hnode'⟩ := hendless _ hnode _ h
      obtain ⟨place', hplace', rfl⟩ := mem_places_of_below hentry hsub
      exact ⟨place', List.mem_append_right _ hplace', hnode'⟩
    · exact ⟨place, List.mem_append_left _ hplace, hnode⟩

theorem Run.unending {Endless : D → Prop}
    (hendless : ∀ node, Endless node → ∀ entries, tree.lists node entries →
      ∃ entry ∈ entries, ∃ node', tree.sub node entry = some node' ∧ Endless node')
    (h : Run tree a out b) (ha : ∃ place ∈ a.places tree, Endless place.node) :
    ∃ place ∈ b.places tree, Endless place.node := by
  induction h with
  | refl => exact ha
  | head hstep _ ih => exact ih (hstep.unending hendless ha)

end

end Walk
