import Mathlib.Data.List.Chain
import Mathlib.Data.List.Nodup
import Ralf.Core.Error

/-!
# The order of the certificates of a signature

The certificates in the document of a signature may be in any order. `sortCertificates`
starts with the one that is the issuer of no other, and goes from each certificate to the
one of its issuer. A certificate that is moved to the sorted ones leaves a null certificate
behind.

`sortCertificates_sorts` says that it gives the one chain that the certificates can be
arranged in, if there is one, and an error otherwise. The issuer of the last certificate of
the chain may be any certificate but the first one.
-/

namespace Crypto

variable {Impl : Type} (subject issuer : Impl → String)

/-- A certificate. It is null when it was moved. -/
abbrev Certificate (Impl : Type) := Option Impl

namespace Certificate

def isNull (cert : Certificate Impl) : Bool := cert.isNone

def subjectOf : Certificate Impl → String
  | some impl => subject impl
  | none => ""

def issuerOf : Certificate Impl → String
  | some impl => issuer impl
  | none => ""

end Certificate

/-- The certificates that are not null. -/
def present (certs : List (Certificate Impl)) : List Impl := certs.filterMap id

/-- Moves the first certificate with a property out of a list. -/
def moveFirst (p : Certificate Impl → Bool) :
    List (Certificate Impl) → Option (Certificate Impl × List (Certificate Impl))
  | [] => none
  | cert :: rest =>
    if p cert then some (cert, none :: rest)
    else (moveFirst p rest).map fun moved => (moved.1, cert :: moved.2)

theorem moveFirst_eq_none {p : Certificate Impl → Bool} {certs : List (Certificate Impl)} :
    moveFirst p certs = none ↔ ∀ cert ∈ certs, p cert = false := by
  induction certs with
  | nil => simp [moveFirst]
  | cons cert rest ih =>
    rw [moveFirst, List.forall_mem_cons, ← ih]
    cases hcert : p cert with
    | false => simp
    | true => simp

/-- What is moved is gone, and nothing else. -/
theorem moveFirst_eq_some {p : Certificate Impl → Bool} {certs rest : List (Certificate Impl)}
    {cert : Certificate Impl} (h : moveFirst p certs = some (cert, rest)) :
    p cert = true ∧ cert ∈ certs ∧ (present certs).Perm (cert.toList ++ present rest) := by
  induction certs generalizing rest with
  | nil => cases h
  | cons first others ih =>
    rw [moveFirst] at h
    split at h
    · next hfirst =>
      cases h
      refine ⟨hfirst, List.mem_cons_self, ?_⟩
      cases cert with
      | none => exact List.Perm.refl _
      | some impl => exact List.Perm.refl _
    · obtain ⟨moved, hmoved, heq⟩ := Option.map_eq_some_iff.mp h
      cases heq
      obtain ⟨hp, hmem, hperm⟩ := ih hmoved
      refine ⟨hp, List.mem_cons_of_mem _ hmem, ?_⟩
      cases first with
      | none => exact hperm
      | some impl =>
        exact (hperm.cons impl).trans List.perm_middle.symm

/-! ## The algorithm -/

/-- A certificate is the issuer of one of the certificates. -/
def isIssuer (certs : List (Certificate Impl)) (cert : Certificate Impl) : Bool :=
  certs.any fun other =>
    !cert.isNull && !other.isNull && cert.subjectOf subject = other.issuerOf issuer

/-- A certificate of the issuer of `back`. -/
def certifies (back cert : Certificate Impl) : Bool :=
  !cert.isNull && cert.subjectOf subject = back.issuerOf issuer

theorem present_lt_of_certifies {back cert : Certificate Impl}
    {certs rest : List (Certificate Impl)}
    (h : moveFirst (certifies subject issuer back) certs = some (cert, rest)) :
    (present rest).length < (present certs).length := by
  obtain ⟨hcertifies, -, hperm⟩ := moveFirst_eq_some h
  cases cert with
  | none => cases hcertifies
  | some impl =>
    rw [hperm.length_eq]
    exact Nat.lt_succ_self _

/-- The loop over the intermediate certificates, where `back` is the last of the sorted ones. -/
def addIssuers (sorted : List (Certificate Impl)) (back : Certificate Impl)
    (unsorted : List (Certificate Impl)) : List (Certificate Impl) :=
  match _hmoved : moveFirst (certifies subject issuer back) unsorted with
  | none => sorted
  | some (cert, rest) => addIssuers (sorted ++ [cert]) cert rest
termination_by (present unsorted).length
decreasing_by exact present_lt_of_certifies subject issuer _hmoved

/-- What `sortCertificates` returns, with the error that it assigns. -/
structure SortedCertificates (Impl : Type) where
  certs : List (Certificate Impl)
  error : Option Error
  deriving DecidableEq

def sortCertificates (unsorted : List (Certificate Impl)) :
    Except Fault (SortedCertificates Impl) :=
  if unsorted.length < 2 then
    match unsorted with
    | [] => .error .outOfBounds
    | front :: _ => .ok ⟨[front], none⟩
  else
    match moveFirst (fun cert => !isIssuer subject issuer unsorted cert) unsorted with
    | none =>
      .ok ⟨[], some (.ralf .genericCryptoError
        "Failed to find the signing certificate in the chain")⟩
    | some (leaf, rest) =>
      let sorted := addIssuers subject issuer [leaf] leaf rest
      if sorted.length ≠ unsorted.length then
        .ok ⟨[], some (.ralf .genericCryptoError "Failed to sort the certificate chain")⟩
      else .ok ⟨sorted, none⟩

/-! ## Chains -/

/-- An arrangement of certificates in which each one's issuer is the next one, and the first one is
the issuer of none. -/
structure ChainOf (chain certs : List Impl) : Prop where
  perm : chain.Perm certs
  linked : chain.IsChain fun cert next => issuer cert = subject next
  leaf : ∀ leaf ∈ chain.head?, ∀ last ∈ chain.getLast?, issuer last ≠ subject leaf

variable {subject issuer}

/-- With the chain of the others in front of it, the loop adds all of it. -/
theorem addIssuers_chain {chain : List Impl} {back : Impl}
    {sorted unsorted : List (Certificate Impl)}
    (hperm : chain.Perm (present unsorted)) (hdistinct : (chain.map subject).Nodup)
    (hlinked : (back :: chain).IsChain fun cert next => issuer cert = subject next) :
    addIssuers subject issuer sorted (some back) unsorted = sorted ++ chain.map some := by
  induction chain generalizing back sorted unsorted with
  | nil =>
    have hnone : moveFirst (certifies subject issuer (some back)) unsorted = none := by
      rw [moveFirst_eq_none]
      intro cert hcert
      cases cert with
      | none => rfl
      | some impl =>
        have hmem : impl ∈ present unsorted := List.mem_filterMap.mpr ⟨some impl, hcert, rfl⟩
        rw [← hperm.mem_iff] at hmem
        cases hmem
    rw [addIssuers]
    split
    · exact (List.append_nil _).symm
    · next h => cases hnone.symm.trans h
  | cons next chain ih =>
    obtain ⟨hnext, hrest⟩ := List.isChain_cons_cons.mp hlinked
    rw [addIssuers]
    split
    · next h =>
      -- the next certificate is still there
      have hmem : next ∈ present unsorted := hperm.mem_iff.mp List.mem_cons_self
      obtain ⟨cert, hcert, heq⟩ := List.mem_filterMap.mp hmem
      obtain rfl : cert = some next := heq
      have hnot := moveFirst_eq_none.mp h (some next) hcert
      unfold certifies at hnot
      simp [Certificate.isNull, Certificate.subjectOf, Certificate.issuerOf, hnext] at hnot
    · next cert rest h =>
      obtain ⟨hcertifies, -, hmoved⟩ := moveFirst_eq_some h
      cases cert with
      | none => cases hcertifies
      | some impl =>
        obtain ⟨-, hsubject⟩ := Bool.and_eq_true_iff.mp hcertifies
        have hmem : impl ∈ next :: chain :=
          hperm.mem_iff.mpr (hmoved.mem_iff.mpr List.mem_cons_self)
        have hsame : impl = next := List.inj_on_of_nodup_map hdistinct hmem List.mem_cons_self
          ((of_decide_eq_true hsubject).trans hnext)
        rw [hsame] at hmoved ⊢
        rw [ih (List.perm_cons next |>.mp (hperm.trans hmoved))
          (List.nodup_cons.mp hdistinct).2 hrest,
          List.map_cons, List.append_assoc]
        rfl

/-- What the loop adds is a chain, and the others are left. -/
theorem addIssuers_linked {back : Certificate Impl} {impl : Impl}
    {sorted unsorted : List (Certificate Impl)} (hback : back = some impl) :
    ∃ more left, addIssuers subject issuer sorted back unsorted = sorted ++ more.map some ∧
      (more ++ left).Perm (present unsorted) ∧
      (impl :: more).IsChain fun cert next => issuer cert = subject next := by
  fun_induction addIssuers subject issuer sorted back unsorted generalizing impl with
  | case1 sorted back unsorted hnone =>
    exact ⟨[], present unsorted, (List.append_nil _).symm, List.Perm.refl _,
      List.isChain_singleton impl⟩
  | case2 sorted back unsorted cert rest hmoved ih =>
    obtain ⟨hcertifies, -, hperm⟩ := moveFirst_eq_some hmoved
    cases cert with
    | none => cases hcertifies
    | some next =>
      obtain ⟨-, hsubject⟩ := Bool.and_eq_true_iff.mp hcertifies
      rw [hback] at hsubject
      obtain ⟨more, left, hadded, hleft, hlinked⟩ := ih rfl
      refine ⟨next :: more, left, ?_, ?_, ?_⟩
      · rw [hadded, List.append_assoc]
        rfl
      · exact (hleft.cons next).trans hperm.symm
      · exact List.isChain_cons_cons.mpr ⟨(of_decide_eq_true hsubject).symm, hlinked⟩

theorem present_map_some (certs : List Impl) : present (certs.map some) = certs := by
  unfold present
  rw [List.filterMap_map]
  exact List.filterMap_some

/-- The certificates that are the issuer of none. -/
theorem isIssuer_eq_false {certs : List Impl} {impl : Impl} :
    isIssuer subject issuer (certs.map some) (some impl) = false ↔
      ∀ cert ∈ certs, issuer cert ≠ subject impl := by
  unfold isIssuer
  rw [List.any_eq_false, List.forall_mem_map]
  refine forall₂_congr fun cert _ => ?_
  simp only [Certificate.isNull, Certificate.subjectOf, Certificate.issuerOf, Option.isNone_some,
    Bool.not_false, Bool.true_and]
  exact not_congr (decide_eq_true_iff.trans eq_comm)

/-- Behind the first certificate of a chain, each one is the issuer of one before it. -/
theorem exists_issued {first : Impl} {chain : List Impl}
    (hlinked : (first :: chain).IsChain fun cert next => issuer cert = subject next) :
    ∀ cert ∈ chain, ∃ other ∈ first :: chain, issuer other = subject cert := by
  induction chain generalizing first with
  | nil => exact fun _ hmem => (nomatch hmem)
  | cons next chain ih =>
    obtain ⟨hnext, hrest⟩ := List.isChain_cons_cons.mp hlinked
    refine List.forall_mem_cons.mpr ⟨⟨first, List.mem_cons_self, hnext⟩, fun cert hcert => ?_⟩
    obtain ⟨other, hother, hissuer⟩ := ih hrest cert hcert
    exact ⟨other, List.mem_cons_of_mem _ hother, hissuer⟩

/-- Each certificate of a chain is the last one or has its issuer behind the first one. -/
theorem last_or_issued {first : Impl} {chain : List Impl}
    (hlinked : (first :: chain).IsChain fun cert next => issuer cert = subject next) :
    ∀ cert ∈ first :: chain, (first :: chain).getLast? = some cert ∨
      ∃ other ∈ chain, issuer cert = subject other := by
  induction chain generalizing first with
  | nil =>
    intro cert hcert
    rw [List.mem_singleton.mp hcert]
    exact .inl rfl
  | cons next chain ih =>
    obtain ⟨hnext, hrest⟩ := List.isChain_cons_cons.mp hlinked
    refine List.forall_mem_cons.mpr ⟨.inr ⟨next, List.mem_cons_self, hnext⟩, fun cert hcert => ?_⟩
    rcases ih hrest cert hcert with hlast | ⟨other, hother, hissuer⟩
    · exact .inl (by rw [List.getLast?_cons_cons, hlast])
    · exact .inr ⟨other, List.mem_cons_of_mem _ hother, hissuer⟩

/-- The first certificate of a chain is the only one that is the issuer of none. -/
theorem isIssuer_chain {first : Impl} {chain certs : List Impl}
    (h : ChainOf subject issuer (first :: chain) certs) (hdistinct : (certs.map subject).Nodup) :
    ∀ impl ∈ certs,
      isIssuer subject issuer (certs.map some) (some impl) = false ↔ impl = first := by
  have hnodup : ((first :: chain).map subject).Nodup := (h.perm.map subject).nodup_iff.mpr hdistinct
  intro impl himpl
  rw [isIssuer_eq_false]
  constructor
  · intro hnone
    rcases List.mem_cons.mp (h.perm.mem_iff.mpr himpl) with hfirst | hmem
    · exact hfirst
    · obtain ⟨other, hother, hissuer⟩ := exists_issued h.linked impl hmem
      exact absurd hissuer (hnone other (h.perm.mem_iff.mp hother))
  · rintro rfl cert hcert hissuer
    rcases last_or_issued h.linked cert (h.perm.mem_iff.mpr hcert) with
      hlast | ⟨other, hother, hother'⟩
    · exact h.leaf impl rfl cert hlast hissuer
    · rw [List.map_cons, List.nodup_cons] at hnodup
      exact hnodup.1 (List.mem_map.mpr ⟨other, hother, hother'.symm.trans hissuer⟩)

/-- A chain is returned, whatever the order of the certificates is. -/
theorem sortCertificates_of_chain {chain certs : List Impl} (hlength : 2 ≤ certs.length)
    (hdistinct : (certs.map subject).Nodup) (h : ChainOf subject issuer chain certs) :
    sortCertificates subject issuer (certs.map some) = .ok ⟨chain.map some, none⟩ := by
  cases chain with
  | nil =>
    rw [← h.perm.length_eq] at hlength
    cases hlength
  | cons first chain =>
    unfold sortCertificates
    rw [if_neg (by rw [List.length_map]; omega)]
    have hfirst : first ∈ certs := h.perm.mem_iff.mp List.mem_cons_self
    split
    · next hnone =>
      have hissuer := moveFirst_eq_none.mp hnone (some first) (List.mem_map_of_mem hfirst)
      rw [(isIssuer_chain h hdistinct first hfirst).mpr rfl] at hissuer
      cases hissuer
    · next leaf rest hmoved =>
      obtain ⟨hleaf, hmem, hperm⟩ := moveFirst_eq_some hmoved
      obtain ⟨impl, himpl, rfl⟩ := List.mem_map.mp hmem
      obtain rfl := (isIssuer_chain h hdistinct impl himpl).mp (Bool.not_eq_true' _ ▸ hleaf)
      rw [present_map_some] at hperm
      have hnodup := (h.perm.map subject).nodup_iff.mpr hdistinct
      have hsorted := @addIssuers_chain _ subject issuer chain impl [some impl] rest
        (List.perm_cons impl |>.mp (h.perm.trans hperm)) (List.nodup_cons.mp hnodup).2 h.linked
      dsimp only
      rw [hsorted, if_neg]
      · rfl
      · rw [List.length_append, List.length_map, List.length_map, ← h.perm.length_eq,
          List.length_singleton, List.length_cons, Nat.add_comm]
        exact not_not.mpr rfl

/-- Without a chain there is an error. -/
theorem sortCertificates_of_no_chain {certs : List Impl} (hlength : 2 ≤ certs.length)
    (h : ¬ ∃ chain, ChainOf subject issuer chain certs) :
    ∃ error, sortCertificates subject issuer (certs.map some) = .ok ⟨[], some error⟩ := by
  unfold sortCertificates
  rw [if_neg (by rw [List.length_map]; omega)]
  split
  · exact ⟨_, rfl⟩
  next leaf rest hmoved =>
  obtain ⟨hleaf, hmem, hperm⟩ := moveFirst_eq_some hmoved
  obtain ⟨first, hfirst, rfl⟩ := List.mem_map.mp hmem
  rw [present_map_some] at hperm
  obtain ⟨more, left, hadded, hleft, hlinked⟩ :=
    @addIssuers_linked _ subject issuer (some first) first [some first] rest rfl
  dsimp only
  rw [hadded]
  split
  · exact ⟨_, rfl⟩
  · next hall =>
    -- all certificates are in the chain
    have hnone : left = [] := by
      have hlengths := (hleft.cons first).length_eq.trans hperm.length_eq.symm
      simp only [List.length_append, List.length_map, List.length_cons, List.length_nil] at *
      exact List.eq_nil_of_length_eq_zero (by omega)
    rw [hnone, List.append_nil] at hleft
    have hchain : (first :: more).Perm certs := (hleft.cons first).trans hperm.symm
    have hissuer : isIssuer subject issuer (certs.map some) (some first) = false :=
      (Bool.not_eq_true' _).mp hleaf
    refine absurd ⟨first :: more, hchain, hlinked, fun leaf hhead last hlast => ?_⟩ h
    cases hhead
    exact isIssuer_eq_false.mp hissuer last (hchain.mem_iff.mp (List.mem_of_getLast? hlast))

/-- The certificates are sorted into the chain that they can be arranged in, and there is an
error if there is none. -/
theorem sortCertificates_sorts (subject issuer : Impl → String) (certs : List Impl)
    (hlength : 2 ≤ certs.length) (hdistinct : (certs.map subject).Nodup) :
    (∀ chain, ChainOf subject issuer chain certs →
      sortCertificates subject issuer (certs.map some) = .ok ⟨chain.map some, none⟩) ∧
    ((¬ ∃ chain, ChainOf subject issuer chain certs) →
      ∃ error, sortCertificates subject issuer (certs.map some) = .ok ⟨[], some error⟩) :=
  ⟨fun _ h => sortCertificates_of_chain hlength hdistinct h,
    fun h => sortCertificates_of_no_chain hlength h⟩

/-- Two certificates, by their subjects and issuers, the leaf behind the other one. -/
theorem sortCertificates_sorts_two :
    sortCertificates Prod.fst Prod.snd [some ("ca", "root"), some ("leaf", "ca")] =
      .ok ⟨[some ("leaf", "ca"), some ("ca", "root")], none⟩ ∧
    ∃ error, sortCertificates Prod.fst Prod.snd [some ("a", "x"), some ("b", "x")] =
      .ok ⟨[], some error⟩ := by
  constructor
  · refine (sortCertificates_sorts Prod.fst Prod.snd [("ca", "root"), ("leaf", "ca")] (by decide)
      (by decide)).1 [("leaf", "ca"), ("ca", "root")] ⟨List.Perm.swap _ _ _, by simp, ?_⟩
    intro leaf hleaf last hlast
    cases hleaf
    cases hlast
    decide
  · refine (sortCertificates_sorts Prod.fst Prod.snd [("a", "x"), ("b", "x")] (by decide)
      (by decide)).2 ?_
    rintro ⟨chain, hperm, hlinked, -⟩
    have hissuer : ∀ cert ∈ chain, cert.2 = "x" := by
      intro cert hcert
      have hmem := hperm.mem_iff.mp hcert
      simp only [List.mem_cons, List.not_mem_nil, or_false] at hmem
      rcases hmem with rfl | rfl <;> rfl
    have hsubject : ∀ cert ∈ chain, cert.1 ≠ "x" := by
      intro cert hcert
      have hmem := hperm.mem_iff.mp hcert
      simp only [List.mem_cons, List.not_mem_nil, or_false] at hmem
      rcases hmem with rfl | rfl <;> decide
    obtain ⟨first, second, hchain⟩ := List.length_eq_two.mp hperm.length_eq
    rw [hchain, List.isChain_pair] at hlinked
    exact hsubject second (by rw [hchain]; simp)
      (hlinked.symm.trans (hissuer first (by simp [hchain])))

/-! ### A chain that comes back to itself -/

/-- A chain whose last certificate is self-signed or has its issuer outside of the list. -/
structure RootedChainOf (subject issuer : Impl → String) (chain certs : List Impl) : Prop where
  perm : chain.Perm certs
  linked : chain.IsChain fun cert next => issuer cert = subject next
  root : ∀ last ∈ chain.getLast?, issuer last = subject last ∨
    ∀ cert ∈ certs, issuer last ≠ subject cert

/-- Two authorities that certify each other, behind a leaf, are returned. -/
theorem not_sortCertificates_rooted :
    ¬ ∀ certs : List (String × String), 2 ≤ certs.length → (certs.map Prod.fst).Nodup →
      (¬ ∃ chain, RootedChainOf Prod.fst Prod.snd chain certs) →
        ∃ error, sortCertificates Prod.fst Prod.snd (certs.map some) = .ok ⟨[], some error⟩ := by
  intro hrooted
  have hchain : ChainOf Prod.fst Prod.snd [("leaf", "a"), ("a", "b"), ("b", "a")]
      [("leaf", "a"), ("a", "b"), ("b", "a")] := by
    refine ⟨List.Perm.refl _, by simp, fun leaf hleaf last hlast => ?_⟩
    cases hleaf
    cases hlast
    decide
  obtain ⟨error, herror⟩ := hrooted [("leaf", "a"), ("a", "b"), ("b", "a")] (by decide)
    (by decide) (by
    rintro ⟨chain, hperm, -, hroot⟩
    cases hlast : chain.getLast? with
    | none =>
      rw [List.getLast?_eq_none_iff.mp hlast] at hperm
      cases hperm.length_eq
    | some last =>
      have hmem := hperm.mem_iff.mp (List.mem_of_getLast? hlast)
      have hends := hroot last hlast
      simp only [List.mem_cons, List.not_mem_nil, or_false] at hmem
      rcases hmem with rfl | rfl | rfl <;> revert hends <;> decide)
  rw [sortCertificates_of_chain (by decide) (by decide) hchain] at herror
  cases herror

end Crypto
