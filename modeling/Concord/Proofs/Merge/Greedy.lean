import Mathlib.Data.Finset.Card
import Mathlib.Order.Bounds.Basic
import Concord.Proofs.Comparison.Across
import Concord.Proofs.Merge.Matching

namespace Concord

section Matchings

variable {α β : Type} (joins : α → β → Bool)

/-- Pairs from two lists that may join, in which no item occurs twice. -/
structure IsMatching (as : List α) (bs : List β) (pairs : Finset (α × β)) : Prop where
  firsts : Set.InjOn Prod.fst (pairs : Set (α × β))
  seconds : Set.InjOn Prod.snd (pairs : Set (α × β))
  edges : ∀ pair ∈ pairs, pair.1 ∈ as ∧ pair.2 ∈ bs ∧ joins pair.1 pair.2 = true

/-- How many pairs the matchings of two lists have. -/
def matchingSizes (as : List α) (bs : List β) : Set Nat :=
  {size | ∃ pairs, IsMatching joins as bs pairs ∧ pairs.card = size}

/-- The order of the lists does not matter. -/
theorem matchingSizes_perm {as as' : List α} {bs bs' : List β} (has : as'.Perm as)
    (hbs : bs'.Perm bs) : matchingSizes joins as' bs' = matchingSizes joins as bs := by
  have hsame (pairs : Finset (α × β)) :
      IsMatching joins as' bs' pairs ↔ IsMatching joins as bs pairs := by
    constructor
    · rintro ⟨hfirsts, hseconds, hedges⟩
      refine ⟨hfirsts, hseconds, fun pair hpair => ?_⟩
      obtain ⟨ha, hb, hjoins⟩ := hedges pair hpair
      exact ⟨has.mem_iff.mp ha, hbs.mem_iff.mp hb, hjoins⟩
    · rintro ⟨hfirsts, hseconds, hedges⟩
      refine ⟨hfirsts, hseconds, fun pair hpair => ?_⟩
      obtain ⟨ha, hb, hjoins⟩ := hedges pair hpair
      exact ⟨has.mem_iff.mpr ha, hbs.mem_iff.mpr hb, hjoins⟩
  simp only [matchingSizes, hsame]

variable [DecidableEq α] [DecidableEq β] {joins} {as : List α} {bs : List β}

/-- Partners make a matching. -/
theorem isMatching_partners (has : as.Nodup) (hbs : bs.Nodup) :
    IsMatching joins as bs (partners joins as bs).toFinset ∧
      (partners joins as bs).toFinset.card = (partners joins as bs).length := by
  have hfirsts : ((partners joins as bs).map Prod.fst).Nodup := (partners_sublist joins as bs).nodup has
  have hseconds : ((partners joins as bs).map Prod.snd).Nodup := by
    have hswap := ((partners_swap joins as bs).map Prod.fst).nodup_iff.mpr
      ((partners_sublist (fun b a => joins a b) bs as).nodup hbs)
    rwa [List.map_map] at hswap
  refine ⟨⟨?_, ?_, fun pair hpair => mem_partners joins (List.mem_toFinset.mp hpair)⟩,
    List.toFinset_card_of_nodup (.of_map _ hfirsts)⟩
  · intro pair hpair other hother hsame
    exact List.inj_on_of_nodup_map hfirsts (List.mem_toFinset.mp hpair) (List.mem_toFinset.mp hother)
      hsame
  · intro pair hpair other hother hsame
    exact List.inj_on_of_nodup_map hseconds (List.mem_toFinset.mp hpair)
      (List.mem_toFinset.mp hother) hsame

/-- What is left of a matching when all pairs with one of two items are dropped. -/
private theorem IsMatching.without {a : α} {b : β} {pairs : Finset (α × β)}
    (hmatching : IsMatching joins (a :: as) bs pairs) (hfind : bs.find? (joins a) = some b) :
    IsMatching joins as (bs.eraseP (joins a)) (pairs.filter fun pair => pair.1 ≠ a ∧ pair.2 ≠ b) := by
  refine ⟨hmatching.firsts.mono (Finset.filter_subset _ _),
    hmatching.seconds.mono (Finset.filter_subset _ _), fun pair hpair => ?_⟩
  obtain ⟨hpair, hfirst, hsecond⟩ := Finset.mem_filter.mp hpair
  obtain ⟨ha, hb, hjoins⟩ := hmatching.edges pair hpair
  have hleft : pair.2 ∈ b :: bs.eraseP (joins a) := (eraseP_perm hfind).mem_iff.mpr hb
  exact ⟨List.mem_of_ne_of_mem hfirst ha, List.mem_of_ne_of_mem hsecond hleft, hjoins⟩

variable (hacross : ∀ a b, Across (fun a b => joins a b = true) a b → joins a b = true)
include hacross

/-- When an item takes its first partner, of every matching of the others at most one pair is lost.
If both had other partners, those may join one another. -/
private theorem exists_exchanged {a : α} {b : β} (hfind : bs.find? (joins a) = some b)
    {pairs : Finset (α × β)} (hmatching : IsMatching joins (a :: as) bs pairs) :
    ∃ others, IsMatching joins as (bs.eraseP (joins a)) others ∧ pairs.card ≤ others.card + 1 := by
  let keeps (pair : α × β) : Prop := pair.1 ≠ a ∧ pair.2 ≠ b
  have hkept := hmatching.without hfind
  have hcard : (pairs.filter keeps).card + (pairs.filter (¬ keeps ·)).card = pairs.card :=
    Finset.card_filter_add_card_filter_not keeps
  have hdropped {pair : α × β} (hpair : pair ∈ pairs.filter (¬ keeps ·)) :
      pair ∈ pairs ∧ (pair.1 = a ∨ pair.2 = b) := by
    obtain ⟨hpair, hnot⟩ := Finset.mem_filter.mp hpair
    exact ⟨hpair, by simpa only [keeps, not_and_or, not_not] using hnot⟩
  by_cases hboth : ∃ a' b', (a, b') ∈ pairs ∧ (a', b) ∈ pairs ∧ a' ≠ a ∧ b' ≠ b
  · obtain ⟨a', b', hfirst, hsecond, hne, hne'⟩ := hboth
    have hnew : (a', b') ∉ pairs.filter keeps := fun hpair =>
      hne' (congrArg Prod.snd (hmatching.firsts (Finset.mem_filter.mp hpair).1 hsecond rfl))
    obtain ⟨ha', hb, hjoins⟩ := hmatching.edges _ hsecond
    obtain ⟨-, hb', hjoins'⟩ := hmatching.edges _ hfirst
    have hleft : b' ∈ b :: bs.eraseP (joins a) := (eraseP_perm hfind).mem_iff.mpr hb'
    refine ⟨insert (a', b') (pairs.filter keeps), ⟨?_, ?_, ?_⟩, ?_⟩
    · rw [Finset.coe_insert, Set.injOn_insert (by exact_mod_cast hnew)]
      refine ⟨hkept.firsts, ?_⟩
      rintro ⟨pair, hpair, hsame⟩
      obtain ⟨hpair, -, hsnd⟩ := Finset.mem_filter.mp hpair
      exact hsnd (congrArg Prod.snd (hmatching.firsts hpair hsecond hsame))
    · rw [Finset.coe_insert, Set.injOn_insert (by exact_mod_cast hnew)]
      refine ⟨hkept.seconds, ?_⟩
      rintro ⟨pair, hpair, hsame⟩
      obtain ⟨hpair, hfst, -⟩ := Finset.mem_filter.mp hpair
      exact hfst (congrArg Prod.fst (hmatching.seconds hpair hfirst hsame))
    · refine Finset.forall_mem_insert .. |>.mpr ⟨⟨List.mem_of_ne_of_mem hne ha',
        List.mem_of_ne_of_mem hne' hleft, ?_⟩, hkept.edges⟩
      exact hacross a' b' ⟨a, b, hjoins, List.find?_some hfind, hjoins'⟩
    · have htwo : pairs.filter (¬ keeps ·) ⊆ {(a, b'), (a', b)} := by
        intro pair hpair
        obtain ⟨hpair, hfst | hsnd⟩ := hdropped hpair
        · exact Finset.mem_insert.mpr (.inl (hmatching.firsts hpair hfirst hfst))
        · exact Finset.mem_insert_of_mem
            (Finset.mem_singleton.mpr (hmatching.seconds hpair hsecond hsnd))
      have hle := (Finset.card_le_card htwo).trans Finset.card_le_two
      rw [Finset.card_insert_of_notMem hnew]
      omega
  · refine ⟨pairs.filter keeps, hkept, ?_⟩
    have hmixed {pair other : α × β} (hpair : pair ∈ pairs) (hother : other ∈ pairs)
        (hfst : pair.1 = a) (hsnd : other.2 = b) : pair = other := by
      by_contra hne
      refine hboth ⟨other.1, pair.2, hfst ▸ hpair, hsnd ▸ hother, fun heq => ?_, fun heq => ?_⟩
      · exact hne (hmatching.firsts hpair hother (hfst.trans heq.symm))
      · exact hne (hmatching.seconds hpair hother (heq.trans hsnd.symm))
    have hone : (pairs.filter (¬ keeps ·)).card ≤ 1 := by
      refine Finset.card_le_one.mpr fun pair hpair other hother => ?_
      obtain ⟨hpair, hfst | hsnd⟩ := hdropped hpair
      · obtain ⟨hother, hfst' | hsnd'⟩ := hdropped hother
        · exact hmatching.firsts hpair hother (hfst.trans hfst'.symm)
        · exact hmixed hpair hother hfst hsnd'
      · obtain ⟨hother, hfst' | hsnd'⟩ := hdropped hother
        · exact (hmixed hother hpair hfst' hsnd).symm
        · exact hmatching.seconds hpair hother (hsnd.trans hsnd'.symm)
    omega

/-- No matching has more pairs than there are partners. -/
theorem IsMatching.card_le {pairs : Finset (α × β)} (hmatching : IsMatching joins as bs pairs) :
    pairs.card ≤ (partners joins as bs).length := by
  induction as generalizing bs pairs with
  | nil =>
    have hempty : pairs = ∅ := Finset.eq_empty_of_forall_notMem fun pair hpair =>
      List.not_mem_nil (hmatching.edges pair hpair).1
    rw [hempty, Finset.card_empty]
    exact Nat.zero_le _
  | cons a as ih =>
    rw [partners]
    cases hfind : bs.find? (joins a) with
    | none =>
      refine ih ⟨hmatching.firsts, hmatching.seconds, fun pair hpair => ?_⟩
      obtain ⟨ha, hb, hjoins⟩ := hmatching.edges pair hpair
      obtain heq | ha := List.mem_cons.mp ha
      · exact absurd (heq ▸ hjoins) (List.find?_eq_none.mp hfind _ hb)
      · exact ⟨ha, hb, hjoins⟩
    | some b =>
      obtain ⟨others, hothers, hcard⟩ := exists_exchanged hacross hfind hmatching
      exact hcard.trans (Nat.succ_le_succ (ih hothers))

/-- The partners are as many as any matching has pairs, and no fewer. -/
theorem partners_greatest (has : as.Nodup) (hbs : bs.Nodup) :
    IsGreatest (matchingSizes joins as bs) (partners joins as bs).length := by
  refine ⟨⟨_, isMatching_partners has hbs⟩, ?_⟩
  rintro _ ⟨pairs, hmatching, rfl⟩
  exact hmatching.card_le hacross

end Matchings

end Concord
