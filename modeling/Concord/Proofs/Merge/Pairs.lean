import Concord.Proofs.Merge.Matching
import Concord.Proofs.Merge.Sound

namespace Concord

section

variable {α β γ δ : Type} (joins : α → β → Bool)

/-- Two lists of siblings as they are paired. Those of the first list come in their order, then
those of the second list that are left. -/
def pairUp : List α → List β → List (Option α × Option β)
  | [], bs => bs.map (none, some ·)
  | a :: as, bs =>
    match bs.find? (joins a) with
    | some b => (some a, some b) :: pairUp as (bs.eraseP (joins a))
    | none => (some a, none) :: pairUp as bs

theorem pairUp_nil (bs : List β) : pairUp joins [] bs = bs.map (none, some ·) := rfl

theorem pairUp_cons (a : α) (as : List α) (bs : List β) :
    pairUp joins (a :: as) bs =
      match bs.find? (joins a) with
      | some b => (some a, some b) :: pairUp joins as (bs.eraseP (joins a))
      | none => (some a, none) :: pairUp joins as bs := rfl

theorem pairUp_cons_of_none {a : α} {bs : List β} (hfind : bs.find? (joins a) = none) (as : List α) :
    pairUp joins (a :: as) bs = (some a, none) :: pairUp joins as bs := by
  rw [pairUp_cons, hfind]

theorem pairUp_cons_of_some {a : α} {b : β} {bs : List β} (hfind : bs.find? (joins a) = some b)
    (as : List α) : pairUp joins (a :: as) bs =
      (some a, some b) :: pairUp joins as (bs.eraseP (joins a)) := by
  rw [pairUp_cons, hfind]

/-- Two lists of parameters as they are paired by their places. Those that do not match stand apart. -/
def pairByPlace : List α → List β → List (Option α × Option β)
  | a :: as, b :: bs =>
    (if joins a b then [(some a, some b)] else [(some a, none), (none, some b)]) ++ pairByPlace as bs
  | as, [] => as.map (some ·, none)
  | [], bs => bs.map (none, some ·)

theorem pairByPlace_nil (bs : List β) :
    pairByPlace joins [] bs = bs.map (none, some ·) := by
  cases bs <;> rfl

theorem pairByPlace_cons_nil (a : α) (as : List α) :
    pairByPlace joins (a :: as) [] = (a :: as).map (some ·, none) := rfl

theorem pairByPlace_cons_cons (a : α) (as : List α) (b : β) (bs : List β) :
    pairByPlace joins (a :: as) (b :: bs) =
      (if joins a b then [(some a, some b)] else [(some a, none), (none, some b)]) ++
        pairByPlace joins as bs := rfl

theorem pairUp_firsts (as : List α) (bs : List β) : (pairUp joins as bs).filterMap (·.1) = as := by
  induction as generalizing bs with
  | nil => simp [pairUp_nil]
  | cons a as ih =>
    rw [pairUp_cons]
    cases bs.find? (joins a) with
    | none => exact congrArg (a :: ·) (ih bs)
    | some b => exact congrArg (a :: ·) (ih _)

theorem pairUp_seconds (as : List α) (bs : List β) :
    ((pairUp joins as bs).filterMap (·.2)).Perm bs := by
  induction as generalizing bs with
  | nil => simp [pairUp_nil]
  | cons a as ih =>
    rw [pairUp_cons]
    cases hfind : bs.find? (joins a) with
    | none => exact ih bs
    | some b => exact ((ih _).cons b).trans (eraseP_perm hfind)

/-- Siblings stand together when they are paired exactly if they are partners. -/
theorem pair_mem_pairUp {as : List α} {bs : List β} {pair : α × β} :
    (some pair.1, some pair.2) ∈ pairUp joins as bs ↔ pair ∈ partners joins as bs := by
  induction as generalizing bs with
  | nil => simp [pairUp_nil, partners]
  | cons a as ih =>
    rw [partners_cons, pairUp_cons]
    cases bs.find? (joins a) with
    | none => simp [ih]
    | some b => simp [ih, Prod.ext_iff]

/-- Parameters stand together when they are paired by their places exactly if those in one place
match. -/
theorem pair_mem_pairByPlace {as : List α} {bs : List β} {pair : α × β} :
    (some pair.1, some pair.2) ∈ pairByPlace joins as bs ↔
      pair ∈ as.zip bs ∧ joins pair.1 pair.2 = true := by
  induction as generalizing bs with
  | nil => simp [pairByPlace_nil]
  | cons a as ih =>
    cases bs with
    | nil => simp [pairByPlace_cons_nil]
    | cons b bs =>
      rw [pairByPlace_cons_cons, List.mem_append, ih, List.zip_cons_cons, List.mem_cons, or_and_right]
      refine or_congr_left ?_
      by_cases hjoins : joins a b = true
      case pos =>
        rw [if_pos hjoins, List.mem_singleton, Prod.ext_iff, Prod.ext_iff, Option.some.injEq,
          Option.some.injEq]
        exact (and_iff_left_of_imp fun hpair => by rwa [hpair.1, hpair.2]).symm
      case neg =>
        rw [if_neg hjoins]
        refine iff_of_false (by simp) fun hpair => hjoins ?_
        rw [← hpair.2, hpair.1]

/-- Pairing siblings again, the second of which stand behind their partners, changes nothing. -/
theorem pairUp_again (as : List α) (bs : List β) :
    pairUp joins as ((pairUp joins as bs).filterMap (·.2)) = pairUp joins as bs := by
  induction as generalizing bs with
  | nil => simp [pairUp_nil]
  | cons a as ih =>
    cases hfind : bs.find? (joins a) with
    | none =>
      -- whoever is not found among the others is not found in another order either
      have hnone : ((pairUp joins as bs).filterMap (·.2)).find? (joins a) = none := by
        rw [List.find?_eq_none] at hfind ⊢
        exact fun b hb => hfind b ((pairUp_seconds joins as bs).mem_iff.mp hb)
      rw [pairUp_cons_of_none joins hfind]
      simp only [List.filterMap_cons, pairUp_cons_of_none joins hnone, ih]
    | some b =>
      have hjoins : joins a b = true := List.find?_some hfind
      rw [pairUp_cons_of_some joins hfind]
      simp only [List.filterMap_cons, pairUp_cons, List.find?_cons_of_pos hjoins,
        List.eraseP_cons_of_pos hjoins, ih]

variable {joins} {joins' : γ → δ → Bool} {f : α → γ} {g : β → δ}

theorem pairUp_map (hsame : ∀ a b, joins' (f a) (g b) = joins a b) (as : List α) (bs : List β) :
    pairUp joins' (as.map f) (bs.map g) =
      (pairUp joins as bs).map (Prod.map (Option.map f) (Option.map g)) := by
  induction as generalizing bs with
  | nil => simp [pairUp_nil, Function.comp_def]
  | cons a as ih =>
    have htest : joins' (f a) ∘ g = joins a := funext (hsame a)
    rw [List.map_cons, pairUp_cons, pairUp_cons, List.find?_map, List.eraseP_map, htest]
    cases bs.find? (joins a) with
    | none => exact congrArg (_ :: ·) (ih bs)
    | some b => exact congrArg (_ :: ·) (ih _)

theorem pairByPlace_map (hsame : ∀ a b, joins' (f a) (g b) = joins a b) (as : List α) (bs : List β) :
    pairByPlace joins' (as.map f) (bs.map g) =
      (pairByPlace joins as bs).map (Prod.map (Option.map f) (Option.map g)) := by
  induction as generalizing bs with
  | nil => simp [pairByPlace_nil, Function.comp_def]
  | cons a as ih =>
    cases bs with
    | nil => simp [pairByPlace_cons_nil, Function.comp_def]
    | cons b bs =>
      rw [List.map_cons, List.map_cons, pairByPlace_cons_cons, pairByPlace_cons_cons, ih, hsame,
        List.map_append]
      split <;> rfl

end

section Siblings

variable {joins : DeclId → DeclId → Bool} {as bs : List DeclId}

private theorem pairUp_reordered (as bs : List DeclId) : Reordered bs (pairUp joins as bs) := by
  induction as generalizing bs with
  | nil => exact ⟨[], bs, rfl, nofun, .refl bs⟩
  | cons a as ih =>
    rw [pairUp_cons]
    cases hfind : bs.find? (joins a) with
    | none =>
      obtain ⟨paired, left, hids, hpaired, hleft⟩ := ih bs
      exact ⟨(some a, none) :: paired, left, congrArg (_ :: ·) hids,
        List.forall_mem_cons.mpr ⟨rfl, hpaired⟩, hleft⟩
    | some b =>
      obtain ⟨paired, left, hids, hpaired, hleft⟩ := ih (bs.eraseP (joins a))
      exact ⟨(some a, some b) :: paired, left, congrArg (_ :: ·) hids,
        List.forall_mem_cons.mpr ⟨rfl, hpaired⟩, hleft.trans List.eraseP_sublist⟩

/-- Siblings that are paired up stand as below a node that is no function. -/
theorem Siblings.pairUp {parameters : Prop} (hfree : ¬parameters) :
    Siblings parameters as bs (pairUp joins as bs) where
  firsts := pairUp_firsts joins as bs
  seconds := pairUp_seconds joins as bs
  fixed h := absurd h hfree
  ordered _ := pairUp_reordered as bs

theorem pairByPlace_firsts : (pairByPlace joins as bs).filterMap (·.1) = as := by
  induction as generalizing bs with
  | nil => simp [pairByPlace_nil]
  | cons a as ih =>
    cases bs with
    | nil => simp [pairByPlace_cons_nil]
    | cons b bs =>
      rw [pairByPlace_cons_cons, List.filterMap_append, ih]
      split <;> rfl

theorem pairByPlace_seconds : (pairByPlace joins as bs).filterMap (·.2) = bs := by
  induction as generalizing bs with
  | nil => simp [pairByPlace_nil]
  | cons a as ih =>
    cases bs with
    | nil => simp [pairByPlace_cons_nil]
    | cons b bs =>
      rw [pairByPlace_cons_cons, List.filterMap_append, ih]
      split <;> rfl

/-- Siblings that are paired by their places stand as below a function. -/
theorem Siblings.pairByPlace {parameters : Prop} (hfunction : parameters) :
    Siblings parameters as bs (pairByPlace joins as bs) where
  firsts := pairByPlace_firsts
  seconds := .of_eq pairByPlace_seconds
  fixed _ := pairByPlace_seconds
  ordered h := absurd hfunction h

end Siblings

/-- Whether partners carry what the oracle says of them. -/
def Pairing.Exact (sides : Sides) : Pairing → Prop
  | .partners a b first common second =>
    (sides.oracle.compare sides a b).run = .matched first common second
  | .firstAlone _ | .secondAlone _ => True

/-- How siblings are paired depends on the comparisons alone. -/
theorem Services.pairSiblings_congr {n m m' : Type → Type} [Monad n] {services : Services n m}
    {others : Services n m'} {sides : Sides}
    (hsame : ∀ a b, services.compare sides a b = others.compare sides a b) (as bs : List DeclId) :
    services.pairSiblings sides as bs = others.pairSiblings sides as bs := by
  have hfinds (a : DeclId) (bs : List DeclId) :
      services.findPartner sides a bs = others.findPartner sides a bs := by
    induction bs with
    | nil => rfl
    | cons b bs ih => simp only [findPartner, hsame, ih]
  induction as generalizing bs with
  | nil => rfl
  | cons a as ih => simp only [pairSiblings, hfinds, ih]

namespace Sides

variable {sides : Sides}

/-- A search for a partner: it finds the first that a declaration may join, or there is none. -/
inductive Finds (sides : Sides) (a : DeclId) (bs : List DeclId) :
    Except (List Mismatch) (Pairing × List DeclId) → Prop
  | found {b : DeclId} {first common second : Data} (hfind : bs.find? (sides.joins a) = some b)
    (hrun : (sides.oracle.compare sides a b).run = .matched first common second) :
    Finds sides a bs (.ok (.partners a b first common second, bs.eraseP (sides.joins a)))
  | failed (failures : List Mismatch) (hfind : bs.find? (sides.joins a) = none) :
    Finds sides a bs (.error failures)

private theorem Finds.skip {a b : DeclId} {bs : List DeclId} (hother : sides.joins a b = false)
    {result : Except (List Mismatch) (Pairing × List DeclId)}
    (failures : List Mismatch → List Mismatch) : Finds sides a bs result →
    Finds sides a (b :: bs)
      (match result with
        | .ok (pairing, left) => .ok (pairing, b :: left)
        | .error others => .error (failures others)) := by
  intro hrest
  have hskip : (b :: bs).find? (sides.joins a) = bs.find? (sides.joins a) :=
    List.find?_cons_of_neg (by simp [hother])
  have herase : (b :: bs).eraseP (sides.joins a) = b :: bs.eraseP (sides.joins a) :=
    List.eraseP_cons_of_neg (by simp [hother])
  cases hrest with
  | found hfind hrun =>
    have hfound := Finds.found (hskip.trans hfind) hrun
    rw [herase] at hfound
    exact hfound
  | failed others hfind => exact .failed _ (hskip.trans hfind)

/-- The partner that is found is the first that a declaration may join. -/
theorem oracle_findPartner {a : DeclId} (hfree : sides.first.isConcreteInterfaceMember a = false)
    (bs : List DeclId) : Finds sides a bs (sides.oracle.findPartner sides a bs).run := by
  induction bs with
  | nil => exact .failed [] rfl
  | cons b bs ih =>
    have hjoins : sides.joins a b = (sides.isCandidate a b &&
        (sides.oracle.compare sides a b).run.isMatched) := by
      rw [joins, hfree, Bool.not_false, Bool.true_and]
    simp only [Services.findPartner]
    split
    · next hcandidate =>
      rw [hcandidate, Bool.true_and] at hjoins
      rw [Id.run_bind]
      cases hrun : (sides.oracle.compare sides a b).run with
      | matched first common second =>
        rw [hrun] at hjoins
        have hfind : (b :: bs).find? (sides.joins a) = some b := List.find?_cons_of_pos hjoins
        have herase : (b :: bs).eraseP (sides.joins a) = bs := List.eraseP_cons_of_pos hjoins
        have hfound := Finds.found hfind hrun
        rw [herase] at hfound
        exact hfound
      | mismatched mismatch =>
        rw [hrun] at hjoins
        exact Finds.skip hjoins (mismatch :: ·) ih
    · next hother =>
      rw [Bool.eq_false_iff.mpr hother, Bool.false_and] at hjoins
      exact Finds.skip hjoins id ih

/-- A plan pairs siblings up, and its partners carry what the oracle says of them. -/
structure PairsUp (sides : Sides) (as bs : List DeclId) (plan : List Pairing) : Prop where
  ids : plan.map (fun pairing => (pairing.first?, pairing.second?)) = pairUp sides.joins as bs
  exact : ∀ pairing ∈ plan, pairing.Exact sides

private theorem PairsUp.alone {a : DeclId} {as bs : List DeclId} {plan : List Pairing}
    (hnone : bs.find? (sides.joins a) = none) (hrest : sides.PairsUp as bs plan) :
    sides.PairsUp (a :: as) bs (.firstAlone a :: plan) where
  ids := by
    rw [pairUp_cons_of_none _ hnone]
    exact congrArg (_ :: ·) hrest.ids
  exact := List.forall_mem_cons.mpr ⟨trivial, hrest.exact⟩

/-- The oracle pairs siblings with the first that they may join. -/
theorem oracle_pairSiblings (as bs : List DeclId) :
    sides.PairsUp as bs (sides.oracle.pairSiblings sides as bs).run.1 := by
  induction as generalizing bs with
  | nil =>
    refine ⟨List.map_map, fun pairing hpairing => ?_⟩
    obtain ⟨b, -, rfl⟩ := List.mem_map.mp hpairing
    trivial
  | cons a as ih =>
    simp only [Services.pairSiblings]
    split
    · next hconcrete =>
      refine PairsUp.alone (List.find?_eq_none.mpr fun b _ => ?_) (ih bs)
      simp [joins, hconcrete]
    · next hfree =>
      rw [Id.run_bind]
      have hfinds := oracle_findPartner (Bool.eq_false_iff.mpr hfree) bs
      generalize (sides.oracle.findPartner sides a bs).run = result at hfinds
      cases hfinds with
      | failed failures hfind => exact PairsUp.alone hfind (ih bs)
      | found hfind hrun =>
        refine ⟨?_, List.forall_mem_cons.mpr ⟨hrun, (ih _).exact⟩⟩
        rw [pairUp_cons_of_some _ hfind]
        exact congrArg (_ :: ·) (ih _).ids

variable (sides)

/-- Whether two declarations match. -/
noncomputable def matched (a b : DeclId) : Bool :=
  (sides.oracle.compare sides a b).run.isMatched

/-- What two declarations own, as it is paired below them. -/
noncomputable def pairedBelow (a b : DeclId) : List (Option DeclId × Option DeclId) :=
  if (sides.first.declaration a).kind = .function then
    pairByPlace sides.matched (sides.first.children a) (sides.second.children b)
  else pairUp sides.joins (sides.first.children a) (sides.second.children b)

variable {sides} in
/-- What stands together below two declarations is what matches below them. -/
theorem pair_mem_pairedBelow {a b : DeclId} {pair : Pair} :
    (some pair.1, some pair.2) ∈ sides.pairedBelow a b ↔ pair ∈ sides.pairsUnder a b := by
  rw [pairsUnder, pairedBelow]
  split
  · rw [pair_mem_pairByPlace, List.mem_filter]
    rfl
  · exact pair_mem_pairUp _

theorem siblings_pairedBelow (a b : DeclId) :
    Siblings ((sides.first.declaration a).kind = .function)
      (sides.first.children a) (sides.second.children b) (sides.pairedBelow a b) := by
  rw [pairedBelow]
  split
  · next hfunction => exact .pairByPlace hfunction
  · next hother => exact .pairUp hother

end Sides

end Concord
