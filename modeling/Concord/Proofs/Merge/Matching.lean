import Mathlib.Data.List.Zip
import Concord.Proofs.Comparison.Matches
import Concord.Proofs.Comparison.Symmetry

namespace Concord

section Partners

variable {α β : Type} (joins : α → β → Bool)

/-- Pairs every item of the first list with the first item of the second that it may join and that
is not taken. -/
def partners : List α → List β → List (α × β)
  | [], _ => []
  | a :: as, bs =>
    match bs.find? (joins a) with
    | some b => (a, b) :: partners as (bs.eraseP (joins a))
    | none => partners as bs

theorem partners_cons (a : α) (as : List α) (bs : List β) :
    partners joins (a :: as) bs =
      match bs.find? (joins a) with
      | some b => (a, b) :: partners joins as (bs.eraseP (joins a))
      | none => partners joins as bs := rfl

/-- Of a list whose first item that passes a test is taken, the others are left. -/
theorem eraseP_perm {test : β → Bool} {b : β} {bs : List β} (hfind : bs.find? test = some b) :
    (b :: bs.eraseP test).Perm bs := by
  obtain ⟨htest, before, after, rfl, hbefore⟩ := List.find?_eq_some_iff_append.mp hfind
  rw [List.eraseP_append_right _ (by simpa using hbefore), List.eraseP_cons_of_pos htest]
  exact List.perm_middle.symm

theorem partners_nil (as : List α) : partners joins as [] = [] := by
  induction as with
  | nil => rfl
  | cons a as ih => exact ih

theorem mem_partners {as : List α} {bs : List β} {pair : α × β}
    (hpair : pair ∈ partners joins as bs) :
    pair.1 ∈ as ∧ pair.2 ∈ bs ∧ joins pair.1 pair.2 = true := by
  induction as generalizing bs with
  | nil => cases hpair
  | cons a as ih =>
    rw [partners_cons] at hpair
    cases hfind : bs.find? (joins a) with
    | none =>
      rw [hfind] at hpair
      obtain ⟨hfirst, hsecond, hjoins⟩ := ih hpair
      exact ⟨List.mem_cons_of_mem _ hfirst, hsecond, hjoins⟩
    | some b =>
      rw [hfind] at hpair
      obtain rfl | hrest := List.mem_cons.mp hpair
      · exact ⟨List.mem_cons_self, List.mem_of_find?_eq_some hfind, List.find?_some hfind⟩
      · obtain ⟨hfirst, hsecond, hjoins⟩ := ih hrest
        exact ⟨List.mem_cons_of_mem _ hfirst, List.mem_of_mem_eraseP hsecond, hjoins⟩

/-- The items of the first list that have partners stand in its order. -/
theorem partners_sublist (as : List α) (bs : List β) :
    ((partners joins as bs).map Prod.fst).Sublist as := by
  induction as generalizing bs with
  | nil => exact .refl _
  | cons a as ih =>
    rw [partners_cons]
    cases bs.find? (joins a) with
    | none => exact (ih bs).cons a
    | some b => exact (ih _).cons_cons a

/-- An item that may join none of those who choose stays untaken. -/
theorem partners_untaken {as : List α} {b : β} (hnone : ∀ a ∈ as, joins a b = false)
    (bs : List β) : partners joins as (b :: bs) = partners joins as bs := by
  induction as generalizing bs with
  | nil => rfl
  | cons a as ih =>
    obtain ⟨hfirst, hrest⟩ := List.forall_mem_cons.mp hnone
    rw [partners_cons, partners_cons, List.find?_cons_of_neg (by simp [hfirst]),
      List.eraseP_cons_of_neg (by simp [hfirst])]
    cases bs.find? (joins a) with
    | none => exact ih hrest bs
    | some c => exact congrArg ((a, c) :: ·) (ih hrest _)

/-- The first item is taken by the first that may join it, whatever the others choose. -/
theorem partners_taken {before after : List α} {a : α} {b : β}
    (hbefore : ∀ c ∈ before, joins c b = false) (hjoins : joins a b = true) (bs : List β) :
    (partners joins (before ++ a :: after) (b :: bs)).Perm
      ((a, b) :: partners joins (before ++ after) bs) := by
  induction before generalizing bs with
  | nil =>
    rw [List.nil_append, partners_cons, List.find?_cons_of_pos hjoins, List.eraseP_cons_of_pos hjoins]
    exact .refl _
  | cons c before ih =>
    obtain ⟨hfirst, hrest⟩ := List.forall_mem_cons.mp hbefore
    rw [List.cons_append, List.cons_append, partners_cons, partners_cons,
      List.find?_cons_of_neg (by simp [hfirst]), List.eraseP_cons_of_neg (by simp [hfirst])]
    cases bs.find? (joins c) with
    | none => exact ih hrest bs
    | some d => exact ((ih hrest _).cons _).trans (.swap _ _ _)

/-- It does not matter which side chooses. Both sides prefer what comes first: the first of one side
is taken by the first of the other that may join it. -/
theorem partners_swap (as : List α) (bs : List β) :
    ((partners joins as bs).map Prod.swap).Perm (partners (fun b a => joins a b) bs as) := by
  induction as generalizing bs with
  | nil =>
    rw [partners_nil]
    exact .refl _
  | cons a as ih =>
    rw [partners_cons]
    cases hfind : bs.find? (joins a) with
    | none =>
      rw [partners_untaken _ fun b hb => Bool.eq_false_iff.mpr (List.find?_eq_none.mp hfind b hb)]
      exact ih bs
    | some b =>
      obtain ⟨hjoins, before, after, rfl, hbefore⟩ := List.find?_eq_some_iff_append.mp hfind
      have herase : (before ++ b :: after).eraseP (joins a) = before ++ after := by
        rw [List.eraseP_append_right _ (by simpa using hbefore), List.eraseP_cons_of_pos hjoins]
      rw [herase, List.map_cons]
      refine (List.Perm.cons _ (ih (before ++ after))).trans ?_
      exact (partners_taken (fun b a => joins a b) (by simpa using hbefore) hjoins as).symm

/-- Nobody who may join somebody stays without a partner together with him. -/
theorem partners_maximal {as : List α} {bs : List β} {a : α} {b : β} (ha : a ∈ as) (hb : b ∈ bs)
    (hjoins : joins a b = true) :
    a ∈ (partners joins as bs).map Prod.fst ∨ b ∈ (partners joins as bs).map Prod.snd := by
  induction as generalizing bs with
  | nil => cases ha
  | cons c as ih =>
    rw [partners_cons]
    cases hfind : bs.find? (joins c) with
    | none =>
      obtain rfl | ha := List.mem_cons.mp ha
      · exact absurd hjoins (List.find?_eq_none.mp hfind b hb)
      · exact ih ha hb
    | some d =>
      rw [List.map_cons, List.map_cons]
      obtain rfl | ha := List.mem_cons.mp ha
      · exact .inl List.mem_cons_self
      · obtain rfl | hb := List.mem_cons.mp ((eraseP_perm hfind).mem_iff.mpr hb)
        · exact .inr List.mem_cons_self
        · exact (ih ha hb).imp (List.mem_cons_of_mem _) (List.mem_cons_of_mem _)

/-- Two items that may join become partners when neither may join another. -/
theorem mem_partners_of_unique {as : List α} {bs : List β} {a : α} {b : β} (ha : a ∈ as) (hb : b ∈ bs)
    (hjoins : joins a b = true) (hfirst : ∀ a' ∈ as, joins a' b = true → a' = a)
    (hsecond : ∀ b' ∈ bs, joins a b' = true → b' = b) : (a, b) ∈ partners joins as bs := by
  obtain htaken | htaken := partners_maximal joins ha hb hjoins
  · obtain ⟨⟨_, b'⟩, hpair, rfl⟩ := List.mem_map.mp htaken
    obtain ⟨-, hb', hjoins'⟩ := mem_partners joins hpair
    exact hsecond b' hb' hjoins' ▸ hpair
  · obtain ⟨⟨a', _⟩, hpair, rfl⟩ := List.mem_map.mp htaken
    obtain ⟨ha', -, hjoins'⟩ := mem_partners joins hpair
    exact hfirst a' ha' hjoins' ▸ hpair

end Partners

/-- The logic of steps that need no session. -/
private def ProgramLogic.ofId : ProgramLogic Id where
  wp step post before := post step.run before
  pure hpost := hpost
  bind hstep := hstep
  mono hstep hpost := hpost _ _ hstep

namespace Sides

variable (sides : Sides)

/-- Whether a sibling of the first side may join one of the second: neither is a member of an
interface that is not abstract, they have one name, and they match. -/
noncomputable def joins (a b : DeclId) : Bool :=
  !sides.first.isConcreteInterfaceMember a && sides.isCandidate a b &&
    (sides.oracle.compare sides a b).run.isMatched

theorem joins_swap (a b : DeclId) : sides.swap.joins b a = sides.joins a b := by
  simp only [joins, isCandidate, swap_first, swap_second, isMatched_swap,
    BEq.comm (a := (sides.second.declaration b).name)]
  cases sides.first.isConcreteInterfaceMember a <;>
    cases sides.second.isConcreteInterfaceMember b <;> rfl

/-- The pairs of declarations that match below two declarations that do. The parameters of functions
match by their places. -/
noncomputable def pairsUnder (a b : DeclId) : List Pair :=
  if (sides.first.declaration a).kind = .function then
    ((sides.first.children a).zip (sides.second.children b)).filter fun pair =>
      (sides.oracle.compare sides pair.1 pair.2).run.isMatched
  else partners sides.joins (sides.first.children a) (sides.second.children b)

/-- The declarations that match, from the roots down. -/
inductive Matched : Pair → Prop
  | root {pair : Pair} (hpair : pair ∈ partners sides.joins sides.first.roots sides.second.roots) :
    Matched pair
  | under {a b : DeclId} {pair : Pair} (hmatched : Matched (a, b))
    (hpair : pair ∈ sides.pairsUnder a b) : Matched pair

variable {sides}

/-- Somebody who knows which classifiers can be shared knows which declarations match. In a single
tree every declaration matches itself. -/
theorem isMatched_iff_matches (a b : DeclId) : (sides.oracle.compare sides a b).run.isMatched = true ↔
    sides.same = true ∧ a = b ∨ sides.Matches sides.Shareable a b := by
  classical
  have hverdict (known : Cache) (x y : DeclId) : ProgramLogic.ofId.Decides known
      (sides.oracle.verdict x y) Mismatch.isEmpty fun _ => sides.Shareable x y := by
    intro before hidle _
    have htold := sides.oracle_verdict_isEmpty x y
    exact ⟨hidle, .refl _, htold.mp, htold.mpr⟩
  have hdecides := Services.failuresOf_decides sides (fun _ _ _ => id) hverdict a b .empty
  obtain ⟨-, -, hmatches⟩ := hdecides (.new sides.options .empty) rfl (.refl _)
  rw [isMatched_oracle, Bool.or_eq_true, Bool.and_eq_true, beq_iff_eq]
  exact or_congr_right ⟨hmatches.1, hmatches.2⟩

/-- Declarations of two trees that are found to match do. -/
theorem matches_of_isMatched (hdistinct : sides.same = false) {a b : DeclId}
    (hmatched : (sides.oracle.compare sides a b).run.isMatched = true) :
    sides.Matches sides.Shareable a b := by
  obtain ⟨hsame, -⟩ | hmatches := (isMatched_iff_matches a b).mp hmatched
  · cases hdistinct.symm.trans hsame
  · exact hmatches

/-- Declarations that match are of one kind, unless they are one declaration. -/
theorem kinds_of_isMatched (hdistinct : sides.same = false) {a b : DeclId}
    (hmatched : (sides.oracle.compare sides a b).run.isMatched = true) :
    (sides.first.declaration a).kind = (sides.second.declaration b).kind :=
  (matches_of_isMatched hdistinct hmatched).kinds

theorem isMatched_of_joins {a b : DeclId} (hjoins : sides.joins a b = true) :
    (sides.oracle.compare sides a b).run.isMatched = true :=
  (Bool.and_eq_true_iff.mp hjoins).2

theorem isMatched_of_mem_pairsUnder {a b : DeclId} {pair : Pair}
    (hpair : pair ∈ sides.pairsUnder a b) :
    (sides.oracle.compare sides pair.1 pair.2).run.isMatched = true := by
  rw [pairsUnder] at hpair
  split at hpair
  · exact (List.mem_filter.mp hpair).2
  · exact isMatched_of_joins (mem_partners _ hpair).2.2

theorem Matched.kinds (hdistinct : sides.same = false) {pair : Pair}
    (hmatched : sides.Matched pair) :
    (sides.first.declaration pair.1).kind = (sides.second.declaration pair.2).kind := by
  refine kinds_of_isMatched hdistinct ?_
  cases hmatched with
  | root hpair => exact isMatched_of_joins (mem_partners _ hpair).2.2
  | under _ hpair => exact isMatched_of_mem_pairsUnder hpair

private theorem mem_partners_swap {as bs : List DeclId} {a b : DeclId}
    (hmem : (a, b) ∈ partners sides.joins as bs) : (b, a) ∈ partners sides.swap.joins bs as := by
  have hjoins : sides.swap.joins = fun y x => sides.joins x y :=
    funext fun y => funext fun x => sides.joins_swap x y
  rw [hjoins]
  exact (partners_swap _ as bs).mem_iff.mp (List.mem_map_of_mem hmem)

theorem mem_pairsUnder_swap {a b c d : DeclId}
    (hkinds : (sides.first.declaration a).kind = (sides.second.declaration b).kind)
    (hmem : (c, d) ∈ sides.pairsUnder a b) : (d, c) ∈ sides.swap.pairsUnder b a := by
  rw [pairsUnder] at hmem ⊢
  rw [hkinds] at hmem
  split at hmem
  · next hfunction =>
    obtain ⟨hzip, hmatched⟩ := List.mem_filter.mp hmem
    rw [swap_first, if_pos hfunction]
    refine List.mem_filter.mpr ⟨?_, (sides.isMatched_swap c d).trans hmatched⟩
    rw [swap_second, ← List.zip_swap]
    exact List.mem_map_of_mem hzip
  · next hother =>
    rw [swap_first, if_neg hother]
    exact mem_partners_swap hmem

/-- The same declarations match when the sides are exchanged. -/
theorem Matched.swap (hdistinct : sides.same = false) {pair : Pair} (hmatched : sides.Matched pair) :
    sides.swap.Matched pair.swap := by
  induction hmatched with
  | root hpair => exact .root (mem_partners_swap hpair)
  | under hmatched hpair ih => exact .under ih (mem_pairsUnder_swap (hmatched.kinds hdistinct) hpair)

end Sides

end Concord
