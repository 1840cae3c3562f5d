import Concord.Proofs.Merge.Accounting
import Concord.Proofs.Merge.NotedPairs

namespace Concord

namespace Sides

variable {sides : Sides}

/-- Nothing is noted but what matches. -/
theorem matched_of_mem_pairsWithin {levels : Nat} {pairs : List Pair}
    (hpairs : ∀ pair ∈ pairs, sides.Matched pair) :
    ∀ pair ∈ sides.pairsWithin levels pairs, sides.Matched pair := by
  induction levels generalizing pairs with
  | zero => exact hpairs
  | succ levels ih =>
    intro pair hpair
    obtain ⟨⟨a, b⟩, hab, hpair⟩ := List.mem_flatMap.mp hpair
    have hunder : ∀ pair ∈ sides.pairsUnder a b, sides.Matched pair :=
      fun pair hpair => .under (hpairs _ hab) hpair
    obtain rfl | hpair := List.mem_cons.mp hpair
    · exact hpairs _ hab
    · split at hpair
      · exact hunder pair hpair
      · exact ih hunder pair hpair

theorem mem_pairsWithin_self (levels : Nat) {pairs : List Pair} {pair : Pair} (hpair : pair ∈ pairs) :
    pair ∈ sides.pairsWithin levels pairs := by
  cases levels with
  | zero => exact hpair
  | succ levels => exact List.mem_flatMap.mpr ⟨pair, hpair, List.mem_cons_self⟩

theorem pairsWithin_subset (levels : Nat) {pairs : List Pair} {pair : Pair} (hpair : pair ∈ pairs) :
    sides.pairsWithin levels [pair] ⊆ sides.pairsWithin levels pairs := by
  cases levels with
  | zero => exact List.cons_subset.mpr ⟨hpair, List.nil_subset _⟩
  | succ levels =>
    intro other hother
    rw [pairsWithin_single] at hother
    exact List.mem_flatMap.mpr ⟨pair, hpair, hother⟩

/-- Below a declaration that owns nothing nothing is noted. -/
theorem pairsWithin_bare (levels : Nat) {pair : Pair} (hbare : sides.first.children pair.1 = []) :
    sides.pairsWithin levels [pair] = [pair] := by
  have hunder : sides.pairsUnder pair.1 pair.2 = [] := by
    rw [pairsUnder, hbare]
    split <;> rfl
  cases levels with
  | zero => rfl
  | succ levels =>
    rw [pairsWithin_single, hunder]
    split
    · rfl
    · cases levels <;> rfl

/-- The first side of what matches below two declarations hangs below the first. -/
theorem child_of_mem_pairsUnder {a b : DeclId} {pair : Pair} (hpair : pair ∈ sides.pairsUnder a b) :
    pair.1 ∈ sides.first.children a := by
  rw [pairsUnder] at hpair
  split at hpair
  · exact (List.of_mem_zip (List.mem_filter.mp hpair).1).1
  · exact (mem_partners _ hpair).1

/-- Everything that matches is noted, levels enough for the first tree. No declaration stands as
deep as the oracle goes down. -/
theorem mem_pairsWithin_of_matched (hmergeable : sides.first.Mergeable) {pair : Pair}
    (hmatched : sides.Matched pair) :
    pair ∈ sides.pairsWithin sides.first.size
      (partners sides.joins sides.first.roots sides.second.roots) := by
  -- what is noted below a pair depends on how many levels are left where it stands
  have hleft : ∃ above levels, sides.first.Line pair.1 above ∧
      above.length + levels = sides.first.size ∧
      sides.pairsWithin levels [pair] ⊆ sides.pairsWithin sides.first.size
        (partners sides.joins sides.first.roots sides.second.roots) := by
    induction hmatched with
    | root hpair =>
      exact ⟨[], _, .root (mem_partners _ hpair).1, Nat.zero_add _, pairsWithin_subset _ hpair⟩
    | @under a b pair _ hpair ih =>
      obtain ⟨above, levels, hline, hlevels, hsubset⟩ := ih
      have hchild := child_of_mem_pairsUnder hpair
      have hbelow := Tree.Line.child hline hchild
      have hlength := hmergeable.rooted.line_length hbelow
      rw [List.length_cons] at hlength
      obtain ⟨levels, rfl⟩ : ∃ left, levels = left + 1 := Nat.exists_eq_add_one.mpr (by omega)
      refine ⟨a :: above, levels, hbelow, by rw [List.length_cons]; omega, ?_⟩
      rw [pairsWithin_single, List.cons_subset] at hsubset
      refine List.Subset.trans ?_ hsubset.2
      split
      · next hfunction =>
        rw [pairsWithin_bare levels (hmergeable.children_parameter hfunction hchild)]
        exact List.cons_subset.mpr ⟨hpair, List.nil_subset _⟩
      · exact pairsWithin_subset levels hpair
  obtain ⟨-, levels, -, -, hsubset⟩ := hleft
  exact hsubset (mem_pairsWithin_self levels List.mem_cons_self)

private theorem zip_firsts_sublist {α β : Type} (as : List α) (bs : List β) :
    ((as.zip bs).map Prod.fst).Sublist as := by
  induction as generalizing bs with
  | nil => exact .refl _
  | cons a as ih =>
    cases bs with
    | nil => exact List.nil_sublist _
    | cons b bs => exact (ih bs).cons_cons a

/-- Pairs whose first declarations are distinct and stand at one depth. -/
structure AtDepth (sides : Sides) (depth : Nat) (pairs : List Pair) : Prop where
  distinct : (pairs.map Prod.fst).Nodup
  lines : ∀ pair ∈ pairs, ∃ above, sides.first.Line pair.1 above ∧ above.length = depth

theorem AtDepth.passes {depth : Nat} {pairs : List Pair} (hlevel : sides.AtDepth depth pairs)
    {pair : Pair} (hpair : pair ∈ pairs) :
    sides.first.Passes pair.1 pair.1 depth := by
  obtain ⟨above, hline, rfl⟩ := hlevel.lines pair hpair
  exact hline.passes

theorem AtDepth.single {depth : Nat} {pairs : List Pair} (hlevel : sides.AtDepth depth pairs)
    {pair : Pair} (hpair : pair ∈ pairs) : sides.AtDepth depth [pair] where
  distinct := List.nodup_singleton _
  lines _ hmem := hlevel.lines _ (List.mem_singleton.mp hmem ▸ hpair)

section Depth

variable (hrooted : sides.first.Rooted) {depth : Nat} {pairs : List Pair}
include hrooted

theorem AtDepth.under (hlevel : sides.AtDepth depth pairs) {a b : DeclId} (hab : (a, b) ∈ pairs) :
    sides.AtDepth (depth + 1) (sides.pairsUnder a b) where
  distinct := by
    refine List.Nodup.sublist ?_ (hrooted.owned.distinct a)
    rw [pairsUnder]
    split
    · exact (List.filter_sublist.map Prod.fst).trans (zip_firsts_sublist _ _)
    · exact partners_sublist _ _ _
  lines pair hpair := by
    obtain ⟨above, hline, rfl⟩ := hlevel.lines _ hab
    exact ⟨a :: above, .child hline (child_of_mem_pairsUnder hpair), rfl⟩

/-- What is noted hangs below the pairs that one starts from. -/
theorem passes_of_mem_pairsWithin (levels : Nat) (hlevel : sides.AtDepth depth pairs) :
    ∀ noted ∈ sides.pairsWithin levels pairs,
      ∃ pair ∈ pairs, sides.first.Passes noted.1 pair.1 depth := by
  induction levels generalizing depth pairs with
  | zero => exact fun noted hnoted => ⟨noted, hnoted, hlevel.passes hnoted⟩
  | succ levels ih =>
    intro noted hnoted
    obtain ⟨⟨a, b⟩, hab, hnoted⟩ := List.mem_flatMap.mp hnoted
    refine ⟨(a, b), hab, ?_⟩
    obtain rfl | hnoted := List.mem_cons.mp hnoted
    · exact hlevel.passes hab
    · have hunder := hlevel.under hrooted hab
      obtain ⟨pair, hpair, hpasses⟩ : ∃ pair ∈ sides.pairsUnder a b,
          sides.first.Passes noted.1 pair.1 (depth + 1) := by
        split at hnoted
        · exact ⟨noted, hnoted, hunder.passes hnoted⟩
        · exact ih hunder noted hnoted
      exact hrooted.passes_container hpasses (child_of_mem_pairsUnder hpair)

/-- Each declaration of the first side is noted once at most. -/
theorem nodup_pairsWithin (levels : Nat) (hlevel : sides.AtDepth depth pairs) :
    ((sides.pairsWithin levels pairs).map Prod.fst).Nodup := by
  induction levels generalizing depth pairs with
  | zero => exact hlevel.distinct
  | succ levels ih =>
    have hsplit : sides.pairsWithin (levels + 1) pairs =
        pairs.flatMap fun pair => sides.pairsWithin (levels + 1) [pair] := by
      rw [← pairsWithin_flatMap, List.flatMap_singleton']
    rw [hsplit, List.map_flatMap, List.nodup_flatMap]
    constructor
    · rintro ⟨a, b⟩ hab
      have hunder := hlevel.under hrooted hab
      rw [pairsWithin_single, List.map_cons, List.nodup_cons]
      constructor
      · intro hmem
        obtain ⟨noted, hnoted, hsame⟩ := List.mem_map.mp hmem
        obtain ⟨above, hline, rfl⟩ := hlevel.lines _ hab
        obtain ⟨pair, -, hpasses⟩ : ∃ pair ∈ sides.pairsUnder a b,
            sides.first.Passes noted.1 pair.1 (above.length + 1) := by
          split at hnoted
          · exact ⟨noted, hnoted, hunder.passes hnoted⟩
          · exact passes_of_mem_pairsWithin hrooted levels hunder noted hnoted
        rw [hsame] at hpasses
        exact hrooted.not_passes_below hline _ hpasses
      · split
        · exact hunder.distinct
        · exact ih hunder
    · refine (List.pairwise_map.mp hlevel.distinct).imp_of_mem ?_
      intro pair other hpair hother hne
      have hpasses {pair : Pair} (hpair : pair ∈ pairs) {id : DeclId}
          (hid : id ∈ (sides.pairsWithin (levels + 1) [pair]).map Prod.fst) :
          sides.first.Passes id pair.1 depth := by
        obtain ⟨noted, hnoted, rfl⟩ := List.mem_map.mp hid
        obtain ⟨_, hmem, hpasses⟩ :=
          passes_of_mem_pairsWithin hrooted _ (hlevel.single hpair) noted hnoted
        rwa [List.mem_singleton.mp hmem] at hpasses
      intro id hid hid'
      exact hne (hrooted.passes_unique (hpasses hpair hid) (hpasses hother hid'))

end Depth

/-- What a merge of two forests notes: the pairs that match, each once, and what they say in the
shared nodes. -/
structure Notes (sides : Sides) (forest : MergedForest) (pairs : List Pair) : Prop where
  matched : ∀ pair, pair ∈ pairs ↔ sides.Matched pair
  distinct : (pairs.map Prod.fst).Nodup
  shared : MergedNode.sharedData forest.roots = pairs.map sides.dataOf

/-- A merge that hits no limit notes the pairs that match. -/
theorem mergeNoting_notes (hmergeable : sides.first.Mergeable) {cache : Cache}
    (hexact : cache.Exact sides) {result : MergeResult} {pairs : List Pair} {session : Session}
    (hmerge : sides.mergeNoting cache = .ok ((result, pairs), session))
    (hlimit : session.limitHits = 0) : sides.Notes result.forest pairs := by
  obtain ⟨told, htold, hforest, -⟩ := sides.mergeNoting_oracle hexact hmerge hlimit
  obtain ⟨hpairs, hstand⟩ := notedOracle_merge [] told pairs htold
  rw [List.nil_append] at hpairs
  have hroots : sides.AtDepth 0 (partners sides.joins sides.first.roots sides.second.roots) :=
    ⟨(partners_sublist _ _ _).nodup hmergeable.rooted.distinct,
      fun pair hpair => ⟨[], .root (mem_partners _ hpair).1, rfl⟩⟩
  subst hpairs
  constructor
  · intro pair
    exact ⟨matched_of_mem_pairsWithin (fun pair hpair => .root hpair) pair,
      mem_pairsWithin_of_matched hmergeable⟩
  · exact nodup_pairsWithin hmergeable.rooted _ hroots
  · rw [hforest]
    exact hstand

end Sides

end Concord
