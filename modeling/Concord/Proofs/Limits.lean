import Concord.Proofs.Comparison.Limits
import Concord.Source.Tree

namespace Concord

open Session (Keeps)

/-- How often an outcome names the limit. -/
def Comparison.limitCauses : Comparison → Nat
  | matched _ _ _ => 0
  | mismatched mismatch => mismatch.causes.count .recursionLimit

namespace Sides

variable (sides : Sides)

/-- Any comparisons keep the limit on depth and a cache in which no verdict names the limit, and
leave nothing under way. -/
private theorem performAll_keeps_limitFree (calls : List Call) :
    Keeps (fun session => sides.Holds [] session ∧ session.cache.LimitFree)
      (sides.performAll calls) := by
  refine sides.performAll_keeps (fun a b before hbefore => ?_) (fun _ hbefore => ?_) calls
  · obtain ⟨-, -, hafter, -⟩ :=
      tracing_compareWithin (Nat.le_of_eq (Nat.zero_add _).symm) a b before hbefore.1
    exact ⟨hafter, (sides.compareClassifiers_counts a b hbefore.2).1⟩
  · exact ⟨⟨rfl, rfl⟩, hbefore.2⟩

/-- The cause is added to what failed exactly if a limit was hit, and is there once then. -/
private theorem limitCauses_require {before after : Session} {failed : Mismatch}
    (hcounts : before.Counts after failed) :
    let failed := failed.require (after.limitHits == before.limitHits) .recursionLimit
    failed.causes.count .recursionLimit = if after.limitHits = before.limitHits then 0 else 1 := by
  by_cases hhits : after.limitHits = before.limitHits
  · rw [beq_iff_eq.mpr hhits, if_pos hhits]
    exact List.count_eq_zero.mpr fun hmem => absurd hhits (Nat.ne_of_gt (hcounts.limit hmem))
  · rw [beq_eq_false_iff_ne.mpr hhits, if_neg hhits]
    exact Mismatch.count_push_self hcounts.once

section Traces

variable {sides} {a b : DeclId} {before middle after : Session} {failed : Mismatch}
  {ruled entries : List Entry} {outcome : Comparison} (hholds : sides.Holds [] before)
  (hfree : before.cache.LimitFree)
  (hrules : ((Traced.services sides).failuresOf sides a b).run before = ((failed, ruled), middle))
include hholds hfree hrules

/-- While the rules on two declarations are checked, a limit is hit exactly if an attempt is turned
down. -/
private theorem failuresOf_hits : before.Counts middle failed ∧
    (middle.limitHits = before.limitHits ↔ ¬∃ entry ∈ ruled, entry.isRefused = true) := by
  have hfailures := sides.tracing_failuresOf a b before hholds
  rw [Traced.answers, hrules] at hfailures
  obtain ⟨hfailed, hmiddle, -, hhits⟩ := hfailures
  obtain ⟨-, hcounts⟩ := sides.failuresOf_counts a b hholds.visiting hfree
  have hcount : middle.limitHits = before.limitHits + ruled.countP Entry.isRefused :=
    (congrArg Session.limitHits hmiddle).trans hhits
  refine ⟨?_, ?_⟩
  · rw [show failed = _ from hfailed, show middle = _ from hmiddle]
    exact hcounts
  · rw [← List.countP_pos_iff, hcount]
    omega

/-- The attempts that are turned down while the rules are checked are reported, and those that
follow are not. -/
private theorem compare_reports (hapart : (sides.same && a == b) = false)
    (hrun : ((Traced.services sides).compare sides a b).run before = ((outcome, entries), after)) :
    outcome.limitCauses ≤ 1 ∧
    (outcome.limitCauses = 1 ↔ ∃ entry ∈ ruled, entry.isRefused = true) ∧
    entries = ruled ++
      if outcome.isMatched = true ∧ (sides.first.declaration a).kind = .typeAlias ∧
        (sides.second.declaration b).kind = .typeAlias
      then Traced.supertypeAnswers sides a b middle else [] := by
  obtain ⟨hcounts, hquiet⟩ := failuresOf_hits hholds hfree hrules
  have honce := limitCauses_require hcounts
  rw [Traced.run_compare sides hapart hrules] at hrun
  dsimp only at hrun
  split at hrun
  · next hempty =>
    cases hrun
    rw [Mismatch.isEmpty_require, Bool.and_eq_true, beq_iff_eq] at hempty
    have hnone := hquiet.mp hempty.2
    obtain ⟨first, common, second, hmatched⟩ := Traced.matchedPayloads_matched sides a b middle
    rw [hmatched, Traced.answers_matchedPayloads]
    refine ⟨Nat.zero_le 1, ⟨nofun, fun hsome => absurd hsome hnone⟩, ?_⟩
    simp [Comparison.isMatched]
  · cases hrun
    refine ⟨?_, ?_, by simp [Comparison.isMatched]⟩
    · rw [Comparison.limitCauses, honce]
      split <;> decide
    · rw [Comparison.limitCauses, honce]
      by_cases hhits : middle.limitHits = before.limitHits
      · simpa [hhits] using hquiet.mp hhits
      · simpa [hhits] using not_not.mp (mt hquiet.mpr hhits)

end Traces

/-- Two declarations that are not one and the same are compared, after any other comparisons, over a
cache in which no verdict names the limit; whatever comparisons have filled is such a cache. To
write down what the guard answers changes neither the outcome nor the session. The outcome names the
limit at most once, and it does so exactly if an attempt was turned down while the rules on the two
were checked. There are no other attempts, unless the two are aliases that match: the supertypes
that they share are looked for afterwards, and what the guard answers then is not reported. -/
theorem limits_reported :
    (∀ cache : Cache, cache.Filled sides.first sides.second → cache.LimitFree) ∧
    ∀ cache : Cache, cache.LimitFree → ∀ calls a b, (sides.same && a == b) = false →
      let session := ((sides.performAll calls).run (.new sides.options cache)).2
      let ((outcome, entries), after) := ((Traced.services sides).compare sides a b).run session
      let ((_, ruled), middle) := ((Traced.services sides).failuresOf sides a b).run session
      (sides.compare a b).run session = (outcome, after) ∧ after.cache.LimitFree ∧
      outcome.limitCauses ≤ 1 ∧
      (outcome.limitCauses = 1 ↔ ∃ entry ∈ ruled, entry.isRefused = true) ∧
      entries = ruled ++
        if outcome.isMatched = true ∧ (sides.first.declaration a).kind = .typeAlias ∧
          (sides.second.declaration b).kind = .typeAlias
        then Traced.supertypeAnswers sides a b middle else [] := by
  refine ⟨fun cache hfilled => hfilled.limitFree, fun cache hcache calls a b hapart => ?_⟩
  obtain ⟨hholds, hfree⟩ := sides.performAll_keeps_limitFree calls (.new sides.options cache)
    ⟨⟨rfl, rfl⟩, hcache⟩
  intro session
  have hkeeps : Keeps (fun session => session.cache.LimitFree) (sides.compare a b) :=
    .compare (fun x y before hbefore => (sides.compareClassifiers_counts x y hbefore).1) a b
  obtain ⟨houtcome, hafter, -, -⟩ := sides.tracing_compare a b session hholds
  cases hrules : ((Traced.services sides).failuresOf sides a b).run session with | mk traced middle
  cases hrun : ((Traced.services sides).compare sides a b).run session with | mk traced' after
  rw [hrun] at houtcome hafter
  refine ⟨Prod.ext houtcome.symm hafter.symm, ?_, compare_reports hholds hfree hrules hapart hrun⟩
  rw [show after = _ from hafter]
  exact hkeeps session hfree

section Aliases

private def namedType (name : String) : Ty Spelling :=
  .simple ⟨⟨some ⟨name⟩, none⟩, [], false, false, none⟩

/-- An interface, a class that implements it, and an alias of the class. -/
private def aliasing : Source :=
  .mk ⟨"m"⟩ .everyone .final .plain (.module ⟨none⟩)
    [.mk ⟨"p"⟩ .everyone .final .plain .package
      [.mk ⟨"I"⟩ .everyone .final .plain (.classType (.ofKind .interface)) [],
        .mk ⟨"C"⟩ .everyone .final .plain
          (.classType { ClassInfo.ofKind .ordinary with supertypes := [namedType "p.I"] }) [],
        .mk ⟨"A"⟩ .everyone .final .plain (.typeAlias ⟨namedType "p.C", none, []⟩) []]]

private def aliasingTree : Tree :=
  (Tree.ofSources [aliasing]).toOption.getD .empty

/-- Two such trees, with a limit on the attempts to compare two classifiers. -/
private def aliasingSides (maxIterations : Nat) : Sides :=
  ofTrees aliasingTree aliasingTree ⟨["kotlin", "kotlinx"], [], false, 100, maxIterations⟩

/-- The first comparison of two classes is reported if it is turned down. -/
theorem refused_class_reported :
    let sides := aliasingSides 0
    let session := Session.new sides.options .empty
    let traced := ((Traced.services sides).compare sides ⟨3⟩ ⟨3⟩).run session
    traced.1 = (.mismatched ⟨[.recursionLimit]⟩, [.iterationExceeded]) ∧
      (sides.compare ⟨3⟩ ⟨3⟩).run session = (traced.1.1, traced.2) := by
  intro sides session traced
  have hreported := (limits_reported sides).2 .empty nofun [] ⟨3⟩ ⟨3⟩ rfl
  exact ⟨by decide +kernel, hreported.1⟩

/-- The number of supertypes of the class that a match shares. -/
private def supertypesShared : Comparison → Option Nat
  | .matched _ common _ => common.payload.class?.map (·.supertypes.length)
  | .mismatched _ => none

/-- If only one attempt is let in, the aliases match and the supertype of their classes is lost,
although the guard turned the second attempt down. If two are, the supertype is shared. -/
theorem supertype_lost_at_limit :
    let traced (maxIterations : Nat) :=
      let sides := aliasingSides maxIterations
      (((Traced.services sides).compare sides ⟨4⟩ ⟨4⟩).run (.new sides.options .empty)).1
    Tree.ofSources [aliasing] = .ok aliasingTree ∧
      (traced 1).1.isMatched = true ∧ (traced 1).1.limitCauses = 0 ∧
      (traced 1).2 = [.entered, .iterationExceeded] ∧
      supertypesShared (traced 1).1 = some 0 ∧
      (traced 2).2 = [.entered, .entered] ∧ supertypesShared (traced 2).1 = some 1 := by
  decide +kernel

end Aliases

end Sides

end Concord
