import Concord.Proofs.Comparison.Calls
import Concord.Proofs.Comparison.Refuting
import Concord.Source.Tree

namespace Concord

open Session (Ready Keeps)
open Relation (TransGen ReflTransGen)

namespace Sides

variable {sides : Sides} {pair : Pair} {above assumed : List Pair} {a b : DeclId}

/-- Pairs under way lead to the innermost one. -/
private theorem Nested.leads (hnested : sides.Nested (pair :: above)) :
    ∀ outer ∈ above, TransGen sides.Asks outer pair := by
  induction above generalizing pair with
  | nil => nofun
  | cons next rest ih =>
    obtain ⟨hasks, hrest⟩ := List.isChain_cons_cons.mp hnested
    intro outer houter
    obtain rfl | houter := List.mem_cons.mp houter
    · exact .single hasks
    · exact (ih hrest outer houter).tail hasks

/-- Assumptions that the rules on a pair do not lead to make no difference. -/
private theorem shareableGiven_of_apart
    (hapart : ∀ other ∈ assumed, ¬ReflTransGen sides.Asks (a, b) other) :
    sides.ShareableGiven assumed a b ↔ sides.Shareable a b := by
  refine ⟨fun hshare => ?_, fun hshare => hshare.given assumed⟩
  refine ⟨fun x y => sides.ShareableGiven assumed x y ∧
    ∀ other ∈ assumed, ¬ReflTransGen sides.Asks (x, y) other, fun x y hxy => ?_, hshare, hapart⟩
  obtain ⟨hxy, hapart⟩ := hxy
  have hrules : sides.RulesHold (sides.ShareableGiven assumed) x y :=
    hxy.unfold.resolve_left fun hmem => hapart (x, y) hmem .refl
  rw [rulesHold_iff_failuresGiven] at hrules ⊢
  rw [← hrules]
  refine congrArg Mismatch.isEmpty (failuresGiven_congr fun asked hasked => ?_)
  exact and_iff_left fun other hother hleads => hapart other hother (.head hasked hleads)

/-- Of a pair whose rules do not lead back to it, pairs under way change nothing. -/
private theorem failuresGiven_of_acyclic (hnested : sides.Nested (pair :: above))
    (hacyclic : ¬TransGen sides.Asks pair pair) :
    sides.failuresGiven (sides.ShareableGiven (pair :: above)) pair.1 pair.2 =
      sides.failuresGiven sides.Shareable pair.1 pair.2 := by
  refine failuresGiven_congr fun asked hasked => shareableGiven_of_apart fun other hother hleads => ?_
  have hbelow : TransGen sides.Asks pair other := .head' hasked hleads
  obtain rfl | hother := List.mem_cons.mp hother
  · exact hacyclic hbelow
  · exact hacyclic (hbelow.trans (hnested.leads other hother))

variable (sides)

/-- Any comparisons keep a session ready, with nothing under way. -/
private theorem performAll_keeps_ready (calls : List Call) :
    Keeps (fun session => session.guard.visiting = [] ∧ session.Ready sides)
      (sides.performAll calls) := by
  refine sides.performAll_keeps (fun a b before hbefore => ?_) (fun session hbefore => ?_) calls
  · obtain ⟨hidle, hready⟩ := hbefore
    have hnested : sides.Nested ((a, b) :: before.guard.visiting) := by
      rw [hidle]
      exact .singleton _
    obtain ⟨hdecides, -⟩ := sides.compareWithin_decides sides.levels a b before hready hnested
    exact ⟨hdecides.visiting.trans hidle, hdecides.ready⟩
  · exact ⟨rfl, hbefore.2.exact, hbefore.2.grounded, nofun, .nil⟩

/-- The session after any comparisons that started from an empty cache. -/
def sessionAfter (calls : List Call) : Session :=
  ((sides.performAll calls).run (.new sides.options .empty)).2

private theorem sessionAfter_ready (calls : List Call) :
    (sides.sessionAfter calls).guard.visiting = [] ∧ (sides.sessionAfter calls).Ready sides := by
  have hstart : (Session.new sides.options .empty).Ready sides :=
    ⟨nofun, ⟨nofun, nofun⟩, nofun, .nil⟩
  exact sides.performAll_keeps_ready calls _ ⟨rfl, hstart⟩

/-- What a comparison of two classifiers reports after any others, if it hits no limit. It reports
nothing exactly if the two can be shared. Otherwise it reports the rules that they fail, in order,
when their questions are answered by shareability given some pairs, each of which is asked by the
rules on the next; these are no others than the pair itself if it has no verdict yet. So it never
reports a rule that holds, but some that fail may be left out, unless the rules on the pair do not
lead back to it. -/
theorem reported_causes (calls : List Call) (a b : DeclId) {verdict : Mismatch} {after : Session}
    (hrun : (sides.compareClassifiers a b).run (sides.sessionAfter calls) = (verdict, after))
    (hlimit : after.limitHits = (sides.sessionAfter calls).limitHits) :
    (verdict.isEmpty = true ↔ sides.Shareable a b) ∧
    (∃ above, sides.Nested ((a, b) :: above) ∧
      verdict = sides.failuresGiven (sides.ShareableGiven ((a, b) :: above)) a b ∧
      ((sides.sessionAfter calls).cache.find? (a, b) = none → above = [])) ∧
    verdict.causes.Sublist (sides.failuresGiven sides.Shareable a b).causes ∧
    (¬TransGen sides.Asks (a, b) (a, b) →
      verdict = sides.failuresGiven sides.Shareable a b) := by
  obtain ⟨hidle, hready⟩ := sides.sessionAfter_ready calls
  have hnested : sides.Nested ((a, b) :: (sides.sessionAfter calls).guard.visiting) := by
    rw [hidle]
    exact .singleton _
  obtain ⟨hdecides, hlists⟩ := sides.compareWithin_decides sides.levels a b _ hready hnested
  rw [compareClassifiers] at hrun
  rw [hrun] at hdecides hlists
  have hyes := hdecides.iff hlimit
  rw [hidle, sides.shareableGiven_nil] at hyes
  obtain ⟨above, hinside, hlisted, hfresh⟩ := hlists hlimit (by rw [hidle]; exact List.not_mem_nil)
  have hverdict : verdict = sides.failuresGiven (sides.ShareableGiven ((a, b) :: above)) a b :=
    hlisted
  rw [hidle] at hfresh
  refine ⟨hyes, ⟨above, hinside, hverdict, hfresh⟩, ?_, fun hacyclic => ?_⟩
  · rw [hverdict]
    exact failuresGiven_sublist fun x y hshare => hshare.given _
  · rw [hverdict]
    exact failuresGiven_of_acyclic hinside hacyclic

/-- A class of a kind whose type parameter is bounded by another. -/
private def boundedBy (kind : ClassKind) (name bound : String) : Source :=
  .mk ⟨name⟩ .everyone .final .plain
    (.classType ⟨kind, false, false, false, false, false,
      [⟨⟨"T"⟩, .invariant, [.simple ⟨⟨some ⟨bound⟩, none⟩, [], false, false, none⟩], false⟩],
      [], []⟩) []

/-- Two classes that are bounded by each other, and one that is bounded by the first. -/
private def bounding (kind : ClassKind) : Source :=
  .mk ⟨"m"⟩ .everyone .final .plain (.module ⟨none⟩)
    [.mk ⟨"p"⟩ .everyone .final .plain .package
      [boundedBy kind "A" "p.B", boundedBy kind "B" "p.A", boundedBy kind "C" "p.A"]]

private def boundingTree (kind : ClassKind) : Tree :=
  (Tree.ofSources [bounding kind]).toOption.getD .empty

private def boundingSides : Sides :=
  ofTrees (boundingTree .interface) (boundingTree .object)
    ⟨["kotlin", "kotlinx"], [], false, 100, 1000000⟩

/-- The rules on the third class ask the other two only, over and over. -/
private theorem bounding_acyclic :
    ¬TransGen boundingSides.Asks (⟨4⟩, ⟨4⟩) (⟨4⟩, ⟨4⟩) := by
  have hquestions : boundingSides.questionsOf ⟨4⟩ ⟨4⟩ = [(⟨2⟩, ⟨2⟩)] ∧
      boundingSides.questionsOf ⟨2⟩ ⟨2⟩ = [(⟨3⟩, ⟨3⟩)] ∧
      boundingSides.questionsOf ⟨3⟩ ⟨3⟩ = [(⟨2⟩, ⟨2⟩)] := by
    decide +kernel
  obtain ⟨hthird, hfirst, hsecond⟩ := hquestions
  have hleads (pair : Pair) (hpair : TransGen boundingSides.Asks (⟨4⟩, ⟨4⟩) pair) :
      pair = (⟨2⟩, ⟨2⟩) ∨ pair = (⟨3⟩, ⟨3⟩) := by
    induction hpair with
    | single hasks =>
      rw [Asks, hthird] at hasks
      exact .inl (List.mem_singleton.mp hasks)
    | tail _ hasks ih =>
      obtain rfl | rfl := ih
      · rw [Asks, hfirst] at hasks
        exact .inr (List.mem_singleton.mp hasks)
      · rw [Asks, hsecond] at hasks
        exact .inl (List.mem_singleton.mp hasks)
  intro hcycle
  obtain hsame | hsame := hleads _ hcycle
  · cases hsame
  · cases hsame

/-- The third class has the same causes whether or not the first was compared before. -/
theorem third_bounded_causes :
    ((boundingSides.compareClassifiers ⟨4⟩ ⟨4⟩).run (boundingSides.sessionAfter [])).1 =
        boundingSides.failuresGiven boundingSides.Shareable ⟨4⟩ ⟨4⟩ ∧
      ((boundingSides.compareClassifiers ⟨4⟩ ⟨4⟩).run
          (boundingSides.sessionAfter [.classifiers ⟨2⟩ ⟨2⟩])).1 =
        boundingSides.failuresGiven boundingSides.Shareable ⟨4⟩ ⟨4⟩ := by
  have hfresh := boundingSides.reported_causes [] ⟨4⟩ ⟨4⟩ rfl (by decide +kernel)
  have hlater := boundingSides.reported_causes [.classifiers ⟨2⟩ ⟨2⟩] ⟨4⟩ ⟨4⟩ rfl
    (by decide +kernel)
  exact ⟨hfresh.2.2.2 bounding_acyclic, hlater.2.2.2 bounding_acyclic⟩

/-- The second class fails two rules, both of which are reported if it is compared first. After the
first class was compared, only one of them is. No limit is hit. -/
theorem second_bounded_causes_differ :
    Tree.ofSources [bounding .interface] = .ok boundingSides.first ∧
    Tree.ofSources [bounding .object] = .ok boundingSides.second ∧
    ((boundingSides.compareClassifiers ⟨3⟩ ⟨3⟩).run (boundingSides.sessionAfter [])).1 =
      ⟨[.classKinds, .typeParameters]⟩ ∧
    ((boundingSides.compareClassifiers ⟨3⟩ ⟨3⟩).run
      (boundingSides.sessionAfter [.classifiers ⟨2⟩ ⟨2⟩])).1 = ⟨[.classKinds]⟩ ∧
    ((boundingSides.compareClassifiers ⟨3⟩ ⟨3⟩).run (boundingSides.sessionAfter [])).2.limitHits = 0 ∧
    ((boundingSides.compareClassifiers ⟨3⟩ ⟨3⟩).run
      (boundingSides.sessionAfter [.classifiers ⟨2⟩ ⟨2⟩])).2.limitHits = 0 := by
  decide +kernel

end Sides

end Concord
