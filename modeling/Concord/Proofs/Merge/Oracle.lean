import Concord.Proofs.Merge.Runs
import Concord.Proofs.Merge.Simulation
import Concord.Proofs.Steps

namespace Concord

open Session (Onward Quiet Settles)

/-- Of a session in which nothing is under way, an answer without a hit limit is right. -/
theorem Session.Settles.decides {sides : Sides} {a b : DeclId} {before after : Session} {yes : Bool}
    (hsettles : Settles sides (fun assumed => sides.ShareableGiven assumed a b) before after yes)
    (hidle : before.guard.visiting = []) (hlimit : after.limitHits = before.limitHits) :
    yes = true ↔ sides.Shareable a b := by
  rw [← sides.shareableGiven_nil]
  constructor
  · intro hyes
    rw [← hidle]
    exact hsettles.given hyes
  · intro hshare
    cases yes with
    | true => rfl
    | false => exact absurd hshare (hsettles.refuted rfl hlimit)

namespace Sides

variable (sides : Sides)

open Classical in
/-- The services of somebody who knows which classifiers can be shared. -/
noncomputable def oracle : Services Id (Except RunError) where
  verdict a b := if sides.Shareable a b then .none else .ofCause .names
  watched step := return (← step, true)
  lift comparison := .ok comparison.run
  attempt := id
  note _ _ := return
  apart := Services.collect

/-- The oracle finds nothing against two classifiers exactly when they can be shared. -/
theorem oracle_verdict_isEmpty (a b : DeclId) :
    (sides.oracle.verdict a b).isEmpty = true ↔ sides.Shareable a b := by
  by_cases hshare : sides.Shareable a b
  · have hyes : sides.oracle.verdict a b = .none := if_pos hshare
    exact iff_of_true (congrArg Mismatch.isEmpty hyes) hshare
  · have hno : sides.oracle.verdict a b = .ofCause .names := if_neg hshare
    exact iff_of_false (hno ▸ Bool.false_ne_true) hshare

/-- A verdict that is right is like that of the oracle. -/
theorem oracle_alike {a b : DeclId} {verdict : Mismatch} (hright : sides.Right (a, b) verdict) :
    verdict.Alike (sides.oracle.verdict a b) :=
  Bool.eq_iff_iff.mpr (hright.trans (sides.oracle_verdict_isEmpty a b).symm)

/-- Comparisons of a session that end as they would without it, unless the cache is not exact or a
limit is hit. -/
def comparing : Simulation (StateM Session) Id where
  Rel R x y := ∀ before, Onward sides before (x.run before).2 ∧
    (Quiet sides before (x.run before).2 → R (x.run before).1 y.run)
  pure hR before := ⟨.refl before, fun _ => hR⟩
  bind := by
    intro α β R S x y f g hrefl hfirst hnext before
    have honward := (hfirst before).1
    have honward' := (hnext _ _ (hrefl (x.run before).1) (x.run before).2).1
    refine ⟨honward.trans honward', fun hquiet => ?_⟩
    obtain ⟨hquiet, hquiet'⟩ := hquiet.split honward honward'
    exact (hnext _ _ ((hfirst before).2 hquiet) (x.run before).2).2 hquiet'

/-- Steps of a merge that end as they would without a session. -/
def merging : Simulation MergeM (Except RunError) where
  Rel R x y := ∀ before a after, x.run before = .ok (a, after) → Onward sides before after ∧
    (Quiet sides before after → ∃ b, y = .ok b ∧ R a b)
  pure hR before a after hrun := by
    cases hrun
    exact ⟨.refl before, fun _ => ⟨_, rfl, hR⟩⟩
  bind := by
    intro α β R S x y f g hrefl hfirst hnext before c after hrun
    rw [StateT.run_bind] at hrun
    obtain ⟨⟨a, middle⟩, hx, hf⟩ := Except.bind_eq_ok.mp hrun
    have honward := (hfirst before a middle hx).1
    have honward' := (hnext a a (hrefl a) middle c after hf).1
    refine ⟨honward.trans honward', fun hquiet => ?_⟩
    obtain ⟨hquiet, hquiet'⟩ := hquiet.split honward honward'
    obtain ⟨b, hy, hR⟩ := (hfirst before a middle hx).2 hquiet
    obtain ⟨d, hg, hS⟩ := (hnext a b hR middle c after hf).2 hquiet'
    exact ⟨d, Except.bind_eq_ok.mpr ⟨b, hy, hg⟩, hS⟩

variable {sides}

/-- A session of its own ends as the one around it would. -/
theorem merging_inOwnSession {α : Type} {R : α → α → Prop} {x : MergeM α} {y : Except RunError α}
    (hstep : sides.merging.Rel R x y) : sides.merging.Rel R (sides.inOwnSession x) y := by
  intro outer a after hrun
  rw [StateT.run, inOwnSession_apply] at hrun
  cases hinner : x (.new sides.options outer.cache) with
  | error error =>
    rw [hinner] at hrun
    cases hrun
  | ok ended =>
    rw [hinner] at hrun
    cases hrun
    obtain ⟨honward, hquiet⟩ := hstep _ _ _ hinner
    exact ⟨honward.around, fun houter => hquiet houter.within⟩

variable (sides)

/-- The services of a session are like those of the oracle. -/
theorem services_alike : Services.Alike sides.comparing sides.merging sides.services sides.oracle where
  verdict a b before := by
    have hsettles := sides.shareable_answers a b before
    refine ⟨fun hexact => (hsettles hexact).toLeads, fun hquiet => ?_⟩
    exact sides.oracle_alike
      ((hsettles hquiet.exact).decides hquiet.idle hquiet.limitHits)
  watched := by
    intro x y hstep before
    obtain ⟨honward, hquiet⟩ := hstep before
    exact ⟨honward, fun h => ⟨hquiet h, beq_iff_eq.mpr h.limitHits⟩⟩
  lift := by
    intro α R x y _ hstep before a after hrun
    have hrun : x.run before = (a, after) := Except.ok.inj hrun
    have hstep := hstep before
    simp only [hrun] at hstep
    exact ⟨hstep.1, fun hquiet => ⟨_, rfl, hstep.2 hquiet⟩⟩
  attempt := by
    rintro α (error | a) before b after hrun
    · cases hrun
    · cases hrun
      exact ⟨.refl before, fun _ => ⟨a, rfl, rfl⟩⟩
  note a b := sides.merging.done ()
  apart := by
    intro merge merge' hmerge plan
    simp only [services, ← collect_eq, oracle]
    refine Services.Alike.collect (fun pairing => ?_) plan
    split
    · exact merging_inOwnSession (hmerge pairing)
    · exact hmerge pairing

/-- A merge that hits no limit gives the forest that the oracle gives, and rejects the same
declarations. -/
theorem merge_oracle {cache : Cache} (hexact : cache.Exact sides) {result : MergeResult}
    {session : Session} (hmerge : sides.merge cache = .ok (result, session))
    (hlimit : session.limitHits = 0) :
    ∃ told, sides.oracle.merge sides = .ok told ∧ result.Alike told := by
  rw [← services_merge] at hmerge
  exact (sides.services_alike.merge sides _ _ _ hmerge).2 ⟨hexact, rfl, hlimit⟩

end Sides

end Concord
