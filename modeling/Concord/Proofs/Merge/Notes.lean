import Concord.Proofs.Merge.Oracle

namespace Concord

/-- A step of a merge that takes notes. -/
abbrev NotingM := StateT (List Pair) MergeM

namespace Sides

variable (sides : Sides)

/-- The services of a session that takes notes. -/
def noting : Services (StateM Session) NotingM where
  verdict := sides.services.verdict
  watched := sides.services.watched
  lift comparison := StateT.lift (MergeM.ofSession comparison)
  attempt step := StateT.lift (liftM step)
  note a b := modify (· ++ [(a, b)])
  apart merge := Services.collect fun pairing =>
    if sides.options.parallel then fun notes => sides.inOwnSession (merge pairing notes)
    else merge pairing

/-- Merges two trees and notes the pairs of declarations that become one. -/
def mergeNoting (cache : Cache) : Except RunError ((MergeResult × List Pair) × Session) :=
  ((sides.noting.merge sides).run []).run (.new sides.options cache)

end Sides

/-- The same outcome with notes and without. -/
inductive Forgets {α : Type} (R : α → α → Prop) :
    Except RunError ((α × List Pair) × Session) → Except RunError (α × Session) → Prop
  | success {a b : α} (hR : R a b) (notes : List Pair) (session : Session) :
    Forgets R (.ok ((a, notes), session)) (.ok (b, session))
  | failure (error : RunError) : Forgets R (.error error) (.error error)

/-- Comparisons that go alike from every session and leave it alike. -/
def Session.inStep : Simulation (StateM Session) (StateM Session) where
  Rel R x y := ∀ session, (x.run session).2 = (y.run session).2 ∧
    R (x.run session).1 (y.run session).1
  pure hR session := ⟨rfl, hR⟩
  bind := by
    intro α β R S x y f g _ hfirst hnext session
    obtain ⟨hsame, hR⟩ := hfirst session
    have hrest := hnext _ _ hR (x.run session).2
    rw [run_bind, run_bind, ← hsame]
    exact hrest

/-- Steps that go alike with notes and without. -/
def NotingM.forgetting : Simulation NotingM MergeM where
  Rel R x y := ∀ notes session, Forgets R (x notes session) (y session)
  pure hR notes session := .success hR notes session
  bind := by
    intro α β R S x y f g _ hfirst hnext notes session
    have hstep := hfirst notes session
    simp only [bind, StateT.bind]
    generalize x notes session = outcome at hstep ⊢
    generalize y session = outcome' at hstep ⊢
    cases hstep with
    | success hR notes session => exact hnext _ _ hR notes session
    | failure error => exact .failure error

namespace Sides

variable (sides : Sides)

theorem noting_alike :
    Services.Alike Session.inStep NotingM.forgetting sides.noting sides.services where
  verdict a b session := ⟨rfl, rfl⟩
  watched := by
    intro x y hstep session
    obtain ⟨hsame, hR⟩ := hstep session
    refine ⟨hsame, hR, ?_⟩
    exact congrArg (fun after : Session => after.limitHits == session.limitHits) hsame
  lift := by
    intro α R x y _ hstep notes session
    obtain ⟨hsame, hR⟩ := hstep session
    show Forgets R (.ok (((x.run session).1, notes), (x.run session).2))
      (.ok ((y.run session).1, (y.run session).2))
    rw [hsame]
    exact .success hR notes _
  attempt := by
    rintro α (error | a) notes session
    · exact .failure error
    · exact .success rfl notes session
  note a b notes session := .success rfl _ session
  apart := by
    intro merge merge' hmerge plan
    simp only [services, ← collect_eq, noting]
    refine Services.Alike.collect (fun pairing => ?_) plan
    split
    · intro notes session
      have hstep := hmerge pairing notes (.new sides.options session.cache)
      show Forgets ReportsAlike (sides.inOwnSession (merge pairing notes) session) _
      rw [inOwnSession_apply, inOwnSession_apply]
      generalize merge pairing notes (.new sides.options session.cache) = outcome at hstep ⊢
      generalize merge' pairing (.new sides.options session.cache) = outcome' at hstep ⊢
      cases hstep with
      | success hR notes session => exact .success hR notes _
      | failure error => exact .failure error
    · exact hmerge pairing

/-- Taking notes changes nothing else. -/
theorem mergeNoting_forgets (cache : Cache) :
    Forgets MergeResult.Alike (sides.mergeNoting cache) (sides.merge cache) := by
  rw [← services_merge]
  exact sides.noting_alike.merge sides [] _

/-- The services of the oracle that takes notes. -/
noncomputable def notedOracle : Services Id (StateT (List Pair) (Except RunError)) where
  verdict := sides.oracle.verdict
  watched := sides.oracle.watched
  lift comparison := StateT.lift (sides.oracle.lift comparison)
  attempt step := StateT.lift step
  note a b := modify (· ++ [(a, b)])
  apart := Services.collect

theorem noting_oracle : Services.Alike sides.comparing (sides.merging.withState (List Pair))
    sides.noting sides.notedOracle where
  verdict := sides.services_alike.verdict
  watched := sides.services_alike.watched
  lift hrefl hstep :=
    sides.merging.withState_lift hrefl (sides.services_alike.lift hrefl hstep)
  attempt step := sides.merging.withState_lift (fun _ => rfl) (sides.services_alike.attempt step)
  note a b notes := sides.merging.pure ⟨rfl, rfl⟩
  apart := by
    intro merge merge' hmerge plan
    refine Services.Alike.collect (fun pairing => ?_) plan
    split
    · exact fun notes => merging_inOwnSession (hmerge pairing notes)
    · exact hmerge pairing

/-- The notes of a merge that hits no limit are those of the oracle, and so is the forest. -/
theorem mergeNoting_oracle {cache : Cache} (hexact : cache.Exact sides) {result : MergeResult}
    {pairs : List Pair} {session : Session}
    (hmerge : sides.mergeNoting cache = .ok ((result, pairs), session))
    (hlimit : session.limitHits = 0) :
    ∃ told, (sides.notedOracle.merge sides).run [] = .ok (told, pairs) ∧ result.Alike told := by
  obtain ⟨⟨told, pairs⟩, htold, halike, rfl⟩ :=
    (sides.noting_oracle.merge sides [] _ _ _ hmerge).2 ⟨hexact, rfl, hlimit⟩
  exact ⟨told, htold, halike⟩

end Sides

end Concord
