import Concord.Proofs.Parallel.Workers
import Concord.Source.Tree

namespace Concord

namespace Sides

/-- Whatever the workers find in their cache and in whatever order they take their steps, the merge
side by side comes to an end. If neither it nor the merge in one session hits a limit, both give the
same forest, and reject the same declarations in the same order. -/
theorem mergeTask_agrees (sides : Sides) (cache shared : Cache) (hexact : cache.Exact sides)
    (hshared : shared.Exact sides) {result : MergeResult} {session : Session}
    (hmerge : sides.merge cache = .ok (result, session)) (hlimit : session.limitHits = 0) :
    Acc (fun after before => Task.Step before after) (shared, sides.mergeTask) ∧
    ∀ after task, Task.Schedule (shared, sides.mergeTask) (after, task) → after.Exact sides ∧
      ((∃ next, Task.Step (after, task) next) ∨ ∃ ended : TaskResult, task = .done ended ∧
        (ended.limitHits = 0 → ∃ nodes rejections, ended.outcome = .ok (nodes, rejections) ∧
          result.forest = ⟨nodes⟩ ∧
          rejections.map Rejection.subject = result.rejections.map Rejection.subject)) := by
  obtain ⟨told, htold, hforest, hsubjects⟩ := sides.merge_oracle hexact hmerge hlimit
  refine ⟨Task.wellFounded_step.apply _, fun after task hschedule => ?_⟩
  obtain ⟨hafter, hends⟩ := sides.mergeTask_endsAs.schedule hschedule hshared
  refine ⟨hafter, ?_⟩
  obtain ⟨ended, rfl⟩ | hnext := Task.exists_step after task
  · refine .inr ⟨ended, rfl, fun hquiet => ?_⟩
    have halike : OutcomesAlike _ _ := hends hquiet
    rw [htold] at halike
    cases houtcome : ended.outcome with
    | error error =>
      rw [houtcome] at halike
      cases halike
    | ok merged =>
      rw [houtcome] at halike
      cases halike with
      | merged hreports =>
        exact ⟨_, _, rfl, hforest.trans (congrArg MergedForest.mk hreports.1.symm),
          hreports.2.trans hsubjects.symm⟩
  · exact .inl hnext

/-- A module with two packages, each with a function that returns the class of the first package. -/
private def packages : Source :=
  let returned : Ty Spelling := .simple ⟨⟨some ⟨"p.A"⟩, none⟩, [], false, false, none⟩
  let maker : Source :=
    .mk ⟨"make"⟩ .everyone .final .plain
      (.function ⟨returned, none, [], false, false, false, false⟩) []
  .mk ⟨"m"⟩ .everyone .final .plain (.module ⟨none⟩)
    [.mk ⟨"p"⟩ .everyone .final .plain .package
      [.mk ⟨"A"⟩ .everyone .final .plain (.classType (.ofKind .ordinary)) [], maker],
    .mk ⟨"q"⟩ .everyone .final .plain .package [maker]]

private def packageSides : Sides :=
  let tree := (Tree.ofSources [packages]).toOption.getD .empty
  ofTrees tree tree ⟨["kotlin"], [], true, 100, 1000000⟩

/-- The workers of two packages that both look the class up hit no limit, one after the other, and
agree with the merge in one session. -/
theorem packages_agree : ∃ result session, packageSides.merge .empty = .ok (result, session) ∧
    result.forest.nodeCount = 6 ∧
    ∃ after ended, Task.Schedule (.empty, packageSides.mergeTask) (after, .done ended) ∧
      after.entries.length = 1 ∧ ∃ nodes rejections, ended.outcome = .ok (nodes, rejections) ∧
        result.forest = ⟨nodes⟩ := by
  have hquiet : (packageSides.merge .empty).toOption.map
      (fun merged => (merged.2.limitHits, merged.1.forest.nodeCount)) = some (0, 6) := by
    decide +kernel
  have hworkers : ((packageSides.mergeTask.inOrder .empty).2.limitHits,
      (packageSides.mergeTask.inOrder .empty).1.entries.length) = (0, 1) := by
    decide +kernel
  obtain ⟨⟨result, session⟩, hmerge, hnumbers⟩ := Option.map_eq_some_iff.mp hquiet
  obtain ⟨hlimit, hnodes⟩ := Prod.mk.inj hnumbers
  obtain ⟨hnone, hentries⟩ := Prod.mk.inj hworkers
  have hschedule := Task.schedule_inOrder packageSides.mergeTask .empty
  have hagrees := mergeTask_agrees packageSides .empty .empty nofun nofun
    (Except.toOption_eq_some.mp hmerge) hlimit
  obtain ⟨-, ⟨next, hnext⟩ | ⟨ended, hended, houtcome⟩⟩ := hagrees.2 _ _ hschedule
  · cases hnext
  · cases hended
    obtain ⟨nodes, rejections, houtcome, hforest, -⟩ := houtcome hnone
    exact ⟨result, session, Except.toOption_eq_some.mp hmerge, hnodes, _, _, hschedule, hentries,
      nodes, rejections, houtcome, hforest⟩

end Sides

end Concord
