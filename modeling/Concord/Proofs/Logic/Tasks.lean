import Concord.Proofs.Comparison.Memory
import Concord.Proofs.Logic.Services
import Concord.Proofs.Parallel.Workers

namespace Concord

namespace Task

variable {inv : Cache → Prop} {task : Task} {post : TaskResult → Prop}

/-- What a task ensures of its result while it and all others keep an invariant of the cache. It may
rely on the invariant whenever it takes a step, however the steps of other tasks come between its
own. -/
def Upholds (inv : Cache → Prop) : Task → (TaskResult → Prop) → Prop
  | .done result, post => post result
  | .lookUp pair next, post => ∀ cache, inv cache →
    inv (cache.get pair).2 ∧ (next (cache.get pair).1).Upholds inv post
  | .store pair verdict next, post => ∀ cache, inv cache →
    inv (cache.insert pair verdict).2 ∧ (next (cache.insert pair verdict).1).Upholds inv post
  | .fork first second next, post =>
    ∃ middle middle', first.Upholds inv middle ∧ second.Upholds inv middle' ∧
      ∀ r s, middle r → middle' s → (next r s).Upholds inv post

/-- A step keeps the invariant, and what the tasks uphold. -/
theorem Upholds.step {before after : Cache × Task} (hstep : Step before after)
    (hinv : inv before.1) (hupholds : before.2.Upholds inv post) :
    inv after.1 ∧ after.2.Upholds inv post := by
  induction hstep generalizing post with
  | lookUp cache pair next => exact hupholds cache hinv
  | store cache pair verdict next => exact hupholds cache hinv
  | first second next hstep ih =>
    obtain ⟨middle, middle', hfirst, hsecond, hnext⟩ := hupholds
    obtain ⟨hafter, hfirst⟩ := ih hinv hfirst
    exact ⟨hafter, middle, middle', hfirst, hsecond, hnext⟩
  | second first next hstep ih =>
    obtain ⟨middle, middle', hfirst, hsecond, hnext⟩ := hupholds
    obtain ⟨hafter, hsecond⟩ := ih hinv hsecond
    exact ⟨hafter, middle, middle', hfirst, hsecond, hnext⟩
  | join cache r s next =>
    obtain ⟨middle, middle', hfirst, hsecond, hnext⟩ := hupholds
    exact ⟨hinv, hnext r s hfirst hsecond⟩

/-- In every schedule the invariant is kept, and a task that is done has the result that it
ensures. -/
theorem Upholds.schedule {before after : Cache × Task} (hschedule : Schedule before after)
    (hinv : inv before.1) (hupholds : before.2.Upholds inv post) :
    inv after.1 ∧ after.2.Upholds inv post := by
  induction hschedule with
  | refl => exact ⟨hinv, hupholds⟩
  | tail _ hstep ih => exact ih.2.step hstep ih.1

/-- Tasks that run side by side ensure together what each of them ensures. -/
theorem upholds_forkAll {α : Type} {run : α → Task} {each : α → TaskResult → Prop}
    (together : List α → TaskResult → Prop) (hnone : together [] ⟨.ok ([], []), 0⟩)
    (hjoin : ∀ item items r s, each item r → together items s →
      together (item :: items) (r.join s))
    (items : List α) (hrun : ∀ item ∈ items, (run item).Upholds inv (each item))
    {next : TaskResult → Task} (hnext : ∀ r, together items r → (next r).Upholds inv post) :
    (forkAll (items.map run) next).Upholds inv post := by
  induction items generalizing next post with
  | nil => exact hnext _ hnone
  | cons item items ih =>
    obtain ⟨hone, hothers⟩ := List.forall_mem_cons.mp hrun
    refine ⟨each item, together items, hone, ih hothers fun r hr => hr, fun r s hr hs => ?_⟩
    exact hnext _ (hjoin item items r s hr hs)

end Task

namespace TaskM

/-- The logic of workers that keep an invariant of the cache. In the total logic steps do not end
their task with an error. -/
def logic (inv : Cache → Prop) (total : Prop) : ProgramLogic TaskM where
  wp step post before := ∀ (result : TaskResult → Prop) (next : _ → Session → Task),
    (∀ a after, post a after → (next a after).Upholds inv result) →
    (¬total → ∀ error hits, result ⟨.error error, hits⟩) →
    (step before next).Upholds inv result
  pure hpost _ _ hnext _ := hnext _ _ hpost
  bind hstep result next hnext hend :=
    hstep result _ (fun _ _ hmiddle => hmiddle result next hnext hend) hend
  mono hstep hpost result next hnext hend :=
    hstep result next (fun a after hafter => hnext a after (hpost a after hafter)) hend

variable {inv : Cache → Prop} {total : Prop} {sides : Sides}

/-- The shared memory admits what the cache does. -/
theorem memory_admits (admitted : Pair → Mismatch → Prop) :
    TaskM.memory.Admits (TaskM.logic (Cache.Admits admitted) total) admitted where
  lookUp {pair _ before} hpost result next hnext hend cache hcache := by
    obtain ⟨hafter, hreply⟩ := hcache.get pair
    exact ⟨hafter, hnext _ _ (hpost _ before.cache hreply)⟩
  store {pair verdict _ before} hverdict hpost result next hnext hend cache hcache := by
    obtain ⟨hafter, hstored⟩ := hcache.insert hverdict
    exact ⟨hafter, hnext _ _ (hpost _ before.cache hstored)⟩
  privately _ hpost result next hnext _ := hnext _ _ hpost

theorem attempt_gives {α : Type} {step : Except RunError α} {post : α → Prop}
    (hpost : ∀ a, step = .ok a → post a) (htotal : total → ∃ a, step = .ok a) :
    (TaskM.logic inv total).Gives (TaskM.attempt step) post := by
  intro before hidle result next hnext hend
  cases step with
  | ok a => exact hnext a before ⟨hidle, hpost a rfl⟩
  | error error =>
    refine hend (fun h => ?_) error _
    obtain ⟨a, ha⟩ := htotal h
    cases ha

/-- What is known of the result of tasks that each merge one pairing of a plan. -/
private def Ends (total : Prop) (post : Pairing → Merged → Prop) (plan : List Pairing)
    (result : TaskResult) : Prop :=
  (∀ error, result.outcome = .error error → ¬total) ∧
    ∀ collected, result.outcome = .ok collected → Collected post plan collected

private theorem taskOf_upholds {merge : Pairing → TaskM Merged} {post : Pairing → Merged → Prop}
    {pairing : Pairing} (hmerge : (TaskM.logic inv total).Gives (merge pairing) (post pairing)) :
    (sides.taskOf merge pairing).Upholds inv (Ends total post [pairing]) := by
  refine hmerge (.new sides.options .empty) rfl _ _ (fun merged after hafter => ?_)
    fun hpartial error hits => ?_
  · refine ⟨nofun, fun collected hcollected => ?_⟩
    cases hcollected
    simpa using Collected.cons hafter.2 .nil
  · exact ⟨fun _ _ => hpartial, nofun⟩

private theorem ends_join {post : Pairing → Merged → Prop} {pairing : Pairing}
    {plan : List Pairing} {first rest : TaskResult} (hfirst : Ends total post [pairing] first)
    (hrest : Ends total post plan rest) : Ends total post (pairing :: plan) (first.join rest) := by
  obtain ⟨outcome, hits⟩ := first
  obtain ⟨outcome', hits'⟩ := rest
  cases outcome with
  | error error => exact ⟨fun _ _ => hfirst.1 error rfl, nofun⟩
  | ok one =>
    cases outcome' with
    | error error => exact ⟨fun _ _ => hrest.1 error rfl, nofun⟩
    | ok others =>
      refine ⟨nofun, fun collected hcollected => ?_⟩
      cases hcollected
      have hone := hfirst.2 one rfl
      cases hone with
      | cons hmerged hnone =>
        cases hnone
        simpa using Collected.cons hmerged (hrest.2 others rfl)

end TaskM

/-- The services of a worker obey its logic. -/
theorem Sides.tasks_obeys (sides : Sides) (inv : Cache → Prop) (total : Prop) :
    sides.tasks.Obeys (TaskM.logic inv total) (TaskM.logic inv total) total where
  watched hstep before hidle result next hnext hend :=
    hstep before hidle result _ (fun mismatch after hafter => hnext _ after hafter) hend
  lift hstep := hstep
  attempt hpost htotal := TaskM.attempt_gives hpost htotal
  note a b := .pure trivial
  apart {merge post plan} hmerge before hidle result next hnext hend := by
    refine Task.upholds_forkAll (TaskM.Ends total post) ⟨nofun, ?_⟩
      (fun pairing plan r s hr hs => TaskM.ends_join hr hs) plan
      (fun pairing hpairing => TaskM.taskOf_upholds (hmerge pairing hpairing)) fun ended hended => ?_
    · rintro collected ⟨⟩
      exact .nil
    · refine TaskM.attempt_gives hended.2 (fun h => ?_)
        { before with limitHits := before.limitHits + ended.limitHits } hidle result next hnext hend
      cases houtcome : ended.outcome with
      | ok collected => exact ⟨collected, rfl⟩
      | error error => exact absurd h (hended.1 error houtcome)

/-- What a merge gives by the services of workers, it gives in every schedule over a cache that
keeps the invariant. -/
theorem Sides.mergeTask_of_gives {sides : Sides} {inv : Cache → Prop} {total : Prop}
    {post : MergeResult → Prop}
    (hgives : (TaskM.logic inv total).Gives (sides.tasks.merge sides) post) {cache after : Cache}
    {task : Task} (hinv : inv cache)
    (hschedule : Task.Schedule (cache, sides.mergeTask) (after, task)) :
    inv after ∧ ∀ ended, task = .done ended →
      (∀ nodes rejections, ended.outcome = .ok (nodes, rejections) → post ⟨⟨nodes⟩, rejections⟩) ∧
      (total → ∃ nodes rejections, ended.outcome = .ok (nodes, rejections)) := by
  have hupholds : sides.mergeTask.Upholds inv fun ended =>
      (∀ nodes rejections, ended.outcome = .ok (nodes, rejections) → post ⟨⟨nodes⟩, rejections⟩) ∧
      (total → ∃ nodes rejections, ended.outcome = .ok (nodes, rejections)) := by
    refine hgives (.new sides.options .empty) rfl _ _ (fun result session hresult => ?_)
      fun hpartial error hits => ⟨nofun, fun htotal => absurd htotal hpartial⟩
    refine ⟨?_, fun _ => ⟨_, _, rfl⟩⟩
    rintro _ _ ⟨⟩
    exact hresult.2
  obtain ⟨hafter, hends⟩ := hupholds.schedule hschedule hinv
  refine ⟨hafter, ?_⟩
  rintro ended rfl
  exact hends

open ProgramLogic (RunsWhile)

namespace Memory

variable {n : Type → Type} [Monad n] {memory : Memory n} {logic : ProgramLogic n}
  (hmemory : memory.Vouches logic fun _ => True)
include hmemory

private theorem memoized_runs {pair : Pair} {rules : n Mismatch} {visiting : List Pair}
    (hrules : ∀ visiting, logic.RunsWhile visiting rules) :
    logic.RunsWhile visiting (memory.memoized pair rules) := by
  rintro before rfl
  refine hmemory.memoized (fun _ _ _ => ⟨rfl, trivial⟩) (fun guard cache _ hsame => ⟨hsame, trivial⟩)
    (fun guard cache hsame => ⟨hsame, trivial⟩) fun guard cache hopen => ?_
  refine logic.mono (hrules _ _ hopen) fun verdict after hafter => ?_
  have hleft : (after.leaving pair).guard.visiting = before.guard.visiting := by
    simp [Session.leaving, Guard.leave, hafter.1]
  exact ⟨⟨hleft, trivial⟩, fun _ => ⟨fun _ => trivial, fun _ _ _ => ⟨hleft, trivial⟩⟩⟩

/-- A comparison of classifiers ends with the pairs under way that it began with. This needs nothing
to be known of the cache or of the limits. -/
theorem compareWithin_runs [LawfulMonad n] (sides : Sides) (levels : Nat) (a b : DeclId)
    (visiting : List Pair) : logic.RunsWhile visiting (memory.compareWithin sides levels a b) := by
  induction levels generalizing a b visiting with
  | zero =>
    exact memoized_runs hmemory fun _ _ hvisiting => hmemory.privately rfl ⟨hvisiting, trivial⟩
  | succ levels ih =>
    refine memoized_runs hmemory fun visiting => ?_
    obtain ⟨rules, hrules⟩ := classifierFailures_isRuleQuestions sides a b
    simp only [hrules]
    have hanswer (x y : DeclId) : logic.RunsWhile visiting
        (do return (← memory.compareWithin sides levels x y).isEmpty) :=
      .bind (ih x y visiting) fun _ _ => .pure trivial
    refine .bind (RunsWhile.ask hanswer rules.parameters) fun _ _ => ?_
    exact .bind (RunsWhile.ask hanswer rules.containers) fun _ _ => .pure trivial

end Memory

variable {sides : Sides} {total : Prop}

private theorem Session.memory_any :
    Session.memory.Vouches (Session.logic fun _ => True) (fun _ => True) where
  lookUp hpost _ := ⟨trivial, hpost _ _ fun _ _ _ => trivial⟩
  store _ hpost _ := ⟨trivial, hpost _ _ fun _ => trivial⟩
  privately _ hpost _ := ⟨trivial, hpost⟩

theorem Session.verdict_runs (a b : DeclId) :
    (Session.logic fun _ => True).Runs (sides.services.verdict a b) := by
  show (Session.logic fun _ => True).Runs (sides.compareWithin sides.levels a b)
  rw [← Session.memory_compareWithin]
  exact Memory.compareWithin_runs Session.memory_any sides sides.levels a b []

private theorem TaskM.memory_any :
    TaskM.memory.Vouches (TaskM.logic (fun _ => True) total) (fun _ => True) where
  lookUp {_ _ before} hpost _ _ hnext _ _ _ :=
    ⟨trivial, hnext _ _ (hpost _ before.cache fun _ _ _ => trivial)⟩
  store {_ _ _ before} _ hpost _ _ hnext _ _ _ :=
    ⟨trivial, hnext _ _ (hpost _ before.cache fun _ => trivial)⟩
  privately _ hpost _ _ hnext _ := hnext _ _ hpost

theorem TaskM.verdict_runs (a b : DeclId) :
    (TaskM.logic (fun _ => True) total).Runs (sides.tasks.verdict a b) :=
  Memory.compareWithin_runs TaskM.memory_any sides sides.levels a b []

end Concord
