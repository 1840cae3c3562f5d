import Concord.Proofs.Comparison.Calls
import Concord.Proofs.Comparison.Vouching
import Concord.Proofs.Logic.Tasks
import Concord.Proofs.Merge.Comparing

namespace Concord

open Memory (akin)
open ProgramLogic (Gives Runs RunsWhile)

section Calls

variable {n m : Type → Type} [Monad n]

/-- Makes a comparison by any services, for what it does to the session. The services do not say how
a session starts anew. -/
def Services.perform (services : Services n m) (sides : Sides) (anew : n Unit) : Call → n Unit
  | .declarations a b => discard (services.compare sides a b)
  | .classifiers a b => discard (services.verdict a b)
  | .types a b => discard (typesAgree sides services.shareable a b)
  | .supertypes a b => discard (sharedSupertypes sides services.shareable a b)
  | .constructors a b => discard (sharedConstructors sides services.shareable a b)
  | .newSession => anew

/-- Made by a session, a comparison is one of the session. -/
theorem Sides.services_perform (sides : Sides) (call : Call) : sides.services.perform sides
    (modify fun session => .new sides.options session.cache) call = sides.perform call := by
  cases call <;> rfl

/-- Comparisons lead from one session with nothing under way to another. -/
theorem Services.perform_runs [LawfulMonad n] [Monad m] {services : Services n m} {sides : Sides}
    {inner : ProgramLogic n} {outer : ProgramLogic m} {total : Prop} {anew : n Unit}
    (hobeys : services.Obeys inner outer total) (hconsistent : sides.Consistent)
    (hverdict : ∀ a b, inner.Runs (services.verdict a b)) (hanew : inner.Runs anew) (call : Call) :
    inner.Runs (services.perform sides anew call) := by
  have hvacuous (a b : DeclId) : inner.Gives (services.verdict a b) fun verdict =>
      verdict.isEmpty = true → True :=
    (hverdict a b).mono fun _ _ _ => trivial
  have hshareable := shareable_runs hvacuous
  have discards {α : Type} {step : n α} {post : α → Prop} (hstep : inner.Gives step post) :
      inner.Runs (discard step) := by
    rw [discard, LawfulFunctor.map_const, Function.comp_apply, map_eq_pure_bind]
    exact .bind hstep fun _ _ => .pure trivial
  cases call with
  | declarations a b => exact discards (compare_gives hobeys hconsistent hvacuous a b)
  | classifiers a b => exact discards (hverdict a b)
  | types a b => exact discards (RunsWhile.check hshareable (typesAgree_isQuestions sides a b))
  | supertypes a b =>
    refine discards (RunsWhile.partneredFrom (fun c d => ?_) 0 a b)
    exact RunsWhile.check hshareable (typesAgree_isQuestions sides c d)
  | constructors a b =>
    refine discards (RunsWhile.partneredFrom (fun c d => ?_) 0 a b)
    exact RunsWhile.check hshareable (constructorsAgree_isQuestions sides c d)
  | newSession => exact hanew

end Calls

/-- The task of a worker that makes comparisons one after the other. -/
def Sides.callTask (sides : Sides) (calls : List Call) : Task :=
  let anew : TaskM Unit := fun _ next => next () (.new sides.options .empty)
  (calls.forM (sides.tasks.perform sides anew)) (.new sides.options .empty) fun _ session =>
    .done ⟨.ok ([], []), session.limitHits⟩

/-- A cache that holds nothing but what comparisons of two trees have put there. The comparisons may
have been made under any options, some one after the other, others by workers that took their steps
in any order and may have been stopped in the middle. -/
inductive Cache.Filled (first second : Tree) : Cache → Prop
  | empty : Filled first second .empty
  | calls {cache : Cache} (options : CompiledOptions) (calls : List Call)
    (hfilled : Filled first second cache) :
    Filled first second (((Sides.ofTrees first second options).performAll calls).run
      (.new options cache)).2.cache
  | workers {cache after : Cache} {task : Task} (workers : List (CompiledOptions × List Call))
    (hfilled : Filled first second cache)
    (hschedule : Task.Schedule (cache, .forkAll (workers.map fun worker =>
      (Sides.ofTrees first second worker.1).callTask worker.2) .done) (after, task)) :
    Filled first second after

section Trees

variable {first second : Tree}

private theorem forM_runs {n : Type → Type} [Monad n] {logic : ProgramLogic n} {α : Type}
    {step : α → n Unit} (hstep : ∀ item, logic.Runs (step item)) (items : List α) :
    logic.Runs (items.forM step) := by
  induction items with
  | nil => exact .pure trivial
  | cons item items ih => exact .bind (hstep item) fun _ _ => ih

private theorem performAll_eq_forM (sides : Sides) (calls : List Call) :
    sides.performAll calls = calls.forM sides.perform := by
  induction calls with
  | nil => rfl
  | cons call calls ih =>
    rw [Sides.performAll, ih]
    rfl

theorem Sides.ofTrees_consistent (first second : Tree) (options : CompiledOptions) :
    (Sides.ofTrees first second options).Consistent :=
  nofun

/-- What holds of an empty cache and is kept by every comparison of two classifiers, in a session as
well as by a worker, holds of every cache that comparisons have filled. -/
theorem Cache.Filled.invariant {inv : Cache → Prop} (hempty : inv .empty)
    (hsession : ∀ options a b,
      (Session.logic inv).Runs ((Sides.ofTrees first second options).services.verdict a b))
    (hworker : ∀ options a b,
      (TaskM.logic inv True).Runs ((Sides.ofTrees first second options).tasks.verdict a b))
    {cache : Cache} (hfilled : cache.Filled first second) : inv cache := by
  induction hfilled with
  | empty => exact hempty
  | calls options calls _ ih =>
    have hanew : (Session.logic inv).Runs (modify fun session => .new options session.cache) :=
      fun before _ hcache => ⟨hcache, rfl, trivial⟩
    have hruns (call : Call) :
        (Session.logic inv).Runs ((Sides.ofTrees first second options).perform call) := by
      rw [← Sides.services_perform]
      exact Services.perform_runs (Sides.services_obeys _ _ True) (Sides.ofTrees_consistent _ _ _)
        (hsession options) hanew call
    rw [performAll_eq_forM]
    exact (forM_runs hruns calls _ rfl ih).1
  | workers workers _ hschedule ih =>
    have htask (options : CompiledOptions) (calls : List Call) :
        ((Sides.ofTrees first second options).callTask calls).Upholds inv fun _ => True := by
      have hanew : (TaskM.logic inv True).Runs fun _ next => next () (.new options .empty) :=
        fun before _ result next hnext _ => hnext () _ ⟨rfl, trivial⟩
      have hruns := Services.perform_runs (Sides.tasks_obeys _ _ True)
        (Sides.ofTrees_consistent first second options) (hworker options) hanew
      exact forM_runs hruns calls _ rfl _ _ (fun _ _ _ => trivial) fun hpartial =>
        absurd trivial hpartial
    have hall : (Task.forkAll (workers.map fun worker =>
        (Sides.ofTrees first second worker.1).callTask worker.2) .done).Upholds inv fun _ => True :=
      Task.upholds_forkAll (fun _ _ => True) trivial (fun _ _ _ _ _ _ => trivial) workers
        (fun worker _ => htask worker.1 worker.2) fun _ _ => trivial
    exact (hall.schedule hschedule ih).1

/-- In a session with a cache in which every yes vouches for its pair, a comparison of two
classifiers that says yes vouches for them. -/
theorem Session.verdict_gives (options : CompiledOptions) (a b : DeclId) :
    (Session.logic (Cache.Vouches (akin first second))).Gives
      ((Sides.ofTrees first second options).services.verdict a b) fun verdict =>
        verdict.isEmpty = true → Akin first second a b := by
  show ProgramLogic.Gives _ (Sides.compareWithin _ _ a b) _
  rw [← Session.memory_compareWithin]
  exact Memory.compareWithin_gives (Session.memory_admits _) options _ a b

/-- So it does if it is made by a worker over such a cache. -/
theorem TaskM.verdict_gives (options : CompiledOptions) (total : Prop) (a b : DeclId) :
    (TaskM.logic (Cache.Vouches (akin first second)) total).Gives
      ((Sides.ofTrees first second options).tasks.verdict a b) fun verdict =>
        verdict.isEmpty = true → Akin first second a b :=
  Memory.compareWithin_gives (TaskM.memory_admits _) options _ a b

/-- What comparisons put into a cache vouches for pairs that are akin. -/
theorem Cache.Filled.vouches {cache : Cache} (hfilled : cache.Filled first second) :
    cache.Vouches (akin first second) :=
  hfilled.invariant nofun
    (fun options a b => (Session.verdict_gives options a b).mono fun _ _ => trivial)
    fun options a b => (TaskM.verdict_gives options True a b).mono fun _ _ => trivial

end Trees

end Concord
