import Mathlib.Logic.Relation
import Concord.Proofs.Comparison.Memory
import Concord.Proofs.Comparison.Exactness
import Concord.Merge.Trees
import Concord.Proofs.Merge.Services

namespace Concord

/-- How a task ends: with merged nodes and their rejections or with an error, and how often a limit
was hit. -/
structure TaskResult where
  outcome : Except RunError (List MergedNode × List Rejection)
  limitHits : Nat

/-- Puts two results together in their order. The first error counts. -/
def TaskResult.join (first second : TaskResult) : TaskResult where
  outcome := do
    let (nodes, rejections) ← first.outcome
    let (others, otherRejections) ← second.outcome
    return (nodes ++ others, rejections ++ otherRejections)
  limitHits := first.limitHits + second.limitHits

/-- A task, by what it does next to the shared cache. It looks verdicts up and stores them in a
cache that other tasks use as well, and may fork two tasks and wait for both. -/
inductive Task where
  | done (result : TaskResult)
  | lookUp (pair : Pair) (next : Option Mismatch → Task)
  | store (pair : Pair) (verdict : Mismatch) (next : Mismatch → Task)
  /-- Runs two tasks side by side and goes on when both are done. -/
  | fork (first second : Task) (next : TaskResult → TaskResult → Task)

namespace Task

/-- Runs tasks side by side and goes on with their results put together in order. -/
def forkAll : List Task → (TaskResult → Task) → Task
  | [], next => next ⟨.ok ([], []), 0⟩
  | task :: tasks, next => .fork task (forkAll tasks .done) fun first rest => next (first.join rest)

/-- One task takes one step. Between two steps of a task any of the others may take theirs. -/
inductive Step : Cache × Task → Cache × Task → Prop
  | lookUp (cache : Cache) (pair : Pair) (next : Option Mismatch → Task) :
    Step (cache, .lookUp pair next) ((cache.get pair).2, next (cache.get pair).1)
  | store (cache : Cache) (pair : Pair) (verdict : Mismatch) (next : Mismatch → Task) :
    Step (cache, .store pair verdict next)
      ((cache.insert pair verdict).2, next (cache.insert pair verdict).1)
  | first {cache cache' : Cache} {first first' : Task} (second : Task)
    (next : TaskResult → TaskResult → Task) (hstep : Step (cache, first) (cache', first')) :
    Step (cache, .fork first second next) (cache', .fork first' second next)
  | second {cache cache' : Cache} {second second' : Task} (first : Task)
    (next : TaskResult → TaskResult → Task) (hstep : Step (cache, second) (cache', second')) :
    Step (cache, .fork first second next) (cache', .fork first second' next)
  | join (cache : Cache) (first second : TaskResult) (next : TaskResult → TaskResult → Task) :
    Step (cache, .fork (.done first) (.done second) next) (cache, next first second)

/-- Steps taken one after the other, in any order that the tasks allow. -/
abbrev Schedule : Cache × Task → Cache × Task → Prop :=
  Relation.ReflTransGen Step

/-- A task that is not done can take a step. -/
theorem exists_step (cache : Cache) (task : Task) :
    (∃ result, task = .done result) ∨ ∃ after, Step (cache, task) after := by
  induction task with
  | done result => exact .inl ⟨result, rfl⟩
  | lookUp pair next => exact .inr ⟨_, .lookUp cache pair next⟩
  | store pair verdict next => exact .inr ⟨_, .store cache pair verdict next⟩
  | fork first second next ihFirst ihSecond =>
    obtain ⟨result, rfl⟩ | ⟨⟨cache', first'⟩, hstep⟩ := ihFirst
    · obtain ⟨result', rfl⟩ | ⟨⟨cache', second'⟩, hstep⟩ := ihSecond
      · exact .inr ⟨_, .join cache result result' next⟩
      · exact .inr ⟨_, .second _ next hstep⟩
    · exact .inr ⟨_, .first second next hstep⟩

/-- What a task may become in one step over some cache. -/
def Follows (after before : Task) : Prop :=
  ∃ cache cache', Step (cache, before) (cache', after)

private theorem acc_fork {first second : Task} {next : TaskResult → TaskResult → Task}
    (hfirst : Acc Follows first) (hsecond : Acc Follows second)
    (hnext : ∀ r s, Acc Follows (next r s)) : Acc Follows (.fork first second next) := by
  induction hfirst generalizing second with
  | intro first hfirst ihFirst =>
    induction hsecond with
    | intro second hsecond ihSecond =>
      refine .intro _ ?_
      rintro _ ⟨cache, cache', hstep⟩
      cases hstep with
      | first _ _ hstep => exact ihFirst _ ⟨_, _, hstep⟩ (.intro _ hsecond)
      | second _ _ hstep => exact ihSecond _ ⟨_, _, hstep⟩
      | join _ r s => exact hnext r s

private theorem acc_follows (task : Task) : Acc Follows task := by
  induction task with
  | done result =>
    refine .intro _ ?_
    rintro _ ⟨cache, cache', hstep⟩
    cases hstep
  | lookUp pair next ih =>
    refine .intro _ ?_
    rintro _ ⟨cache, cache', hstep⟩
    cases hstep
    exact ih _
  | store pair verdict next ih =>
    refine .intro _ ?_
    rintro _ ⟨cache, cache', hstep⟩
    cases hstep
    exact ih _
  | fork first second next ihFirst ihSecond ihNext => exact acc_fork ihFirst ihSecond ihNext

/-- No schedule goes on forever. -/
theorem wellFounded_step : WellFounded fun after before => Step before after := by
  refine Subrelation.wf ?_ (InvImage.wf Prod.snd ⟨acc_follows⟩)
  rintro ⟨cache', after⟩ ⟨cache, before⟩ hstep
  exact ⟨cache, cache', hstep⟩

/-- Runs a task so that of two tasks side by side the first is done before the second begins. -/
def inOrder : Task → Cache → Cache × TaskResult
  | .done result, cache => (cache, result)
  | .lookUp pair next, cache => (next (cache.get pair).1).inOrder (cache.get pair).2
  | .store pair verdict next, cache =>
    (next (cache.insert pair verdict).1).inOrder (cache.insert pair verdict).2
  | .fork first second next, cache =>
    let (middle, r) := first.inOrder cache
    let (after, s) := second.inOrder middle
    (next r s).inOrder after

/-- One thing after the other is a schedule too. -/
theorem schedule_inOrder (task : Task) (cache : Cache) :
    Schedule (cache, task) ((task.inOrder cache).1, .done (task.inOrder cache).2) := by
  induction task generalizing cache with
  | done result => exact .refl
  | lookUp pair next ih => exact .head (.lookUp cache pair next) (ih _ _)
  | store pair verdict next ih => exact .head (.store cache pair verdict next) (ih _ _)
  | fork first second next ihFirst ihSecond ihNext =>
    let middle := first.inOrder cache
    let after := second.inOrder middle.1
    have hfirst := (ihFirst cache).lift (fun state => (state.1, fork state.2 second next))
      fun ⟨_, _⟩ ⟨_, _⟩ hstep => Step.first second next hstep
    have hsecond := (ihSecond middle.1).lift
      (fun state => (state.1, fork (.done middle.2) state.2 next))
      fun ⟨_, _⟩ ⟨_, _⟩ hstep => Step.second (.done middle.2) next hstep
    have hjoin := Step.join after.1 middle.2 after.2 next
    exact hfirst.trans (hsecond.trans (.head hjoin (ihNext middle.2 after.2 after.1)))

section Ensures

variable (sides : Sides)

/-- What a task ensures of its result, as long as every verdict that it is told is right. Every
verdict that it stores is right as well. -/
def Ensures : Task → (TaskResult → Prop) → Prop
  | .done result, post => post result
  | .lookUp pair next, post =>
    ∀ reply : Option Mismatch, (∀ verdict ∈ reply, sides.Right pair verdict) →
      (next reply).Ensures post
  | .store pair verdict next, post =>
    sides.Right pair verdict ∧ ∀ stored, sides.Right pair stored → (next stored).Ensures post
  | .fork first second next, post =>
    ∃ middle middle', first.Ensures middle ∧ second.Ensures middle' ∧
      ∀ r s, middle r → middle' s → (next r s).Ensures post

variable {sides} {task : Task} {post : TaskResult → Prop}

/-- Tasks that run side by side ensure together what each of them ensures. -/
theorem ensures_forkAll {α : Type} {run : α → Task} {each : α → TaskResult → Prop}
    (together : List α → TaskResult → Prop) (hnone : together [] ⟨.ok ([], []), 0⟩)
    (hjoin : ∀ item items r s, each item r → together items s →
      together (item :: items) (r.join s))
    (items : List α) (hrun : ∀ item, (run item).Ensures sides (each item))
    {next : TaskResult → Task} (hnext : ∀ r, together items r → (next r).Ensures sides post) :
    (forkAll (items.map run) next).Ensures sides post := by
  induction items generalizing next post with
  | nil => exact hnext _ hnone
  | cons item items ih =>
    refine ⟨each item, together items, hrun item, ih fun r hr => hr, fun r s hr hs => ?_⟩
    exact hnext _ (hjoin item items r s hr hs)

/-- A step keeps the cache exact, and what the tasks ensure. -/
theorem Ensures.step {before after : Cache × Task} (hstep : Step before after)
    (hexact : before.1.Exact sides) (hensures : before.2.Ensures sides post) :
    after.1.Exact sides ∧ after.2.Ensures sides post := by
  induction hstep generalizing post with
  | lookUp cache pair next =>
    refine ⟨hexact.get pair, hensures _ fun verdict hverdict => ?_⟩
    rw [Cache.get_fst, Option.mem_def] at hverdict
    exact hexact.right_of_find? hverdict
  | store cache pair verdict next =>
    obtain ⟨hright, hnext⟩ := hensures
    obtain ⟨hafter, hstored⟩ := hexact.insert hright
    exact ⟨hafter, hnext _ hstored⟩
  | first second next hstep ih =>
    obtain ⟨middle, middle', hfirst, hsecond, hnext⟩ := hensures
    obtain ⟨hafter, hfirst⟩ := ih hexact hfirst
    exact ⟨hafter, middle, middle', hfirst, hsecond, hnext⟩
  | second first next hstep ih =>
    obtain ⟨middle, middle', hfirst, hsecond, hnext⟩ := hensures
    obtain ⟨hafter, hsecond⟩ := ih hexact hsecond
    exact ⟨hafter, middle, middle', hfirst, hsecond, hnext⟩
  | join cache r s next =>
    obtain ⟨middle, middle', hfirst, hsecond, hnext⟩ := hensures
    exact ⟨hexact, hnext r s hfirst hsecond⟩

/-- In every schedule over an exact cache, a task that is done has the result that it ensures. -/
theorem Ensures.schedule {before after : Cache × Task} (hschedule : Schedule before after)
    (hexact : before.1.Exact sides) (hensures : before.2.Ensures sides post) :
    after.1.Exact sides ∧ after.2.Ensures sides post := by
  induction hschedule with
  | refl => exact ⟨hexact, hensures⟩
  | tail _ hstep ih => exact ih.2.step hstep ih.1

end Ensures

end Task

/-- What the comparison of classifiers needs done: two uses of a cache, and steps of a session that
leave the cache alone. -/
structure Memory (n : Type → Type) where
  lookUp : Pair → n (Option Mismatch)
  store : Pair → Mismatch → n Mismatch
  privately : {α : Type} → StateM Session α → n α

namespace Memory

variable {n : Type → Type} [Monad n] (memory : Memory n) (sides : Sides)

/-- Compares a pair by `rules`, unless its verdict is known, under way or out of reach. -/
def memoized (pair : Pair) (rules : n Mismatch) : n Mismatch := do
  if let some verdict ← memory.lookUp pair then return verdict
  match ← memory.privately (Session.enter pair) with
  | .cycle => memory.privately Session.assumeMatch
  | .depthExceeded | .iterationExceeded => memory.privately Session.giveUp
  | .entered =>
    let before ← memory.privately get
    let verdict ← rules
    memory.privately (Session.leave pair)
    if Session.isDefinite before (← memory.privately get) verdict then memory.store pair verdict
    else return verdict

/-- Compares two classifiers, in which at most `levels` pairs are entered inside one another. -/
def compareWithin : (levels : Nat) → DeclId → DeclId → n Mismatch
  | 0, a, b => memory.memoized (a, b) (memory.privately Session.giveUp)
  | levels + 1, a, b =>
    memory.memoized (a, b) (classifierFailures sides
      (fun x y => do return (← compareWithin levels x y).isEmpty) a b)

end Memory

/-- The cache in a session. -/
def Session.memory : Memory (StateM Session) :=
  ⟨Session.lookUp, Session.store, id⟩

/-- With the cache in the session, classifiers are compared as a session compares them. -/
theorem Session.memory_compareWithin (sides : Sides) (levels : Nat) (a b : DeclId) :
    Session.memory.compareWithin sides levels a b = sides.compareWithin levels a b := by
  induction levels generalizing a b with
  | zero => rfl
  | succ levels ih =>
    simp only [Memory.compareWithin, Sides.compareWithin, ih]
    rfl

/-- A step of a worker, by the task that it is when another task follows it. The worker keeps a
session, in the cache of which it never looks. -/
def TaskM (α : Type) : Type :=
  Session → (α → Session → Task) → Task

namespace TaskM

instance : Monad TaskM where
  pure a := fun session next => next a session
  bind step further := fun session next => step session fun a session => further a session next

instance : LawfulMonad TaskM :=
  LawfulMonad.mk' TaskM (fun _ => rfl) (fun _ _ => rfl) (fun _ _ _ => rfl)

/-- The cache that all tasks share. -/
def memory : Memory TaskM where
  lookUp pair := fun session next => .lookUp pair fun reply => next reply session
  store pair verdict := fun session next => .store pair verdict fun stored => next stored session
  privately step := fun session next => next (step.run session).1 (step.run session).2

/-- A step that may end the task with an error. -/
def attempt {α : Type} : Except RunError α → TaskM α
  | .ok a => pure a
  | .error error => fun session _ => .done ⟨.error error, session.limitHits⟩

end TaskM

namespace Sides

variable (sides : Sides)

/-- The task of merging what a pairing says, by a worker that starts afresh. -/
def taskOf (merge : Pairing → TaskM Merged) (pairing : Pairing) : Task :=
  merge pairing (.new sides.options .empty) fun merged session =>
    .done ⟨.ok ([merged.1], merged.2), session.limitHits⟩

/-- The services of a worker. The children of a shared module are merged side by side. -/
def tasks : Services TaskM TaskM where
  verdict := TaskM.memory.compareWithin sides sides.levels
  watched step := do
    let before ← TaskM.memory.privately get
    let mismatch ← step
    let after ← TaskM.memory.privately get
    return (mismatch, after.limitHits == before.limitHits)
  lift := id
  attempt := TaskM.attempt
  note _ _ := return
  apart merge plan := fun session next =>
    .forkAll (plan.map (sides.taskOf merge)) fun result =>
      let session := { session with limitHits := session.limitHits + result.limitHits }
      TaskM.attempt result.outcome session next

/-- The merge of two trees as a task. -/
def mergeTask : Task :=
  sides.tasks.merge sides (.new sides.options .empty) fun result session =>
    .done ⟨.ok (result.forest.roots, result.rejections), session.limitHits⟩

/-- A merge over a cache that ends with a result, the cache that it leaves, and how often it hits a
limit. The merge is done in one session, or by workers that take their steps in some order. -/
inductive MergesTo (cache : Cache) (result : MergeResult) (after : Cache) (limitHits : Nat) : Prop
  | session {session : Session} (hmerge : sides.merge cache = .ok (result, session))
    (hcache : session.cache = after) (hhits : session.limitHits = limitHits)
  | workers (hschedule : Task.Schedule (cache, sides.mergeTask)
    (after, .done ⟨.ok (result.forest.roots, result.rejections), limitHits⟩))

/-- Merges over a cache do not fail: one session gives a result, and so do workers in whatever order
they take their steps. -/
structure MergeSucceeds (cache : Cache) : Prop where
  session : ∃ result session, sides.merge cache = .ok (result, session)
  ends : Acc (fun after before => Task.Step before after) (cache, sides.mergeTask)
  workers : ∀ after task, Task.Schedule (cache, sides.mergeTask) (after, task) →
    (∃ next, Task.Step (after, task) next) ∨
      ∃ nodes rejections limitHits, task = .done ⟨.ok (nodes, rejections), limitHits⟩

variable {sides} {cache : Cache}

/-- Workers that take their steps one after the other merge, unless they end with an error. -/
theorem mergesTo_inOrder {nodes : List MergedNode} {rejections : List Rejection}
    (houtcome : (sides.mergeTask.inOrder cache).2.outcome = .ok (nodes, rejections)) :
    sides.MergesTo cache ⟨⟨nodes⟩, rejections⟩ (sides.mergeTask.inOrder cache).1
      (sides.mergeTask.inOrder cache).2.limitHits := by
  have hschedule := Task.schedule_inOrder sides.mergeTask cache
  refine .workers ?_
  rwa [← houtcome]

/-- Where merges do not fail, workers that take their steps one after the other do not. -/
theorem MergeSucceeds.inOrder (hsucceeds : sides.MergeSucceeds cache) : ∃ nodes rejections,
    (sides.mergeTask.inOrder cache).2.outcome = .ok (nodes, rejections) := by
  obtain ⟨_, hnext⟩ | ⟨nodes, rejections, limitHits, hdone⟩ :=
    hsucceeds.workers _ _ (Task.schedule_inOrder sides.mergeTask cache)
  · cases hnext
  · exact ⟨nodes, rejections, congrArg TaskResult.outcome (Task.done.inj hdone)⟩

end Sides

end Concord
