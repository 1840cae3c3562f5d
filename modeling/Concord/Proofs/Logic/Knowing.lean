import Concord.Proofs.Logic.Learning
import Concord.Proofs.Logic.Tasks

namespace Concord

/-- Services by which nothing that is known is forgotten. Steps of the merge may fail. -/
structure Services.Follows {n m : Type → Type} [Monad n] [Monad m] (services : Services n m)
    (inner : ProgramLogic n) (outer : ProgramLogic m) : Prop where
  verdict : ∀ known a b,
    inner.Decides known (services.verdict a b) Mismatch.isEmpty (·.SaysYes a b)
  repeats : ∀ {known : Cache} {a b : DeclId}, known.SaysYes a b →
    inner.Repeats known (services.verdict a b) .none
  watched : ∀ {known : Cache} {step : n Mismatch} {post : Mismatch → Cache → Prop},
    inner.Learns known step post →
    inner.Learns known (services.watched step) fun outcome => post outcome.1
  rewatched : ∀ {known : Cache} {step : n Mismatch} {verdict : Mismatch},
    inner.Repeats known step verdict →
    inner.Repeats known (services.watched step) (verdict, true)
  lift : ∀ {α : Type} {known : Cache} {step : n α} {post : α → Cache → Prop},
    inner.Learns known step post → outer.Learns known (services.lift step) post
  attempt : ∀ {α : Type} {known : Cache} {step : Except RunError α} {post : α → Cache → Prop},
    (∀ a, step = .ok a → ∀ cache, known.Grown cache → post a cache) →
    outer.Learns known (services.attempt step) post
  note : ∀ known a b, outer.Learns known (services.note a b) fun _ _ => True
  apart : ∀ {known : Cache} {merge : Pairing → m Merged} {post : Pairing → Merged → Cache → Prop}
    {plan : List Pairing},
    (∀ pairing merged, ∀ {cache after : Cache}, cache.Grown after → post pairing merged cache →
      post pairing merged after) →
    (∀ pairing ∈ plan, outer.Learns known (merge pairing) (post pairing)) →
    outer.Learns known (services.apart merge plan) fun collected cache =>
      Collected (fun pairing merged => post pairing merged cache) plan collected

/-- What is known of collected nodes stays known when it does of each of them. -/
theorem Collected.mono {post post' : Pairing → Merged → Prop} {plan : List Pairing}
    {collected : List MergedNode × List Rejection} (hcollected : Collected post plan collected)
    (himp : ∀ pairing merged, post pairing merged → post' pairing merged) :
    Collected post' plan collected := by
  induction hcollected with
  | nil => exact .nil
  | cons hmerged _ ih => exact .cons (himp _ _ hmerged) ih

/-- Collecting learns what each single merge learns. -/
theorem Services.collect_learns {m : Type → Type} [Monad m] {logic : ProgramLogic m}
    {known : Cache} {merge : Pairing → m Merged} {post : Pairing → Merged → Cache → Prop}
    {plan : List Pairing}
    (hstays : ∀ pairing merged, ∀ {cache after : Cache}, cache.Grown after →
      post pairing merged cache → post pairing merged after)
    (hmerge : ∀ pairing ∈ plan, logic.Learns known (merge pairing) (post pairing)) :
    logic.Learns known (collect merge plan) fun collected cache =>
      Collected (fun pairing merged => post pairing merged cache) plan collected := by
  induction plan generalizing known with
  | nil => exact .pure fun _ _ => .nil
  | cons pairing plan ih =>
    obtain ⟨hone, hothers⟩ := List.forall_mem_cons.mp hmerge
    refine .bind hone fun merged cache hgrown hmerged => ?_
    refine .bind (ih fun other hother => (hothers other hother).weaken hgrown) ?_
    intro rest cache' hgrown' hrest
    refine .pure fun cache'' hgrown'' => .cons (hstays _ _ (hgrown'.trans hgrown'') hmerged) ?_
    exact hrest.mono fun _ _ => hstays _ _ hgrown''

section Session

/-- The logic of what the steps of a merge do, when they do not fail. -/
def MergeM.stepLogic : ProgramLogic MergeM where
  wp step post before := ∀ a after, step.run before = .ok (a, after) → post a after
  pure hpost a after hrun := by
    cases hrun
    exact hpost
  bind hstep b after hrun := by
    rw [StateT.run_bind] at hrun
    obtain ⟨⟨a, middle⟩, hfirst, hrest⟩ := Except.bind_eq_ok.mp hrun
    exact hstep a middle hfirst b after hrest
  mono hstep hpost a after hrun := hpost a after (hstep a after hrun)

/-- What a session has learned after a step. -/
theorem Session.learned {α : Type} {known : Cache} {step : StateM Session α}
    {post : α → Cache → Prop} (hstep : Session.stepLogic.Learns known step post) {before : Session}
    (hidle : before.guard.visiting = []) (hknown : known.Grown before.cache) :
    (step.run before).2.guard.visiting = [] ∧ before.cache.Grown (step.run before).2.cache ∧
      post (step.run before).1 (step.run before).2.cache :=
  hstep before hidle hknown

theorem MergeM.ofSession_learns {α : Type} {known : Cache} {step : StateM Session α}
    {post : α → Cache → Prop} (hstep : Session.stepLogic.Learns known step post) :
    MergeM.stepLogic.Learns known (MergeM.ofSession step) post := by
  intro before hidle hknown a after hrun
  have hrun : step.run before = (a, after) := Except.ok.inj hrun
  have hlearned := Session.learned hstep hidle hknown
  rwa [hrun] at hlearned

theorem MergeM.inOwnSession_learns {sides : Sides} {α : Type} {known : Cache} {step : MergeM α}
    {post : α → Cache → Prop} (hstep : MergeM.stepLogic.Learns known step post) :
    MergeM.stepLogic.Learns known (sides.inOwnSession step) post := by
  intro outer hidle hknown a after hrun
  rw [show (sides.inOwnSession step).run outer = _ from Sides.inOwnSession_apply step outer] at hrun
  cases hinner : step (.new sides.options outer.cache) with
  | error error =>
    rw [hinner] at hrun
    cases hrun
  | ok ended =>
    rw [hinner] at hrun
    cases hrun
    obtain ⟨-, hgrown, hpost⟩ := hstep (.new sides.options outer.cache) rfl hknown _ _ hinner
    exact ⟨hidle, hgrown, hpost⟩

/-- Nothing is forgotten by a session. -/
theorem Sides.services_follows (sides : Sides) :
    sides.services.Follows Session.stepLogic MergeM.stepLogic where
  verdict known a b := by
    show Session.stepLogic.Decides known (sides.compareWithin sides.levels a b) _ _
    rw [← Session.memory_compareWithin]
    exact Memory.compareWithin_decides Session.memory_remembers sides sides.levels known a b
  repeats hyes := by
    show Session.stepLogic.Repeats _ (sides.compareWithin sides.levels _ _) _
    rw [← Session.memory_compareWithin]
    exact Memory.compareWithin_repeats Session.memory_remembers sides sides.levels hyes
  watched hstep := hstep
  rewatched {known step verdict} hstep before hknown := by
    obtain ⟨hverdict, cache, hgrown, hafter⟩ :
      (step.run before).1 = verdict ∧ ∃ cache, before.cache.Grown cache ∧
        (step.run before).2 = { before with cache } := hstep before hknown
    refine ⟨Prod.ext hverdict ?_, cache, hgrown, hafter⟩
    show ((step.run before).2.limitHits == before.limitHits) = true
    rw [hafter, beq_self_eq_true]
  lift hstep := MergeM.ofSession_learns hstep
  attempt {α known step post} hpost before hidle hknown a after hrun := by
    cases step with
    | error error => cases hrun
    | ok result =>
      cases hrun
      exact ⟨hidle, .refl _, hpost _ rfl _ hknown⟩
  note known a b := .pure fun _ _ => trivial
  apart {known merge post plan} hstays hmerge := by
    show MergeM.stepLogic.Learns known (Sides.collect _ plan) _
    rw [← Sides.collect_eq]
    refine Services.collect_learns hstays fun pairing hpairing => .ite (fun _ => ?_) fun _ => ?_
    · exact MergeM.inOwnSession_learns (hmerge pairing hpairing)
    · exact hmerge pairing hpairing

end Session

namespace Task

/-- What a task ensures of its result and of the cache at its end, when it knows what a cache says
and nobody takes anything out of it. -/
def Knows : Task → Cache → (TaskResult → Cache → Prop) → Prop
  | .done result, known, post => ∀ cache, known.Grown cache → post result cache
  | .lookUp pair next, known, post => ∀ cache, known.Grown cache →
    (next (cache.get pair).1).Knows (cache.get pair).2 post
  | .store pair verdict next, known, post => ∀ cache, known.Grown cache →
    (next (cache.insert pair verdict).1).Knows (cache.insert pair verdict).2 post
  | .fork first second next, known, post =>
    ∃ middle middle', first.Knows known middle ∧ second.Knows known middle' ∧
      ∀ r s cache, known.Grown cache → middle r cache → middle' s cache →
        (next r s).Knows cache post

variable {task : Task} {known known' : Cache} {post : TaskResult → Cache → Prop}

/-- A task that knows more ensures as much. -/
theorem Knows.weaken (hgrown : known.Grown known') (hknows : task.Knows known post) :
    task.Knows known' post := by
  induction task generalizing post with
  | done result => exact fun cache hcache => hknows cache (hgrown.trans hcache)
  | lookUp pair next _ => exact fun cache hcache => hknows cache (hgrown.trans hcache)
  | store pair verdict next _ => exact fun cache hcache => hknows cache (hgrown.trans hcache)
  | fork first second next ihFirst ihSecond _ =>
    obtain ⟨middle, middle', hfirst, hsecond, hnext⟩ := hknows
    refine ⟨middle, middle', ihFirst hfirst, ihSecond hsecond, fun r s cache hcache => ?_⟩
    exact hnext r s cache (hgrown.trans hcache)

/-- A step adds to the cache, and the task knows what the cache says then. -/
theorem Knows.step {before after : Cache × Task} (hstep : Step before after)
    (hknows : before.2.Knows before.1 post) :
    before.1.Grown after.1 ∧ after.2.Knows after.1 post := by
  induction hstep generalizing post with
  | lookUp cache pair next => exact ⟨cache.grown_get pair, hknows cache (.refl _)⟩
  | store cache pair verdict next => exact ⟨cache.grown_insert pair verdict, hknows cache (.refl _)⟩
  | first second next _ ih =>
    obtain ⟨middle, middle', hfirst, hsecond, hnext⟩ := hknows
    obtain ⟨hgrown, hfirst⟩ := ih hfirst
    refine ⟨hgrown, middle, middle', hfirst, hsecond.weaken hgrown, fun r s cache hcache => ?_⟩
    exact hnext r s cache (hgrown.trans hcache)
  | second first next _ ih =>
    obtain ⟨middle, middle', hfirst, hsecond, hnext⟩ := hknows
    obtain ⟨hgrown, hsecond⟩ := ih hsecond
    refine ⟨hgrown, middle, middle', hfirst.weaken hgrown, hsecond, fun r s cache hcache => ?_⟩
    exact hnext r s cache (hgrown.trans hcache)
  | join cache r s next =>
    obtain ⟨middle, middle', hfirst, hsecond, hnext⟩ := hknows
    exact ⟨.refl _, hnext r s cache (.refl _) (hfirst cache (.refl _)) (hsecond cache (.refl _))⟩

/-- In every schedule a task that is done has ensured what it knew to ensure. -/
theorem Knows.schedule {before after : Cache × Task} (hschedule : Schedule before after)
    (hknows : before.2.Knows before.1 post) :
    before.1.Grown after.1 ∧ after.2.Knows after.1 post := by
  induction hschedule with
  | refl => exact ⟨.refl _, hknows⟩
  | tail _ hstep ih =>
    obtain ⟨hgrown, hafter⟩ := ih.2.step hstep
    exact ⟨ih.1.trans hgrown, hafter⟩

/-- Tasks that run side by side ensure together what each of them ensures. -/
theorem knows_forkAll {α : Type} {run : α → Task} {each : α → TaskResult → Cache → Prop}
    (together : List α → TaskResult → Cache → Prop)
    (hstays : ∀ items r, ∀ {cache after : Cache}, cache.Grown after → together items r cache →
      together items r after)
    (hnone : ∀ cache, together [] ⟨.ok ([], []), 0⟩ cache)
    (hjoin : ∀ item items r s cache, each item r cache → together items s cache →
      together (item :: items) (r.join s) cache)
    (items : List α) (hrun : ∀ item ∈ items, (run item).Knows known (each item))
    {next : TaskResult → Task}
    (hnext : ∀ r cache, known.Grown cache → together items r cache → (next r).Knows cache post) :
    (forkAll (items.map run) next).Knows known post := by
  induction items generalizing next post with
  | nil => exact hnext _ known (.refl _) (hnone known)
  | cons item items ih =>
    obtain ⟨hone, hothers⟩ := List.forall_mem_cons.mp hrun
    refine ⟨each item, together items, hone, ih hothers ?_, fun r s cache hcache hr hs => ?_⟩
    · exact fun r cache _ hr cache' hgrown => hstays items r hgrown hr
    · exact hnext _ cache hcache (hjoin item items r s cache hr hs)

end Task

namespace TaskM

/-- The logic of workers that know what the shared cache says. A session stands for what is known:
its cache is the known part of the shared one, and not that of the worker, who never looks at his
own. Of a task that ends with an error nothing is promised. -/
def knowing : ProgramLogic TaskM where
  wp step post before := ∀ (own : Cache) (result : TaskResult → Cache → Prop)
    (next : _ → Session → Task),
    (∀ a after own', post a after → (next a { after with cache := own' }).Knows after.cache result) →
    (∀ error hits cache, result ⟨.error error, hits⟩ cache) →
    (step { before with cache := own } next).Knows before.cache result
  pure hpost own _ _ hnext _ := hnext _ _ own hpost
  bind hstep own result next hnext hend :=
    hstep own result _ (fun _ _ own' hmiddle => hmiddle own' result next hnext hend) hend
  mono hstep hpost own result next hnext hend :=
    hstep own result next (fun a after own' hafter => hnext a after own' (hpost a after hafter)) hend

/-- Nothing is forgotten by the cache that all workers share. -/
theorem memory_remembers : TaskM.memory.Remembers knowing where
  lookUp {pair post before} hpost own result next hnext hend cache hgrown := by
    rw [Cache.get_fst, ← cache.find?_get pair pair]
    exact hnext _ _ own (hpost _ (hgrown.trans (cache.grown_get pair)))
  store {pair verdict post before} hpost own result next hnext hend cache hgrown := by
    refine hnext _ _ own (hpost _ _ (hgrown.trans (cache.grown_insert pair verdict)) ?_)
    exact cache.find?_insert_self pair verdict
  privately {α step post before} hpost own result next hnext hend := by
    obtain ⟨hcache, hafter⟩ := hpost own
    have hnext := hnext _ _ (step.run { before with cache := own }).2.cache hafter
    exact hnext

theorem attempt_learns {α : Type} {known : Cache} {step : Except RunError α}
    {post : α → Cache → Prop} (hpost : ∀ a, step = .ok a → ∀ cache, known.Grown cache → post a cache) :
    knowing.Learns known (TaskM.attempt step) post := by
  intro before hidle hknown own result next hnext hend
  cases step with
  | ok a => exact hnext a before own ⟨hidle, .refl _, hpost a rfl _ hknown⟩
  | error error => exact fun cache _ => hend error _ cache

/-- What is known of the result of tasks that each merge one pairing of a plan. -/
private def Collects (post : Pairing → Merged → Cache → Prop) (plan : List Pairing) (result : TaskResult)
    (cache : Cache) : Prop :=
  ∀ collected, result.outcome = .ok collected →
    Collected (fun pairing merged => post pairing merged cache) plan collected

private theorem taskOf_knows {sides : Sides} {known : Cache} {merge : Pairing → TaskM Merged}
    {post : Pairing → Merged → Cache → Prop} {pairing : Pairing}
    (hstays : ∀ merged, ∀ {cache after : Cache}, cache.Grown after → post pairing merged cache →
      post pairing merged after)
    (hmerge : knowing.Learns known (merge pairing) (post pairing)) :
    (sides.taskOf merge pairing).Knows known (Collects post [pairing]) := by
  refine hmerge { Session.new sides.options .empty with cache := known } rfl (.refl _) .empty _ _
    (fun merged after own' hafter cache hgrown => ?_) fun error hits cache => nofun
  rintro collected ⟨⟩
  have hone : Collected (fun pairing merged => post pairing merged cache) [pairing] _ :=
    .cons (hstays merged hgrown hafter.2.2) .nil
  simpa using hone

private theorem collects_join {post : Pairing → Merged → Cache → Prop} {pairing : Pairing}
    {plan : List Pairing} {first rest : TaskResult} {cache : Cache}
    (hfirst : Collects post [pairing] first cache) (hrest : Collects post plan rest cache) :
    Collects post (pairing :: plan) (first.join rest) cache := by
  obtain ⟨outcome, hits⟩ := first
  obtain ⟨outcome', hits'⟩ := rest
  cases outcome with
  | error error => exact nofun
  | ok one =>
    cases outcome' with
    | error error => exact nofun
    | ok others =>
      rintro collected ⟨⟩
      have hone := hfirst one rfl
      cases hone with
      | cons hmerged hnone =>
        cases hnone
        simpa using Collected.cons hmerged (hrest others rfl)

end TaskM

/-- Nothing is forgotten by workers. -/
theorem Sides.tasks_follows (sides : Sides) :
    sides.tasks.Follows TaskM.knowing TaskM.knowing where
  verdict known a b :=
    Memory.compareWithin_decides TaskM.memory_remembers sides sides.levels known a b
  repeats := Memory.compareWithin_repeats TaskM.memory_remembers sides sides.levels
  rewatched hstep before hknown own result next hnext hend := by
    refine hstep before hknown own result _ ?_ hend
    rintro _ _ own' ⟨rfl, cache, hgrown, rfl⟩
    refine hnext _ _ own' ⟨Prod.ext rfl ?_, cache, hgrown, rfl⟩
    exact beq_self_eq_true before.limitHits
  watched hstep before hidle hknown own result next hnext hend :=
    hstep before hidle hknown own result _
      (fun _ after own' hafter => hnext _ after own' hafter) hend
  lift hstep := hstep
  attempt hpost := TaskM.attempt_learns hpost
  note known a b := .pure fun _ _ => trivial
  apart {known merge post plan} hstays hmerge before hidle hknown own result next hnext hend := by
    refine Task.knows_forkAll (TaskM.Collects post) (fun items r _ _ hgrown hr collected hcollected => ?_)
      ?_ (fun pairing plan r s cache => TaskM.collects_join) plan
      (fun pairing hpairing => TaskM.taskOf_knows (hstays pairing)
        ((hmerge pairing hpairing).weaken hknown)) fun ended cache hgrown hended => ?_
    · exact (hr collected hcollected).mono fun pairing merged => hstays pairing merged hgrown
    · rintro cache collected ⟨⟩
      exact .nil
    · have hlearns : TaskM.knowing.Learns cache (TaskM.attempt ended.outcome) fun collected cache =>
          Collected (fun pairing merged => post pairing merged cache) plan collected :=
        TaskM.attempt_learns fun collected hcollected cache' hgrown' =>
          (hended collected hcollected).mono fun pairing merged => hstays pairing merged hgrown'
      exact hlearns { before with cache, limitHits := before.limitHits + ended.limitHits } hidle
        (.refl _) own result next (fun a after own' hafter => hnext a after own'
          ⟨hafter.1, hgrown.trans hafter.2.1, hafter.2.2⟩) hend

/-- What a merge in one session has learned at its end. -/
theorem Sides.merge_learned {sides : Sides} {cache : Cache} {post : MergeResult → Cache → Prop}
    (hlearns : MergeM.stepLogic.Learns cache (sides.services.merge sides) post)
    {result : MergeResult} {session : Session}
    (hmerge : sides.merge cache = .ok (result, session)) : post result session.cache := by
  rw [← sides.services_merge cache] at hmerge
  exact (hlearns (.new sides.options cache) rfl (.refl _) result session hmerge).2.2

/-- What a merge by workers has learned when they are done. -/
theorem Sides.mergeTask_learned {sides : Sides} {cache after : Cache}
    {post : MergeResult → Cache → Prop}
    (hstays : ∀ result, ∀ {before after : Cache}, before.Grown after → post result before →
      post result after)
    (hlearns : TaskM.knowing.Learns cache (sides.tasks.merge sides) post)
    {nodes : List MergedNode} {rejections : List Rejection} {limitHits : Nat}
    (hschedule : Task.Schedule (cache, sides.mergeTask)
      (after, .done ⟨.ok (nodes, rejections), limitHits⟩)) : post ⟨⟨nodes⟩, rejections⟩ after := by
  have hknows : sides.mergeTask.Knows cache fun ended known => ∀ nodes rejections,
      ended.outcome = .ok (nodes, rejections) → post ⟨⟨nodes⟩, rejections⟩ known := by
    refine hlearns { Session.new sides.options .empty with cache } rfl (.refl _) .empty _ _
      (fun result session own' hresult known hknown => ?_) fun error hits known => nofun
    rintro _ _ ⟨⟩
    exact hstays result hknown hresult.2.2
  exact (hknows.schedule hschedule).2 after (.refl _) nodes rejections rfl

end Concord
