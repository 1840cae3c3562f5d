import Concord.Proofs.Comparison.Exactness
import Concord.Proofs.Merge.Oracle
import Concord.Proofs.Parallel.Program

namespace Concord

open Session (Leads Settles)

namespace TaskM

variable {sides : Sides} {α β : Type}

/-- Where a step of a worker can lead: on with a result, or to the end of the task with an error.
Whatever verdicts it is told on the way, as long as they are right. -/
def Reaches (sides : Sides) (step : TaskM α) (before : Session) (post : α → Session → Prop)
    (fails : RunError → Nat → Prop) : Prop :=
  ∀ (result : TaskResult → Prop) (next : α → Session → Task),
    (∀ a after, post a after → (next a after).Ensures sides result) →
    (∀ error hits, fails error hits → result ⟨.error error, hits⟩) →
    (step before next).Ensures sides result

/-- Where a step can lead that does not fail. -/
abbrev Gets (sides : Sides) (step : TaskM α) (before : Session) (post : α → Session → Prop) : Prop :=
  Reaches sides step before post fun _ _ => False

variable {before : Session} {post : α → Session → Prop} {post' : β → Session → Prop}
  {fails : RunError → Nat → Prop}

theorem Reaches.pure {a : α} (hpost : post a before) : Reaches sides (pure a) before post fails :=
  fun _ _ hnext _ => hnext a before hpost

theorem Reaches.bind {step : TaskM α} {further : α → TaskM β}
    (hstep : Reaches sides step before post fails)
    (hfurther : ∀ a middle, post a middle → Reaches sides (further a) middle post' fails) :
    Reaches sides (step >>= further) before post' fails :=
  fun result next hnext hfails =>
    hstep result _ (fun a middle hpost => hfurther a middle hpost result next hnext hfails) hfails

theorem Reaches.mono {step : TaskM α} {post' : α → Session → Prop} {fails' : RunError → Nat → Prop}
    (hstep : Reaches sides step before post fails) (hpost : ∀ a after, post a after → post' a after)
    (hfails : ∀ error hits, fails error hits → fails' error hits) :
    Reaches sides step before post' fails' :=
  fun result next hnext hend => hstep result next (fun a after h => hnext a after (hpost a after h))
    fun error hits h => hend error hits (hfails error hits h)

theorem Reaches.privately {step : StateM Session α}
    (hpost : post (step.run before).1 (step.run before).2) :
    Reaches sides (memory.privately step) before post fails :=
  fun _ _ hnext _ => hnext _ _ hpost

/-- A pair is looked up, entered and left again, and its verdict is stored if it is definite. -/
theorem memoized_apply (pair : Pair) (rules : TaskM Mismatch) (before : Session)
    (next : Mismatch → Session → Task) :
    memory.memoized pair rules before next = .lookUp pair fun reply =>
      match reply with
      | some verdict => next verdict before
      | none =>
        let entered := { before with guard := (before.guard.enter pair).2 }
        match (before.guard.enter pair).1 with
        | .cycle => next .none { entered with assumptions := before.assumptions + 1 }
        | .depthExceeded | .iterationExceeded =>
          next (.ofCause .recursionLimit) { entered with limitHits := before.limitHits + 1 }
        | .entered => rules entered fun verdict after =>
          if Session.isDefinite entered (after.leaving pair) verdict then
            .store pair verdict fun stored => next stored (after.leaving pair)
          else next verdict (after.leaving pair) := by
  refine congrArg (Task.lookUp pair) (funext fun reply => ?_)
  cases reply with
  | some verdict => rfl
  | none =>
    show (match (before.guard.enter pair).1 with
      | .cycle => memory.privately Session.assumeMatch
      | .depthExceeded | .iterationExceeded => memory.privately Session.giveUp
      | .entered => do
        let entered ← memory.privately get
        let verdict ← rules
        memory.privately (Session.leave pair)
        if Session.isDefinite entered (← memory.privately get) verdict then
          memory.store pair verdict
        else return verdict : TaskM Mismatch)
      { before with guard := (before.guard.enter pair).2 } next = _
    cases (before.guard.enter pair).1 with
    | cycle => rfl
    | depthExceeded => rfl
    | iterationExceeded => rfl
    | entered =>
      refine congrArg (rules _) (funext fun verdict => funext fun after => ?_)
      have finish (definite : Bool) :
          (if definite then memory.store pair verdict else return verdict : TaskM Mismatch)
            (after.leaving pair) next =
          if definite then .store pair verdict fun stored => next stored (after.leaving pair)
          else next verdict (after.leaving pair) := by
        cases definite <;> rfl
      exact finish _

variable (sides) in
/-- A worker that answers questions about pairs. -/
def Answers (answer : DeclId → DeclId → TaskM Bool) : Prop :=
  ∀ x y before, before.cache.Exact sides →
    Gets sides (answer x y) before fun yes after =>
      Settles sides (fun assumed => sides.ShareableGiven assumed x y) before after yes

/-- Questions asked by a worker are settled when each single one is. -/
theorem Answers.ask {answer : DeclId → DeclId → TaskM Bool} (hanswer : Answers sides answer)
    (questions : Questions) (hexact : before.cache.Exact sides) :
    Gets sides (questions.ask answer) before fun yes after =>
      Settles sides (fun assumed => questions.Hold (sides.ShareableGiven assumed)) before after
        yes := by
  obtain ⟨pairs, verdict⟩ := questions
  induction pairs generalizing before with
  | nil => exact .pure (.noQuestions (.refl hexact))
  | cons pair pairs ih =>
    refine .bind (hanswer pair.1 pair.2 before hexact) fun yes middle hfirst => ?_
    cases yes with
    | false => exact .pure (.firstNo hfirst)
    | true =>
      exact (ih hfirst.exact).mono (fun yes after hrest => .firstYes hfirst hrest) fun _ _ h => h

/-- The rules on a pair are settled when the questions they ask are. -/
theorem Answers.rules {answer : DeclId → DeclId → TaskM Bool} (hanswer : Answers sides answer)
    (a b : DeclId) (hexact : before.cache.Exact sides) :
    Gets sides (classifierFailures sides answer a b) before fun failed after =>
      Settles sides (fun assumed => sides.RulesHold (sides.ShareableGiven assumed) a b) before after
        failed.isEmpty := by
  obtain ⟨rules, hrules⟩ := classifierFailures_isRuleQuestions sides a b
  simp only [hrules answer, sides.rulesHold_iff hrules]
  refine .bind (hanswer.ask rules.parameters hexact) fun parameters middle hfirst => ?_
  refine .bind (hanswer.ask rules.containers hfirst.exact) fun containers after hsecond => ?_
  exact .pure (.rules hfirst hsecond)

/-- Rules that are settled while a pair is under way settle the pair once they are remembered. -/
theorem memoized_settles {a b : DeclId} {rules : TaskM Mismatch}
    (hrules : ∀ before, before.cache.Exact sides →
      Gets sides rules before fun failed after =>
        Settles sides (fun assumed => sides.RulesHold (sides.ShareableGiven assumed) a b) before
          after failed.isEmpty)
    (hexact : before.cache.Exact sides) :
    Gets sides (memory.memoized (a, b) rules) before fun verdict after =>
      Settles sides (fun assumed => sides.ShareableGiven assumed a b) before after
        verdict.isEmpty := by
  intro result next hnext hend
  rw [memoized_apply]
  intro reply hreply
  cases reply with
  | some verdict => exact hnext _ _ (.of_right (.refl hexact) (hreply verdict rfl))
  | none =>
    obtain ⟨henter, hvisiting⟩ | ⟨henter, hopen, hvisiting⟩ | ⟨henter, hvisiting⟩ :=
      before.guard.enter_cases (a, b)
    · let entered : Session := { before with guard := (before.guard.enter (a, b)).2 }
      simp only [henter]
      refine hrules entered hexact _ _ (fun verdict middle hsettles => ?_) hend
      have hleft := Settles.leaving entered (.refl hexact) hvisiting rfl rfl hsettles
      split
      · next hdefinite =>
        refine ⟨hleft.right_of_isDefinite entered rfl rfl hdefinite, fun stored hstored => ?_⟩
        exact hnext _ _ (.of_right hleft.toLeads hstored)
      · exact hnext _ _ hleft
    · simp only [henter]
      exact hnext _ _ (.assumed ⟨hvisiting, Nat.le_succ _, Nat.le_refl _, List.suffix_refl _, hexact⟩
        hopen (Nat.succ_ne_self _))
    · have hgiveUp := hnext (.ofCause .recursionLimit)
        { before with
          guard := (before.guard.enter (a, b)).2
          limitHits := before.limitHits + 1 }
        (.givenUp ⟨hvisiting, Nat.le_refl _, Nat.le_succ _, List.suffix_refl _, hexact⟩
          (Nat.succ_ne_self _))
      obtain h | h := henter <;> simpa only [h] using hgiveUp

/-- Every comparison of two classifiers by a worker settles whether they can be shared. -/
theorem compareWithin_settles (levels : Nat) (a b : DeclId) (hexact : before.cache.Exact sides) :
    Gets sides (memory.compareWithin sides levels a b) before fun verdict after =>
      Settles sides (fun assumed => sides.ShareableGiven assumed a b) before after
        verdict.isEmpty := by
  induction levels generalizing a b before with
  | zero =>
    refine memoized_settles (fun before hexact => .privately (.givenUp ?_ (Nat.succ_ne_self _))) hexact
    exact ⟨rfl, Nat.le_refl _, Nat.le_succ _, List.suffix_refl _, hexact⟩
  | succ levels ih =>
    have hanswers : Answers sides fun x y => do
        return (← memory.compareWithin sides levels x y).isEmpty :=
      fun x y before hexact => .bind (ih x y hexact) fun verdict after hsettles => .pure hsettles
    exact memoized_settles (fun before hexact => hanswers.rules a b hexact) hexact

end TaskM

/-- Equal nodes and rejections of the same declarations, or the same error. -/
inductive OutcomesAlike {α : Type} :
    Except RunError (α × List Rejection) → Except RunError (α × List Rejection) → Prop
  | merged {first second : α × List Rejection} (halike : ReportsAlike first second) :
    OutcomesAlike (.ok first) (.ok second)
  | failed (error : RunError) : OutcomesAlike (.error error) (.error error)

/-- A task that hits no limit ends as it would without workers. -/
def TaskResult.EndsAs (result : TaskResult)
    (told : Except RunError (List MergedNode × List Rejection)) : Prop :=
  result.limitHits = 0 → OutcomesAlike result.outcome told

namespace Sides

variable (sides : Sides)

/-- Steps of a worker that end as they would without it, unless a limit is hit. -/
def working : Simulation TaskM (Except RunError) where
  Rel R x y := ∀ before, before.cache.Exact sides → before.guard.visiting = [] →
    TaskM.Reaches sides x before
      (fun a after => Leads sides before after ∧
        (after.limitHits = before.limitHits → ∃ b, y = .ok b ∧ R a b))
      fun error hits => before.limitHits ≤ hits ∧ (hits = before.limitHits → y = .error error)
  pure hR before hexact _ := .pure ⟨.refl hexact, fun _ => ⟨_, rfl, hR⟩⟩
  bind := by
    intro α β R S x y f g hrefl hfirst hnext before hexact hidle result
      next hdone hend
    refine hfirst before hexact hidle _ _ (fun a middle hmiddle => ?_) ?_
    · obtain ⟨hlead, hquiet⟩ := hmiddle
      have hle := hlead.limitHits
      have hidle' := hlead.visiting.trans hidle
      by_cases hsame : middle.limitHits = before.limitHits
      · obtain ⟨b, rfl, hR⟩ := hquiet hsame
        refine hnext a b hR middle hlead.exact hidle' _ _ (fun c after hafter => ?_) ?_
        · refine hdone c after ⟨hlead.trans hafter.1, fun hlimit => ?_⟩
          exact hafter.2 (hlimit.trans hsame.symm)
        · rintro error hits ⟨hhits, herror⟩
          exact hend error hits ⟨Nat.le_trans hle hhits, fun hlimit => herror (hlimit.trans hsame.symm)⟩
      · -- A limit was hit, so that nothing is promised of the results any more.
        refine hnext a a (hrefl a) middle hlead.exact hidle' _ _ (fun c after hafter => ?_) ?_
        · have hle' := hafter.1.limitHits
          exact hdone c after ⟨hlead.trans hafter.1, fun hlimit => absurd hlimit (by omega)⟩
        · rintro error hits ⟨hhits, -⟩
          exact hend error hits ⟨Nat.le_trans hle hhits, fun hlimit => absurd hlimit (by omega)⟩
    · rintro error hits ⟨hhits, herror⟩
      refine hend error hits ⟨hhits, fun hlimit => ?_⟩
      rw [herror hlimit]
      rfl

variable {sides}

theorem working_attempt {α : Type} (step : Except RunError α) :
    sides.working.Rel Eq (TaskM.attempt step) step := by
  intro before hexact _ result next hdone hend
  cases step with
  | ok a => exact hdone a before ⟨.refl hexact, fun _ => ⟨a, rfl, rfl⟩⟩
  | error error => exact hend error _ ⟨Nat.le_refl _, fun _ => rfl⟩

/-- The task of a pairing ends as its merge would without workers. -/
theorem taskOf_ensures {merge : Pairing → TaskM Merged} {told : Pairing → Except RunError Merged}
    (hmerge : ∀ pairing, sides.working.Rel ReportsAlike (merge pairing) (told pairing))
    (pairing : Pairing) :
    (sides.taskOf merge pairing).Ensures sides fun result =>
      result.EndsAs (do let (node, rejections) ← told pairing; return ([node], rejections)) := by
  refine hmerge pairing (.new sides.options .empty) nofun rfl _ _ (fun merged after hafter => ?_) ?_
  · intro hlimit
    obtain ⟨other, htold, hnode, hsubjects⟩ := hafter.2 hlimit
    rw [htold]
    exact .merged ⟨congrArg ([·]) hnode, hsubjects⟩
  · rintro error hits ⟨-, herror⟩ hlimit
    rw [herror hlimit]
    exact .failed error

/-- Results put together end as one after the other would. -/
private theorem endsAs_join {result rest : TaskResult} {told : Except RunError Merged}
    {others : Except RunError (List MergedNode × List Rejection)}
    (hresult : result.EndsAs (do let (node, rejections) ← told; return ([node], rejections)))
    (hrest : rest.EndsAs others) :
    (result.join rest).EndsAs (do
      let (node, rejections) ← told
      let (nodes, more) ← others
      return (node :: nodes, rejections ++ more)) := by
  intro hlimit
  obtain ⟨hnone, hnone'⟩ := Nat.add_eq_zero_iff.mp hlimit
  have hfirst := hresult hnone
  have hsecond := hrest hnone'
  obtain ⟨outcome, hits⟩ := result
  obtain ⟨outcome', hits'⟩ := rest
  cases told with
  | error error =>
    cases hfirst
    exact .failed error
  | ok merged =>
    obtain ⟨halike⟩ := hfirst
    cases others with
    | error error =>
      cases hsecond
      exact .failed error
    | ok merged' =>
      obtain ⟨halike'⟩ := hsecond
      refine .merged ⟨?_, ?_⟩
      · rw [halike.1, halike'.1]
        rfl
      · rw [List.map_append, List.map_append, halike.2, halike'.2]

/-- A worker goes on with what its tasks end with, and takes over the limits that they hit. -/
private theorem reaches_of_endsAs {before : Session} (hexact : before.cache.Exact sides)
    {result : TaskResult} {told : Except RunError (List MergedNode × List Rejection)}
    (hends : result.EndsAs told) :
    TaskM.Reaches sides
      (fun session next => TaskM.attempt result.outcome
        { session with limitHits := session.limitHits + result.limitHits } next)
      before
      (fun merged after => Leads sides before after ∧
        (after.limitHits = before.limitHits → ∃ other, told = .ok other ∧ ReportsAlike merged other))
      fun error hits => before.limitHits ≤ hits ∧ (hits = before.limitHits → told = .error error) := by
  intro post next hdone hend
  obtain ⟨outcome, hits⟩ := result
  have hle : before.limitHits ≤ before.limitHits + hits := Nat.le_add_right _ _
  cases outcome with
  | ok merged =>
    refine hdone merged _ ⟨⟨rfl, Nat.le_refl _, hle, List.suffix_refl _, hexact⟩, fun hlimit => ?_⟩
    obtain ⟨halike⟩ := hends (Nat.left_eq_add.mp hlimit.symm)
    exact ⟨_, rfl, halike⟩
  | error error =>
    refine hend error _ ⟨hle, fun hlimit => ?_⟩
    cases hends (Nat.left_eq_add.mp hlimit.symm)
    rfl

variable (sides)

/-- The services of a worker are like those of the oracle. -/
theorem tasks_alike : Services.Alike sides.working.value sides.working sides.tasks sides.oracle where
  verdict a b before hexact hidle := by
    refine (TaskM.compareWithin_settles sides.levels a b hexact).mono
      (fun verdict after hsettles => ⟨hsettles.toLeads, fun hlimit => ⟨_, rfl, ?_⟩⟩) nofun
    exact sides.oracle_alike (hsettles.decides hidle hlimit)
  watched := by
    intro x y hstep before hexact hidle result next hdone hend
    refine hstep before hexact hidle _ _ (fun mismatch after hafter => ?_) ?_
    · refine hdone _ after ⟨hafter.1, fun hlimit => ⟨(y.run, true), rfl, ?_⟩⟩
      obtain ⟨b, hy, hR⟩ := hafter.2 hlimit
      cases hy
      exact ⟨hR, beq_iff_eq.mpr hlimit⟩
    · rintro error hits ⟨hhits, herror⟩
      refine hend error hits ⟨hhits, fun hlimit => ?_⟩
      cases herror hlimit
  lift := fun _ hstep => hstep
  attempt := working_attempt
  note a b := sides.working.done ()
  apart := by
    intro merge told hmerge plan before hexact hidle result next hdone hend
    refine Task.ensures_forkAll (fun plan r => r.EndsAs (Services.collect told plan))
      (fun _ => .merged (.refl _)) (fun pairing plan r s hr hs => endsAs_join hr hs) plan
      (taskOf_ensures hmerge) ?_
    exact fun r hr => reaches_of_endsAs hexact hr result next hdone hend

/-- A merge by workers ends as the oracle merges. -/
theorem mergeTask_endsAs : sides.mergeTask.Ensures sides fun ended => ended.EndsAs do
    let told ← sides.oracle.merge sides
    return (told.forest.roots, told.rejections) := by
  refine sides.tasks_alike.merge sides (.new sides.options .empty) nofun rfl _ _
    (fun merged after hafter hquiet => ?_) ?_
  · obtain ⟨told, htold, hforest, hsubjects⟩ := hafter.2 hquiet
    rw [htold]
    exact .merged ⟨congrArg MergedForest.roots hforest, hsubjects⟩
  · rintro error hits ⟨-, herror⟩ hquiet
    rw [herror hquiet]
    exact .failed error

variable {sides}

/-- A merge over an exact cache that hits no limit gives the forest that the oracle gives, and
rejects the same declarations, whoever does it. -/
theorem MergesTo.oracle {cache after : Cache} {result : MergeResult}
    (hmerges : sides.MergesTo cache result after 0) (hexact : cache.Exact sides) :
    ∃ told, sides.oracle.merge sides = .ok told ∧ result.Alike told := by
  cases hmerges with
  | session hmerge _ hlimit => exact sides.merge_oracle hexact hmerge hlimit
  | workers hschedule =>
    have hends : OutcomesAlike _ _ := (sides.mergeTask_endsAs.schedule hschedule hexact).2 rfl
    cases htold : sides.oracle.merge sides with
    | error error =>
      rw [htold] at hends
      cases hends
    | ok told =>
      rw [htold] at hends
      cases hends with
      | merged hreports =>
        exact ⟨told, rfl, congrArg MergedForest.mk hreports.1, hreports.2⟩

end Sides

end Concord
