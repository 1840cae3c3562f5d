import Concord.Proofs.Comparison.Filled
import Concord.Proofs.Comparison.Tracing
import Concord.Proofs.Logic.Tasks

namespace Concord

namespace Mismatch

/-- A verdict that does not name the limit. -/
def LimitFree (verdict : Mismatch) : Prop :=
  .recursionLimit ∉ verdict.causes

variable {mismatch : Mismatch} {cause : Cause} {holds : Bool}

@[simp] theorem limitFree_none : none.LimitFree :=
  List.not_mem_nil

@[simp] theorem limitFree_ofCause : (ofCause cause).LimitFree ↔ cause ≠ .recursionLimit := by
  rw [LimitFree, ofCause, List.mem_singleton, ne_comm]

@[simp] theorem limitFree_push :
    (mismatch.push cause).LimitFree ↔ mismatch.LimitFree ∧ cause ≠ .recursionLimit := by
  simp only [LimitFree, push]
  split
  · next hmem =>
    refine (and_iff_left_of_imp fun hfree hsame => hfree ?_).symm
    rw [← hsame]
    exact List.contains_iff_mem.mp hmem
  · rw [List.mem_append, List.mem_singleton, not_or, ne_comm]

@[simp] theorem limitFree_require : (mismatch.require holds cause).LimitFree ↔
    mismatch.LimitFree ∧ (holds = true ∨ cause ≠ .recursionLimit) := by
  cases holds <;> simp [require]

/-- A cause that is there at most once is there once after it was added. -/
theorem count_push_self (honce : mismatch.causes.count cause ≤ 1) :
    (mismatch.push cause).causes.count cause = 1 := by
  rw [push]
  split
  · next hmem => exact Nat.le_antisymm honce (List.count_pos_iff.mpr (List.contains_iff_mem.mp hmem))
  · next hmem =>
    rw [List.count_append, List.count_singleton_self, List.count_eq_zero.mpr]
    exact fun h => hmem (List.contains_iff_mem.mpr h)

end Mismatch

/-- A cache in which no verdict names the limit. -/
def Cache.LimitFree : Cache → Prop :=
  Cache.Admits fun _ verdict => verdict.LimitFree

/-- From one session to another: the same pairs are under way, and no limit hit is forgotten. -/
structure Session.Climbs (before after : Session) : Prop where
  visiting : after.guard.visiting = before.guard.visiting
  hits : before.limitHits ≤ after.limitHits

namespace Session.Climbs

variable {before middle after : Session}

theorem refl (session : Session) : session.Climbs session :=
  ⟨rfl, Nat.le_refl _⟩

theorem trans (hfirst : before.Climbs middle) (hsecond : middle.Climbs after) :
    before.Climbs after :=
  ⟨hsecond.visiting.trans hfirst.visiting, Nat.le_trans hfirst.hits hsecond.hits⟩

end Session.Climbs

/-- What a comparison says on the way names the limit at most once, and only if one was hit. -/
structure Session.Counts (before after : Session) (verdict : Mismatch) : Prop
    extends Climbs before after where
  limit : .recursionLimit ∈ verdict.causes → before.limitHits < after.limitHits
  once : verdict.causes.count .recursionLimit ≤ 1

namespace Session.Counts

variable {before after : Session} {verdict : Mismatch}

theorem of_limitFree (hclimbs : before.Climbs after) (hfree : verdict.LimitFree) :
    Counts before after verdict :=
  ⟨hclimbs, fun hmem => absurd hmem hfree, by simp [List.count_eq_zero.mpr hfree]⟩

/-- The verdict of a comparison that is turned down. -/
theorem giveUp (hclimbs : before.Climbs after) (hhits : before.limitHits < after.limitHits) :
    Counts before after (.ofCause .recursionLimit) :=
  ⟨hclimbs, fun _ => hhits, by decide⟩

/-- A pair that was entered is left. -/
theorem leaving {pair : Pair} {entered : Session} (hrules : Counts entered after verdict)
    (hvisiting : entered.guard.visiting = pair :: before.guard.visiting)
    (hhits : entered.limitHits = before.limitHits) : Counts before (after.leaving pair) verdict := by
  have hleft : (after.leaving pair).guard.visiting = before.guard.visiting := by
    simp [Session.leaving, Guard.leave, hrules.visiting.trans hvisiting]
  exact ⟨⟨hleft, hhits ▸ hrules.hits⟩, fun hmem => hhits ▸ hrules.limit hmem, hrules.once⟩

end Session.Counts

open ProgramLogic (RunsWhile)
open Session (Climbs Counts)

/-- No rule on two classifiers fails for a limit. -/
private theorem classifierFailures_limitFree (sides : Sides) (a b : DeclId)
    (answer : DeclId → DeclId → Bool) :
    (classifierFailures (m := Id) sides answer a b).run.LimitFree := by
  have haliased (failed : Mismatch) (hfailed : failed.LimitFree)
      (targetA targetB : Except Unshareable AliasedClass) :
      (aliasedClassFailures failed targetA targetB).LimitFree := by
    cases targetA <;> cases targetB <;> simp [aliasedClassFailures, hfailed]
  simp only [classifierFailures]
  split
  · simp
  split
  · simp
  split
  · simp [classFailures]
  · exact haliased _ (by simp) _ _
  · simp

namespace Memory

variable {n : Type → Type} [Monad n] {memory : Memory n} {logic : ProgramLogic n}

section Rules

variable {answer : DeclId → DeclId → n Bool}
  (hanswer : ∀ x y before, logic.wp (answer x y) (fun _ after => Climbs before after) before)
include hanswer

private theorem ask_climbs (questions : Questions) (before : Session) :
    logic.wp (questions.ask answer) (fun _ after => Climbs before after) before := by
  obtain ⟨pairs, verdict⟩ := questions
  induction pairs generalizing before with
  | nil => exact logic.pure (.refl _)
  | cons pair pairs ih =>
    refine logic.bind (logic.mono (hanswer pair.1 pair.2 before) fun yes middle hfirst => ?_)
    cases yes with
    | false => exact logic.pure hfirst
    | true => exact logic.mono (ih middle) fun _ _ hrest => hfirst.trans hrest

/-- The rules on two classifiers count what their questions count, and do not name the limit. -/
private theorem rules_counts [LawfulMonad n] (sides : Sides) (a b : DeclId) (before : Session) :
    logic.wp (classifierFailures sides answer a b)
      (fun failed after => Counts before after failed) before := by
  obtain ⟨rules, hrules⟩ := classifierFailures_isRuleQuestions sides a b
  have hfailed : rules.failed.LimitFree := by
    have hfree := classifierFailures_limitFree sides a b fun _ _ => true
    have hrun : classifierFailures (m := Id) sides (fun _ _ => true) a b =
        rules.ask fun _ _ => true := hrules _
    rw [hrun] at hfree
    exact (Mismatch.limitFree_require.mp (Mismatch.limitFree_require.mp hfree).1).1
  simp only [hrules answer]
  refine logic.bind (logic.mono (ask_climbs hanswer rules.parameters before)
    fun parameters middle hfirst => ?_)
  refine logic.bind (logic.mono (ask_climbs hanswer rules.containers middle)
    fun containers after hsecond => logic.pure ?_)
  exact .of_limitFree (hfirst.trans hsecond) (by simp [hfailed])

end Rules

variable (hmemory : memory.Admits logic fun _ verdict => verdict.LimitFree)
include hmemory

private theorem memoized_counts {pair : Pair} {rules : n Mismatch}
    (hrules : ∀ before, logic.wp rules (fun failed after => Counts before after failed) before)
    (before : Session) :
    logic.wp (memory.memoized pair rules) (fun verdict after => Counts before after verdict)
      before := by
  refine hmemory.memoized (fun verdict cache hfree => ?_) (fun guard cache _ hvisiting => ?_)
    (fun guard cache hvisiting => ?_) fun guard cache hvisiting => ?_
  · exact .of_limitFree ⟨rfl, Nat.le_refl _⟩ hfree
  · exact .of_limitFree ⟨hvisiting, Nat.le_refl _⟩ Mismatch.limitFree_none
  · exact .giveUp ⟨hvisiting, Nat.le_succ _⟩ (Nat.lt_succ_self _)
  · refine logic.mono (hrules _) fun verdict after hcounts => ?_
    have hleft : Counts before (after.leaving pair) verdict := hcounts.leaving hvisiting rfl
    refine ⟨hleft, fun hdefinite => ⟨fun hmem => ?_, fun stored cache hstored => ?_⟩⟩
    · have hsame : (after.leaving pair).limitHits = before.limitHits :=
        beq_iff_eq.mp (Bool.and_eq_true_iff.mp hdefinite).2
      exact absurd hsame (Nat.ne_of_gt (hleft.limit hmem))
    · exact .of_limitFree ⟨hleft.visiting, hleft.hits⟩ hstored

/-- Every comparison of two classifiers counts the limits that it names. -/
theorem compareWithin_counts [LawfulMonad n] (sides : Sides) (levels : Nat) (a b : DeclId)
    (before : Session) :
    logic.wp (memory.compareWithin sides levels a b)
      (fun verdict after => Counts before after verdict) before := by
  induction levels generalizing a b before with
  | zero =>
    refine memoized_counts hmemory (fun before => hmemory.privately rfl ?_) before
    exact .giveUp ⟨rfl, Nat.le_succ _⟩ (Nat.lt_succ_self _)
  | succ levels ih =>
    refine memoized_counts hmemory (rules_counts (fun x y before => ?_) sides a b) before
    exact logic.bind (logic.mono (ih x y before) fun verdict after hcounts =>
      logic.pure hcounts.toClimbs)

end Memory

section Verdicts

variable (sides : Sides) (a b : DeclId)

/-- Over a cache in which no verdict names the limit, a comparison of two classifiers counts the
limits that it names, and remembers none of them. -/
theorem Sides.compareClassifiers_counts {before : Session} (hcache : before.cache.LimitFree) :
    let (verdict, after) := (sides.compareClassifiers a b).run before
    after.cache.LimitFree ∧ Counts before after verdict := by
  rw [compareClassifiers, ← Session.memory_compareWithin]
  exact Memory.compareWithin_counts (Session.memory_admits _) sides _ a b before hcache

/-- What comparisons put into a cache does not name the limit. -/
theorem Cache.Filled.limitFree {first second : Tree} {cache : Cache}
    (hfilled : cache.Filled first second) : cache.LimitFree := by
  refine hfilled.invariant nofun (fun options a b before hidle hcache => ?_) fun options a b => ?_
  · obtain ⟨hfree, hcounts⟩ := Sides.compareClassifiers_counts _ a b hcache
    exact ⟨hfree, hcounts.visiting.trans hidle, trivial⟩
  · intro before hidle
    exact ProgramLogic.mono _ (Memory.compareWithin_counts (TaskM.memory_admits _) _ _ a b before)
      fun verdict after hcounts => ⟨hcounts.visiting.trans hidle, trivial⟩

end Verdicts

namespace Services

variable {n m : Type → Type} [Monad n] [LawfulMonad n] {logic : ProgramLogic n} (sides : Sides)

section Checks

variable {ask : DeclId → DeclId → n Bool} (hask : ∀ x y, logic.Runs (ask x y))
include hask

private theorem valueFailures_limitFree (a b : DeclId) :
    logic.Gives (valueFailures sides ask a b) Mismatch.LimitFree := by
  simp only [valueFailures]
  split
  · exact .bind (RunsWhile.check hask (typesAgree_isQuestions sides _ _)) fun types _ =>
      .pure (by simp)
  · exact .pure (by simp)

private theorem parameterFailures_limitFree (place : Nat) (as bs : List DeclId)
    {failed : Mismatch} (hfailed : failed.LimitFree) :
    logic.Gives (parameterFailures sides ask place as bs failed) Mismatch.LimitFree := by
  induction as generalizing place bs failed with
  | nil => exact .pure hfailed
  | cons a as ih =>
    cases bs with
    | nil => exact .pure hfailed
    | cons b bs =>
      exact .bind (valueFailures_limitFree sides hask a b) fun mismatch _ =>
        ih _ _ (by simp [hfailed])

private theorem functionFailures_limitFree (a b : DeclId) (dataA dataB : Data)
    (infoA infoB : FunctionInfo ClassifierRef) :
    logic.Gives (functionFailures sides ask a b dataA dataB infoA infoB) Mismatch.LimitFree := by
  refine .bind (RunsWhile.check hask (typesAgree_isQuestions sides _ _)) fun types _ => ?_
  refine .bind (RunsWhile.check hask (optionalTypesAgree_isQuestions sides _ _)) fun receivers _ => ?_
  refine .bind (RunsWhile.check hask (typeParametersAgree_isQuestions sides _ _)) fun parameters _ => ?_
  exact .ite (fun _ => parameterFailures_limitFree sides hask 0 _ _ (by simp)) fun _ =>
    .pure (by simp)

private theorem propertyFailures_limitFree (dataA dataB : Data)
    (infoA infoB : PropertyInfo ClassifierRef) :
    logic.Gives (propertyFailures sides ask dataA dataB infoA infoB) Mismatch.LimitFree := by
  refine .bind (RunsWhile.check hask (typesAgree_isQuestions sides _ _)) fun types _ => ?_
  refine .bind (RunsWhile.check hask (typeParametersAgree_isQuestions sides _ _)) fun parameters _ => ?_
  refine .bind (RunsWhile.check hask (optionalTypesAgree_isQuestions sides _ _)) fun receivers _ => ?_
  exact .pure (by simp)

end Checks

/-- Of all rules on two declarations, only those on two classifiers may fail for a limit. -/
private theorem failuresOf_limitFree (services : Services n m)
    (hverdict : ∀ a b, logic.Runs (services.verdict a b)) (a b : DeclId) :
    services.failuresOf sides a b = services.verdict a b ∨
      logic.Gives (services.failuresOf sides a b) Mismatch.LimitFree := by
  have hask (x y : DeclId) : logic.Runs (services.shareable x y) :=
    .bind (hverdict x y) fun _ _ => .pure trivial
  have hcause {cause : Cause} (hne : cause ≠ .recursionLimit) :
      logic.Gives (Pure.pure (Mismatch.ofCause cause)) Mismatch.LimitFree :=
    .pure (Mismatch.limitFree_ofCause.mpr hne)
  have hname (agree : Bool) :
      logic.Gives (Pure.pure (Mismatch.none.require agree .names)) Mismatch.LimitFree :=
    .pure (by simp)
  simp only [failuresOf]
  split
  · exact .inr (hcause (by simp))
  split
  · exact .inr (hcause (by simp))
  split
  · exact .inr (hcause (by simp))
  split
  · exact .inr (functionFailures_limitFree sides hask a b _ _ _ _)
  · exact .inr (propertyFailures_limitFree sides hask _ _ _ _)
  · exact .inr (valueFailures_limitFree sides hask a b)
  · exact .inr (hname _)
  · exact .inr (hname _)
  · exact .inl rfl

end Services

/-- Over a cache in which no verdict names the limit, the rules on two declarations that fail count
the limits that they name. -/
theorem Sides.failuresOf_counts (sides : Sides) (a b : DeclId) {before : Session}
    (hidle : before.guard.visiting = []) (hcache : before.cache.LimitFree) :
    let (failed, after) := (sides.failuresOf a b).run before
    after.cache.LimitFree ∧ Counts before after failed := by
  have hclassifiers (x y : DeclId) : Session.Keeps
      (fun session => before.Climbs session ∧ session.cache.LimitFree)
      (sides.compareClassifiers x y) := fun session hsession => by
    obtain ⟨hfree, hcounts⟩ := sides.compareClassifiers_counts x y hsession.2
    exact ⟨hsession.1.trans hcounts.toClimbs, hfree⟩
  obtain ⟨hclimbs, hfree⟩ :=
    Session.Keeps.failuresOf hclassifiers a b before ⟨.refl before, hcache⟩
  obtain hverdict | hgives :=
    Services.failuresOf_limitFree sides sides.services Session.verdict_runs a b
  · have hsame : sides.failuresOf a b = sides.compareClassifiers a b := hverdict
    rw [hsame]
    exact sides.compareClassifiers_counts a b hcache
  · exact ⟨hfree, .of_limitFree hclimbs (hgives before hidle trivial).2.2⟩

end Concord
