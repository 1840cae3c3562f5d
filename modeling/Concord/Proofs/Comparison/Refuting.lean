import Concord.Proofs.Comparison.Causes
import Concord.Proofs.Comparison.Exactness

namespace Concord

namespace Cache

/-- No verdict on any of some pairs is remembered. -/
def Unknown (cache : Cache) (pairs : List Pair) : Prop :=
  ∀ pair ∈ pairs, cache.find? pair = none

/-- Every remembered verdict lists the rules that its pair failed while other pairs were under way.
A no stands, whatever is assumed of pairs without verdicts. -/
structure Grounded (sides : Sides) (cache : Cache) : Prop where
  reached : ∀ pair verdict, cache.find? pair = some verdict → ∃ above, sides.Nested (pair :: above) ∧
    verdict = sides.failuresGiven (sides.ShareableGiven (pair :: above)) pair.1 pair.2
  refuted : ∀ pair verdict, cache.find? pair = some verdict → verdict.isEmpty = false →
    ∀ assumed, cache.Unknown assumed → ¬sides.ShareableGiven assumed pair.1 pair.2

variable {sides : Sides} {cache : Cache} {pair : Pair} {verdict : Mismatch}

theorem find?_of_entries {other : Cache} (hentries : other.entries = cache.entries) (pair : Pair) :
    other.find? pair = cache.find? pair := by
  rw [find?, find?, hentries]

theorem find?_insert (hfind : cache.find? pair = none) (verdict : Mismatch) (other : Pair) :
    (cache.insert pair verdict).2.find? other =
      if other = pair then some verdict else cache.find? other := by
  rw [insert, hfind, find?, List.lookup_cons]
  by_cases hsame : other = pair
  · rw [if_pos hsame, hsame, beq_self_eq_true]
  · rw [if_neg hsame, beq_eq_false_iff_ne.mpr hsame]
    rfl

/-- What a cache lacks, it lacked before it gained entries. -/
theorem Unknown.of_suffix {other : Cache} {pairs : List Pair} (hunknown : other.Unknown pairs)
    (hentries : cache.entries <:+ other.entries) : cache.Unknown pairs := by
  intro pair hpair
  have hnone := hunknown pair hpair
  rw [find?, List.lookup_eq_none_iff] at hnone ⊢
  exact fun entry hentry => hnone entry (hentries.subset hentry)

theorem Grounded.of_entries {other : Cache} (hgrounded : cache.Grounded sides)
    (hentries : other.entries = cache.entries) : other.Grounded sides := by
  have hfind := find?_of_entries hentries
  refine ⟨fun pair verdict hverdict => ?_, fun pair verdict hverdict hno assumed hunknown => ?_⟩
  · rw [hfind] at hverdict
    exact hgrounded.reached pair verdict hverdict
  · rw [hfind] at hverdict
    refine hgrounded.refuted pair verdict hverdict hno assumed fun other hother => ?_
    rw [← hfind]
    exact hunknown other hother

/-- Storing a verdict that lists what fails, and whose no can be told from the cache. -/
theorem Grounded.insert {above : List Pair} (hgrounded : cache.Grounded sides)
    (hfind : cache.find? pair = none) (hnested : sides.Nested (pair :: above))
    (hverdict : verdict =
      sides.failuresGiven (sides.ShareableGiven (pair :: above)) pair.1 pair.2)
    (hrefuted : verdict.isEmpty = false → ∀ assumed, cache.Unknown assumed →
      ¬sides.RulesHold (sides.ShareableGiven assumed) pair.1 pair.2) :
    (cache.insert pair verdict).2.Grounded sides := by
  have hunknown {assumed : List Pair} (hassumed : (cache.insert pair verdict).2.Unknown assumed) :
      pair ∉ assumed ∧ cache.Unknown assumed := by
    refine ⟨fun hmem => ?_, fun other hother => ?_⟩
    · have hnone := hassumed pair hmem
      rw [find?_insert hfind, if_pos rfl] at hnone
      cases hnone
    · have hnone := hassumed other hother
      rw [find?_insert hfind] at hnone
      split at hnone
      · cases hnone
      · exact hnone
  refine ⟨fun other stored hstored => ?_, fun other stored hstored hno assumed hassumed => ?_⟩
  · rw [find?_insert hfind] at hstored
    split at hstored
    · next hsame =>
      cases hstored
      rw [hsame]
      exact ⟨above, hnested, hverdict⟩
    · exact hgrounded.reached other stored hstored
  · obtain ⟨hfresh, hassumed⟩ := hunknown hassumed
    rw [find?_insert hfind] at hstored
    split at hstored
    · next hsame =>
      cases hstored
      rw [hsame]
      intro hshare
      exact hrefuted hno assumed hassumed (hshare.unfold.resolve_left hfresh)
    · exact hgrounded.refuted other stored hstored hno assumed hassumed

end Cache

namespace Session

/-- A session whose cache is exact and grounded, and in which the pairs under way ask one another
and have no verdicts yet. -/
structure Ready (sides : Sides) (session : Session) : Prop where
  exact : session.cache.Exact sides
  grounded : session.cache.Grounded sides
  unknown : session.cache.Unknown session.guard.visiting
  nested : sides.Nested session.guard.visiting

/-- An answer that settles a question, and whose no can be told from what is remembered then. -/
structure Decides (sides : Sides) (meaning : List Pair → Prop) (before after : Session)
    (yes : Bool) : Prop extends Settles sides meaning before after yes where
  ready : after.Ready sides
  told : yes = false → after.limitHits = before.limitHits → ∀ assumed,
    after.cache.Unknown assumed → ¬meaning assumed

variable {sides : Sides} {before middle after : Session}

/-- Where no limit is hit, an answer says whether the question holds given the pairs under way. -/
theorem Decides.iff {meaning : List Pair → Prop} {yes : Bool}
    (hdecides : Decides sides meaning before after yes)
    (hlimit : after.limitHits = before.limitHits) :
    yes = true ↔ meaning before.guard.visiting := by
  refine ⟨hdecides.given, fun hmeaning => ?_⟩
  cases yes with
  | true => rfl
  | false =>
    have hunknown := hdecides.ready.unknown
    rw [hdecides.visiting] at hunknown
    exact absurd hmeaning (hdecides.told rfl hlimit _ hunknown)

section Questions

variable {pair : Pair} {pairs : List Pair} {verdict yes : Bool}

private theorem Decides.noQuestions (hready : before.Ready sides) :
    Decides sides (fun assumed => (⟨[], verdict⟩ : Questions).Hold (sides.ShareableGiven assumed))
      before before verdict := by
  refine ⟨.noQuestions (.refl hready.exact), hready, ?_⟩
  intro hno _ assumed _ hmeaning
  exact Bool.eq_false_iff.mp hno hmeaning.1

private theorem Decides.firstNo (hfirst : Decides sides
      (fun assumed => sides.ShareableGiven assumed pair.1 pair.2) before after false) :
    Decides sides
      (fun assumed => (⟨pair :: pairs, verdict⟩ : Questions).Hold (sides.ShareableGiven assumed))
      before after false := by
  refine ⟨.firstNo hfirst.toSettles, hfirst.ready, ?_⟩
  intro _ hlimit assumed hunknown hmeaning
  exact hfirst.told rfl hlimit assumed hunknown (hmeaning.2 pair List.mem_cons_self)

private theorem Decides.firstYes (hfirst : Decides sides
      (fun assumed => sides.ShareableGiven assumed pair.1 pair.2) before middle true)
    (hrest : Decides sides
      (fun assumed => (⟨pairs, verdict⟩ : Questions).Hold (sides.ShareableGiven assumed))
      middle after yes) :
    Decides sides
      (fun assumed => (⟨pair :: pairs, verdict⟩ : Questions).Hold (sides.ShareableGiven assumed))
      before after yes := by
  have hlimits := hfirst.limitHits
  have hlimits' := hrest.limitHits
  refine ⟨.firstYes hfirst.toSettles hrest.toSettles, hrest.ready, ?_⟩
  intro hno hlimit assumed hunknown hmeaning
  refine hrest.told hno (by omega) assumed hunknown ⟨hmeaning.1, fun other hother => ?_⟩
  exact hmeaning.2 other (List.mem_cons_of_mem _ hother)

end Questions

/-- Rules are decided when both lists of questions are. -/
private theorem Decides.rules {rules : RuleQuestions} {parameters containers : Bool}
    (hfirst : Decides sides (fun assumed => rules.parameters.Hold (sides.ShareableGiven assumed))
      before middle parameters)
    (hsecond : Decides sides (fun assumed => rules.containers.Hold (sides.ShareableGiven assumed))
      middle after containers) :
    Decides sides (fun assumed => rules.Hold (sides.ShareableGiven assumed)) before after
      ((rules.failed.require parameters .typeParameters).require containers .containers).isEmpty := by
  have hlimits := hfirst.limitHits
  have hlimits' := hsecond.limitHits
  refine ⟨.rules hfirst.toSettles hsecond.toSettles, hsecond.ready, ?_⟩
  intro hno hlimit assumed hunknown hmeaning
  cases parameters with
  | false =>
    exact hfirst.told rfl (by omega) assumed (hunknown.of_suffix hsecond.entries) hmeaning.2.1
  | true =>
    cases containers with
    | false => exact hsecond.told rfl (by omega) assumed hunknown hmeaning.2.2
    | true => simp [hmeaning.1] at hno

open Classical in
/-- Where no limit is hit, both answers are told by shareability given the pairs under way. -/
private theorem Decides.both {rules : RuleQuestions} {parameters containers : Bool}
    (hfirst : Decides sides (fun assumed => rules.parameters.Hold (sides.ShareableGiven assumed))
      before middle parameters)
    (hsecond : Decides sides (fun assumed => rules.containers.Hold (sides.ShareableGiven assumed))
      middle after containers)
    (hlimit : after.limitHits = before.limitHits) :
    parameters = decide (rules.parameters.Hold (sides.ShareableGiven before.guard.visiting)) ∧
      containers = decide (rules.containers.Hold (sides.ShareableGiven before.guard.visiting)) := by
  have hlimits := hfirst.limitHits
  have hlimits' := hsecond.limitHits
  have hsecond := hsecond.iff (by omega)
  rw [hfirst.visiting] at hsecond
  have hfirst := hfirst.iff (by omega)
  exact ⟨Bool.eq_iff_iff.mpr (hfirst.trans decide_eq_true_iff.symm),
    Bool.eq_iff_iff.mpr (hsecond.trans decide_eq_true_iff.symm)⟩

/-- A step that decides pairs which the innermost pair under way asks. -/
def Decider (sides : Sides) (answer : DeclId → DeclId → StateM Session Bool) : Prop :=
  ∀ x y before, before.Ready sides → sides.Nested ((x, y) :: before.guard.visiting) →
    Decides sides (fun assumed => sides.ShareableGiven assumed x y) before
      ((answer x y).run before).2 ((answer x y).run before).1

section Rules

variable {answer : DeclId → DeclId → StateM Session Bool} (hanswer : Decider sides answer)
include hanswer

/-- Questions are decided when each single one is. -/
private theorem Decider.ask (questions : Questions) (hready : before.Ready sides)
    (hasked : ∀ pair ∈ questions.pairs, sides.Nested (pair :: before.guard.visiting)) :
    Decides sides (fun assumed => questions.Hold (sides.ShareableGiven assumed)) before
      ((questions.ask answer).run before).2 ((questions.ask answer).run before).1 := by
  obtain ⟨pairs, verdict⟩ := questions
  induction pairs generalizing before with
  | nil => exact .noQuestions hready
  | cons pair pairs ih =>
    have hfirst := hanswer pair.1 pair.2 before hready (hasked pair List.mem_cons_self)
    simp only [Questions.ask, Questions.askAll, run_bind] at ih ⊢
    generalize hrun : (answer pair.1 pair.2).run before = result at hfirst ⊢
    obtain ⟨yes, middle⟩ := result
    cases yes with
    | false => exact .firstNo hfirst
    | true =>
      have hvisiting : middle.guard.visiting = before.guard.visiting := hfirst.visiting
      refine .firstYes hfirst (ih hfirst.ready fun other hother => ?_)
      rw [hvisiting]
      exact hasked other (List.mem_cons_of_mem _ hother)

/-- The rules on the innermost pair under way are decided. Where no limit is hit, they list what
fails when shareability given the pairs under way answers their questions. -/
private theorem Decider.rules {a b : DeclId} {above : List Pair} (hready : before.Ready sides)
    (hvisiting : before.guard.visiting = (a, b) :: above) {verdict : Mismatch}
    (hrun : (classifierFailures sides answer a b).run before = (verdict, after)) :
    Decides sides (fun assumed => sides.RulesHold (sides.ShareableGiven assumed) a b) before after
        verdict.isEmpty ∧
      (after.limitHits = before.limitHits →
        verdict = sides.failuresGiven (sides.ShareableGiven ((a, b) :: above)) a b) := by
  obtain ⟨rules, hrules⟩ := classifierFailures_isRuleQuestions sides a b
  have hasked (pair : Pair) (hpair : pair ∈ rules.parameters.pairs ++ rules.containers.pairs) :
      sides.Nested (pair :: before.guard.visiting) := by
    have hnested := hready.nested
    rw [hvisiting] at hnested ⊢
    refine List.isChain_cons_cons.mpr ⟨?_, hnested⟩
    rwa [Sides.Asks, Sides.questionsOf_eq hrules]
  have hfirst := hanswer.ask rules.parameters hready fun pair hpair =>
    hasked pair (List.mem_append_left _ hpair)
  obtain ⟨⟨parameters, middle⟩, hparameters⟩ :
      ∃ result, (rules.parameters.ask answer).run before = result := ⟨_, rfl⟩
  rw [hparameters] at hfirst
  have hsecond := hanswer.ask rules.containers hfirst.ready fun pair hpair => by
    rw [hfirst.visiting]
    exact hasked pair (List.mem_append_right _ hpair)
  obtain ⟨⟨containers, last⟩, hcontainers⟩ :
      ∃ result, (rules.containers.ask answer).run middle = result := ⟨_, rfl⟩
  rw [hcontainers] at hsecond
  have hsteps : classifierFailures sides answer a b = rules.ask answer := hrules answer
  rw [hsteps, RuleQuestions.ask, run_bind, hparameters, run_bind, hcontainers] at hrun
  cases hrun
  simp only [sides.rulesHold_iff hrules]
  refine ⟨.rules hfirst hsecond, fun hlimit => ?_⟩
  obtain ⟨hholds, hholds'⟩ := Decides.both hfirst hsecond hlimit
  rw [hvisiting] at hholds hholds'
  rw [Sides.failuresGiven_eq hrules, ← hholds, ← hholds']

end Rules

section Memory

variable {a b : DeclId}

/-- A state that leads on from another is ready where the rest of its cache is known. -/
private theorem Ready.of_entries (hready : before.Ready sides) {after : Session}
    (hentries : after.cache.entries = before.cache.entries)
    (hvisiting : after.guard.visiting = before.guard.visiting) : after.Ready sides := by
  refine ⟨?_, hready.grounded.of_entries hentries, fun pair hpair => ?_, ?_⟩
  · rw [Cache.Exact, hentries]
    exact hready.exact
  · rw [Cache.find?_of_entries hentries]
    rw [hvisiting] at hpair
    exact hready.unknown pair hpair
  · rw [hvisiting]
    exact hready.nested

/-- A pair that is entered is under way, and has no verdict. -/
private theorem Ready.attempted (hready : before.Ready sides)
    (hfind : before.cache.find? (a, b) = none)
    (hnested : sides.Nested ((a, b) :: before.guard.visiting))
    (hvisiting : (before.attempted (a, b)).guard.visiting = (a, b) :: before.guard.visiting) :
    (before.attempted (a, b)).Ready sides := by
  have hentries : (before.attempted (a, b)).cache.entries = before.cache.entries :=
    Cache.entries_get _ _
  refine ⟨?_, hready.grounded.of_entries hentries, fun pair hpair => ?_, ?_⟩
  · rw [Cache.Exact, hentries]
    exact hready.exact
  · rw [Cache.find?_of_entries hentries]
    rw [hvisiting] at hpair
    obtain rfl | hpair := List.mem_cons.mp hpair
    · exact hfind
    · exact hready.unknown pair hpair
  · rw [hvisiting]
    exact hnested

/-- A state that leaves the innermost pair is ready for the others. -/
private theorem Ready.leaving {pair : Pair} {above : List Pair} (hready : before.Ready sides)
    (hvisiting : before.guard.visiting = pair :: above) : (before.leaving pair).Ready sides := by
  have hleft : (before.leaving pair).guard.visiting = above := by
    simp [Session.leaving, Guard.leave, hvisiting]
  have hunknown := hready.unknown
  have hnested := hready.nested
  rw [hvisiting] at hunknown hnested
  refine ⟨hready.exact, hready.grounded, fun other hother => ?_, ?_⟩
  · rw [hleft] at hother
    exact hunknown other (List.mem_cons_of_mem _ hother)
  · rw [hleft]
    exact hnested.of_cons

/-- Storing the verdict on a pair that was just left keeps a state ready for the others. -/
private theorem Ready.store {pair : Pair} {verdict : Mismatch} (hready : before.Ready sides)
    (hexact : ((store pair verdict).run before).2.cache.Exact sides)
    (hfind : before.cache.find? pair = none)
    (hnested : sides.Nested (pair :: before.guard.visiting))
    (hfresh : pair ∉ before.guard.visiting)
    (hverdict : verdict = sides.failuresGiven
      (sides.ShareableGiven (pair :: before.guard.visiting)) pair.1 pair.2)
    (hrefuted : verdict.isEmpty = false → ∀ assumed, before.cache.Unknown assumed →
      ¬sides.RulesHold (sides.ShareableGiven assumed) pair.1 pair.2) :
    ((store pair verdict).run before).2.Ready sides := by
  refine ⟨hexact, hready.grounded.insert hfind hnested hverdict hrefuted, fun other hother => ?_,
    hready.nested⟩
  refine (Cache.find?_insert hfind verdict other).trans ?_
  rw [if_neg]
  · exact hready.unknown other hother
  · rintro rfl
    exact hfresh hother

/-- What a verdict on a pair tells. Where no limit is hit, it lists what the pair fails when
shareability given some pairs, one inside the other, answers the questions. Where no verdict was
remembered, these are the pairs under way. -/
def Lists (sides : Sides) (pair : Pair) (before after : Session) (verdict : Mismatch) : Prop :=
  after.limitHits = before.limitHits → pair ∉ before.guard.visiting →
    ∃ above, sides.Nested (pair :: above) ∧
      verdict = sides.failuresGiven (sides.ShareableGiven (pair :: above)) pair.1 pair.2 ∧
      (before.cache.find? pair = none → above = before.guard.visiting)

section Memoized

variable {rules : StateM Session Mismatch} (hready : before.Ready sides)
  (hnested : sides.Nested ((a, b) :: before.guard.visiting))
  (hsettles : Settles sides (fun assumed => sides.ShareableGiven assumed a b) before
    ((memoized (a, b) rules).run before).2 ((memoized (a, b) rules).run before).1.isEmpty)
  (hrules : ∀ {entered after : Session} {verdict : Mismatch}, entered.Ready sides →
    entered.guard.visiting = (a, b) :: before.guard.visiting →
    rules.run entered = (verdict, after) →
    Decides sides (fun assumed => sides.RulesHold (sides.ShareableGiven assumed) a b) entered after
        verdict.isEmpty ∧
      (after.limitHits = entered.limitHits → verdict = sides.failuresGiven
        (sides.ShareableGiven ((a, b) :: before.guard.visiting)) a b))
include hready hnested hsettles hrules

/-- The verdict of the rules on a pair that is entered is the verdict on the pair, and is stored
when it is definite. -/
private theorem entered_decides (hfind : before.cache.find? (a, b) = none)
    (henter : (before.guard.enter (a, b)).1 = .entered)
    (hvisiting : (before.guard.enter (a, b)).2.visiting = (a, b) :: before.guard.visiting) :
    Decides sides (fun assumed => sides.ShareableGiven assumed a b) before
        ((memoized (a, b) rules).run before).2 ((memoized (a, b) rules).run before).1.isEmpty ∧
      Lists sides (a, b) before ((memoized (a, b) rules).run before).2
        ((memoized (a, b) rules).run before).1 := by
  obtain ⟨⟨verdict, middle⟩, hrun⟩ :
      ∃ result, rules.run (before.attempted (a, b)) = result := ⟨_, rfl⟩
  have hentered : (before.attempted (a, b)).Ready sides := hready.attempted hfind hnested hvisiting
  obtain ⟨hdecides, hlisted⟩ := hrules hentered hvisiting hrun
  have hopen : middle.guard.visiting = (a, b) :: before.guard.visiting :=
    hdecides.visiting.trans hvisiting
  have hleft : (middle.leaving (a, b)).Ready sides := hdecides.ready.leaving hopen
  have hvisited : (middle.leaving (a, b)).guard.visiting = before.guard.visiting := by
    simp [Session.leaving, Guard.leave, hopen]
  have htold (hno : verdict.isEmpty = false) (hlimit : middle.limitHits = before.limitHits)
      (assumed : List Pair) (hunknown : middle.cache.Unknown assumed) :
      ¬sides.RulesHold (sides.ShareableGiven assumed) a b :=
    hdecides.told hno hlimit assumed hunknown
  rw [memoized_run_entered hfind henter hrun] at hsettles ⊢
  by_cases hdefinite :
      isDefinite (before.attempted (a, b)) (middle.leaving (a, b)) verdict = true
  · -- The pair has no verdict yet, since it was under way all the time.
    have hunknown : middle.cache.find? (a, b) = none := by
      refine hdecides.ready.unknown (a, b) ?_
      rw [hopen]
      exact List.mem_cons_self
    have hlimit : middle.limitHits = before.limitHits := by
      rw [isDefinite, Bool.and_eq_true] at hdefinite
      exact beq_iff_eq.mp hdefinite.2
    have hstored : (middle.cache.insert (a, b) verdict).1 = verdict := by
      rw [Cache.insert, hunknown]
    rw [if_pos hdefinite] at hsettles ⊢
    have hafter : ((store (a, b) verdict).run (middle.leaving (a, b))).2.Ready sides := by
      refine hleft.store hsettles.exact hunknown ?_ ?_ ?_ fun hno => htold hno hlimit
      · rw [hvisited]
        exact hnested
      · rw [hvisited]
        exact Guard.not_mem_of_entered henter
      · rw [hvisited]
        exact hlisted hlimit
    refine ⟨⟨hsettles, hafter, fun hno _ assumed hassumed hshare => ?_⟩, fun _ _ => ?_⟩
    · exact hafter.grounded.refuted (a, b) verdict
        ((Cache.find?_insert hunknown verdict (a, b)).trans (if_pos rfl)) (hstored ▸ hno) assumed
        hassumed hshare
    · exact ⟨_, hnested, hstored.trans (hlisted hlimit), fun _ => rfl⟩
  · rw [if_neg hdefinite] at hsettles ⊢
    refine ⟨⟨hsettles, hleft, fun hno hlimit assumed hassumed hshare => ?_⟩, fun hlimit _ => ?_⟩
    · -- A no that hit no limit is definite.
      refine hdefinite ?_
      rw [isDefinite, hno, Bool.and_eq_true]
      exact ⟨by simp, beq_iff_eq.mpr hlimit⟩
    · exact ⟨_, hnested, hlisted hlimit, fun _ => rfl⟩

/-- Rules that are decided while their pair is under way decide the pair, and list what it fails. -/
private theorem memoized_decides :
    Decides sides (fun assumed => sides.ShareableGiven assumed a b) before
        ((memoized (a, b) rules).run before).2 ((memoized (a, b) rules).run before).1.isEmpty ∧
      Lists sides (a, b) before ((memoized (a, b) rules).run before).2
        ((memoized (a, b) rules).run before).1 := by
  cases hfind : before.cache.find? (a, b) with
  | some verdict =>
    rw [memoized_run_known hfind] at hsettles ⊢
    have hafter : Ready sides { before with cache := (before.cache.get (a, b)).2 } :=
      hready.of_entries (Cache.entries_get _ _) rfl
    refine ⟨⟨hsettles, hafter, fun hno _ assumed hunknown => ?_⟩, fun _ _ => ?_⟩
    · refine hready.grounded.refuted (a, b) verdict hfind hno assumed (hunknown.of_suffix ?_)
      exact hsettles.entries
    · obtain ⟨above, hinside, hlisted⟩ := hready.grounded.reached (a, b) verdict hfind
      refine ⟨above, hinside, hlisted, fun hnone => ?_⟩
      rw [hfind] at hnone
      cases hnone
  | none =>
    obtain ⟨henter, hvisiting⟩ | ⟨henter, hopen, hvisiting⟩ | ⟨henter, hvisiting⟩ :=
      before.guard.enter_cases (a, b)
    · exact entered_decides hready hnested hsettles hrules hfind henter hvisiting
    · rw [memoized_run_cycle hfind henter] at hsettles ⊢
      refine ⟨⟨hsettles, hready.of_entries (Cache.entries_get _ _) hvisiting, Bool.noConfusion⟩, ?_⟩
      exact fun _ hfresh => absurd hopen hfresh
    · rw [memoized_run_limit hfind henter] at hsettles ⊢
      refine ⟨⟨hsettles, hready.of_entries (Cache.entries_get _ _) hvisiting, ?_⟩, ?_⟩
      · exact fun _ hlimit => absurd hlimit (Nat.succ_ne_self _)
      · exact fun hlimit => absurd hlimit (Nat.succ_ne_self _)

end Memoized

end Memory

end Session

namespace Sides

open Session (Ready Decides Lists)

variable (sides : Sides)

/-- Every comparison of two classifiers that the innermost pair under way asks decides whether they
can be shared, and lists what they fail. -/
theorem compareWithin_decides (levels : Nat) (a b : DeclId) (before : Session)
    (hready : before.Ready sides) (hnested : sides.Nested ((a, b) :: before.guard.visiting)) :
    Decides sides (fun assumed => sides.ShareableGiven assumed a b) before
        ((sides.compareWithin levels a b).run before).2
        ((sides.compareWithin levels a b).run before).1.isEmpty ∧
      Lists sides (a, b) before ((sides.compareWithin levels a b).run before).2
        ((sides.compareWithin levels a b).run before).1 := by
  induction levels generalizing a b before with
  | zero =>
    have hsettles := sides.compareWithin_answers 0 a b before hready.exact
    refine Session.memoized_decides hready hnested hsettles fun hentered _ hrun => ?_
    cases hrun
    have hcounted {count : Nat} : count + 1 ≠ count := Nat.succ_ne_self count
    refine ⟨⟨.givenUp ⟨rfl, Nat.le_refl _, Nat.le_succ _, List.suffix_refl _, hentered.exact⟩
      hcounted, hentered.of_entries rfl rfl, fun _ hlimit => absurd hlimit hcounted⟩, ?_⟩
    exact fun hlimit => absurd hlimit hcounted
  | succ levels ih =>
    have hsettles := sides.compareWithin_answers (levels + 1) a b before hready.exact
    refine Session.memoized_decides hready hnested hsettles fun hentered hvisiting hrun => ?_
    exact Session.Decider.rules (fun x y before hready hnested => (ih x y before hready hnested).1)
      hentered hvisiting hrun

end Sides

end Concord
