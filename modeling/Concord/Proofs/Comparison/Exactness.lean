import Concord.Proofs.Comparison.Memory
import Concord.Proofs.Comparison.Rules

namespace Concord

/-- Every remembered verdict says whether its pair can be shared. -/
def Cache.Exact (sides : Sides) (cache : Cache) : Prop :=
  ∀ entry ∈ cache.entries, entry.2.isEmpty = true ↔ sides.Shareable entry.1.1 entry.1.2

/-- A verdict that says whether its pair can be shared. -/
def Sides.Right (sides : Sides) (pair : Pair) (verdict : Mismatch) : Prop :=
  verdict.isEmpty = true ↔ sides.Shareable pair.1 pair.2

namespace Cache.Exact

variable {sides : Sides} {cache : Cache} {pair : Pair} {verdict : Mismatch}

/-- Looking a pair up leaves the cache exact. -/
theorem get (hexact : cache.Exact sides) (pair : Pair) : (cache.get pair).2.Exact sides := by
  rw [Exact, entries_get]
  exact hexact

theorem right_of_find? (hexact : cache.Exact sides) (hfind : cache.find? pair = some verdict) :
    sides.Right pair verdict :=
  hexact _ (mem_entries_of_find? hfind)

/-- Storing a verdict that is right keeps the cache exact, and gives a verdict that is right. -/
theorem insert (hexact : cache.Exact sides) (hright : sides.Right pair verdict) :
    (cache.insert pair verdict).2.Exact sides ∧ sides.Right pair (cache.insert pair verdict).1 := by
  obtain ⟨hcache, hstored⟩ | ⟨hverdict, hentries⟩ := cache.insert_cases pair verdict
  · rw [hcache]
    exact ⟨hexact, hexact _ hstored⟩
  · rw [hverdict]
    refine ⟨fun entry hentry => ?_, hright⟩
    rw [hentries, List.mem_cons] at hentry
    obtain rfl | hold := hentry
    · exact hright
    · exact hexact entry hold

end Cache.Exact

namespace Session

/-- A later state of a session in which the same pairs are under way. The counters only grow, the
cache only gains entries, and those stay exact. -/
structure Leads (sides : Sides) (before after : Session) : Prop where
  visiting : after.guard.visiting = before.guard.visiting
  assumptions : before.assumptions ≤ after.assumptions
  limitHits : before.limitHits ≤ after.limitHits
  entries : before.cache.entries <:+ after.cache.entries
  exact : after.cache.Exact sides

/-- An answer settles a question that has a meaning given any assumed pairs. A yes means that the
question holds given the pairs under way, and outright if none of them was taken to match on the way
to it. A no means that it does not hold, unless a limit was hit. -/
structure Settles (sides : Sides) (meaning : List Pair → Prop) (before after : Session)
    (yes : Bool) : Prop extends Leads sides before after where
  given : yes = true → meaning before.guard.visiting
  outright : yes = true → after.assumptions = before.assumptions → meaning []
  refuted : yes = false → after.limitHits = before.limitHits → ¬ meaning []

variable {sides : Sides} {before middle after : Session}

theorem Leads.refl (hexact : before.cache.Exact sides) : Leads sides before before :=
  ⟨rfl, Nat.le_refl _, Nat.le_refl _, List.suffix_refl _, hexact⟩

theorem Leads.trans (hfirst : Leads sides before middle) (hsecond : Leads sides middle after) :
    Leads sides before after :=
  ⟨hsecond.visiting.trans hfirst.visiting, Nat.le_trans hfirst.assumptions hsecond.assumptions,
    Nat.le_trans hfirst.limitHits hsecond.limitHits, hfirst.entries.trans hsecond.entries,
    hsecond.exact⟩

section Settles

variable {a b : DeclId} {pair : Pair} {pairs : List Pair} {verdict yes : Bool}

/-- An answer that is right whatever is assumed settles its pair. -/
theorem Settles.of_right (hlead : Leads sides before after)
    (hright : yes = true ↔ sides.Shareable a b) :
    Settles sides (fun assumed => sides.ShareableGiven assumed a b) before after yes := by
  refine ⟨hlead, fun hyes => (hright.mp hyes).given _, fun hyes _ => (hright.mp hyes).given _, ?_⟩
  intro hno _ hmeaning
  exact Bool.eq_false_iff.mp hno (hright.mpr (sides.shareableGiven_nil.mp hmeaning))

theorem Settles.noQuestions (hlead : Leads sides before after) :
    Settles sides (fun assumed => (⟨[], verdict⟩ : Questions).Hold (sides.ShareableGiven assumed))
      before after verdict := by
  have hhold (assumed : List Pair) :
      (⟨[], verdict⟩ : Questions).Hold (sides.ShareableGiven assumed) ↔ verdict = true := by
    simp [Questions.Hold]
  refine ⟨hlead, ?_, ?_, ?_⟩
  · exact fun hyes => (hhold _).mpr hyes
  · exact fun hyes _ => (hhold _).mpr hyes
  · exact fun hno _ hmeaning => Bool.eq_false_iff.mp hno ((hhold _).mp hmeaning)

private theorem hold_cons (assumed : List Pair) :
    (⟨pair :: pairs, verdict⟩ : Questions).Hold (sides.ShareableGiven assumed) ↔
      sides.ShareableGiven assumed pair.1 pair.2 ∧
        (⟨pairs, verdict⟩ : Questions).Hold (sides.ShareableGiven assumed) := by
  simp only [Questions.Hold, List.forall_mem_cons]
  exact and_left_comm

/-- A no to the first question settles all of them. -/
theorem Settles.firstNo (hfirst : Settles sides
      (fun assumed => sides.ShareableGiven assumed pair.1 pair.2) before after false) :
    Settles sides
      (fun assumed => (⟨pair :: pairs, verdict⟩ : Questions).Hold (sides.ShareableGiven assumed))
      before after false := by
  refine ⟨hfirst.toLeads, nofun, nofun, fun _ hlimit hmeaning => ?_⟩
  exact hfirst.refuted rfl hlimit ((hold_cons _).mp hmeaning).1

/-- Behind a yes to the first question, the others settle all of them. -/
theorem Settles.firstYes (hfirst : Settles sides
      (fun assumed => sides.ShareableGiven assumed pair.1 pair.2) before middle true)
    (hrest : Settles sides
      (fun assumed => (⟨pairs, verdict⟩ : Questions).Hold (sides.ShareableGiven assumed))
      middle after yes) :
    Settles sides
      (fun assumed => (⟨pair :: pairs, verdict⟩ : Questions).Hold (sides.ShareableGiven assumed))
      before after yes := by
  have hle := hfirst.assumptions
  have hle' := hrest.assumptions
  have hlimits := hfirst.limitHits
  have hlimits' := hrest.limitHits
  refine ⟨hfirst.toLeads.trans hrest.toLeads, fun hyes => ?_, fun hyes hnone => ?_,
    fun hno hlimit hmeaning => ?_⟩
  · refine (hold_cons _).mpr ⟨hfirst.given rfl, ?_⟩
    simpa only [hfirst.visiting] using hrest.given hyes
  · exact (hold_cons _).mpr ⟨hfirst.outright rfl (by omega), hrest.outright hyes (by omega)⟩
  · exact hrest.refuted hno (by omega) ((hold_cons _).mp hmeaning).2

/-- Rules are settled when both lists of questions are. -/
theorem Settles.rules {rules : RuleQuestions} {parameters containers : Bool}
    (hfirst : Settles sides (fun assumed => rules.parameters.Hold (sides.ShareableGiven assumed))
      before middle parameters)
    (hsecond : Settles sides (fun assumed => rules.containers.Hold (sides.ShareableGiven assumed))
      middle after containers) :
    Settles sides (fun assumed => rules.Hold (sides.ShareableGiven assumed)) before after
      ((rules.failed.require parameters .typeParameters).require containers .containers).isEmpty := by
  have hle := hfirst.assumptions
  have hle' := hsecond.assumptions
  have hlimits := hfirst.limitHits
  have hlimits' := hsecond.limitHits
  simp only [Mismatch.isEmpty_require, RuleQuestions.Hold]
  refine ⟨hfirst.toLeads.trans hsecond.toLeads, ?_, ?_, ?_⟩
  · intro hyes
    simp only [Bool.and_eq_true] at hyes
    have hgiven := hsecond.given hyes.2
    rw [hfirst.visiting] at hgiven
    exact ⟨hyes.1.1, hfirst.given hyes.1.2, hgiven⟩
  · intro hyes hnone
    simp only [Bool.and_eq_true] at hyes
    exact ⟨hyes.1.1, hfirst.outright hyes.1.2 (by omega), hsecond.outright hyes.2 (by omega)⟩
  · intro hno hlimit hmeaning
    cases parameters with
    | false => exact hfirst.refuted rfl (by omega) hmeaning.2.1
    | true =>
      cases containers with
      | false => exact hsecond.refuted rfl (by omega) hmeaning.2.2
      | true => simp [hmeaning.1] at hno

/-- A pair that is taken to match because it is under way is settled. -/
theorem Settles.assumed (hlead : Leads sides before after) (hopen : (a, b) ∈ before.guard.visiting)
    (hassumed : after.assumptions ≠ before.assumptions) :
    Settles sides (fun assumed => sides.ShareableGiven assumed a b) before after true :=
  ⟨hlead, fun _ => sides.shareableGiven_of_mem hopen, fun _ hnone => absurd hnone hassumed, nofun⟩

/-- A no for want of room settles anything. -/
theorem Settles.givenUp {meaning : List Pair → Prop} (hlead : Leads sides before after)
    (hlimit : after.limitHits ≠ before.limitHits) : Settles sides meaning before after false :=
  ⟨hlead, nofun, nofun, fun _ hsame => absurd hsame hlimit⟩

/-- Rules that are settled while their pair is under way settle the pair once it is left. -/
theorem Settles.leaving (entered : Session) (hentered : Leads sides before
      { entered with guard := before.guard })
    (hvisiting : entered.guard.visiting = (a, b) :: before.guard.visiting)
    (hassumptions : entered.assumptions = before.assumptions)
    (hlimits : entered.limitHits = before.limitHits)
    (hrules : Settles sides (fun assumed => sides.RulesHold (sides.ShareableGiven assumed) a b)
      entered middle yes) :
    Settles sides (fun assumed => sides.ShareableGiven assumed a b) before (middle.leaving (a, b))
      yes := by
  have hleft : (middle.leaving (a, b)).guard.visiting = before.guard.visiting := by
    simp [Session.leaving, Guard.leave, hrules.visiting.trans hvisiting]
  refine ⟨⟨hleft, hassumptions ▸ hrules.assumptions, hlimits ▸ hrules.limitHits,
    hentered.entries.trans hrules.entries, hrules.exact⟩, ?_, ?_, ?_⟩
  · -- The pair itself is among the assumptions under which its rules were checked.
    intro hyes
    refine sides.shareableGiven_of_rulesHold ?_
    rw [← hvisiting]
    exact hrules.given hyes
  · intro hyes hnone
    refine Sides.Shareable.given ((sides.shareable_iff_rulesHold a b).mpr ?_) []
    refine (hrules.outright hyes (hnone.trans hassumptions.symm)).mono fun x y => ?_
    exact sides.shareableGiven_nil.mp
  · intro hno hlimit hmeaning
    refine hrules.refuted hno (hlimit.trans hlimits.symm) (Sides.RulesHold.mono (fun x y => ?_)
      ((sides.shareable_iff_rulesHold a b).mp (sides.shareableGiven_nil.mp hmeaning)))
    exact sides.shareableGiven_nil.mpr

/-- A settled pair with a definite verdict has the right one. A no is final, a yes without
assumptions is, and so is a yes of the outermost pair, since every pair that was assumed below it
was found to keep the rules. -/
theorem Settles.right_of_isDefinite (entered : Session) {verdict : Mismatch}
    (hsettles : Settles sides (fun assumed => sides.ShareableGiven assumed a b) before after
      verdict.isEmpty)
    (hassumptions : entered.assumptions = before.assumptions)
    (hlimits : entered.limitHits = before.limitHits)
    (hdefinite : isDefinite entered after verdict = true) : sides.Right (a, b) verdict := by
  simp only [isDefinite, Bool.and_eq_true, Bool.or_eq_true, beq_iff_eq] at hdefinite
  obtain ⟨hfinal, hlimit⟩ := hdefinite
  constructor
  · intro hyes
    refine sides.shareableGiven_nil.mp ?_
    obtain (hnone | hno) | houtermost := hfinal
    · exact hsettles.outright hyes (hnone.trans hassumptions)
    · simp [hyes] at hno
    · have hempty : after.guard.visiting = [] := by simpa [Guard.isActive] using houtermost
      rw [← hempty, hsettles.visiting]
      exact hsettles.given hyes
  · intro hshare
    cases hverdict : verdict.isEmpty with
    | true => rfl
    | false =>
      refine absurd (sides.shareableGiven_nil.mpr hshare) (hsettles.refuted hverdict ?_)
      exact hlimit.trans hlimits

end Settles

/-- A step that answers questions about pairs. -/
def Answers (sides : Sides) (answer : DeclId → DeclId → StateM Session Bool) : Prop :=
  ∀ x y before, before.cache.Exact sides →
    Settles sides (fun assumed => sides.ShareableGiven assumed x y) before
      ((answer x y).run before).2 ((answer x y).run before).1

/-- Questions asked in a session are settled when each single one is. -/
theorem Answers.ask {answer : DeclId → DeclId → StateM Session Bool} (hanswer : Answers sides answer)
    (questions : Questions) (hexact : before.cache.Exact sides) :
    Settles sides (fun assumed => questions.Hold (sides.ShareableGiven assumed)) before
      ((questions.ask answer).run before).2 ((questions.ask answer).run before).1 := by
  obtain ⟨pairs, verdict⟩ := questions
  induction pairs generalizing before with
  | nil => exact .noQuestions (.refl hexact)
  | cons pair pairs ih =>
    have hfirst := hanswer pair.1 pair.2 before hexact
    simp only [Questions.ask, Questions.askAll, run_bind] at ih ⊢
    generalize hrun : (answer pair.1 pair.2).run before = result at hfirst ⊢
    obtain ⟨yes, middle⟩ := result
    cases yes with
    | false => exact .firstNo hfirst
    | true => exact .firstYes hfirst (ih hfirst.exact)

/-- The rules on a pair are settled when the questions they ask are. -/
theorem Answers.rules {answer : DeclId → DeclId → StateM Session Bool}
    (hanswer : Answers sides answer) (a b : DeclId) (hexact : before.cache.Exact sides) :
    Settles sides (fun assumed => sides.RulesHold (sides.ShareableGiven assumed) a b) before
      ((classifierFailures sides answer a b).run before).2
      ((classifierFailures sides answer a b).run before).1.isEmpty := by
  obtain ⟨rules, hrules⟩ := classifierFailures_isRuleQuestions sides a b
  simp only [hrules answer, sides.rulesHold_iff hrules, RuleQuestions.ask, run_bind, run_pure]
  have hfirst := hanswer.ask rules.parameters hexact
  exact .rules hfirst (hanswer.ask rules.containers hfirst.exact)

end Session

namespace Session

variable {sides : Sides} {before after : Session}

theorem Leads.get (hexact : before.cache.Exact sides) (pair : Pair) :
    Leads sides before { before with cache := (before.cache.get pair).2 } := by
  refine ⟨rfl, Nat.le_refl _, Nat.le_refl _, ?_, hexact.get pair⟩
  simp only [Cache.entries_get, List.suffix_refl]

/-- Storing a verdict that is right leads on, and gives a verdict that is right. -/
theorem store_exact {pair : Pair} {verdict : Mismatch} (hexact : before.cache.Exact sides)
    (hright : sides.Right pair verdict) :
    Leads sides before ((store pair verdict).run before).2 ∧
      sides.Right pair ((store pair verdict).run before).1 := by
  obtain ⟨hafter, hstored⟩ := hexact.insert hright
  refine ⟨⟨rfl, Nat.le_refl _, Nat.le_refl _, ?_, hafter⟩, hstored⟩
  rw [run_store]
  obtain ⟨hcache, -⟩ | ⟨-, hentries⟩ := before.cache.insert_cases pair verdict
  · simp only [hcache, List.suffix_refl]
  · simp only [hentries, List.suffix_cons]

/-- Rules that are settled while a pair is under way settle the pair once they are remembered. -/
theorem memoized_settles {a b : DeclId} {rules : StateM Session Mismatch}
    (hrules : ∀ before, before.cache.Exact sides →
      Settles sides (fun assumed => sides.RulesHold (sides.ShareableGiven assumed) a b) before
        (rules.run before).2 (rules.run before).1.isEmpty)
    (hexact : before.cache.Exact sides) :
    Settles sides (fun assumed => sides.ShareableGiven assumed a b) before
      ((memoized (a, b) rules).run before).2 ((memoized (a, b) rules).run before).1.isEmpty := by
  cases hfind : before.cache.find? (a, b) with
  | some verdict =>
    rw [memoized_run_known hfind]
    exact .of_right (.get hexact (a, b)) (hexact.right_of_find? hfind)
  | none =>
    have hattempted : (before.attempted (a, b)).cache.Exact sides := hexact.get (a, b)
    have hsuffix : before.cache.entries <:+ (before.attempted (a, b)).cache.entries :=
      (Leads.get hexact (a, b)).entries
    obtain ⟨henter, hvisiting⟩ | ⟨henter, hopen, hvisiting⟩ | ⟨henter, hvisiting⟩ :=
      before.guard.enter_cases (a, b)
    · generalize hrun : rules.run (before.attempted (a, b)) = result
      obtain ⟨verdict, middle⟩ := result
      have hsettles := hrules _ hattempted
      rw [hrun] at hsettles
      have hleft : Settles sides (fun assumed => sides.ShareableGiven assumed a b) before
          (middle.leaving (a, b)) verdict.isEmpty :=
        .leaving (before.attempted (a, b)) ⟨rfl, Nat.le_refl _, Nat.le_refl _, hsuffix, hattempted⟩
          hvisiting rfl rfl hsettles
      rw [memoized_run_entered hfind henter hrun]
      split
      · next hdefinite =>
        obtain ⟨hstore, hstored⟩ := store_exact hleft.exact
          (hleft.right_of_isDefinite (before.attempted (a, b)) rfl rfl hdefinite)
        exact .of_right (hleft.toLeads.trans hstore) hstored
      · exact hleft
    · rw [memoized_run_cycle hfind henter]
      exact .assumed ⟨hvisiting, Nat.le_succ _, Nat.le_refl _, hsuffix, hattempted⟩ hopen
        (Nat.succ_ne_self _)
    · rw [memoized_run_limit hfind henter]
      exact .givenUp ⟨hvisiting, Nat.le_refl _, Nat.le_succ _, hsuffix, hattempted⟩
        (Nat.succ_ne_self _)

end Session

namespace Sides

variable (sides : Sides)

/-- Every comparison of two classifiers settles whether they can be shared, however many pairs may
be entered inside one another. -/
theorem compareWithin_answers (levels : Nat) :
    Session.Answers sides fun x y => do return (← sides.compareWithin levels x y).isEmpty := by
  induction levels with
  | zero =>
    intro a b before hexact
    refine Session.memoized_settles (fun before hexact => ?_) hexact
    exact .givenUp ⟨rfl, Nat.le_refl _, Nat.le_succ _, List.suffix_refl _, hexact⟩
      (Nat.succ_ne_self _)
  | succ levels ih =>
    intro a b before hexact
    exact Session.memoized_settles (fun before hexact => ih.rules a b hexact) hexact

theorem shareable_answers : Session.Answers sides sides.shareable :=
  sides.compareWithin_answers sides.levels

end Sides

end Concord
