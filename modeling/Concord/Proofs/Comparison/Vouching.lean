import Concord.Proofs.Comparison.Classifiers
import Concord.Proofs.Comparison.Exactness
import Concord.Proofs.Logic.Services

namespace Concord

section

variable (first second : Tree)

/-- Whether a pair keeps the rules on classifiers under some options when a relation answers their
questions. -/
def KeepsRules (R : DeclId → DeclId → Prop) (a b : DeclId) : Prop :=
  ∃ options, (Sides.ofTrees first second options).RulesHold R a b

/-- Some relation has the pair, all of whose pairs are assumed or keep the rules, questions answered
by the relation. -/
def AkinGiven (assumed : List Pair) (a b : DeclId) : Prop :=
  ∃ R : DeclId → DeclId → Prop,
    (∀ x y, R x y → (x, y) ∈ assumed ∨ KeepsRules first second R x y) ∧ R a b

/-- Whether two classifiers are akin. A comparison whose limits are hit says no where it could have
said yes, and comparisons with other options ask other questions of type parameters. What a yes of
any of them vouches for is less than that the pair can be shared, but it depends on the two trees
alone. -/
def Akin (a b : DeclId) : Prop :=
  AkinGiven first second [] a b

end

variable {first second : Tree} {assumed : List Pair} {a b : DeclId}

theorem KeepsRules.mono {R S : DeclId → DeclId → Prop} (himp : ∀ x y, R x y → S x y)
    (hkeeps : KeepsRules first second R a b) : KeepsRules first second S a b := by
  obtain ⟨options, hrules⟩ := hkeeps
  exact ⟨options, hrules.mono himp⟩

theorem AkinGiven.unfold (hakin : AkinGiven first second assumed a b) :
    (a, b) ∈ assumed ∨ KeepsRules first second (AkinGiven first second assumed) a b := by
  obtain ⟨R, hclosed, hab⟩ := hakin
  refine (hclosed a b hab).imp_right fun hkeeps => ?_
  exact hkeeps.mono fun x y hxy => ⟨R, hclosed, hxy⟩

/-- Akin pairs keep the rules when being akin answers their questions. -/
theorem Akin.keepsRules (hakin : Akin first second a b) :
    KeepsRules first second (Akin first second) a b :=
  (AkinGiven.unfold hakin).resolve_left List.not_mem_nil

/-- Akin classifiers say the same under some options. -/
theorem Akin.classifiersMatch (hakin : Akin first second a b) : ∃ options,
    (Sides.ofTrees first second options).ClassifiersMatch (Akin first second) a b := by
  obtain ⟨options, hrules⟩ := hakin.keepsRules
  exact ⟨options, Sides.rulesHold_iff_classifiersMatch.mp hrules⟩

/-- Akin classifiers bear one name. -/
theorem Akin.names (hakin : Akin first second a b) :
    (first.declaration a).qualifiedName = (second.declaration b).qualifiedName := by
  obtain ⟨options, hmatch⟩ := hakin.classifiersMatch
  exact hmatch.names

theorem akinGiven_of_mem (hmem : (a, b) ∈ assumed) : AkinGiven first second assumed a b :=
  ⟨fun x y => (x, y) ∈ assumed, fun _ _ hxy => .inl hxy, hmem⟩

theorem Akin.given (hakin : Akin first second a b) (assumed : List Pair) :
    AkinGiven first second assumed a b := by
  obtain ⟨R, hclosed, hab⟩ := hakin
  exact ⟨R, fun x y hxy => .inr ((hclosed x y hxy).resolve_left List.not_mem_nil), hab⟩

/-- A pair may be assumed while its own rules are checked. -/
theorem akinGiven_of_keepsRules
    (hkeeps : KeepsRules first second (AkinGiven first second ((a, b) :: assumed)) a b) :
    AkinGiven first second assumed a b := by
  refine ⟨AkinGiven first second ((a, b) :: assumed), fun x y hxy => ?_,
    akinGiven_of_mem List.mem_cons_self⟩
  obtain hassumed | hrules := hxy.unfold
  · obtain heq | htail := List.mem_cons.mp hassumed
    · cases heq
      exact .inr hkeeps
    · exact .inl htail
  · exact .inr hrules

theorem akin_of_keepsRules (hkeeps : KeepsRules first second (Akin first second) a b) :
    Akin first second a b :=
  akinGiven_of_keepsRules (hkeeps.mono fun _ _ hxy => hxy.given _)

namespace Session

/-- What a yes backs, of a question that has a meaning given any assumed pairs: it holds given the
pairs under way, and outright if no pair under way was taken to match on the way to it. -/
structure Backs (meaning : List Pair → Prop) (before after : Session) (yes : Bool) : Prop where
  visiting : after.guard.visiting = before.guard.visiting
  assumptions : before.assumptions ≤ after.assumptions
  given : yes = true → meaning before.guard.visiting
  outright : yes = true → after.assumptions = before.assumptions → meaning []

namespace Backs

variable {meaning meaning' : List Pair → Prop} {before middle after : Session} {yes : Bool}

/-- A no backs nothing. -/
theorem no (hvisiting : after.guard.visiting = before.guard.visiting)
    (hassumptions : before.assumptions ≤ after.assumptions) : Backs meaning before after false :=
  ⟨hvisiting, hassumptions, fun hno => absurd hno Bool.false_ne_true,
    fun hno => absurd hno Bool.false_ne_true⟩

/-- What holds whatever is assumed is backed. -/
theorem of_all (hvisiting : after.guard.visiting = before.guard.visiting)
    (hassumptions : before.assumptions ≤ after.assumptions)
    (hmeaning : yes = true → ∀ assumed, meaning assumed) : Backs meaning before after yes :=
  ⟨hvisiting, hassumptions, fun hyes => hmeaning hyes _, fun hyes _ => hmeaning hyes _⟩

/-- Two questions one after the other are backed together. -/
theorem both {other : Bool} {meaning'' : List Pair → Prop} (hfirst : Backs meaning before middle yes)
    (hsecond : Backs meaning' middle after other)
    (hmeaning : yes = true → other = true → ∀ assumed, meaning assumed → meaning' assumed →
      meaning'' assumed) :
    Backs meaning'' before after (yes && other) := by
  have hle := hfirst.assumptions
  have hle' := hsecond.assumptions
  refine ⟨hsecond.visiting.trans hfirst.visiting, Nat.le_trans hle hle', fun hboth => ?_,
    fun hboth hnone => ?_⟩
  · obtain ⟨hyes, hother⟩ := Bool.and_eq_true_iff.mp hboth
    refine hmeaning hyes hother _ (hfirst.given hyes) ?_
    rw [← hfirst.visiting]
    exact hsecond.given hother
  · obtain ⟨hyes, hother⟩ := Bool.and_eq_true_iff.mp hboth
    exact hmeaning hyes hother _ (hfirst.outright hyes (by omega)) (hsecond.outright hother (by omega))

/-- A pair whose rules are backed while it is under way is backed once it is left. -/
theorem leaving {options : CompiledOptions} {entered : Session}
    (hrules : Backs (fun assumed => (Sides.ofTrees first second options).RulesHold
      (AkinGiven first second assumed) a b) entered after yes)
    (hvisiting : entered.guard.visiting = (a, b) :: before.guard.visiting)
    (hassumptions : entered.assumptions = before.assumptions) :
    Backs (fun assumed => AkinGiven first second assumed a b) before (after.leaving (a, b)) yes := by
  have hleft : (after.leaving (a, b)).guard.visiting = before.guard.visiting := by
    simp [Session.leaving, Guard.leave, hrules.visiting.trans hvisiting]
  refine ⟨hleft, hassumptions ▸ hrules.assumptions, fun hyes => ?_, fun hyes hnone => ?_⟩
  · refine akinGiven_of_keepsRules ⟨options, ?_⟩
    rw [← hvisiting]
    exact hrules.given hyes
  · exact akin_of_keepsRules ⟨options, hrules.outright hyes (hnone.trans hassumptions.symm)⟩

/-- A yes that may be remembered vouches for its pair. -/
theorem vouches_of_isDefinite {entered : Session} {verdict : Mismatch}
    (hbacks : Backs (fun assumed => AkinGiven first second assumed a b) before after verdict.isEmpty)
    (hassumptions : entered.assumptions = before.assumptions)
    (hdefinite : isDefinite entered after verdict = true) (hyes : verdict.isEmpty = true) :
    Akin first second a b := by
  simp only [isDefinite, Bool.and_eq_true, Bool.or_eq_true, beq_iff_eq] at hdefinite
  obtain ⟨(hnone | hno) | houtermost, -⟩ := hdefinite
  · exact hbacks.outright hyes (hnone.trans hassumptions)
  · simp [hyes] at hno
  · have hidle : after.guard.visiting = [] := by simpa [Guard.isActive] using houtermost
    have hgiven := hbacks.given hyes
    rwa [← hbacks.visiting, hidle] at hgiven

end Backs

end Session

open Session (Backs)

namespace Memory

variable {n : Type → Type} [Monad n] {memory : Memory n} {logic : ProgramLogic n}
  {first second : Tree} {options : CompiledOptions} {a b : DeclId}

/-- Whether two classifiers are akin, as something to trust a pair for. -/
abbrev akin (first second : Tree) (pair : Pair) : Prop :=
  Akin first second pair.1 pair.2

variable (hmemory : memory.Vouches logic (akin first second))
include hmemory

/-- Rules that are backed while a pair is under way back the pair once they are remembered. -/
theorem memoized_backs {rules : n Mismatch}
    (hrules : ∀ before, logic.wp rules (fun failed after =>
      Backs (fun assumed => (Sides.ofTrees first second options).RulesHold
        (AkinGiven first second assumed) a b) before after failed.isEmpty) before)
    (before : Session) :
    logic.wp (memory.memoized (a, b) rules) (fun verdict after =>
      Backs (fun assumed => AkinGiven first second assumed a b) before after verdict.isEmpty)
      before := by
  refine hmemory.memoized (fun verdict cache hvouches => ?_) (fun guard cache hopen hvisiting => ?_)
    (fun guard cache hvisiting => .no hvisiting (Nat.le_refl _)) fun guard cache hvisiting => ?_
  · refine .of_all rfl (Nat.le_refl _) fun hyes assumed => ?_
    exact Akin.given (hvouches hyes) assumed
  · refine ⟨hvisiting, Nat.le_succ _, fun _ => akinGiven_of_mem hopen, ?_⟩
    exact fun _ hnone => absurd hnone (Nat.succ_ne_self _)
  · refine logic.mono (hrules _) fun verdict after hbacks => ?_
    have hleft : Backs (fun assumed => AkinGiven first second assumed a b) before
        (after.leaving (a, b)) verdict.isEmpty := hbacks.leaving hvisiting rfl
    refine ⟨hleft, fun hdefinite => ⟨hleft.vouches_of_isDefinite rfl hdefinite, ?_⟩⟩
    intro stored cache hstored
    exact .of_all hleft.visiting hleft.assumptions fun hyes assumed => (hstored hyes).given assumed

section Rules

variable {answer : DeclId → DeclId → n Bool}
  (hanswer : ∀ x y before, logic.wp (answer x y) (fun yes after =>
    Backs (fun assumed => AkinGiven first second assumed x y) before after yes) before)
include hanswer
omit hmemory

/-- Questions are backed when each single one is. -/
theorem ask_backs (questions : Questions) (before : Session) :
    logic.wp (questions.ask answer) (fun yes after =>
      Backs (fun assumed => questions.Hold (AkinGiven first second assumed)) before after yes)
      before := by
  obtain ⟨pairs, verdict⟩ := questions
  induction pairs generalizing before with
  | nil => exact logic.pure (.of_all rfl (Nat.le_refl _) fun hyes _ => ⟨hyes, nofun⟩)
  | cons pair pairs ih =>
    refine logic.bind (logic.mono (hanswer pair.1 pair.2 before) fun yes middle hfirst => ?_)
    cases yes with
    | false => exact logic.pure (.no hfirst.visiting hfirst.assumptions)
    | true =>
      refine logic.mono (ih middle) fun other after hrest => ?_
      rw [← Bool.true_and other]
      refine hfirst.both hrest fun _ _ assumed hpair hothers => ?_
      exact ⟨hothers.1, List.forall_mem_cons.mpr ⟨hpair, hothers.2⟩⟩

/-- The rules on a pair are backed when the questions they ask are. -/
theorem rules_backs [LawfulMonad n] (options : CompiledOptions) (a b : DeclId)
    (before : Session) :
    logic.wp (classifierFailures (Sides.ofTrees first second options) answer a b)
      (fun failed after => Backs (fun assumed => (Sides.ofTrees first second options).RulesHold
        (AkinGiven first second assumed) a b) before after failed.isEmpty) before := by
  obtain ⟨rules, hrules⟩ := classifierFailures_isRuleQuestions (.ofTrees first second options) a b
  simp only [hrules answer, Sides.rulesHold_iff _ hrules]
  refine logic.bind (logic.mono (ask_backs hanswer rules.parameters before)
    fun parameters middle hfirst => ?_)
  refine logic.bind (logic.mono (ask_backs hanswer rules.containers middle)
    fun containers after hsecond => logic.pure ?_)
  simp only [Mismatch.isEmpty_require, Bool.and_assoc]
  cases hfailed : rules.failed.isEmpty with
  | false =>
    rw [Bool.false_and]
    exact .no (hsecond.visiting.trans hfirst.visiting)
      (Nat.le_trans hfirst.assumptions hsecond.assumptions)
  | true =>
    rw [Bool.true_and]
    exact hfirst.both hsecond fun _ _ assumed hparameters hcontainers =>
      ⟨hfailed, hparameters, hcontainers⟩

end Rules

/-- Every comparison of two classifiers backs its yes. -/
theorem compareWithin_backs [LawfulMonad n] (options : CompiledOptions) (levels : Nat)
    (a b : DeclId) (before : Session) :
    logic.wp (memory.compareWithin (.ofTrees first second options) levels a b) (fun verdict after =>
      Backs (fun assumed => AkinGiven first second assumed a b) before after verdict.isEmpty)
      before := by
  induction levels generalizing a b before with
  | zero =>
    have hgivesUp (before : Session) : logic.wp (memory.privately Session.giveUp) (fun failed after =>
        Backs (fun assumed => (Sides.ofTrees first second options).RulesHold
          (AkinGiven first second assumed) a b) before after failed.isEmpty) before :=
      hmemory.privately rfl (.no rfl (Nat.le_refl _))
    exact memoized_backs hmemory hgivesUp before
  | succ levels ih =>
    refine memoized_backs hmemory (rules_backs (fun x y before => ?_) options a b) before
    exact logic.bind (logic.mono (ih x y before) fun verdict after hbacks => logic.pure hbacks)

/-- A comparison of two classifiers with nothing under way vouches for them when it says yes. -/
theorem compareWithin_gives [LawfulMonad n] (options : CompiledOptions) (levels : Nat)
    (a b : DeclId) :
    logic.Gives (memory.compareWithin (.ofTrees first second options) levels a b) fun verdict =>
      verdict.isEmpty = true → Akin first second a b := by
  intro before hidle
  refine logic.mono (compareWithin_backs hmemory options levels a b before)
    fun verdict after hbacks => ⟨hbacks.visiting.trans hidle, fun hyes => ?_⟩
  have hgiven := hbacks.given hyes
  rwa [hidle] at hgiven

end Memory

end Concord
