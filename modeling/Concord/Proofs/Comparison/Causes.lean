import Concord.Proofs.Comparison.Rules
import Mathlib.Data.List.Chain

namespace Concord

namespace Mismatch

variable (mismatch : Mismatch) {cause other : Cause}

theorem sublist_push (cause : Cause) : mismatch.causes.Sublist (mismatch.push cause).causes := by
  rw [push]
  split
  · exact .refl _
  · exact List.sublist_append_left _ _

/-- Where a rule holds more often, fewer causes are added. -/
private theorem sublist_require {holds holds' : Bool} (himp : holds = true → holds' = true)
    (cause : Cause) :
    (mismatch.require holds' cause).causes.Sublist (mismatch.require holds cause).causes := by
  cases holds' with
  | true =>
    cases holds with
    | true => exact .refl _
    | false => exact mismatch.sublist_push cause
  | false =>
    cases holds with
    | true => cases himp rfl
    | false => exact .refl _

/-- Another cause before the last one leaves the causes in their order. -/
private theorem push_sublist_push_push (hne : cause ≠ other) :
    (mismatch.push other).causes.Sublist ((mismatch.push cause).push other).causes := by
  by_cases hmem : other ∈ mismatch.causes
  · have hsame : mismatch.push other = mismatch := by
      rw [push, if_pos (List.contains_iff_mem.mpr hmem)]
    rw [hsame]
    exact (mismatch.sublist_push cause).trans (sublist_push _ other)
  · have hfresh : other ∉ (mismatch.push cause).causes := by
      rw [push]
      split
      · exact hmem
      · simp [hmem, hne.symm]
    have hpush {before : Mismatch} (hnot : other ∉ before.causes) :
        (before.push other).causes = before.causes ++ [other] := by
      rw [push, if_neg (by simpa using hnot)]
    rw [hpush hmem, hpush hfresh]
    exact (mismatch.sublist_push cause).append_right _

/-- Where two rules hold more often, fewer causes are added, in the same order. -/
theorem sublist_require_require (hne : cause ≠ other) {holds holds' others others' : Bool}
    (hfirst : holds = true → holds' = true) (hsecond : others = true → others' = true) :
    ((mismatch.require holds' cause).require others' other).causes.Sublist
      ((mismatch.require holds cause).require others other).causes := by
  have hstart := mismatch.sublist_require hfirst cause
  cases others' with
  | true =>
    have hadded : others = true → true = true := fun _ => rfl
    exact hstart.trans (sublist_require _ hadded other)
  | false =>
    cases others with
    | true => cases hsecond rfl
    | false =>
      cases holds' with
      | true =>
        cases holds with
        | true => exact .refl _
        | false => exact mismatch.push_sublist_push_push hne
      | false =>
        cases holds with
        | true => cases hfirst rfl
        | false => exact .refl _

end Mismatch

namespace Sides

variable (sides : Sides)

open Classical in
/-- The rules that a pair fails when a relation answers their questions, in the order of the rules. -/
noncomputable def failuresGiven (R : DeclId → DeclId → Prop) (a b : DeclId) : Mismatch :=
  (classifierFailures (m := Id) sides (fun x y => decide (R x y)) a b).run

/-- The pairs that the rules on a pair ask, in order, when every answer is yes. -/
def questionsOf (a b : DeclId) : List Pair :=
  ((classifierFailures (m := StateM (List Pair)) sides
    (fun x y asked => (true, asked ++ [(x, y)])) a b).run []).2

/-- The rules on one pair ask the other. -/
def Asks (outer inner : Pair) : Prop :=
  inner ∈ sides.questionsOf outer.1 outer.2

/-- Pairs one inside the other, the innermost first: each is asked by the rules on the next. -/
def Nested (pairs : List Pair) : Prop :=
  pairs.IsChain fun inner outer => sides.Asks outer inner

variable {sides} {R S : DeclId → DeclId → Prop} {a b : DeclId}

theorem rulesHold_iff_failuresGiven :
    sides.RulesHold R a b ↔ (sides.failuresGiven R a b).isEmpty = true :=
  Iff.rfl

open Classical in
theorem failuresGiven_eq {rules : RuleQuestions}
    (hrules : ∀ {m : Type → Type} [Monad m] [LawfulMonad m] (answer : DeclId → DeclId → m Bool),
      classifierFailures sides answer a b = rules.ask answer) (R : DeclId → DeclId → Prop) :
    sides.failuresGiven R a b = (rules.failed.require (decide (rules.parameters.Hold R))
      .typeParameters).require (decide (rules.containers.Hold R)) .containers := by
  have hparameters : rules.parameters.ask (m := Id) (fun x y => decide (R x y)) =
      decide (rules.parameters.Hold R) :=
    Bool.eq_iff_iff.mpr ((rules.parameters.ask_relation R).trans decide_eq_true_iff.symm)
  have hcontainers : rules.containers.ask (m := Id) (fun x y => decide (R x y)) =
      decide (rules.containers.Hold R) :=
    Bool.eq_iff_iff.mpr ((rules.containers.ask_relation R).trans decide_eq_true_iff.symm)
  rw [failuresGiven, hrules, RuleQuestions.ask, hparameters, hcontainers]
  rfl

/-- Says yes to a pair and notes that it was asked. -/
private def note (x y : DeclId) : StateM (List Pair) Bool :=
  fun asked => (true, asked ++ [(x, y)])

/-- Where every answer is yes, all questions are asked. -/
private theorem ask_note (questions : Questions) (asked : List Pair) :
    questions.ask note asked = (questions.verdict, asked ++ questions.pairs) := by
  obtain ⟨pairs, verdict⟩ := questions
  induction pairs generalizing asked with
  | nil =>
    rw [List.append_nil]
    rfl
  | cons pair pairs ih =>
    have hrest := ih (asked ++ [pair])
    rw [List.append_assoc, List.singleton_append] at hrest
    exact hrest

theorem questionsOf_eq {rules : RuleQuestions}
    (hrules : ∀ {m : Type → Type} [Monad m] [LawfulMonad m] (answer : DeclId → DeclId → m Bool),
      classifierFailures sides answer a b = rules.ask answer) :
    sides.questionsOf a b = rules.parameters.pairs ++ rules.containers.pairs := by
  calc
    sides.questionsOf a b = (rules.ask note []).2 := congrArg (fun step => (step []).2) (hrules note)
    _ = (rules.containers.ask note (rules.parameters.ask note []).2).2 := rfl
    _ = rules.parameters.pairs ++ rules.containers.pairs := by
      rw [ask_note, ask_note, List.nil_append]

/-- What fails depends on the relation only at the pairs that are asked. -/
theorem failuresGiven_congr
    (hsame : ∀ pair ∈ sides.questionsOf a b, R pair.1 pair.2 ↔ S pair.1 pair.2) :
    sides.failuresGiven R a b = sides.failuresGiven S a b := by
  obtain ⟨rules, hrules⟩ := classifierFailures_isRuleQuestions sides a b
  rw [questionsOf_eq hrules] at hsame
  have hparameters : rules.parameters.Hold R ↔ rules.parameters.Hold S :=
    and_congr_right fun _ => forall₂_congr fun pair hpair => hsame pair (List.mem_append_left _ hpair)
  have hcontainers : rules.containers.Hold R ↔ rules.containers.Hold S :=
    and_congr_right fun _ => forall₂_congr fun pair hpair => hsame pair (List.mem_append_right _ hpair)
  rw [failuresGiven_eq hrules, failuresGiven_eq hrules, decide_eq_decide.mpr hparameters,
    decide_eq_decide.mpr hcontainers]

/-- More answers yes leave fewer causes, in the same order. -/
theorem failuresGiven_sublist (himp : ∀ x y, R x y → S x y) :
    (sides.failuresGiven S a b).causes.Sublist (sides.failuresGiven R a b).causes := by
  classical
  obtain ⟨rules, hrules⟩ := classifierFailures_isRuleQuestions sides a b
  rw [failuresGiven_eq hrules, failuresGiven_eq hrules]
  have hne : Cause.typeParameters ≠ Cause.containers := nofun
  refine rules.failed.sublist_require_require hne (fun hholds => ?_) fun hholds => ?_
  · exact decide_eq_true ((of_decide_eq_true hholds).mono himp)
  · exact decide_eq_true ((of_decide_eq_true hholds).mono himp)

end Sides

end Concord
