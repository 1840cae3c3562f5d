import Concord.Comparison.Cache
import Concord.Comparison.Rules

namespace Concord

/-- Pairs to ask from left to right, and the verdict when every answer is yes. -/
structure Questions where
  pairs : List Pair
  verdict : Bool

/-- A check in any monad, given the answers to its questions. -/
abbrev Check := ∀ {m : Type → Type} [Monad m], (DeclId → DeclId → m Bool) → m Bool

namespace Questions

variable {m : Type → Type} [Monad m]

/-- Asks pairs from left to right and stops at the first no. -/
def askAll (answer : DeclId → DeclId → m Bool) (verdict : Bool) : List Pair → m Bool
  | [] => return verdict
  | pair :: pairs => do if ← answer pair.1 pair.2 then askAll answer verdict pairs else return false

theorem askAll_nil (answer : DeclId → DeclId → m Bool) (verdict : Bool) :
    askAll answer verdict [] = pure verdict := rfl

theorem askAll_cons (answer : DeclId → DeclId → m Bool) (verdict : Bool) (pair : Pair)
    (pairs : List Pair) : askAll answer verdict (pair :: pairs) =
      (do if ← answer pair.1 pair.2 then askAll answer verdict pairs else return false) := rfl

/-- Asks all questions. -/
def ask (questions : Questions) (answer : DeclId → DeclId → m Bool) : m Bool :=
  askAll answer questions.verdict questions.pairs

/-- Two lists of questions, the second of which is asked only if the first says yes. -/
def andThen (questions others : Questions) : Questions :=
  if questions.verdict then ⟨questions.pairs ++ others.pairs, others.verdict⟩ else questions

/-- Whether the questions say yes when a relation answers them. -/
def Hold (questions : Questions) (R : DeclId → DeclId → Prop) : Prop :=
  questions.verdict = true ∧ ∀ pair ∈ questions.pairs, R pair.1 pair.2

theorem Hold.mono {questions : Questions} {R S : DeclId → DeclId → Prop}
    (himp : ∀ x y, R x y → S x y) (hhold : questions.Hold R) : questions.Hold S :=
  ⟨hhold.1, fun pair hpair => himp _ _ (hhold.2 pair hpair)⟩

section Lawful

variable [LawfulMonad m] (answer : DeclId → DeclId → m Bool)

private theorem askAll_append (verdict : Bool) (pairs others : List Pair) :
    askAll answer verdict (pairs ++ others) =
      (do if ← askAll answer true pairs then askAll answer verdict others else return false) := by
  induction pairs with
  | nil => simp [askAll_nil]
  | cons pair pairs ih =>
    simp only [List.cons_append, askAll_cons, ih, bind_assoc]
    refine bind_congr fun yes => ?_
    cases yes <;> simp

private theorem askAll_false (pairs : List Pair) (next : m Bool) :
    (do if ← askAll answer false pairs then next else return false) =
      askAll answer false pairs := by
  induction pairs with
  | nil => simp [askAll_nil]
  | cons pair pairs ih =>
    simp only [askAll_cons, bind_assoc]
    refine bind_congr fun yes => ?_
    cases yes with
    | false => simp
    | true => simpa using ih

theorem ask_andThen (questions others : Questions) :
    (questions.andThen others).ask answer =
      (do if ← questions.ask answer then others.ask answer else return false) := by
  obtain ⟨pairs, verdict⟩ := questions
  cases verdict with
  | true => simp only [ask, andThen, ↓reduceIte, askAll_append]
  | false => simp only [ask, andThen, Bool.false_eq_true, ↓reduceIte, askAll_false]

end Lawful

open Classical in
/-- Answered by a relation, the questions say yes exactly when they hold of it. -/
theorem ask_relation (questions : Questions) (R : DeclId → DeclId → Prop) :
    (questions.ask (m := Id) fun x y => decide (R x y)) = true ↔ questions.Hold R := by
  obtain ⟨pairs, verdict⟩ := questions
  induction pairs with
  | nil => simp [ask, askAll_nil, Hold, pure]
  | cons pair pairs ih =>
    by_cases hpair : R pair.1 pair.2
    · simpa [ask, askAll_cons, Hold, pure, bind, hpair] using ih
    · simp [ask, askAll_cons, Hold, pure, bind, hpair]

end Questions

/-- A check asks these questions, in whatever monad it runs. -/
def Asks (check : Check) (questions : Questions) : Prop :=
  ∀ {m : Type → Type} [Monad m] [LawfulMonad m] (answer : DeclId → DeclId → m Bool),
    check answer = questions.ask answer

namespace Asks

theorem done (verdict : Bool) : Asks (fun _ => return verdict) ⟨[], verdict⟩ :=
  fun _ => rfl

theorem single (x y : DeclId) : Asks (fun answer => answer x y) ⟨[(x, y)], true⟩ := by
  intro m _ _ answer
  have hself : (do if ← answer x y then return true else return false) = answer x y := by
    conv => rhs; rw [← bind_pure (answer x y)]
    refine bind_congr fun yes => ?_
    cases yes <;> rfl
  simp only [Questions.ask, Questions.askAll_cons, Questions.askAll_nil, hself]

theorem andThen {first second : Check} {questions others : Questions}
    (hfirst : Asks first questions) (hsecond : Asks second others) :
    Asks (fun answer => do if ← first answer then second answer else return false)
      (questions.andThen others) := by
  intro m _ _ answer
  rw [Questions.ask_andThen, ← hfirst answer, ← hsecond answer]

end Asks

/-- A check that is a list of questions. -/
def IsQuestions (check : Check) : Prop := ∃ questions, Asks check questions

namespace IsQuestions

theorem done (verdict : Bool) : IsQuestions fun _ => return verdict :=
  ⟨_, Asks.done verdict⟩

theorem single (x y : DeclId) : IsQuestions fun answer => answer x y :=
  ⟨_, Asks.single x y⟩

theorem andThen {first second : Check} (hfirst : IsQuestions first) (hsecond : IsQuestions second) :
    IsQuestions fun answer => do if ← first answer then second answer else return false := by
  obtain ⟨questions, hasks⟩ := hfirst
  obtain ⟨others, hothers⟩ := hsecond
  exact ⟨questions.andThen others, Asks.andThen hasks hothers⟩

/-- Of a test that asks nothing, the outcome decides which questions are asked. -/
theorem guarded (test : Bool) {check : Check} (hcheck : IsQuestions check) :
    IsQuestions fun answer => if test then check answer else return false := by
  cases test with
  | true => simpa using hcheck
  | false => simpa using done false

theorem allPairs {α β : Type} {test : α → β → Check}
    (htest : ∀ a b, IsQuestions (test a b)) (as : List α) (bs : List β) :
    IsQuestions fun answer => allPairsM (fun a b => test a b answer) as bs := by
  induction as generalizing bs with
  | nil => exact done true
  | cons a as ih =>
    cases bs with
    | nil => exact done true
    | cons b bs => exact (htest a b).andThen (ih bs)

end IsQuestions

end Concord
