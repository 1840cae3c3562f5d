import Concord.Proofs.Comparison.Rules
import Concord.Comparison.Intersection
import Concord.Comparison.Session

namespace Concord

/-- What has to hold of the session before a step, for something to hold after it. A rule for steps
that do nothing and one for steps in sequence are enough for all that is written over any monad. -/
structure ProgramLogic (n : Type → Type) [Monad n] where
  wp : {α : Type} → n α → (α → Session → Prop) → Session → Prop
  pure : ∀ {α : Type} {a : α} {post : α → Session → Prop} {before : Session},
    post a before → wp (Pure.pure a) post before
  bind : ∀ {α β : Type} {step : n α} {next : α → n β} {post : β → Session → Prop}
    {before : Session}, wp step (fun a middle => wp (next a) post middle) before →
    wp (step >>= next) post before
  mono : ∀ {α : Type} {step : n α} {post post' : α → Session → Prop} {before : Session},
    wp step post before → (∀ a after, post a after → post' a after) → wp step post' before

namespace ProgramLogic

variable {n : Type → Type} [Monad n] {logic : ProgramLogic n} {α β : Type}

variable (logic) in
/-- From a session with these pairs under way the step leads to such a session, with a result as
promised. -/
def GivesWhile (visiting : List Pair) (step : n α) (post : α → Prop) : Prop :=
  ∀ before, before.guard.visiting = visiting →
    logic.wp step (fun a after => after.guard.visiting = visiting ∧ post a) before

variable (logic) in
/-- What a step gives with nothing under way. -/
abbrev Gives (step : n α) (post : α → Prop) : Prop :=
  logic.GivesWhile [] step post

variable (logic) in
/-- The step leads from a session with these pairs under way to such a session. -/
abbrev RunsWhile (visiting : List Pair) (step : n α) : Prop :=
  logic.GivesWhile visiting step fun _ => True

variable (logic) in
/-- The step leads from a session with nothing under way to such a session. -/
abbrev Runs (step : n α) : Prop :=
  logic.RunsWhile [] step

variable {visiting : List Pair}

namespace GivesWhile

variable {step : n α} {next : α → n β} {post post' : α → Prop} {post'' : β → Prop}

theorem pure {a : α} (hpost : post a) : logic.GivesWhile visiting (Pure.pure a) post :=
  fun _ hvisiting => logic.pure ⟨hvisiting, hpost⟩

theorem bind (hstep : logic.GivesWhile visiting step post)
    (hnext : ∀ a, post a → logic.GivesWhile visiting (next a) post'') :
    logic.GivesWhile visiting (step >>= next) post'' :=
  fun before hvisiting => logic.bind
    (logic.mono (hstep before hvisiting) fun a middle h => hnext a h.2 middle h.1)

theorem mono (hstep : logic.GivesWhile visiting step post) (hpost : ∀ a, post a → post' a) :
    logic.GivesWhile visiting step post' :=
  fun before hvisiting => logic.mono (hstep before hvisiting) fun a _ h => ⟨h.1, hpost a h.2⟩

theorem ite {test : Prop} [Decidable test] {other : n α}
    (hstep : test → logic.GivesWhile visiting step post)
    (hother : ¬test → logic.GivesWhile visiting other post) :
    logic.GivesWhile visiting (if test then step else other) post := by
  split
  · next htest => exact hstep htest
  · next htest => exact hother htest

end GivesWhile

namespace RunsWhile

section Questions

variable {answer : DeclId → DeclId → n Bool}
  (hanswer : ∀ x y, logic.RunsWhile visiting (answer x y))
include hanswer

theorem ask (questions : Questions) : logic.RunsWhile visiting (questions.ask answer) := by
  obtain ⟨pairs, verdict⟩ := questions
  induction pairs with
  | nil => exact .pure trivial
  | cons pair pairs ih =>
    refine .bind (hanswer pair.1 pair.2) fun yes _ => ?_
    cases yes with
    | false => exact .pure trivial
    | true => exact ih

theorem check [LawfulMonad n] {check : Check} (hcheck : IsQuestions check) :
    logic.RunsWhile visiting (check answer) := by
  obtain ⟨questions, hasks⟩ := hcheck
  simp only [hasks answer]
  exact ask hanswer questions

end Questions

theorem takePartner? {test : α → n Bool} (htest : ∀ a, logic.RunsWhile visiting (test a))
    (items : List α) : logic.RunsWhile visiting (takePartner? test items) := by
  induction items with
  | nil => exact .pure trivial
  | cons item items ih =>
    refine .bind (htest item) fun yes _ => .ite (fun _ => .pure trivial) fun _ => ?_
    exact .bind ih fun _ _ => .pure trivial

theorem partneredFrom {equal : α → β → n Bool}
    (hequal : ∀ a b, logic.RunsWhile visiting (equal a b)) (place : Nat) (as : List α)
    (bs : List β) : logic.RunsWhile visiting (partneredFrom equal place as bs) := by
  induction as generalizing place bs with
  | nil => exact .pure trivial
  | cons a as ih =>
    refine .bind (takePartner? (hequal a) bs) fun taken _ => ?_
    cases taken with
    | none => exact ih _ _
    | some left => exact .bind (ih _ _) fun _ _ => .pure trivial

end RunsWhile

end ProgramLogic

end Concord
