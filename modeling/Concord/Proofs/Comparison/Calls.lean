import Concord.Comparison.Declaration
import Concord.Proofs.Comparison.Rules
import Concord.Proofs.Comparison.Exactness

namespace Concord

namespace Session

/-- A step from a state with the property ends in one with the property. -/
def Keeps {α : Type} (P : Session → Prop) (step : StateM Session α) : Prop :=
  ∀ session, P session → P (step.run session).2

namespace Keeps

variable {α β : Type} {P : Session → Prop}

theorem pure (a : α) : Keeps P (Pure.pure a) :=
  fun _ hP => hP

theorem get : Keeps P MonadState.get :=
  fun _ hP => hP

theorem bind {step : StateM Session α} {next : α → StateM Session β} (hstep : Keeps P step)
    (hnext : ∀ a, Keeps P (next a)) : Keeps P (step >>= next) :=
  fun session hP => hnext _ _ (hstep session hP)

theorem ite {test : Prop} [Decidable test] {step other : StateM Session α} (hstep : Keeps P step)
    (hother : Keeps P other) : Keeps P (if test then step else other) := by
  split
  · exact hstep
  · exact hother

section Questions

variable {answer : DeclId → DeclId → StateM Session Bool} (hanswer : ∀ x y, Keeps P (answer x y))
include hanswer

theorem ask (questions : Questions) : Keeps P (questions.ask answer) := by
  obtain ⟨pairs, verdict⟩ := questions
  induction pairs with
  | nil => exact pure verdict
  | cons pair pairs ih =>
    refine bind (hanswer pair.1 pair.2) fun yes => ?_
    cases yes with
    | false => exact pure false
    | true => exact ih

theorem check {check : Check} (hcheck : IsQuestions check) : Keeps P (check answer) := by
  obtain ⟨questions, hasks⟩ := hcheck
  simp only [hasks answer]
  exact ask hanswer questions

end Questions

theorem takePartner? {test : α → StateM Session Bool} (htest : ∀ a, Keeps P (test a))
    (items : List α) : Keeps P (takePartner? test items) := by
  induction items with
  | nil => exact pure none
  | cons item items ih => exact bind (htest item) fun _ => ite (pure _) (bind ih fun _ => pure _)

theorem partneredFrom {equal : α → β → StateM Session Bool} (hequal : ∀ a b, Keeps P (equal a b))
    (place : Nat) (as : List α) (bs : List β) : Keeps P (partneredFrom equal place as bs) := by
  induction as generalizing place bs with
  | nil => exact pure []
  | cons a as ih =>
    refine bind (takePartner? (hequal a) bs) fun taken => ?_
    cases taken with
    | none => exact ih _ _
    | some left => exact bind (ih _ _) fun _ => pure _

section Declarations

variable (sides : Sides) {answer : DeclId → DeclId → StateM Session Bool}
  (hanswer : ∀ x y, Keeps P (answer x y))
include hanswer

theorem types (a b : Ty ClassifierRef) : Keeps P (typesAgree sides answer a b) :=
  check hanswer (typesAgree_isQuestions sides a b)

theorem sharedSupertypes (as bs : List (Ty ClassifierRef)) :
    Keeps P (sharedSupertypes sides answer as bs) :=
  partneredFrom (types sides hanswer) 0 as bs

theorem sharedConstructors (as bs : List (Constructor ClassifierRef)) :
    Keeps P (sharedConstructors sides answer as bs) :=
  partneredFrom (fun a b => check hanswer (constructorsAgree_isQuestions sides a b)) 0 as bs

theorem valueFailures (a b : DeclId) : Keeps P (valueFailures sides answer a b) := by
  simp only [Concord.valueFailures]
  split
  · exact bind (types sides hanswer _ _) fun _ => pure _
  · exact pure _

theorem parameterFailures (place : Nat) (as bs : List DeclId) (failed : Mismatch) :
    Keeps P (parameterFailures sides answer place as bs failed) := by
  induction as generalizing place bs failed with
  | nil => exact pure failed
  | cons a as ih =>
    cases bs with
    | nil => exact pure failed
    | cons b bs => exact bind (valueFailures sides hanswer a b) fun _ => ih _ _ _

theorem functionFailures (a b : DeclId) (dataA dataB : Data)
    (infoA infoB : FunctionInfo ClassifierRef) :
    Keeps P (functionFailures sides answer a b dataA dataB infoA infoB) := by
  refine bind (types sides hanswer _ _) fun _ => ?_
  refine bind (check hanswer (optionalTypesAgree_isQuestions sides _ _)) fun _ => ?_
  refine bind (check hanswer (typeParametersAgree_isQuestions sides _ _)) fun _ => ?_
  exact ite (parameterFailures sides hanswer _ _ _ _) (pure _)

theorem propertyFailures (dataA dataB : Data) (infoA infoB : PropertyInfo ClassifierRef) :
    Keeps P (propertyFailures sides answer dataA dataB infoA infoB) := by
  refine bind (types sides hanswer _ _) fun _ => ?_
  refine bind (check hanswer (typeParametersAgree_isQuestions sides _ _)) fun _ => ?_
  exact bind (check hanswer (optionalTypesAgree_isQuestions sides _ _)) fun _ => pure _

theorem matchedPayloads (a b : DeclId) : Keeps P (matchedPayloads sides answer a b) := by
  simp only [Concord.matchedPayloads]
  split
  · exact bind (bind (sharedSupertypes sides hanswer _ _) fun _ => pure _) fun _ => pure _
  · exact pure _

end Declarations

section Sides

variable {sides : Sides} (hclassifiers : ∀ x y, Keeps P (sides.compareClassifiers x y))
include hclassifiers

theorem shareable (x y : DeclId) : Keeps P (sides.shareable x y) :=
  bind (hclassifiers x y) fun _ => pure _

theorem failuresOf (a b : DeclId) : Keeps P (sides.failuresOf a b) := by
  have hshareable := shareable hclassifiers
  simp only [Sides.failuresOf]
  refine ite (pure _) (ite (pure _) (ite (pure _) ?_))
  split
  · exact functionFailures sides hshareable a b _ _ _ _
  · exact propertyFailures sides hshareable _ _ _ _
  · exact valueFailures sides hshareable a b
  · exact pure _
  · exact pure _
  · exact hclassifiers a b

/-- A comparison of two declarations keeps what comparisons of classifiers keep. It touches a
session only by asking whether two classifiers can be shared. -/
theorem compare (a b : DeclId) : Keeps P (sides.compare a b) := by
  have hpayloads := matchedPayloads sides (shareable hclassifiers) a b
  refine ite hpayloads (bind get fun _ => ?_)
  exact bind (failuresOf hclassifiers a b) fun _ => bind get fun _ => ite hpayloads (pure _)

end Sides

end Keeps

end Session

/-- A comparison of two trees. -/
inductive Call where
  | declarations (a b : DeclId)
  | classifiers (a b : DeclId)
  | types (a b : Ty ClassifierRef)
  | supertypes (a b : List (Ty ClassifierRef))
  | constructors (a b : List (Constructor ClassifierRef))
  /-- Starts a session anew and leaves only the cache. -/
  | newSession

namespace Sides

variable (sides : Sides)

/-- Runs a comparison for what it does to the session. -/
def perform : Call → StateM Session Unit
  | .declarations a b => discard (sides.compare a b)
  | .classifiers a b => discard (sides.compareClassifiers a b)
  | .types a b => discard (typesAgree sides sides.shareable a b)
  | .supertypes a b => discard (sharedSupertypes sides sides.shareable a b)
  | .constructors a b => discard (sharedConstructors sides sides.shareable a b)
  | .newSession => modify fun session => .new sides.options session.cache

/-- Runs comparisons one after the other. -/
def performAll : List Call → StateM Session Unit
  | [] => return
  | call :: calls => do
    sides.perform call
    performAll calls

/-- Comparing two classifiers leads to a state with an exact cache. -/
theorem compareClassifiers_leads (start : Session) (a b : DeclId) :
    Session.Keeps (Session.Leads sides start) (sides.compareClassifiers a b) :=
  fun before hlead => hlead.trans (sides.shareable_answers a b before hlead.exact).toLeads

/-- A comparison keeps what comparisons of classifiers and new sessions keep. -/
private theorem perform_keeps {P : Session → Prop}
    (hclassifiers : ∀ a b, Session.Keeps P (sides.compareClassifiers a b))
    (hnew : ∀ session, P session → P (.new sides.options session.cache)) (call : Call) :
    Session.Keeps P (sides.perform call) := by
  have hshareable := Session.Keeps.shareable hclassifiers
  cases call with
  | declarations a b => exact .bind (.compare hclassifiers a b) fun _ => .pure ()
  | classifiers a b => exact .bind (hclassifiers a b) fun _ => .pure ()
  | types a b => exact .bind (.types sides hshareable a b) fun _ => .pure ()
  | supertypes a b => exact .bind (.sharedSupertypes sides hshareable a b) fun _ => .pure ()
  | constructors a b => exact .bind (.sharedConstructors sides hshareable a b) fun _ => .pure ()
  | newSession => exact hnew

/-- Any comparisons keep what comparisons of classifiers and new sessions keep. -/
theorem performAll_keeps {P : Session → Prop}
    (hclassifiers : ∀ a b, Session.Keeps P (sides.compareClassifiers a b))
    (hnew : ∀ session, P session → P (.new sides.options session.cache)) (calls : List Call) :
    Session.Keeps P (sides.performAll calls) := by
  induction calls with
  | nil => exact .pure ()
  | cons call calls ih => exact .bind (sides.perform_keeps hclassifiers hnew call) fun _ => ih

/-- Any comparisons leave an exact cache exact, and nothing under way. -/
theorem performAll_keeps_exact (calls : List Call) :
    Session.Keeps (fun session => session.guard.visiting = [] ∧ session.cache.Exact sides)
      (sides.performAll calls) := by
  refine sides.performAll_keeps (fun a b before hbefore => ?_) (fun _ hbefore => ⟨rfl, hbefore.2⟩)
    calls
  obtain ⟨hidle, hexact⟩ := hbefore
  have hlead := sides.compareClassifiers_leads before a b before (.refl hexact)
  exact ⟨hlead.visiting.trans hidle, hlead.exact⟩

/-- After any comparisons in any order, starting from an empty cache, every remembered verdict says
whether its pair can be shared. This also holds amid a comparison: one that is nested in others,
with whatever pairs under way, only adds entries to an exact cache and leaves it exact. A comparison
of two classifiers that then says yes is right, and one that says no is right unless it hit a limit. -/
theorem verdicts_exact (calls : List Call) :
    let session := ((sides.performAll calls).run (.new sides.options .empty)).2
    session.cache.Exact sides ∧
    (∀ levels a b before, before.cache.Exact sides →
      let after := ((sides.compareWithin levels a b).run before).2
      before.cache.entries <:+ after.cache.entries ∧ after.cache.Exact sides) ∧
    ∀ a b, let (verdict, after) := (sides.compareClassifiers a b).run session
      (verdict.isEmpty = true → sides.Shareable a b) ∧
      (verdict.isEmpty = false → after.limitHits = session.limitHits → ¬ sides.Shareable a b) := by
  intro session
  have hstart : (Session.new sides.options .empty).cache.Exact sides := nofun
  obtain ⟨hidle, hexact⟩ := sides.performAll_keeps_exact calls _ ⟨rfl, hstart⟩
  refine ⟨hexact, fun levels a b before hbefore => ?_, fun a b => ?_⟩
  · have hsettles := sides.compareWithin_answers levels a b before hbefore
    exact ⟨hsettles.entries, hsettles.exact⟩
  · have hsettles := sides.shareable_answers a b session hexact
    have hgiven := hsettles.given
    rw [show session.guard.visiting = [] from hidle] at hgiven
    exact ⟨fun hyes => sides.shareableGiven_nil.mp (hgiven hyes),
      fun hno hlimit hshare => hsettles.refuted hno hlimit (sides.shareableGiven_nil.mpr hshare)⟩

end Sides

end Concord
