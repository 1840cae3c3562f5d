import Concord.Proofs.Comparison.Rules
import Concord.Proofs.Merge.Services

namespace Concord

/-- When computations in two monads go alike, given when their results are alike. -/
structure Simulation (m n : Type → Type) [Monad m] [Monad n] where
  Rel : {α : Type} → (α → α → Prop) → m α → n α → Prop
  pure : ∀ {α : Type} {R : α → α → Prop} {a b : α}, R a b → Rel R (Pure.pure a) (Pure.pure b)
  bind : ∀ {α β : Type} {R : α → α → Prop} {S : β → β → Prop} {x : m α} {y : n α} {f : α → m β}
    {g : α → n β}, (∀ a, R a a) → Rel R x y → (∀ a b, R a b → Rel S (f a) (g b)) →
    Rel S (x >>= f) (y >>= g)

namespace Simulation

variable {m n : Type → Type} [Monad m] [Monad n] (sim : Simulation m n) {α β : Type}

theorem done (a : α) : sim.Rel Eq (Pure.pure a) (Pure.pure a) :=
  sim.pure rfl

/-- Behind equal results it is enough to go on alike from each of them. -/
theorem andThen {S : β → β → Prop} {x : m α} {y : n α} {f : α → m β} {g : α → n β}
    (hfirst : sim.Rel Eq x y) (hnext : ∀ a, sim.Rel S (f a) (g a)) :
    sim.Rel S (x >>= f) (y >>= g) := by
  refine sim.bind (fun _ => rfl) hfirst ?_
  rintro a _ rfl
  exact hnext a

theorem ite {R : α → α → Prop} {test : Prop} [Decidable test] {x x' : m α} {y y' : n α}
    (hx : sim.Rel R x y) (hx' : sim.Rel R x' y') :
    sim.Rel R (if test then x else x') (if test then y else y') := by
  split
  · exact hx
  · exact hx'

/-- Computations that go like one that cannot fail go like its value. -/
def value {ε : Type} (sim : Simulation m (Except ε)) : Simulation m Id where
  Rel R x y := sim.Rel R x (.ok y.run)
  pure hR := sim.pure hR
  bind hrefl hfirst hnext := sim.bind hrefl hfirst fun a b hR => hnext a b hR

/-- Computations that go alike from every state and leave it alike. -/
def withState (σ : Type) (sim : Simulation m n) : Simulation (StateT σ m) (StateT σ n) where
  Rel R x y := ∀ state, sim.Rel (fun p q => R p.1 q.1 ∧ p.2 = q.2) (x state) (y state)
  pure hR state := sim.pure ⟨hR, rfl⟩
  bind := by
    intro α β R S x y f g hrefl hfirst hnext state
    refine sim.bind (fun p => ⟨hrefl p.1, rfl⟩) (hfirst state) ?_
    rintro ⟨a, state⟩ ⟨b, _⟩ ⟨hR, rfl⟩
    exact hnext a b hR state

/-- Computations that leave the state alone go alike if they do without it. -/
theorem withState_lift {σ : Type} {R : α → α → Prop} {x : m α} {y : n α} (hrefl : ∀ a, R a a)
    (hstep : sim.Rel R x y) : (sim.withState σ).Rel R (StateT.lift x) (StateT.lift y) :=
  fun _ => sim.bind hrefl hstep fun _ _ hR => sim.pure ⟨hR, rfl⟩

section Comparisons

variable [LawfulMonad m] [LawfulMonad n] (sides : Sides) {ask : DeclId → DeclId → m Bool}
  {answer : DeclId → DeclId → n Bool} (hask : ∀ x y, sim.Rel Eq (ask x y) (answer x y))
include hask

omit [LawfulMonad m] [LawfulMonad n] in
theorem questions (questions : Questions) :
    sim.Rel Eq (questions.ask ask) (questions.ask answer) := by
  obtain ⟨pairs, verdict⟩ := questions
  induction pairs with
  | nil => exact sim.done verdict
  | cons pair pairs ih => exact sim.andThen (hask pair.1 pair.2) fun yes => sim.ite ih (sim.done _)

theorem check {check : Check} (hcheck : IsQuestions check) :
    sim.Rel Eq (check ask) (check answer) := by
  obtain ⟨questions, hasks⟩ := hcheck
  simp only [hasks ask, hasks answer]
  exact sim.questions hask questions

omit [LawfulMonad m] [LawfulMonad n] hask in
theorem takePartner? {test : α → m Bool} {test' : α → n Bool}
    (htest : ∀ a, sim.Rel Eq (test a) (test' a)) (items : List α) :
    sim.Rel Eq (takePartner? test items) (takePartner? test' items) := by
  induction items with
  | nil => exact sim.done none
  | cons item items ih =>
    exact sim.andThen (htest item) fun yes =>
      sim.ite (sim.done _) (sim.andThen ih fun left => sim.done _)

omit [LawfulMonad m] [LawfulMonad n] hask in
theorem partneredFrom {equal : α → β → m Bool} {equal' : α → β → n Bool}
    (hequal : ∀ a b, sim.Rel Eq (equal a b) (equal' a b)) (place : Nat) (as : List α)
    (bs : List β) :
    sim.Rel Eq (partneredFrom equal place as bs) (partneredFrom equal' place as bs) := by
  induction as generalizing place bs with
  | nil => exact sim.done []
  | cons a as ih =>
    refine sim.andThen (sim.takePartner? (hequal a) bs) fun taken => ?_
    cases taken with
    | none => exact ih _ _
    | some left => exact sim.andThen (ih _ _) fun places => sim.done _

theorem types (a b : Ty ClassifierRef) :
    sim.Rel Eq (typesAgree sides ask a b) (typesAgree sides answer a b) :=
  sim.check hask (typesAgree_isQuestions sides a b)

theorem sharedSupertypes (as bs : List (Ty ClassifierRef)) :
    sim.Rel Eq (sharedSupertypes sides ask as bs) (sharedSupertypes sides answer as bs) :=
  sim.partneredFrom (sim.types sides hask) 0 as bs

theorem sharedConstructors (as bs : List (Constructor ClassifierRef)) :
    sim.Rel Eq (sharedConstructors sides ask as bs) (sharedConstructors sides answer as bs) :=
  sim.partneredFrom (fun a b => sim.check hask (constructorsAgree_isQuestions sides a b)) 0 as bs

/-- Rules on two classifiers go alike when the answers to their questions do. -/
theorem classifierFailures (a b : DeclId) :
    sim.Rel Eq (classifierFailures sides ask a b) (classifierFailures sides answer a b) := by
  obtain ⟨rules, hrules⟩ := classifierFailures_isRuleQuestions sides a b
  simp only [hrules ask, hrules answer, RuleQuestions.ask]
  refine sim.andThen (sim.questions hask _) fun parameters => ?_
  exact sim.andThen (sim.questions hask _) fun containers => sim.done _

theorem valueFailures (a b : DeclId) :
    sim.Rel Eq (valueFailures sides ask a b) (valueFailures sides answer a b) := by
  simp only [Concord.valueFailures]
  split
  · exact sim.andThen (sim.types sides hask _ _) fun types => sim.done _
  · exact sim.done _

theorem parameterFailures (place : Nat) (as bs : List DeclId) (failed : Mismatch) :
    sim.Rel Eq (parameterFailures sides ask place as bs failed)
      (parameterFailures sides answer place as bs failed) := by
  induction as generalizing place bs failed with
  | nil => exact sim.done failed
  | cons a as ih =>
    cases bs with
    | nil => exact sim.done failed
    | cons b bs => exact sim.andThen (sim.valueFailures sides hask a b) fun mismatch => ih _ _ _

theorem functionFailures (a b : DeclId) (dataA dataB : Data)
    (infoA infoB : FunctionInfo ClassifierRef) :
    sim.Rel Eq (functionFailures sides ask a b dataA dataB infoA infoB)
      (functionFailures sides answer a b dataA dataB infoA infoB) := by
  refine sim.andThen (sim.types sides hask _ _) fun returnTypes => ?_
  refine sim.andThen (sim.check hask (optionalTypesAgree_isQuestions sides _ _)) fun receivers => ?_
  refine sim.andThen (sim.check hask (typeParametersAgree_isQuestions sides _ _)) fun agree => ?_
  exact sim.ite (sim.parameterFailures sides hask _ _ _ _) (sim.done _)

theorem propertyFailures (dataA dataB : Data) (infoA infoB : PropertyInfo ClassifierRef) :
    sim.Rel Eq (propertyFailures sides ask dataA dataB infoA infoB)
      (propertyFailures sides answer dataA dataB infoA infoB) := by
  refine sim.andThen (sim.types sides hask _ _) fun types => ?_
  refine sim.andThen (sim.check hask (typeParametersAgree_isQuestions sides _ _)) fun agree => ?_
  exact sim.andThen (sim.check hask (optionalTypesAgree_isQuestions sides _ _)) fun _ => sim.done _

theorem matchedPayloads (a b : DeclId) :
    sim.Rel Eq (matchedPayloads sides ask a b) (matchedPayloads sides answer a b) := by
  simp only [Concord.matchedPayloads]
  split
  · exact sim.andThen (sim.andThen (sim.sharedSupertypes sides hask _ _) fun places => sim.done _)
      fun common => sim.done _
  · exact sim.andThen (sim.done _) fun common => sim.done _

end Comparisons

section Services

variable {p q : Type → Type} [LawfulMonad m] [LawfulMonad n] {services : Services m p}
  {others : Services n q} (sides : Sides)
  (hverdict : ∀ a b, sim.Rel Eq (services.verdict a b) (others.verdict a b))
include hverdict

omit [LawfulMonad m] [LawfulMonad n] in
theorem shareable (a b : DeclId) : sim.Rel Eq (services.shareable a b) (others.shareable a b) :=
  sim.andThen (hverdict a b) fun _ => sim.done _

/-- Services that give the same verdicts find the same rules failed. -/
theorem failuresOf (a b : DeclId) :
    sim.Rel Eq (services.failuresOf sides a b) (others.failuresOf sides a b) := by
  have hask := sim.shareable hverdict
  simp only [Services.failuresOf]
  refine sim.ite (sim.done _) (sim.ite (sim.done _) (sim.ite (sim.done _) ?_))
  split
  · exact sim.functionFailures sides hask a b _ _ _ _
  · exact sim.propertyFailures sides hask _ _ _ _
  · exact sim.valueFailures sides hask a b
  · exact sim.done _
  · exact sim.done _
  · exact hverdict a b

/-- Services that give the same verdicts and watch alike compare declarations alike. -/
theorem compare (hwatched : ∀ {x : m Mismatch} {y : n Mismatch}, sim.Rel Eq x y →
      sim.Rel Eq (services.watched x) (others.watched y)) (a b : DeclId) :
    sim.Rel Eq (services.compare sides a b) (others.compare sides a b) := by
  have hpayloads := sim.matchedPayloads sides (sim.shareable hverdict) a b
  refine sim.ite hpayloads (sim.andThen (hwatched (sim.failuresOf sides hverdict a b)) ?_)
  exact fun outcome => sim.ite hpayloads (sim.done _)

end Services

end Simulation

/-- Two matches, or two mismatches. -/
def Mismatch.Alike (first second : Mismatch) : Prop :=
  first.isEmpty = second.isEmpty

/-- Two equal matches, or two mismatches. -/
inductive Comparison.Alike : Comparison → Comparison → Prop
  | matched (first common second : Data) :
    Alike (.matched first common second) (.matched first common second)
  | mismatched (mismatch other : Mismatch) : Alike (.mismatched mismatch) (.mismatched other)

theorem Comparison.Alike.refl (comparison : Comparison) : comparison.Alike comparison := by
  cases comparison with
  | matched first common second => exact .matched first common second
  | mismatched mismatch => exact .mismatched mismatch mismatch

/-- What a rejection is about. -/
def Rejection.subject (record : Rejection) : QualifiedName × Kind :=
  (record.qualifiedName, record.kind)

/-- Equal results, and rejections of the same declarations in the same order. -/
def ReportsAlike {α : Type} (first second : α × List Rejection) : Prop :=
  first.1 = second.1 ∧ first.2.map Rejection.subject = second.2.map Rejection.subject

theorem ReportsAlike.refl {α : Type} (report : α × List Rejection) : ReportsAlike report report :=
  ⟨rfl, rfl⟩

/-- Equal forests, and rejections of the same declarations in the same order. -/
def MergeResult.Alike (first second : MergeResult) : Prop :=
  first.forest = second.forest ∧
    first.rejections.map Rejection.subject = second.rejections.map Rejection.subject

/-- Equal partners, or equally many failures. -/
inductive SearchesAlike {α : Type} : Except (List Mismatch) α → Except (List Mismatch) α → Prop
  | found (a : α) : SearchesAlike (.ok a) (.ok a)
  | failed {failures others : List Mismatch} (hlength : failures.length = others.length) :
    SearchesAlike (.error failures) (.error others)

theorem SearchesAlike.refl {α : Type} (search : Except (List Mismatch) α) :
    SearchesAlike search search := by
  cases search with
  | ok a => exact .found a
  | error failures => exact .failed rfl

namespace Services

variable {n m n' m' : Type → Type} [Monad n] [Monad m] [Monad n'] [Monad m']

/-- Services that answer alike, and whose steps go alike. -/
structure Alike (sim : Simulation n n') (simM : Simulation m m') (services : Services n m)
    (others : Services n' m') : Prop where
  verdict : ∀ a b, sim.Rel Mismatch.Alike (services.verdict a b) (others.verdict a b)
  watched : ∀ {x : n Mismatch} {y : n' Mismatch}, sim.Rel Mismatch.Alike x y →
    sim.Rel (fun p q => p.1.Alike q.1 ∧ p.2 = q.2) (services.watched x) (others.watched y)
  lift : ∀ {α : Type} {R : α → α → Prop} {x : n α} {y : n' α}, (∀ a, R a a) → sim.Rel R x y →
    simM.Rel R (services.lift x) (others.lift y)
  attempt : ∀ {α : Type} (step : Except RunError α),
    simM.Rel Eq (services.attempt step) (others.attempt step)
  note : ∀ a b, simM.Rel Eq (services.note a b) (others.note a b)
  apart : ∀ {merge : Pairing → m Merged} {merge' : Pairing → m' Merged},
    (∀ pairing, simM.Rel ReportsAlike (merge pairing) (merge' pairing)) →
    ∀ plan, simM.Rel ReportsAlike (services.apart merge plan) (others.apart merge' plan)

namespace Alike

variable {sim : Simulation n n'}
  {simM : Simulation m m'} {services : Services n m} {others : Services n' m'} (sides : Sides)

section

variable (halike : Alike sim simM services others)
include halike

theorem shareable (a b : DeclId) :
    sim.Rel Eq (services.shareable a b) (others.shareable a b) :=
  sim.bind (R := Mismatch.Alike) (fun _ => rfl) (halike.verdict a b) fun _ _ halike =>
    sim.pure halike

variable [LawfulMonad n] [LawfulMonad n']

theorem failuresOf (a b : DeclId) :
    sim.Rel Mismatch.Alike (services.failuresOf sides a b) (others.failuresOf sides a b) := by
  have settled {x : n Mismatch} {y : n' Mismatch} (h : sim.Rel Eq x y) :
      sim.Rel Mismatch.Alike x y := by
    rw [← bind_pure x, ← bind_pure y]
    exact sim.andThen h fun mismatch => sim.pure rfl
  have hask := halike.shareable
  simp only [Services.failuresOf]
  refine sim.ite (sim.pure rfl) (sim.ite (sim.pure rfl) (sim.ite (sim.pure rfl) ?_))
  split
  · exact settled (sim.functionFailures sides hask a b _ _ _ _)
  · exact settled (sim.propertyFailures sides hask _ _ _ _)
  · exact settled (sim.valueFailures sides hask a b)
  · exact sim.pure rfl
  · exact sim.pure rfl
  · exact halike.verdict a b

/-- Comparisons of two declarations match alike. -/
theorem compare (a b : DeclId) :
    sim.Rel Comparison.Alike (services.compare sides a b) (others.compare sides a b) := by
  have hpayloads : sim.Rel Comparison.Alike (matchedPayloads sides services.shareable a b)
      (matchedPayloads sides others.shareable a b) := by
    rw [← bind_pure (matchedPayloads sides services.shareable a b),
      ← bind_pure (matchedPayloads sides others.shareable a b)]
    exact sim.andThen (sim.matchedPayloads sides halike.shareable a b) fun comparison =>
      sim.pure (.refl comparison)
  refine sim.ite hpayloads (sim.bind (fun _ => ⟨rfl, rfl⟩)
    (halike.watched (halike.failuresOf sides a b)) ?_)
  rintro ⟨mismatch, within⟩ ⟨other, _⟩ ⟨hmismatch, rfl⟩
  have hsame : (mismatch.require within .recursionLimit).isEmpty =
      (other.require within .recursionLimit).isEmpty := by
    rw [Mismatch.isEmpty_require, Mismatch.isEmpty_require, show mismatch.isEmpty = _ from hmismatch]
  simp only [hsame]
  exact sim.ite hpayloads (sim.pure (.mismatched _ _))

/-- Searches for a partner end alike. -/
theorem findPartner (a : DeclId) (bs : List DeclId) :
    sim.Rel SearchesAlike (services.findPartner sides a bs) (others.findPartner sides a bs) := by
  induction bs with
  | nil => exact sim.pure (.failed rfl)
  | cons b bs ih =>
    refine sim.ite ?_ ?_
    · refine sim.bind Comparison.Alike.refl (halike.compare sides a b) ?_
      rintro _ _ (⟨first, common, second⟩ | ⟨mismatch, other⟩)
      · exact sim.pure (.found _)
      · refine sim.bind SearchesAlike.refl ih ?_
        rintro _ _ (⟨pairing, left⟩ | hlength)
        · exact sim.pure (.found _)
        · exact sim.pure (.failed (congrArg (· + 1) hlength))
    · refine sim.bind SearchesAlike.refl ih ?_
      rintro _ _ (⟨pairing, left⟩ | hlength)
      · exact sim.pure (.found _)
      · exact sim.pure (.failed hlength)

/-- Siblings are paired alike, and rejections are about the same declarations. -/
theorem pairSiblings (as bs : List DeclId) :
    sim.Rel ReportsAlike (services.pairSiblings sides as bs) (others.pairSiblings sides as bs) := by
  induction as generalizing bs with
  | nil => exact sim.pure (.refl _)
  | cons a as ih =>
    have hrest (pairing : Pairing) (left : List DeclId) (failures failures' : List Rejection)
        (hfailures : failures.map Rejection.subject = failures'.map Rejection.subject) :
        sim.Rel ReportsAlike
          (do let paired ← services.pairSiblings sides as left
              return (pairing :: paired.1, failures ++ paired.2))
          (do let paired ← others.pairSiblings sides as left
              return (pairing :: paired.1, failures' ++ paired.2)) := by
      refine sim.bind ReportsAlike.refl (ih left) fun report report' hreport => ?_
      refine sim.pure ⟨congrArg (pairing :: ·) hreport.1, ?_⟩
      rw [List.map_append, List.map_append, hfailures, hreport.2]
    refine sim.ite (hrest _ bs [] [] rfl) ?_
    refine sim.bind SearchesAlike.refl (halike.findPartner sides a bs) ?_
    rintro _ _ (⟨pairing, left⟩ | hlength)
    · exact hrest pairing left [] [] rfl
    · refine hrest _ bs _ _ ?_
      have hsubject : Rejection.subject ∘ sides.rejection a =
          fun _ => (sides.rejection a .none).subject := rfl
      rw [List.map_map, List.map_map, hsubject, List.map_const', List.map_const', hlength]

theorem intersect (a b : DeclId) (common : Data) :
    sim.Rel Eq (services.intersect sides a b common) (others.intersect sides a b common) := by
  have hask := halike.shareable
  simp only [Services.intersect]
  split
  · refine sim.andThen (sim.sharedSupertypes sides hask _ _) fun supertypes => ?_
    refine sim.andThen (sim.sharedConstructors sides hask _ _) fun constructors => ?_
    split <;> exact sim.done _
  · exact sim.done _

/-- Parameters are merged alike. -/
theorem mergeParameters (as bs : List DeclId) :
    simM.Rel Eq (services.mergeParameters sides as bs) (others.mergeParameters sides as bs) := by
  induction as generalizing bs with
  | nil =>
    cases bs with
    | nil => simpa only [Services.mergeParameters] using halike.attempt _
    | cons b bs => simpa only [Services.mergeParameters] using halike.attempt _
  | cons a as ih =>
    cases bs with
    | nil => simpa only [Services.mergeParameters] using halike.attempt _
    | cons b bs =>
      have hrest (nodes : List MergedNode) : simM.Rel Eq
          (do return nodes ++ (← services.mergeParameters sides as bs))
          (do return nodes ++ (← others.mergeParameters sides as bs)) :=
        simM.andThen (ih bs) fun rest => simM.done _
      simp only [Services.mergeParameters]
      refine simM.bind Comparison.Alike.refl
        (halike.lift Comparison.Alike.refl (halike.compare sides a b)) ?_
      rintro _ _ (⟨first, common, second⟩ | ⟨mismatch, other⟩)
      · exact simM.andThen (halike.note a b) fun _ => simM.andThen (simM.done _) hrest
      · refine simM.andThen (halike.attempt _) fun first => ?_
        exact simM.andThen (halike.attempt _) fun second => simM.andThen (simM.done _) hrest

end

/-- Merges of children that go alike are collected alike. -/
theorem collect {merge : Pairing → m Merged} {merge' : Pairing → m' Merged}
    (hmerge : ∀ pairing, simM.Rel ReportsAlike (merge pairing) (merge' pairing))
    (plan : List Pairing) :
    simM.Rel ReportsAlike (Services.collect merge plan) (Services.collect merge' plan) := by
  induction plan with
  | nil => exact simM.pure (.refl _)
  | cons pairing plan ih =>
    refine simM.bind ReportsAlike.refl (hmerge pairing) ?_
    rintro ⟨node, rejections⟩ ⟨_, rejections'⟩ ⟨rfl, hfirst⟩
    refine simM.bind ReportsAlike.refl ih ?_
    rintro ⟨nodes, others⟩ ⟨_, others'⟩ ⟨rfl, hrest⟩
    refine simM.pure ⟨rfl, ?_⟩
    rw [List.map_append, List.map_append, hfirst, hrest]

variable [LawfulMonad n] [LawfulMonad n'] (halike : Alike sim simM services others)
include halike

/-- What a pairing says is merged alike. -/
theorem mergePaired (levels : Nat) (pairing : Pairing) :
    simM.Rel ReportsAlike (services.mergePaired sides levels pairing)
      (others.mergePaired sides levels pairing) := by
  have hfirst (a : DeclId) : simM.Rel ReportsAlike
      (do return (← services.attempt (sides.first.single .first a), []))
      (do return (← others.attempt (sides.first.single .first a), [])) :=
    simM.andThen (halike.attempt _) fun node => simM.pure (.refl _)
  have hsecond (b : DeclId) : simM.Rel ReportsAlike
      (do return (← services.attempt (sides.second.single .second b), []))
      (do return (← others.attempt (sides.second.single .second b), [])) :=
    simM.andThen (halike.attempt _) fun node => simM.pure (.refl _)
  induction levels generalizing pairing with
  | zero =>
    cases pairing with
    | firstAlone a => exact hfirst a
    | secondAlone b => exact hsecond b
    | partners a b first common second =>
      exact simM.andThen (halike.note a b) fun _ => simM.pure (.refl _)
  | succ levels ih =>
    cases pairing with
    | firstAlone a => exact hfirst a
    | secondAlone b => exact hsecond b
    | partners a b first common second =>
      have hchildren (kind : Kind) (plan : List Pairing) : simM.Rel ReportsAlike
          (services.mergeChildren kind (services.mergePaired sides levels) plan)
          (others.mergeChildren kind (others.mergePaired sides levels) plan) :=
        simM.ite (halike.apart ih plan) (collect ih plan)
      simp only [Services.mergePaired]
      refine simM.andThen (halike.note a b) fun _ => ?_
      refine simM.andThen (halike.lift (fun _ => rfl) (halike.intersect sides a b common))
        fun common => ?_
      split
      · refine simM.andThen (halike.mergeParameters sides _ _) fun nodes => ?_
        exact simM.pure (.refl _)
      · refine simM.bind ReportsAlike.refl
          (halike.lift ReportsAlike.refl (halike.pairSiblings sides _ _)) ?_
        rintro ⟨plan, failures⟩ ⟨_, failures'⟩ ⟨rfl, hfailures⟩
        refine simM.bind ReportsAlike.refl (hchildren _ plan) ?_
        rintro ⟨nodes, rejections⟩ ⟨_, rejections'⟩ ⟨rfl, hrejections⟩
        refine simM.pure ⟨rfl, ?_⟩
        rw [List.map_append, List.map_append, hfailures, hrejections]

/-- Two trees are merged alike. -/
theorem merge : simM.Rel MergeResult.Alike (services.merge sides) (others.merge sides) := by
  refine simM.andThen (halike.attempt _) fun _ => simM.andThen (halike.attempt _) fun _ => ?_
  refine simM.bind ReportsAlike.refl
    (halike.lift ReportsAlike.refl (halike.pairSiblings sides _ _)) ?_
  rintro ⟨plan, failures⟩ ⟨_, failures'⟩ ⟨rfl, hfailures⟩
  refine simM.bind ReportsAlike.refl (collect (halike.mergePaired sides _) plan) ?_
  rintro ⟨nodes, rejections⟩ ⟨_, rejections'⟩ ⟨rfl, hrejections⟩
  refine simM.pure ⟨rfl, ?_⟩
  rw [List.map_append, List.map_append, hfailures, hrejections]

end Alike

end Services

end Concord
