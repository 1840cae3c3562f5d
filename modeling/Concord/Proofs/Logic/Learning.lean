import Concord.Proofs.Comparison.Remembering
import Concord.Proofs.Merge.Runs

namespace Concord

namespace ProgramLogic

variable {n : Type → Type} [Monad n] {logic : ProgramLogic n} {α β : Type}

variable (logic) in
/-- From every session with nothing under way whose cache says at least what is known, the step
leads to another such session, with a result as promised by what its cache says then. -/
def Learns (known : Cache) (step : n α) (post : α → Cache → Prop) : Prop :=
  ∀ before, before.guard.visiting = [] → known.Grown before.cache →
    logic.wp step (fun a after => after.guard.visiting = [] ∧ before.cache.Grown after.cache ∧
      post a after.cache) before

namespace Learns

variable {known : Cache} {step other : n α} {next : α → n β} {post post' : α → Cache → Prop}
  {post'' : β → Cache → Prop}

theorem pure {a : α} (hpost : ∀ cache, known.Grown cache → post a cache) :
    logic.Learns known (Pure.pure a) post :=
  fun before hidle hknown => logic.pure ⟨hidle, .refl _, hpost before.cache hknown⟩

/-- What the first step has learned is known to the second. -/
theorem bind (hstep : logic.Learns known step post)
    (hnext : ∀ a cache, known.Grown cache → post a cache → logic.Learns cache (next a) post'') :
    logic.Learns known (step >>= next) post'' := by
  intro before hidle hknown
  refine logic.bind (logic.mono (hstep before hidle hknown) fun a middle hmiddle => ?_)
  obtain ⟨hidle', hgrown, hpost⟩ := hmiddle
  have hnext := hnext a middle.cache (hknown.trans hgrown) hpost middle hidle' (.refl _)
  exact logic.mono hnext fun b after hafter => ⟨hafter.1, hgrown.trans hafter.2.1, hafter.2.2⟩

theorem mono (hstep : logic.Learns known step post)
    (himp : ∀ a cache, known.Grown cache → post a cache → post' a cache) :
    logic.Learns known step post' := by
  intro before hidle hknown
  refine logic.mono (hstep before hidle hknown) fun a after hafter => ?_
  exact ⟨hafter.1, hafter.2.1, himp a after.cache (hknown.trans hafter.2.1) hafter.2.2⟩

/-- What needs less to be known needs no more. -/
theorem weaken {known' : Cache} (hknown : known.Grown known')
    (hstep : logic.Learns known step post) : logic.Learns known' step post :=
  fun before hidle hknown' => hstep before hidle (hknown.trans hknown')

theorem ite {test : Prop} [Decidable test] (hstep : test → logic.Learns known step post)
    (hother : ¬test → logic.Learns known other post) :
    logic.Learns known (if test then step else other) post := by
  split
  · next htest => exact hstep htest
  · next htest => exact hother htest

end Learns

variable (logic) in
/-- A step whose result passes a test only if a fact is known then, and passes it if the fact is
known before. -/
def Decides (known : Cache) (step : n α) (passes : α → Bool) (fact : Cache → Prop) : Prop :=
  logic.Learns known step fun a cache =>
    (passes a = true → fact cache) ∧ (fact known → passes a = true)

variable (logic) in
/-- In every session whose cache says at least what is known, the step gives one and the same result
and leaves everything as it is, but for what others may add to the cache. -/
def Repeats (known : Cache) (step : n α) (a : α) : Prop :=
  ∀ before, known.Grown before.cache → logic.wp step (fun result after => result = a ∧
    ∃ cache, before.cache.Grown cache ∧ after = { before with cache }) before

namespace Repeats

variable {known : Cache} {step : n α} {next : α → n β} {a : α} {b : β}

theorem pure (a : α) : logic.Repeats known (Pure.pure a) a :=
  fun before _ => logic.pure ⟨rfl, before.cache, .refl _, rfl⟩

theorem bind (hstep : logic.Repeats known step a) (hnext : logic.Repeats known (next a) b) :
    logic.Repeats known (step >>= next) b := by
  intro before hknown
  refine logic.bind (logic.mono (hstep before hknown) ?_)
  rintro _ _ ⟨rfl, cache, hgrown, rfl⟩
  refine logic.mono (hnext { before with cache } (hknown.trans hgrown)) ?_
  rintro _ _ ⟨rfl, cache', hgrown', rfl⟩
  exact ⟨rfl, cache', hgrown.trans hgrown', rfl⟩

theorem learns (hstep : logic.Repeats known step a) :
    logic.Learns known step fun result _ => result = a := by
  intro before hidle hknown
  refine logic.mono (hstep before hknown) ?_
  rintro _ _ ⟨rfl, cache, hgrown, rfl⟩
  exact ⟨hidle, hgrown, rfl⟩

section Answers

variable {answer : DeclId → DeclId → n Bool}
  (hanswer : ∀ x y, known.SaysYes x y → logic.Repeats known (answer x y) true)
include hanswer

theorem ask {questions : Questions} (hhold : questions.Hold known.SaysYes) :
    logic.Repeats known (questions.ask answer) true := by
  obtain ⟨pairs, verdict⟩ := questions
  obtain ⟨hverdict, hpairs⟩ := hhold
  induction pairs with
  | nil =>
    show logic.Repeats known (Pure.pure verdict) true
    rw [show verdict = true from hverdict]
    exact .pure true
  | cons pair pairs ih =>
    obtain ⟨hpair, hpairs⟩ := List.forall_mem_cons.mp hpairs
    exact .bind (hanswer pair.1 pair.2 hpair) (ih hverdict hpairs)

open Classical in
/-- A check whose questions are known to be answered yes. -/
theorem check [LawfulMonad n] {check : Check} (hcheck : IsQuestions check)
    (hyes : check (m := Id) (fun x y => decide (known.SaysYes x y)) = true) :
    logic.Repeats known (check answer) true := by
  obtain ⟨questions, hasks⟩ := hcheck
  simp only [hasks answer]
  refine ask hanswer ?_
  rwa [← questions.ask_relation, ← hasks (m := Id)]

end Answers

end Repeats

section Answers

variable {told : Cache → DeclId → DeclId → Prop}
  (htold : ∀ {known cache : Cache}, known.Grown cache → ∀ x y, told known x y → told cache x y)
  {answer : DeclId → DeclId → n Bool}
  (hanswer : ∀ known x y, logic.Decides known (answer x y) id (told · x y))
include htold hanswer

/-- Questions that are all answered yes are answered yes from then on. -/
theorem Decides.ask (questions : Questions) (known : Cache) :
    logic.Decides known (questions.ask answer) id fun cache => questions.Hold (told cache) := by
  obtain ⟨pairs, verdict⟩ := questions
  induction pairs generalizing known with
  | nil =>
    show logic.Decides known (Pure.pure verdict) _ _
    exact .pure fun _ _ => ⟨fun hyes => ⟨hyes, nofun⟩, fun hhold => hhold.1⟩
  | cons pair pairs ih =>
    refine .bind (hanswer known pair.1 pair.2) fun yes cache hgrown hfirst => ?_
    cases yes with
    | false =>
      refine .pure fun _ _ => ⟨nofun, fun hhold => ?_⟩
      exact hfirst.2 (hhold.2 pair List.mem_cons_self)
    | true =>
      refine (ih cache).mono fun more cache' hgrown' hrest => ⟨fun hyes => ?_, fun hhold => ?_⟩
      · refine ⟨(hrest.1 hyes).1, List.forall_mem_cons.mpr ⟨?_, (hrest.1 hyes).2⟩⟩
        exact htold hgrown' _ _ (hfirst.1 rfl)
      · refine hrest.2 ⟨hhold.1, fun other hother => htold hgrown _ _ ?_⟩
        exact hhold.2 other (List.mem_cons_of_mem _ hother)

open Classical in
/-- A check that says yes will say yes again. -/
theorem Decides.check [LawfulMonad n] {check : Check} (hcheck : IsQuestions check)
    {meaning : (DeclId → DeclId → Prop) → Prop}
    (hmeaning : ∀ R, check (m := Id) (fun x y => decide (R x y)) = true ↔ meaning R)
    (known : Cache) : logic.Decides known (check answer) id fun cache => meaning (told cache) := by
  obtain ⟨questions, hasks⟩ := hcheck
  have hholds (R : DeclId → DeclId → Prop) : questions.Hold R ↔ meaning R := by
    rw [← questions.ask_relation R, ← hasks (m := Id), hmeaning]
  simp only [hasks answer, ← hholds]
  exact Decides.ask htold hanswer questions known

end Answers

end ProgramLogic

namespace Memory

variable {n : Type → Type} [Monad n] {memory : Memory n} {logic : ProgramLogic n}

/-- A comparison of two classifiers that says yes will say yes again. -/
theorem compareWithin_decides [LawfulMonad n] (hmemory : memory.Remembers logic) (sides : Sides)
    (levels : Nat) (known : Cache) (a b : DeclId) :
    logic.Decides known (memory.compareWithin sides levels a b) Mismatch.isEmpty
      (·.SaysYes a b) := by
  intro before hidle hknown
  by_cases htold : known.SaysYes a b
  · refine logic.mono (compareWithin_known hmemory (htold.stays hknown a b)) ?_
    rintro verdict _ ⟨hyes, cache, hgrown, rfl⟩
    exact ⟨hidle, hgrown, fun _ => htold.stays (hknown.trans hgrown) a b, fun _ => hyes⟩
  · refine logic.mono (compareWithin_recalls hmemory sides levels a b before) ?_
    intro verdict after hrecalls
    refine ⟨hrecalls.visiting.trans hidle, hrecalls.grown, fun hyes => hrecalls.fact hyes hidle,
      fun hknown => absurd hknown htold⟩

/-- Two classifiers that are known to match are found to. -/
theorem compareWithin_repeats (hmemory : memory.Remembers logic) (sides : Sides) (levels : Nat)
    {known : Cache} {a b : DeclId} (hyes : known.SaysYes a b) :
    logic.Repeats known (memory.compareWithin sides levels a b) .none := by
  intro before hknown
  refine logic.mono (compareWithin_known hmemory (hyes.stays hknown a b)) ?_
  rintro ⟨causes⟩ after ⟨hyes, hafter⟩
  exact ⟨congrArg Mismatch.mk (List.isEmpty_iff.mp hyes), hafter⟩

end Memory

end Concord
