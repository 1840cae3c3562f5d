import Concord.Proofs.Logic.Services

namespace Concord

namespace Cache

/-- The cache says yes on a pair. -/
def SaysYes (cache : Cache) (a b : DeclId) : Prop :=
  ∃ verdict, cache.find? (a, b) = some verdict ∧ verdict.isEmpty = true

/-- A cache that still says all that an earlier one said. -/
def Grown (before after : Cache) : Prop :=
  ∀ pair verdict, before.find? pair = some verdict → after.find? pair = some verdict

variable {before middle after : Cache}

theorem Grown.refl (cache : Cache) : Grown cache cache :=
  fun _ _ hfind => hfind

theorem Grown.trans (hfirst : Grown before middle) (hsecond : Grown middle after) :
    Grown before after :=
  fun pair verdict hfind => hsecond pair verdict (hfirst pair verdict hfind)

/-- What a cache has said yes to it says yes to from then on. -/
theorem SaysYes.stays (hgrown : Grown before after) (a b : DeclId) (hyes : before.SaysYes a b) :
    after.SaysYes a b := by
  obtain ⟨verdict, hfind, hempty⟩ := hyes
  exact ⟨verdict, hgrown (a, b) verdict hfind, hempty⟩

theorem find?_get (cache : Cache) (pair other : Pair) :
    (cache.get pair).2.find? other = cache.find? other := by
  rw [find?, entries_get, find?]

theorem grown_get (cache : Cache) (pair : Pair) : Grown cache (cache.get pair).2 := by
  intro other verdict hfind
  rwa [find?_get]

/-- What storing a verdict leaves in the cache is what it gives. -/
theorem find?_insert_self (cache : Cache) (pair : Pair) (verdict : Mismatch) :
    (cache.insert pair verdict).2.find? pair = some (cache.insert pair verdict).1 := by
  rw [insert]
  cases hfind : cache.find? pair with
  | none => exact List.lookup_cons_self
  | some stored => exact hfind

theorem grown_insert (cache : Cache) (pair : Pair) (verdict : Mismatch) :
    Grown cache (cache.insert pair verdict).2 := by
  intro other found hfound
  rw [insert]
  cases hfind : cache.find? pair with
  | some stored => exact hfound
  | none =>
    have hne : other ≠ pair := by
      rintro rfl
      rw [hfind] at hfound
      cases hfound
    show List.lookup other ((pair, verdict) :: cache.entries) = some found
    rw [List.lookup_cons, beq_eq_false_iff_ne.mpr hne]
    exact hfound

end Cache

/-- A memory that gives what it holds and never drops it. What the session knows of the memory is
its cache, behind which the memory may hold more. Other steps of the session leave the memory alone
and do not look at what is known of it. -/
structure Memory.Remembers {n : Type → Type} [Monad n] (memory : Memory n)
    (logic : ProgramLogic n) : Prop where
  lookUp : ∀ {pair : Pair} {post : Option Mismatch → Session → Prop} {before : Session},
    (∀ cache, before.cache.Grown cache → post (cache.find? pair) { before with cache }) →
    logic.wp (memory.lookUp pair) post before
  store : ∀ {pair : Pair} {verdict : Mismatch} {post : Mismatch → Session → Prop}
    {before : Session},
    (∀ stored cache, before.cache.Grown cache → cache.find? pair = some stored →
      post stored { before with cache }) → logic.wp (memory.store pair verdict) post before
  privately : ∀ {α : Type} {step : StateM Session α} {post : α → Session → Prop}
    {before : Session},
    (∀ cache, (step.run { before with cache }).2.cache = cache ∧
      post (step.run { before with cache }).1
        { (step.run { before with cache }).2 with cache := before.cache }) →
    logic.wp (memory.privately step) post before

/-- The logic of what a session does, step by step. -/
def Session.stepLogic : ProgramLogic (StateM Session) where
  wp step post before := post (step.run before).1 (step.run before).2
  pure hpost := hpost
  bind hstep := hstep
  mono hstep hpost := hpost _ _ hstep

/-- The cache in a session drops nothing. -/
theorem Session.memory_remembers : Session.memory.Remembers Session.stepLogic where
  lookUp {pair post before} hpost := by
    have hgrown := hpost _ (before.cache.grown_get pair)
    rwa [Cache.find?_get, ← Cache.get_fst] at hgrown
  store {pair verdict post before} hpost :=
    hpost _ _ (before.cache.grown_insert pair verdict) (before.cache.find?_insert_self pair verdict)
  privately {α step post before} hpost := by
    obtain ⟨hcache, hafter⟩ := hpost before.cache
    have hsame : { (step.run before).2 with cache := before.cache } = (step.run before).2 := by
      rw [← show (step.run before).2.cache = before.cache from hcache]
    show post (step.run before).1 (step.run before).2
    rw [← hsame]
    exact hafter

namespace Session

/-- What a check leaves behind. A yes has hit no limit, and with nothing under way before it the
cache then ensures some fact. -/
structure Recalls (fact : Cache → Prop) (before after : Session) (yes : Bool) : Prop where
  visiting : after.guard.visiting = before.guard.visiting
  grown : before.cache.Grown after.cache
  limitHits : yes = true → after.limitHits = before.limitHits
  fact : yes = true → before.guard.visiting = [] → fact after.cache

namespace Recalls

variable {fact other combined : Cache → Prop} {before middle after : Session} {yes more : Bool}

/-- A check that changes nothing. -/
theorem unchanged (session : Session) (hfact : yes = true → fact session.cache) :
    Recalls fact session session yes :=
  ⟨rfl, .refl _, fun _ => rfl, fun hyes _ => hfact hyes⟩

/-- A check that says no ensures nothing else. -/
theorem refused (hvisiting : after.guard.visiting = before.guard.visiting)
    (hgrown : before.cache.Grown after.cache) : Recalls fact before after false :=
  ⟨hvisiting, hgrown, fun hno => absurd hno Bool.false_ne_true,
    fun hno => absurd hno Bool.false_ne_true⟩

/-- A check that said no decides what follows it. -/
theorem no (hrecalls : Recalls fact before after false) : Recalls other before after false :=
  .refused hrecalls.visiting hrecalls.grown

/-- Two checks one after the other. The fact of the first one stays. -/
theorem both (hfirst : Recalls fact before middle yes) (hsecond : Recalls other middle after more)
    (hstays : ∀ cache cache', Cache.Grown cache cache' → fact cache → fact cache')
    (himp : ∀ cache, fact cache → other cache → combined cache) :
    Recalls combined before after (yes && more) where
  visiting := hsecond.visiting.trans hfirst.visiting
  grown := hfirst.grown.trans hsecond.grown
  limitHits hboth := by
    obtain ⟨hyes, hmore⟩ := Bool.and_eq_true_iff.mp hboth
    exact (hsecond.limitHits hmore).trans (hfirst.limitHits hyes)
  fact hboth hidle := by
    obtain ⟨hyes, hmore⟩ := Bool.and_eq_true_iff.mp hboth
    refine himp _ ?_ (hsecond.fact hmore (hfirst.visiting.trans hidle))
    exact hstays _ _ hsecond.grown (hfirst.fact hyes hidle)

end Recalls

end Session

theorem Questions.hold_grown {questions : Questions} {before after : Cache}
    (hgrown : before.Grown after) (hhold : questions.Hold before.SaysYes) :
    questions.Hold after.SaysYes :=
  hhold.mono (.stays hgrown)

namespace Memory

open Session (Recalls isDefinite)

variable {n : Type → Type} [Monad n] {memory : Memory n} {logic : ProgramLogic n}
  (hmemory : memory.Remembers logic)

section Ask

variable {answer : DeclId → DeclId → n Bool}
  (hanswer : ∀ x y before, logic.wp (answer x y)
    (fun yes after => Recalls (·.SaysYes x y) before after yes) before)
include hanswer

/-- Questions that are all answered yes could be answered from the cache from then on. -/
theorem ask_recalls (questions : Questions) (before : Session) :
    logic.wp (questions.ask answer)
      (fun yes after => Recalls (fun cache => questions.Hold cache.SaysYes) before after yes)
      before := by
  obtain ⟨pairs, verdict⟩ := questions
  induction pairs generalizing before with
  | nil => exact logic.pure (.unchanged before fun hyes => ⟨hyes, nofun⟩)
  | cons pair pairs ih =>
    refine logic.bind (logic.mono (hanswer pair.1 pair.2 before) fun yes middle hfirst => ?_)
    cases yes with
    | false => exact logic.pure hfirst.no
    | true =>
      refine logic.mono (ih middle) fun yes after hrest => ?_
      rw [← Bool.true_and yes]
      refine hfirst.both hrest (fun _ _ hgrown => .stays hgrown _ _) fun cache hpair hothers => ?_
      exact ⟨hothers.1, List.forall_mem_cons.mpr ⟨hpair, hothers.2⟩⟩

end Ask

include hmemory

private theorem store_when_definite {definite : Bool} {pair : Pair} {verdict : Mismatch}
    {post : Mismatch → Session → Prop} {before : Session}
    (hstored : definite = true → ∀ stored cache, before.cache.Grown cache →
      cache.find? pair = some stored → post stored { before with cache })
    (hkept : definite = false → post verdict before) :
    logic.wp (if definite then memory.store pair verdict else return verdict) post before := by
  cases definite with
  | true => exact hmemory.store (hstored rfl)
  | false => exact logic.pure (hkept rfl)

/-- A pair whose rules say yes is remembered when it is the outermost. -/
private theorem memoized_recalls {a b : DeclId} {rules : n Mismatch}
    (hrules : ∀ before, logic.wp rules
      (fun failed after => Recalls (fun _ => True) before after failed.isEmpty) before)
    (before : Session) :
    logic.wp (memory.memoized (a, b) rules)
      (fun verdict after => Recalls (·.SaysYes a b) before after verdict.isEmpty) before := by
  refine logic.bind (hmemory.lookUp fun cache hgrown => ?_)
  cases hfind : cache.find? (a, b) with
  | some verdict =>
    exact logic.pure ⟨rfl, hgrown, fun _ => rfl, fun hyes _ => ⟨verdict, hfind, hyes⟩⟩
  | none =>
    refine logic.bind (hmemory.privately fun _ => ⟨rfl, ?_⟩)
    simp only [Session.run_enter]
    obtain ⟨henter, hvisiting⟩ | ⟨henter, hopen, hvisiting⟩ | ⟨henter, hvisiting⟩ :=
      before.guard.enter_cases (a, b)
    · simp only [henter]
      refine logic.bind (hmemory.privately fun _ => ⟨rfl, ?_⟩)
      refine logic.bind (logic.mono (hrules _) fun verdict after hafter => ?_)
      refine logic.bind (hmemory.privately fun _ => ⟨rfl, ?_⟩)
      refine logic.bind (hmemory.privately fun _ => ⟨rfl, ?_⟩)
      simp only [Session.run_get, Session.run_leave]
      have hleft : (after.guard.leave (a, b)).visiting = before.guard.visiting := by
        simp [Guard.leave, hafter.visiting.trans hvisiting]
      have hlimits : verdict.isEmpty = true → after.limitHits = before.limitHits := hafter.limitHits
      have hgrownTo : before.cache.Grown after.cache := hgrown.trans hafter.grown
      refine store_when_definite hmemory (fun hdefinite stored cache' hgrown' hstored => ?_)
        fun hnot => ?_
      · simp only [isDefinite, Bool.and_eq_true, beq_iff_eq] at hdefinite
        exact ⟨hleft, hgrownTo.trans hgrown', fun _ => hdefinite.2,
          fun hyes _ => ⟨stored, hstored, hyes⟩⟩
      · refine ⟨hleft, hgrownTo, hlimits, fun hyes hidle => ?_⟩
        have hinactive : (after.guard.leave (a, b)).isActive = false := by
          rw [Guard.isActive, hleft, hidle]
          rfl
        simp [isDefinite, hinactive, hlimits hyes] at hnot
    · simp only [henter]
      refine hmemory.privately fun _ => ⟨rfl, hvisiting, hgrown, fun _ => rfl, fun _ hidle => ?_⟩
      rw [hidle] at hopen
      cases hopen
    · have hgivesUp : logic.wp (memory.privately Session.giveUp)
          (fun verdict after => Recalls (·.SaysYes a b) before after verdict.isEmpty)
          { before with cache, guard := (before.guard.enter (a, b)).2 } :=
        hmemory.privately fun _ => ⟨rfl, .refused hvisiting hgrown⟩
      obtain h | h := henter
      · simp only [h]
        exact hgivesUp
      · simp only [h]
        exact hgivesUp

/-- A pair that is known to match needs no rules. -/
private theorem memoized_known {a b : DeclId} {rules : n Mismatch} {before : Session}
    (hknown : before.cache.SaysYes a b) :
    logic.wp (memory.memoized (a, b) rules)
      (fun verdict after => verdict.isEmpty = true ∧
        ∃ cache, before.cache.Grown cache ∧ after = { before with cache }) before := by
  obtain ⟨verdict, hfind, hyes⟩ := hknown
  refine logic.bind (hmemory.lookUp fun cache hgrown => ?_)
  rw [hgrown (a, b) verdict hfind]
  exact logic.pure ⟨hyes, cache, hgrown, rfl⟩

/-- Two classifiers that are known to match are found to, and nothing else happens. -/
theorem compareWithin_known {sides : Sides} {levels : Nat} {a b : DeclId} {before : Session}
    (hknown : before.cache.SaysYes a b) :
    logic.wp (memory.compareWithin sides levels a b)
      (fun verdict after => verdict.isEmpty = true ∧
        ∃ cache, before.cache.Grown cache ∧ after = { before with cache }) before := by
  cases levels with
  | zero => exact memoized_known hmemory hknown
  | succ levels => exact memoized_known hmemory hknown

/-- A comparison of two classifiers with nothing under way leaves its yes in the memory. It hit no
limit, since a limit would have made it say no. So whoever asks the same questions again gets the
same answers, whatever the limits are. -/
theorem compareWithin_recalls [LawfulMonad n] (sides : Sides) (levels : Nat) (a b : DeclId)
    (before : Session) :
    logic.wp (memory.compareWithin sides levels a b)
      (fun verdict after => Recalls (·.SaysYes a b) before after verdict.isEmpty) before := by
  induction levels generalizing a b before with
  | zero =>
    refine memoized_recalls hmemory (fun before => hmemory.privately fun _ => ⟨rfl, ?_⟩) before
    exact .refused rfl (.refl _)
  | succ levels ih =>
    refine memoized_recalls hmemory (fun before => ?_) before
    obtain ⟨rules, hrules⟩ := classifierFailures_isRuleQuestions sides a b
    simp only [hrules]
    have hanswer (x y : DeclId) (before : Session) :
        logic.wp (do return (← memory.compareWithin sides levels x y).isEmpty)
          (fun yes after => Recalls (·.SaysYes x y) before after yes) before :=
      logic.bind (logic.mono (ih x y before) fun _ _ hrecalls => logic.pure hrecalls)
    refine logic.bind (logic.mono (ask_recalls hanswer rules.parameters before)
      fun parameters middle hfirst => ?_)
    refine logic.bind (logic.mono (ask_recalls hanswer rules.containers middle)
      fun containers after hsecond => logic.pure ?_)
    have hboth : Recalls (fun _ => True) before after (parameters && containers) :=
      hfirst.both hsecond (fun _ _ hgrown => Questions.hold_grown hgrown) fun _ _ _ => trivial
    rw [Mismatch.isEmpty_require, Mismatch.isEmpty_require, Bool.and_assoc]
    cases rules.failed.isEmpty with
    | true => rwa [Bool.true_and]
    | false => exact .refused hboth.visiting hboth.grown

end Memory

end Concord
