import Concord.Proofs.Comparison.Memory
import Concord.Proofs.Declaration.Payload
import Concord.Proofs.Merge.Simulation

namespace Concord

/-- Whether an attempt to enter was turned down at a limit. -/
def Entry.isRefused : Entry → Bool
  | entered | cycle => false
  | depthExceeded | iterationExceeded => true

/-- A step of a session, beside whose result stands what the guard answered on the way. -/
def Traced (α : Type) : Type :=
  Session → (α × List Entry) × Session

namespace Traced

def run {α : Type} (step : Traced α) (before : Session) : (α × List Entry) × Session :=
  step before

instance : Monad Traced where
  pure a := fun session => ((a, []), session)
  bind step next := fun session =>
    let ((a, entries), middle) := step.run session
    let ((b, later), after) := (next a).run middle
    ((b, entries ++ later), after)

instance : LawfulMonad Traced :=
  LawfulMonad.mk' Traced
    (fun step => funext fun session => by
      show ((_, (step session).1.2 ++ []), _) = _
      rw [List.append_nil]
      rfl)
    (fun _ _ => rfl) fun step next further => funext fun session => by simp [Bind.bind, run]

variable {α : Type}

/-- What the guard answers while a step runs. -/
def answers (step : Traced α) (before : Session) : List Entry :=
  (step.run before).1.2

/-- A step that does not ask the guard. -/
def silent (step : StateM Session α) : Traced α := fun session =>
  let (a, after) := step.run session
  ((a, []), after)

/-- Tries to enter the comparison of a pair. -/
def enter (pair : Pair) : Traced Entry := fun session =>
  let (entry, after) := (Session.enter pair).run session
  ((entry, [entry]), after)

/-- Compares a pair by `rules`, unless its verdict is known, under way or out of reach. -/
def memoized (pair : Pair) (rules : Traced Mismatch) : Traced Mismatch := do
  if let some verdict ← silent (Session.lookUp pair) then return verdict
  match ← enter pair with
  | .cycle => silent Session.assumeMatch
  | .depthExceeded | .iterationExceeded => silent Session.giveUp
  | .entered =>
    let before ← silent get
    let verdict ← rules
    silent (Session.leave pair)
    if Session.isDefinite before (← silent get) verdict then silent (Session.store pair verdict)
    else return verdict

variable (sides : Sides)

/-- Compares two classifiers, in which at most `levels` pairs are entered inside one another. -/
def compareWithin : (levels : Nat) → DeclId → DeclId → Traced Mismatch
  | 0, a, b => memoized (a, b) (silent Session.giveUp)
  | levels + 1, a, b =>
    memoized (a, b) (classifierFailures sides
      (fun x y => do return (← compareWithin levels x y).isEmpty) a b)

/-- The services of a session that writes down what its guard answers. -/
def services : Services Traced (ExceptT RunError Traced) where
  verdict := compareWithin sides sides.levels
  watched step := do
    let before ← silent get
    let mismatch ← step
    let after ← silent get
    return (mismatch, after.limitHits == before.limitHits)
  lift := ExceptT.lift
  attempt := liftM
  note _ _ := return
  apart := Services.collect

section Runs

variable {pair : Pair} {rules : Traced Mismatch} {before : Session}

private theorem run_pure (a : α) (before : Session) :
    (pure a : Traced α).run before = ((a, []), before) :=
  rfl

private theorem run_bind {β : Type} (step : Traced α) (next : α → Traced β) (before : Session) :
    (step >>= next).run before =
      ((((next (step.run before).1.1).run (step.run before).2).1.1,
        step.answers before ++ (next (step.run before).1.1).answers (step.run before).2),
        ((next (step.run before).1.1).run (step.run before).2).2) :=
  rfl

private theorem run_silent (step : StateM Session α) (before : Session) :
    (silent step).run before = (((step.run before).1, []), (step.run before).2) :=
  rfl

private theorem run_enter (pair : Pair) (before : Session) : (enter pair).run before =
    (((before.guard.enter pair).1, [(before.guard.enter pair).1]),
      { before with guard := (before.guard.enter pair).2 }) :=
  rfl

private theorem memoized_run_known {verdict : Mismatch}
    (hfind : before.cache.find? pair = some verdict) :
    (memoized pair rules).run before =
      ((verdict, []), { before with cache := (before.cache.get pair).2 }) := by
  simp only [memoized, run_bind, run_silent, answers, Session.run_lookUp, Cache.get_fst, hfind]
  rfl

private theorem memoized_run_unknown (hfind : before.cache.find? pair = none) :
    (memoized pair rules).run before =
      (let ended := (match (before.guard.enter pair).1 with
        | .cycle => silent Session.assumeMatch
        | .depthExceeded | .iterationExceeded => silent Session.giveUp
        | .entered => do
          let entered ← silent get
          let verdict ← rules
          silent (Session.leave pair)
          if Session.isDefinite entered (← silent get) verdict then
            silent (Session.store pair verdict)
          else return verdict : Traced Mismatch).run (before.attempted pair)
      ((ended.1.1, (before.guard.enter pair).1 :: ended.1.2), ended.2)) := by
  simp only [memoized, run_bind, run_silent, run_enter, answers, Session.run_lookUp,
    Cache.get_fst, hfind]
  rfl

private theorem memoized_run_entered {after : Session} {verdict : Mismatch} {entries : List Entry}
    (hfind : before.cache.find? pair = none) (henter : (before.guard.enter pair).1 = .entered)
    (hrules : rules.run (before.attempted pair) = ((verdict, entries), after)) :
    (memoized pair rules).run before =
      (let ended := if Session.isDefinite (before.attempted pair) (after.leaving pair) verdict
        then (Session.store pair verdict).run (after.leaving pair)
        else (verdict, after.leaving pair)
      ((ended.1, .entered :: entries), ended.2)) := by
  rw [memoized_run_unknown hfind, henter]
  simp only [run_bind, run_silent, answers, hrules, Session.run_get, Session.run_leave,
    List.nil_append]
  cases hdefinite : Session.isDefinite (before.attempted pair) (after.leaving pair) verdict with
  | false =>
    rw [Session.leaving] at hdefinite
    simp [hdefinite, Session.leaving, run_pure]
  | true =>
    rw [Session.leaving] at hdefinite
    simp [hdefinite, Session.leaving, run_silent]

end Runs

section Declarations

variable {a b : DeclId} {before middle : Session} {failed : Mismatch} {ruled : List Entry}

private theorem run_watched {step : Traced Mismatch}
    (hstep : step.run before = ((failed, ruled), middle)) :
    ((services sides).watched step).run before =
      (((failed, middle.limitHits == before.limitHits), ruled), middle) := by
  show (do
    let entered ← silent get
    let mismatch ← step
    let after ← silent get
    return (mismatch, after.limitHits == entered.limitHits) : Traced (Mismatch × Bool)).run _ = _
  simp only [run_bind, run_silent, run_pure, answers, Session.run_get, hstep, List.nil_append,
    List.append_nil]

/-- What a traced comparison of two declarations does once their rules were checked. -/
theorem run_compare (hapart : (sides.same && a == b) = false)
    (hrules : ((services sides).failuresOf sides a b).run before = ((failed, ruled), middle)) :
    ((services sides).compare sides a b).run before =
      (let failed := failed.require (middle.limitHits == before.limitHits) .recursionLimit
      if failed.isEmpty then
        let payloads := matchedPayloads sides (services sides).shareable a b
        (((payloads.run middle).1.1, ruled ++ payloads.answers middle), (payloads.run middle).2)
      else ((.mismatched failed, ruled), middle)) := by
  simp only [Services.compare, hapart, Bool.false_eq_true, if_false, run_bind, answers,
    run_watched sides hrules]
  split
  · rfl
  · rw [run_pure, List.append_nil]

/-- The payloads of a match are those of a match. -/
theorem matchedPayloads_matched (a b : DeclId) (before : Session) : ∃ first common second,
    ((matchedPayloads sides (services sides).shareable a b).run before).1.1 =
      .matched first common second := by
  simp only [matchedPayloads]
  split
  · exact ⟨_, _, _, rfl⟩
  · exact ⟨_, _, _, rfl⟩

/-- What the guard answers while the shared supertypes of what two aliases stand for are looked for. -/
def supertypeAnswers (a b : DeclId) : Session → List Entry :=
  (sharedSupertypes sides (services sides).shareable (sides.first.aliasedClassOf a).supertypes
    (sides.second.aliasedClassOf b).supertypes).answers

/-- The payloads of a match ask the guard nothing, but for those of two aliases. -/
theorem answers_matchedPayloads (a b : DeclId) :
    (matchedPayloads sides (services sides).shareable a b).answers middle =
      if (sides.first.declaration a).kind = .typeAlias ∧
        (sides.second.declaration b).kind = .typeAlias
      then supertypeAnswers sides a b middle else [] := by
  generalize hfirst : (sides.first.declaration a).data.mapRefs sides.first.detachRef = first
  generalize hsecond : (sides.second.declaration b).data.mapRefs sides.second.detachRef = second
  have hkindA : first.kind = (sides.first.declaration a).kind := hfirst ▸ Data.kind_mapRefs _ _
  have hkindB : second.kind = (sides.second.declaration b).kind := hsecond ▸ Data.kind_mapRefs _ _
  simp only [matchedPayloads, hfirst, hsecond]
  split
  · next infoA infoB hpayloadA hpayloadB =>
    have haliasA : first.kind = .typeAlias := congrArg Payload.kind hpayloadA
    have haliasB : second.kind = .typeAlias := congrArg Payload.kind hpayloadB
    rw [if_pos ⟨hkindA.symm.trans haliasA, hkindB.symm.trans haliasB⟩]
    simp only [sharedOfAliases, answers, run_bind, run_pure, List.append_nil]
    rfl
  · next hother =>
    refine (if_neg fun hkinds => ?_).symm
    obtain ⟨infoA, hpayloadA⟩ := Payload.ofKind (hkindA.trans hkinds.1)
    obtain ⟨infoB, hpayloadB⟩ := Payload.ofKind (hkindB.trans hkinds.2)
    exact hother infoA infoB hpayloadA hpayloadB

end Declarations

end Traced

namespace Sides

variable (sides : Sides)

/-- A session with these pairs under way and the limit on depth that the options set. -/
structure Holds (visiting : List Pair) (session : Session) : Prop where
  visiting : session.guard.visiting = visiting
  maxDepth : session.guard.maxDepth = sides.options.maxComparisonDepth

/-- Traced steps that do what plain steps do while these pairs are under way, where a limit hit is
counted for every attempt that is turned down. -/
def tracing (visiting : List Pair) : Simulation Traced (StateM Session) where
  Rel R x y := ∀ before, sides.Holds visiting before →
    R (x.run before).1.1 (y.run before).1 ∧ (x.run before).2 = (y.run before).2 ∧
    sides.Holds visiting (y.run before).2 ∧
    (y.run before).2.limitHits = before.limitHits + (x.answers before).countP Entry.isRefused
  pure hR before hbefore := ⟨hR, rfl, hbefore, rfl⟩
  bind := by
    intro α β R S x y f g _ hfirst hnext before hbefore
    obtain ⟨hR, hsame, hmiddle, hhits⟩ := hfirst before hbefore
    obtain ⟨hS, hsame', hafter, hhits'⟩ := hnext _ _ hR _ hmiddle
    rw [Traced.answers, Traced.run_bind, hsame]
    refine ⟨hS, hsame', hafter, ?_⟩
    rw [List.countP_append, ← Nat.add_assoc, ← hhits]
    exact hhits'

variable {sides} {visiting : List Pair}

variable {pair : Pair}

/-- A comparison of a pair by rules that go alike is traced as it goes. -/
theorem tracing_memoized {rules : Traced Mismatch} {rules' : StateM Session Mismatch}
    (hrules : visiting.length < sides.levels →
      (sides.tracing (pair :: visiting)).Rel Eq rules rules') :
    (sides.tracing visiting).Rel Eq (Traced.memoized pair rules) (Session.memoized pair rules') := by
  intro before hbefore
  cases hfind : before.cache.find? pair with
  | some verdict =>
    rw [Traced.answers, Traced.memoized_run_known hfind, Session.memoized_run_known hfind]
    exact ⟨rfl, rfl, ⟨hbefore.visiting, hbefore.maxDepth⟩, rfl⟩
  | none =>
    have hdepth : (before.attempted pair).guard.maxDepth = sides.options.maxComparisonDepth :=
      (before.guard.enter_maxDepth pair).trans hbefore.maxDepth
    obtain ⟨henter, hvisiting⟩ | ⟨henter, hopen, hvisiting⟩ | ⟨henter, hvisiting⟩ :=
      before.guard.enter_cases pair
    · have hroom : visiting.length < sides.levels := by
        have hlt := Guard.depth_lt_of_entered henter
        rw [hbefore.visiting, hbefore.maxDepth] at hlt
        exact Nat.lt_min.mpr hlt
      have hgo := hrules hroom (before.attempted pair)
        ⟨hvisiting.trans (congrArg _ hbefore.visiting), hdepth⟩
      rw [Traced.answers] at hgo
      cases hrun : rules'.run (before.attempted pair) with | mk verdict after
      cases htraced : rules.run (before.attempted pair) with | mk traced after'
      obtain ⟨verdict', entries⟩ := traced
      rw [hrun, htraced] at hgo
      obtain ⟨rfl, rfl, hafter, hhits⟩ := hgo
      rw [Traced.answers, Traced.memoized_run_entered hfind henter htraced,
        Session.memoized_run_entered hfind henter hrun]
      have hopen : after'.guard.visiting = pair :: visiting := hafter.visiting
      have hleft : sides.Holds visiting (after'.leaving pair) :=
        ⟨by simp [Session.leaving, Guard.leave, hopen], hafter.maxDepth⟩
      split
      · exact ⟨rfl, rfl, ⟨hleft.visiting, hleft.maxDepth⟩, hhits⟩
      · exact ⟨rfl, rfl, hleft, hhits⟩
    · rw [Traced.answers, Traced.memoized_run_unknown hfind,
        Session.memoized_run_cycle hfind henter, henter]
      exact ⟨rfl, rfl, ⟨hvisiting.trans hbefore.visiting, hdepth⟩, rfl⟩
    · rw [Traced.answers, Traced.memoized_run_unknown hfind,
        Session.memoized_run_limit hfind henter]
      obtain h | h := henter
      · rw [h]
        exact ⟨rfl, rfl, ⟨hvisiting.trans hbefore.visiting, hdepth⟩, rfl⟩
      · rw [h]
        exact ⟨rfl, rfl, ⟨hvisiting.trans hbefore.visiting, hdepth⟩, rfl⟩

/-- With levels for all pairs that may still be entered, a comparison of two classifiers is traced
as it goes. A limit hit is counted for nothing else: the pairs that may be under way at once run out
before the levels of the comparison do. -/
theorem tracing_compareWithin {levels : Nat} (hlevels : sides.levels ≤ visiting.length + levels)
    (a b : DeclId) :
    (sides.tracing visiting).Rel Eq (Traced.compareWithin sides levels a b)
      (sides.compareWithin levels a b) := by
  induction levels generalizing visiting a b with
  | zero => exact tracing_memoized fun hroom => absurd hroom (Nat.not_lt_of_le hlevels)
  | succ levels ih =>
    refine tracing_memoized fun _ => Simulation.classifierFailures _ sides (fun x y => ?_) a b
    have hbelow : sides.levels ≤ ((a, b) :: visiting).length + levels := by
      rw [List.length_cons]
      omega
    exact Simulation.andThen _ (ih hbelow x y) fun verdict => Simulation.done _ _

variable (sides) (a b : DeclId)

private theorem tracing_verdict :
    (sides.tracing []).Rel Eq ((Traced.services sides).verdict a b) (sides.compareClassifiers a b) :=
  tracing_compareWithin (Nat.le_of_eq (Nat.zero_add _).symm) a b

/-- With nothing under way, the rules on two declarations are traced as they go. -/
theorem tracing_failuresOf :
    (sides.tracing []).Rel Eq ((Traced.services sides).failuresOf sides a b) (sides.failuresOf a b) := by
  show (sides.tracing []).Rel Eq _ (sides.services.failuresOf sides a b)
  exact (sides.tracing []).failuresOf sides sides.tracing_verdict a b

/-- A traced step is watched as it goes. -/
private theorem tracing_watched {step : Traced Mismatch} {step' : StateM Session Mismatch}
    (hstep : (sides.tracing []).Rel Eq step step') :
    (sides.tracing []).Rel Eq ((Traced.services sides).watched step) (sides.services.watched step') := by
  have hget : (sides.tracing []).Rel Eq (Traced.silent get) (get : StateM Session Session) :=
    fun _ hbefore => ⟨rfl, rfl, hbefore, rfl⟩
  refine Simulation.andThen _ hget fun before => Simulation.andThen _ hstep fun mismatch => ?_
  exact Simulation.andThen _ hget fun after => Simulation.done _ _

/-- With nothing under way, a comparison of two declarations is traced as it goes. -/
theorem tracing_compare :
    (sides.tracing []).Rel Eq ((Traced.services sides).compare sides a b) (sides.compare a b) := by
  rw [← sides.services_compare]
  exact (sides.tracing []).compare sides sides.tracing_verdict sides.tracing_watched a b

end Sides

end Concord
