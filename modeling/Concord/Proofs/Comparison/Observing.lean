import Concord.Proofs.Comparison.Remembering
import Concord.Proofs.Merge.Simulation

namespace Concord

/-- What is done to a session. -/
inductive Action where
  /-- Begins a comparison of two classifiers. -/
  | begin (pair : Pair)
  | lookUp (pair : Pair)
  | enter (pair : Pair)
  | leave (pair : Pair)
  | assumeMatch
  | giveUp
  | store (pair : Pair) (verdict : Mismatch)
  /-- Starts the session anew over the same cache. -/
  | renew (options : CompiledOptions)

/-- A session with counts that are kept beside it. -/
structure Audit where
  session : Session
  /-- The pairs that were entered, less those that were left. -/
  depth : Nat
  /-- The comparisons of classifiers that were begun over the cache, by this session or others. -/
  begun : Nat
  /-- The pairs that this session looked up in vain. -/
  misses : Nat

namespace Audit

/-- A session that has compared nothing yet, over an empty cache. -/
def new (options : CompiledOptions) : Audit :=
  ⟨.new options .empty, 0, 0, 0⟩

/-- What an action leaves behind. -/
def after (audit : Audit) : Action → Audit
  | .begin _ => { audit with begun := audit.begun + 1 }
  | .lookUp pair => { audit with
      session := ((Session.lookUp pair).run audit.session).2
      misses := if (audit.session.cache.find? pair).isSome then audit.misses else audit.misses + 1 }
  | .enter pair => { audit with
      session := ((Session.enter pair).run audit.session).2
      depth :=
        if (audit.session.guard.enter pair).1 = .entered then audit.depth + 1 else audit.depth }
  | .leave pair => { audit with
      session := ((Session.leave pair).run audit.session).2
      depth := audit.depth - 1 }
  | .assumeMatch => { audit with session := (Session.assumeMatch.run audit.session).2 }
  | .giveUp => { audit with session := (Session.giveUp.run audit.session).2 }
  | .store pair verdict =>
    { audit with session := ((Session.store pair verdict).run audit.session).2 }
  | .renew options => { audit with
      session := .new options audit.session.cache
      depth := 0
      misses := 0 }

/-- A session that began to compare a pair and looked it up. -/
def asked (audit : Audit) (pair : Pair) : Audit :=
  (audit.after (.begin pair)).after (.lookUp pair)

/-- A session that looked a pair up in vain and tried to enter it. -/
def attempted (audit : Audit) (pair : Pair) : Audit :=
  (audit.asked pair).after (.enter pair)

/-- What holds of a session at every moment, if no more than `limit` pairs may be under way. -/
structure Sound (limit : Nat) (audit : Audit) : Prop where
  distinct : audit.session.guard.visiting.Nodup
  depth : audit.depth = audit.session.guard.visiting.length
  bounded : audit.session.guard.visiting.length ≤ limit
  underWay : ∀ pair ∈ audit.session.guard.visiting, audit.session.cache.find? pair = none
  entries : audit.session.cache.size + audit.session.guard.visiting.length ≤
    audit.session.cache.misses

/-- The guard has counted the look-ups that were in vain, as far as it counts. -/
def Counted (audit : Audit) : Prop :=
  audit.session.guard.iterations = min audit.misses Guard.maxCount

/-- Each comparison that was begun was answered by a hit or a miss. -/
def Answered (audit : Audit) : Prop :=
  audit.session.cache.hits + audit.session.cache.misses = audit.begun

/-- An action is in order: what is left was entered, what is stored was not known, and no verdict is
lost. A count lags behind only where a pair is about to be looked up or entered. -/
structure Permits (audit : Audit) (action : Action) : Prop where
  leaves : ∀ pair, action = .leave pair → pair ∈ audit.session.guard.visiting
  stores : ∀ pair verdict, action = .store pair verdict → audit.session.cache.find? pair = none
  keeps : audit.session.cache.Grown (audit.after action).session.cache
  answered : (∀ pair, action ≠ .lookUp pair) → audit.Answered
  counted : (∀ pair, action ≠ .enter pair) → audit.Counted

/-- Actions that are all in order lead from one session to another, sound at every moment. -/
inductive Follows (limit : Nat) : Audit → List Action → Audit → Prop
  | done {audit : Audit} (hsound : audit.Sound limit) : Follows limit audit [] audit
  | step {audit last : Audit} {action : Action} {actions : List Action}
      (hsound : audit.Sound limit) (hpermits : audit.Permits action)
      (hrest : Follows limit (audit.after action) actions last) :
      Follows limit audit (action :: actions) last

theorem Follows.append {limit : Nat} {first middle last : Audit} {actions others : List Action}
    (hfirst : Follows limit first actions middle) (hrest : Follows limit middle others last) :
    Follows limit first (actions ++ others) last := by
  induction hfirst with
  | done hsound => exact hrest
  | step hsound hpermits _ ih => exact .step hsound hpermits (ih hrest)

/-- Actions that are in order lose no verdict. -/
theorem Follows.grown {limit : Nat} {first last : Audit} {actions : List Action}
    (hfollows : Follows limit first actions last) :
    first.session.cache.Grown last.session.cache := by
  induction hfollows with
  | done hsound => exact .refl _
  | step hsound hpermits _ ih => exact hpermits.keeps.trans ih

/-- A session in which some pairs are under way, between two comparisons. -/
structure Ready (sides : Sides) (visiting : List Pair) (audit : Audit) : Prop
    extends Sound sides.levels audit where
  answered : audit.Answered
  counted : audit.Counted
  visiting : audit.session.guard.visiting = visiting
  maxDepth : audit.session.guard.maxDepth = sides.options.maxComparisonDepth

end Audit

namespace Guard

variable {κ : Type} [DecidableEq κ]

theorem enter_iterations (guard : Guard κ) (key : κ) :
    (guard.enter key).2.iterations = min (guard.iterations + 1) maxCount := by
  simp only [enter]
  split
  · rfl
  split
  · rfl
  split
  · rfl
  split <;> rfl

end Guard

namespace Cache

variable {cache : Cache} {pair : Pair}

theorem hits_misses_get (cache : Cache) (pair : Pair) :
    (cache.get pair).2.hits + (cache.get pair).2.misses = cache.hits + cache.misses + 1 := by
  unfold get
  cases cache.find? pair with
  | none => rfl
  | some verdict => exact Nat.succ_add _ _

theorem misses_get_known {verdict : Mismatch} (hfind : cache.find? pair = some verdict) :
    (cache.get pair).2.misses = cache.misses := by
  unfold get
  rw [hfind]

theorem misses_get_unknown (hfind : cache.find? pair = none) :
    (cache.get pair).2.misses = cache.misses + 1 := by
  unfold get
  rw [hfind]

theorem insert_unknown (hfind : cache.find? pair = none) (verdict : Mismatch) :
    (cache.insert pair verdict).2 = { cache with entries := (pair, verdict) :: cache.entries } := by
  unfold insert
  rw [hfind]

theorem find?_insert_of_ne (hfind : cache.find? pair = none) (verdict : Mismatch) {other : Pair}
    (hne : other ≠ pair) : (cache.insert pair verdict).2.find? other = cache.find? other := by
  rw [insert_unknown hfind]
  unfold find?
  rw [List.lookup_cons, beq_eq_false_iff_ne.mpr hne]

theorem size_get (cache : Cache) (pair : Pair) : (cache.get pair).2.size = cache.size := by
  unfold size
  rw [entries_get]

end Cache

namespace Audit.Ready

variable {sides : Sides} {visiting : List Pair} {pair : Pair} {before : Audit}

/-- An action that changes neither the guard nor the cache. -/
private theorem counting (hready : before.Ready sides visiting) (session : Session)
    (hguard : session.guard = before.session.guard) (hcache : session.cache = before.session.cache) :
    Audit.Ready sides visiting { before with session } := by
  obtain ⟨⟨hdistinct, hdepth, hbounded, hunderWay, hentries⟩, hanswered, hcounted, hvisiting, hmax⟩ :=
    hready
  rw [← hguard] at hdistinct hdepth hbounded hunderWay hentries hvisiting hmax
  rw [← hcache] at hunderWay hentries
  unfold Answered at hanswered
  rw [← hcache] at hanswered
  unfold Counted at hcounted
  rw [← hguard] at hcounted
  exact ⟨⟨hdistinct, hdepth, hbounded, hunderWay, hentries⟩, hanswered, hcounted, hvisiting, hmax⟩

/-- A look-up is a hit or a miss. -/
private theorem answered_asked (hready : before.Ready sides visiting) (pair : Pair) :
    (before.asked pair).Answered := by
  have hanswered : before.session.cache.hits + before.session.cache.misses = before.begun :=
    hready.answered
  show (before.session.cache.get pair).2.hits + (before.session.cache.get pair).2.misses =
    before.begun + 1
  rw [Cache.hits_misses_get, hanswered]

/-- A look-up that finds a verdict changes nothing but counts. -/
private theorem lookUp_known (hready : before.Ready sides visiting) {verdict : Mismatch}
    (hfind : before.session.cache.find? pair = some verdict) :
    (before.asked pair).Ready sides visiting where
  distinct := hready.distinct
  depth := hready.depth
  bounded := hready.bounded
  underWay other hother := (before.session.cache.find?_get pair other).trans
    (hready.underWay other hother)
  answered := hready.answered_asked pair
  entries := by
    have hentries := hready.entries
    rw [← Cache.misses_get_known hfind, ← before.session.cache.size_get pair] at hentries
    exact hentries
  counted := by
    have hmisses : (before.asked pair).misses = before.misses := by
      simp only [asked, after, hfind, Option.isSome_some, if_true]
    unfold Counted
    rw [hmisses]
    exact hready.counted
  visiting := hready.visiting
  maxDepth := hready.maxDepth

/-- A look-up in vain leaves room for another entry. -/
private theorem lookUp_unknown (hready : before.Ready sides visiting)
    (hfind : before.session.cache.find? pair = none) :
    let missed := before.asked pair
    missed.Sound sides.levels ∧ missed.misses = before.misses + 1 ∧
      missed.session.cache.size + (visiting.length + 1) ≤ missed.session.cache.misses := by
  have hsize := before.session.cache.size_get pair
  have hmisses := Cache.misses_get_unknown hfind
  have hentries := hready.entries
  have hopen := hready.visiting
  rw [hopen] at hentries
  have hroom : (before.session.cache.get pair).2.size + (visiting.length + 1) ≤
      (before.session.cache.get pair).2.misses := by omega
  refine ⟨⟨hready.distinct, hready.depth, hready.bounded, fun other hother => ?_, ?_⟩, ?_, hroom⟩
  · exact (before.session.cache.find?_get pair other).trans (hready.underWay other hother)
  · show (before.session.cache.get pair).2.size + before.session.guard.visiting.length ≤ _
    rw [hopen]
    exact Nat.le_of_succ_le hroom
  · simp [asked, after, hfind]

/-- After an attempt the guard has counted the miss. -/
private theorem counted_attempted (hready : before.Ready sides visiting)
    (hfind : before.session.cache.find? pair = none) : (before.attempted pair).Counted := by
  obtain ⟨-, hmisses, -⟩ := hready.lookUp_unknown hfind
  have hcounted : before.session.guard.iterations = min before.misses Guard.maxCount :=
    hready.counted
  show (before.session.guard.enter pair).2.iterations =
    min (before.asked pair).misses Guard.maxCount
  rw [Guard.enter_iterations, hmisses, hcounted]
  omega

/-- An attempt to enter that is turned down changes nothing but counts. -/
private theorem attempted_refused (hready : before.Ready sides visiting)
    (hfind : before.session.cache.find? pair = none)
    (henter : (before.session.guard.enter pair).1 ≠ .entered)
    (hvisiting : (before.session.guard.enter pair).2.visiting = before.session.guard.visiting) :
    (before.attempted pair).Ready sides visiting := by
  obtain ⟨hsound, -, -⟩ := hready.lookUp_unknown hfind
  have hsame : (before.attempted pair).session.guard.visiting =
      (before.asked pair).session.guard.visiting := hvisiting
  have hdepth : (before.attempted pair).depth = (before.asked pair).depth :=
    if_neg henter
  refine ⟨⟨?_, ?_, ?_, ?_, ?_⟩, hready.answered_asked pair, hready.counted_attempted hfind, ?_, ?_⟩
  · rw [hsame]
    exact hsound.distinct
  · rw [hsame, hdepth]
    exact hsound.depth
  · rw [hsame]
    exact hsound.bounded
  · rw [hsame]
    exact hsound.underWay
  · rw [hsame]
    exact hsound.entries
  · exact hvisiting.trans hready.visiting
  · exact (before.session.guard.enter_maxDepth pair).trans hready.maxDepth

/-- A pair is entered only where the guard has room for it. -/
private theorem attempted_entered (hready : before.Ready sides visiting)
    (hfind : before.session.cache.find? pair = none)
    (henter : (before.session.guard.enter pair).1 = .entered)
    (hvisiting : (before.session.guard.enter pair).2.visiting =
      pair :: before.session.guard.visiting) :
    visiting.length < sides.levels ∧ (before.attempted pair).Ready sides (pair :: visiting) := by
  obtain ⟨hsound, -, hroom⟩ := hready.lookUp_unknown hfind
  have hopen : (before.attempted pair).session.guard.visiting = pair :: visiting := by
    rw [← hready.visiting]
    exact hvisiting
  have hbound : visiting.length < sides.levels := by
    have hlt := Guard.depth_lt_of_entered henter
    rw [hready.visiting, hready.maxDepth] at hlt
    exact Nat.lt_min.mpr hlt
  have hnew : pair ∉ visiting := by
    rw [← hready.visiting]
    exact Guard.not_mem_of_entered henter
  have hdistinct := hsound.distinct
  have hunderWay := hsound.underWay
  rw [show (before.asked pair).session.guard.visiting = visiting from hready.visiting]
    at hdistinct hunderWay
  refine ⟨hbound, ⟨?_, ?_, ?_, ?_, ?_⟩, hready.answered_asked pair, hready.counted_attempted hfind,
    hopen, ?_⟩
  · rw [hopen]
    exact List.nodup_cons.mpr ⟨hnew, hdistinct⟩
  · have hdepth : (before.attempted pair).depth = before.depth + 1 := if_pos henter
    rw [hopen, hdepth, hready.depth, hready.visiting, List.length_cons]
  · rw [hopen]
    exact hbound
  · rw [hopen]
    refine List.forall_mem_cons.mpr ⟨?_, hunderWay⟩
    exact (before.session.cache.find?_get pair pair).trans hfind
  · rw [hopen]
    exact hroom
  · exact (before.session.guard.enter_maxDepth pair).trans hready.maxDepth

/-- Leaving the innermost pair, for which there is room in the cache. -/
private theorem leave (hready : before.Ready sides (pair :: visiting)) :
    let left := before.after (.leave pair)
    left.Ready sides visiting ∧ left.session.cache.find? pair = none ∧
      left.session.cache.size + (visiting.length + 1) ≤ left.session.cache.misses ∧
      pair ∉ visiting := by
  have hopen := hready.visiting
  have hleft : (before.after (.leave pair)).session.guard.visiting = visiting := by
    show (before.session.guard.leave pair).visiting = visiting
    simp [Guard.leave, hopen]
  have hdistinct := hready.distinct
  have hdepth := hready.depth
  have hbounded := hready.bounded
  have hunderWay := hready.underWay
  have hentries := hready.entries
  rw [hopen] at hdistinct hdepth hbounded hunderWay hentries
  rw [List.length_cons] at hdepth hbounded hentries
  obtain ⟨hnew, hdistinct⟩ := List.nodup_cons.mp hdistinct
  obtain ⟨hself, hunderWay⟩ := List.forall_mem_cons.mp hunderWay
  refine ⟨⟨⟨?_, ?_, ?_, ?_, ?_⟩, hready.answered, hready.counted, hleft, hready.maxDepth⟩, hself,
    hentries, hnew⟩
  · rwa [hleft]
  · rw [hleft]
    show before.depth - 1 = visiting.length
    omega
  · rw [hleft]
    omega
  · rw [hleft]
    exact hunderWay
  · rw [hleft]
    exact Nat.le_of_succ_le hentries

/-- Storing the verdict of a pair that has none. -/
private theorem store (hready : before.Ready sides visiting)
    (hfind : before.session.cache.find? pair = none) (hnew : pair ∉ visiting)
    (hroom : before.session.cache.size + (visiting.length + 1) ≤ before.session.cache.misses)
    (verdict : Mismatch) : (before.after (.store pair verdict)).Ready sides visiting where
  distinct := hready.distinct
  depth := hready.depth
  bounded := hready.bounded
  underWay other hother := by
    have hne : other ≠ pair := by
      rintro rfl
      have hopen : other ∈ before.session.guard.visiting := hother
      rw [hready.visiting] at hopen
      exact hnew hopen
    exact (Cache.find?_insert_of_ne hfind verdict hne).trans (hready.underWay other hother)
  answered := by
    show (before.session.cache.insert pair verdict).2.hits +
      (before.session.cache.insert pair verdict).2.misses = before.begun
    rw [Cache.insert_unknown hfind]
    exact hready.answered
  entries := by
    show (before.session.cache.insert pair verdict).2.size + before.session.guard.visiting.length ≤
      (before.session.cache.insert pair verdict).2.misses
    rw [Cache.insert_unknown hfind, hready.visiting]
    show (before.session.cache.size + 1) + visiting.length ≤ before.session.cache.misses
    omega
  counted := hready.counted
  visiting := hready.visiting
  maxDepth := hready.maxDepth

end Audit.Ready

/-- A comparison that may be cut off, and beside whose result stand its actions. -/
def Observed (α : Type) : Type :=
  Audit → (Option α × List Action) × Audit

namespace Observed

def run {α : Type} (step : Observed α) (before : Audit) : (Option α × List Action) × Audit :=
  step before

instance : Monad Observed where
  pure a := fun audit => ((some a, []), audit)
  bind step next := fun audit =>
    match step.run audit with
    | ((none, actions), middle) => ((none, actions), middle)
    | ((some a, actions), middle) =>
      let ((b, others), last) := (next a).run middle
      ((b, actions ++ others), last)

private theorem bind_none {α β : Type} {step : Observed α} {next : α → Observed β}
    {before middle : Audit} {actions : List Action}
    (hstep : step.run before = ((none, actions), middle)) :
    (step >>= next).run before = ((none, actions), middle) := by
  simp only [run] at hstep
  simp only [Bind.bind, run, hstep]

private theorem bind_some {α β : Type} {step : Observed α} {next : α → Observed β}
    {before middle : Audit} {actions : List Action} {a : α}
    (hstep : step.run before = ((some a, actions), middle)) :
    (step >>= next).run before = ((((next a).run middle).1.1,
      actions ++ ((next a).run middle).1.2), ((next a).run middle).2) := by
  simp only [run] at hstep
  simp only [Bind.bind, run, hstep]

instance : LawfulMonad Observed :=
  LawfulMonad.mk' Observed
    (fun step => funext fun audit => by
      show (step >>= pure ∘ id).run audit = step.run audit
      cases hstep : step.run audit with | mk outcome middle
      obtain ⟨_ | a, actions⟩ := outcome
      · exact bind_none hstep
      · refine (bind_some hstep).trans ?_
        show ((some a, actions ++ []), middle) = _
        rw [List.append_nil])
    (fun _ _ => rfl) fun step next further => funext fun audit => by
      show ((step >>= next) >>= further).run audit = (step >>= fun a => next a >>= further).run audit
      cases hstep : step.run audit with | mk outcome middle
      obtain ⟨_ | a, actions⟩ := outcome
      · rw [bind_none hstep, bind_none (bind_none hstep)]
      · rw [bind_some hstep]
        cases hnext : (next a).run middle with | mk outcome last
        obtain ⟨_ | b, others⟩ := outcome
        · rw [bind_none hnext]
          refine bind_none ((bind_some hstep).trans ?_)
          rw [hnext]
        · have hboth : (step >>= next).run audit = ((some b, actions ++ others), last) := by
            rw [bind_some hstep, hnext]
          rw [bind_some hnext, bind_some hboth, List.append_assoc]

section Steps

variable {α : Type}

/-- A step of the session, written down as an action. -/
def act (action : Action) (step : StateM Session α) : Observed α := fun audit =>
  ((some (step.run audit.session).1, [action]), audit.after action)

/-- The session as it is. -/
def observe : Observed Session := fun audit =>
  ((some audit.session, []), audit)

/-- Gives no result. -/
def cutOff : Observed α := fun audit =>
  ((none, []), audit)

/-- Compares a pair by `rules`, unless its verdict is known, under way or out of reach. -/
def memoized (pair : Pair) (rules : Observed Mismatch) : Observed Mismatch := do
  act (.begin pair) (return ())
  if let some verdict ← act (.lookUp pair) (Session.lookUp pair) then return verdict
  match ← act (.enter pair) (Session.enter pair) with
  | .cycle => act .assumeMatch Session.assumeMatch
  | .depthExceeded | .iterationExceeded => act .giveUp Session.giveUp
  | .entered =>
    let before ← observe
    let verdict ← rules
    act (.leave pair) (Session.leave pair)
    if Session.isDefinite before (← observe) verdict then
      act (.store pair verdict) (Session.store pair verdict)
    else return verdict

variable (sides : Sides)

/-- Compares two classifiers, whatever comparisons that takes. It is cut off where they nest deeper
than `nesting`. -/
def compareUpTo : (nesting : Nat) → DeclId → DeclId → Observed Mismatch
  | 0, _, _ => cutOff
  | nesting + 1, a, b =>
    memoized (a, b) (classifierFailures sides
      (fun x y => do return (← compareUpTo nesting x y).isEmpty) a b)

/-- The services of an observed session. -/
def services (nesting : Nat) : Services Observed (ExceptT RunError Observed) where
  verdict := compareUpTo sides nesting
  watched step := do
    let before ← observe
    let mismatch ← step
    let after ← observe
    return (mismatch, after.limitHits == before.limitHits)
  lift := ExceptT.lift
  attempt := liftM
  note _ _ := return
  apart := Services.collect

end Steps

section Runs

variable {pair : Pair} {rules : Observed Mismatch} {before : Audit}

private theorem run_act {α : Type} (action : Action) (step : StateM Session α) (before : Audit) :
    (act action step).run before =
      ((some (step.run before.session).1, [action]), before.after action) :=
  rfl

private theorem run_observe (before : Audit) :
    observe.run before = ((some before.session, []), before) :=
  rfl

private theorem memoized_run_known {verdict : Mismatch}
    (hfind : before.session.cache.find? pair = some verdict) :
    (memoized pair rules).run before =
      ((some verdict, [.begin pair, .lookUp pair]), before.asked pair) := by
  rw [memoized, bind_some (run_act _ _ _), bind_some (run_act _ _ _), Session.run_lookUp,
    Cache.get_fst, show (before.after (.begin pair)).session.cache.find? pair = some verdict from hfind]
  rfl

private theorem memoized_run_unknown (hfind : before.session.cache.find? pair = none) :
    (memoized pair rules).run before =
      (let ended := (match (before.session.guard.enter pair).1 with
        | .cycle => act .assumeMatch Session.assumeMatch
        | .depthExceeded | .iterationExceeded => act .giveUp Session.giveUp
        | .entered => do
          let entered ← observe
          let verdict ← rules
          act (.leave pair) (Session.leave pair)
          if Session.isDefinite entered (← observe) verdict then
            act (.store pair verdict) (Session.store pair verdict)
          else return verdict : Observed Mismatch).run (before.attempted pair)
      ((ended.1.1, .begin pair :: .lookUp pair :: .enter pair :: ended.1.2), ended.2)) := by
  rw [memoized, bind_some (run_act _ _ _), bind_some (run_act _ _ _), Session.run_lookUp,
    Cache.get_fst, show (before.after (.begin pair)).session.cache.find? pair = none from hfind]
  rfl

private theorem memoized_run_cycle (hfind : before.session.cache.find? pair = none)
    (henter : (before.session.guard.enter pair).1 = .cycle) :
    (memoized pair rules).run before =
      ((some .none, [.begin pair, .lookUp pair, .enter pair, .assumeMatch]),
        (before.attempted pair).after .assumeMatch) := by
  rw [memoized_run_unknown hfind, henter]
  rfl

private theorem memoized_run_limit (hfind : before.session.cache.find? pair = none)
    (henter : (before.session.guard.enter pair).1 = .depthExceeded ∨
      (before.session.guard.enter pair).1 = .iterationExceeded) :
    (memoized pair rules).run before =
      ((some (.ofCause .recursionLimit), [.begin pair, .lookUp pair, .enter pair, .giveUp]),
        (before.attempted pair).after .giveUp) := by
  rw [memoized_run_unknown hfind]
  obtain h | h := henter <;> rw [h] <;> rfl

private theorem memoized_run_entered {verdict : Mismatch} {actions : List Action} {ruled : Audit}
    (hfind : before.session.cache.find? pair = none)
    (henter : (before.session.guard.enter pair).1 = .entered)
    (hrules : rules.run (before.attempted pair) = ((some verdict, actions), ruled)) :
    (memoized pair rules).run before =
      (let left := ruled.after (.leave pair)
      if Session.isDefinite (before.attempted pair).session left.session verdict then
        ((some ((Session.store pair verdict).run left.session).1,
          .begin pair :: .lookUp pair :: .enter pair ::
            (actions ++ [.leave pair, .store pair verdict])),
          left.after (.store pair verdict))
      else
        ((some verdict, .begin pair :: .lookUp pair :: .enter pair :: (actions ++ [.leave pair])),
          left)) := by
  rw [memoized_run_unknown hfind, henter]
  simp only [bind_some (run_observe _), bind_some hrules, bind_some (run_act _ _ _)]
  cases hdefinite : Session.isDefinite (before.attempted pair).session
      (ruled.after (.leave pair)).session verdict with
  | false => rfl
  | true => rfl

end Runs

end Observed

namespace Audit

/-- No action loses a verdict. -/
theorem grown_after (audit : Audit) (action : Action) :
    audit.session.cache.Grown (audit.after action).session.cache := by
  cases action with
  | lookUp pair => exact audit.session.cache.grown_get pair
  | store pair verdict => exact audit.session.cache.grown_insert pair verdict
  | _ => exact .refl _

variable {sides : Sides} {visiting : List Pair} {pair : Pair} {before last : Audit}
  {actions : List Action}

/-- One action that is in order where a session is ready. -/
theorem Ready.follows_one (hready : before.Ready sides visiting) {action : Action}
    (hleaves : ∀ pair, action = .leave pair → pair ∈ before.session.guard.visiting)
    (hstores : ∀ pair verdict, action = .store pair verdict →
      before.session.cache.find? pair = none)
    (hafter : (before.after action).Sound sides.levels) :
    Follows sides.levels before [action] (before.after action) :=
  .step hready.toSound ⟨hleaves, hstores, before.grown_after action, fun _ => hready.answered,
    fun _ => hready.counted⟩ (.done hafter)

/-- A comparison of a pair begins, and looks the pair up. -/
private theorem Ready.follows_asked (hready : before.Ready sides visiting)
    (hrest : Follows sides.levels (before.asked pair) actions last) :
    Follows sides.levels before (.begin pair :: .lookUp pair :: actions) last := by
  have hbegun : (before.after (.begin pair)).Sound sides.levels :=
    ⟨hready.distinct, hready.depth, hready.bounded, hready.underWay, hready.entries⟩
  refine .step hready.toSound ⟨nofun, nofun, before.grown_after _, fun _ => hready.answered,
    fun _ => hready.counted⟩ ?_
  refine .step hbegun ⟨nofun, nofun, grown_after _ _, fun hother => ?_, fun _ => hready.counted⟩ hrest
  exact absurd rfl (hother pair)

/-- An attempt to enter follows a look-up in vain. -/
private theorem Ready.follows_attempted (hready : before.Ready sides visiting)
    (hfind : before.session.cache.find? pair = none)
    (hrest : Follows sides.levels (before.attempted pair) actions last) :
    Follows sides.levels before (.begin pair :: .lookUp pair :: .enter pair :: actions) last := by
  obtain ⟨hmissed, -, -⟩ := hready.lookUp_unknown hfind
  apply hready.follows_asked
  refine .step hmissed ⟨nofun, nofun, grown_after _ _, fun _ => hready.answered_asked pair,
    fun hother => ?_⟩ hrest
  exact absurd rfl (hother pair)

end Audit

namespace Sides

open Observed

variable (sides : Sides)

/-- Observed comparisons that are not cut off and do what plain ones do while these pairs are under
way, by actions that are all in order. -/
def observing (visiting : List Pair) : Simulation Observed (StateM Session) where
  Rel R x y := ∀ before : Audit, before.Ready sides visiting → ∃ a actions last,
    x.run before = ((some a, actions), last) ∧ R a (y.run before.session).1 ∧
    last.session = (y.run before.session).2 ∧ last.Ready sides visiting ∧
    before.Follows sides.levels actions last
  pure hR before hbefore := ⟨_, [], before, rfl, hR, rfl, hbefore, .done hbefore.toSound⟩
  bind := by
    intro α β R S x y f g _ hfirst hnext before hbefore
    obtain ⟨a, actions, middle, hrun, hR, hsame, hmiddle, hfollows⟩ := hfirst before hbefore
    obtain ⟨b, others, last, hrun', hS, hsame', hlast, hfollows'⟩ := hnext _ _ hR middle hmiddle
    rw [hsame] at hS hsame'
    refine ⟨b, actions ++ others, last, ?_, hS, hsame', hlast, hfollows.append hfollows'⟩
    rw [bind_some hrun, hrun']

variable {sides} {visiting : List Pair} {pair : Pair}

/-- A comparison of a pair by rules that go alike is in order. -/
theorem observing_memoized {rules : Observed Mismatch} {rules' : StateM Session Mismatch}
    (hrules : visiting.length < sides.levels →
      (sides.observing (pair :: visiting)).Rel Eq rules rules') :
    (sides.observing visiting).Rel Eq (Observed.memoized pair rules)
      (Session.memoized pair rules') := by
  intro before hbefore
  cases hfind : before.session.cache.find? pair with
  | some verdict =>
    have hafter := hbefore.lookUp_known hfind
    refine ⟨verdict, _, _, Observed.memoized_run_known hfind, ?_, ?_, hafter,
      hbefore.follows_asked (.done hafter.toSound)⟩
    · rw [Session.memoized_run_known hfind]
    · rw [Session.memoized_run_known hfind]
      rfl
  | none =>
    obtain ⟨henter, hvisiting⟩ | ⟨henter, -, hvisiting⟩ | ⟨henter, hvisiting⟩ :=
      before.session.guard.enter_cases pair
    · obtain ⟨hroom, hentered⟩ := hbefore.attempted_entered hfind henter hvisiting
      obtain ⟨verdict, actions, ruled, hrun, hverdict, hsame, hruled, hfollows⟩ :=
        hrules hroom (before.attempted pair) hentered
      have hplain : rules'.run (before.session.attempted pair) = (verdict, ruled.session) :=
        Prod.ext hverdict.symm hsame.symm
      have hobserved := Observed.memoized_run_entered hfind henter hrun
      have hmemoized := Session.memoized_run_entered hfind henter hplain
      obtain ⟨hleft, hunknown, hspare, hnew⟩ := hruled.leave
      have hleaves : ruled.Follows sides.levels [.leave pair] (ruled.after (.leave pair)) := by
        refine hruled.follows_one (fun other hother => ?_) nofun hleft.toSound
        cases hother
        rw [hruled.visiting]
        exact List.mem_cons_self
      by_cases hdefinite : Session.isDefinite (before.attempted pair).session
          (ruled.after (.leave pair)).session verdict = true
      · have hstored := hleft.store hunknown hnew hspare verdict
        have hstores : (ruled.after (.leave pair)).Follows sides.levels [.store pair verdict]
            ((ruled.after (.leave pair)).after (.store pair verdict)) := by
          refine hleft.follows_one nofun (fun other stored hother => ?_) hstored.toSound
          cases hother
          exact hunknown
        refine ⟨_, _, _, hobserved.trans (if_pos hdefinite), ?_, ?_, hstored,
          hbefore.follows_attempted hfind (hfollows.append (hleaves.append hstores))⟩
        · rw [hmemoized.trans (if_pos hdefinite)]
          rfl
        · rw [hmemoized.trans (if_pos hdefinite)]
          rfl
      · refine ⟨_, _, _, hobserved.trans (if_neg hdefinite), ?_, ?_, hleft,
          hbefore.follows_attempted hfind (hfollows.append hleaves)⟩
        · rw [hmemoized.trans (if_neg hdefinite)]
        · rw [hmemoized.trans (if_neg hdefinite)]
          rfl
    · have hrefused := hbefore.attempted_refused hfind (by rw [henter]; nofun) hvisiting
      have hafter : ((before.attempted pair).after .assumeMatch).Ready sides visiting :=
        hrefused.counting _ rfl rfl
      refine ⟨_, _, _, Observed.memoized_run_cycle hfind henter, ?_, ?_, hafter,
        hbefore.follows_attempted hfind (hrefused.follows_one nofun nofun hafter.toSound)⟩
      · rw [Session.memoized_run_cycle hfind henter]
      · rw [Session.memoized_run_cycle hfind henter]
        rfl
    · have hother : (before.session.guard.enter pair).1 ≠ .entered := by
        obtain h | h := henter <;> rw [h] <;> nofun
      have hrefused := hbefore.attempted_refused hfind hother hvisiting
      have hafter : ((before.attempted pair).after .giveUp).Ready sides visiting :=
        hrefused.counting _ rfl rfl
      refine ⟨_, _, _, Observed.memoized_run_limit hfind henter, ?_, ?_, hafter,
        hbefore.follows_attempted hfind (hrefused.follows_one nofun nofun hafter.toSound)⟩
      · rw [Session.memoized_run_limit hfind henter]
      · rw [Session.memoized_run_limit hfind henter]
        rfl

/-- A comparison of two classifiers is not cut off where more pairs may nest than the guard lets in. -/
theorem observing_compareUpTo {nesting levels : Nat}
    (hnesting : sides.levels < visiting.length + nesting)
    (hlevels : sides.levels ≤ visiting.length + levels) (a b : DeclId) :
    (sides.observing visiting).Rel Eq (Observed.compareUpTo sides nesting a b)
      (sides.compareWithin levels a b) := by
  induction nesting generalizing visiting levels a b with
  | zero =>
    intro before hbefore
    have hbounded := hbefore.bounded
    rw [hbefore.visiting] at hbounded
    omega
  | succ nesting ih =>
    cases levels with
    | zero => exact observing_memoized fun hroom => absurd hroom (Nat.not_lt_of_le hlevels)
    | succ levels =>
      refine observing_memoized fun _ => Simulation.classifierFailures _ sides (fun x y => ?_) a b
      have hbelow : sides.levels < ((a, b) :: visiting).length + nesting := by
        rw [List.length_cons]
        omega
      have hbelow' : sides.levels ≤ ((a, b) :: visiting).length + levels := by
        rw [List.length_cons]
        omega
      exact Simulation.andThen _ (ih hbelow hbelow' x y) fun verdict => Simulation.done _ _

end Sides

end Concord
