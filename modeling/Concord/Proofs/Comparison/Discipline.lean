import Concord.Proofs.Comparison.Calls
import Concord.Proofs.Comparison.Observing

namespace Concord

namespace Observed

variable (sides : Sides) (nesting : Nat)

/-- Runs a comparison for what it does to the session. -/
def perform : Call → Observed Unit
  | .declarations a b => discard ((services sides nesting).compare sides a b)
  | .classifiers a b => discard (compareUpTo sides nesting a b)
  | .types a b => discard (typesAgree sides (services sides nesting).shareable a b)
  | .supertypes a b => discard (sharedSupertypes sides (services sides nesting).shareable a b)
  | .constructors a b => discard (sharedConstructors sides (services sides nesting).shareable a b)
  | .newSession =>
    act (.renew sides.options) (modify fun session => .new sides.options session.cache)

end Observed

namespace Sides

variable {sides : Sides} {nesting : Nat} (hnesting : sides.levels < nesting)
include hnesting

private theorem observing_verdict (a b : DeclId) :
    (sides.observing []).Rel Eq ((Observed.services sides nesting).verdict a b)
      (sides.services.verdict a b) := by
  apply observing_compareUpTo
  · rwa [List.length_nil, Nat.zero_add]
  · exact Nat.le_of_eq (Nat.zero_add _).symm

omit hnesting in
/-- An observed step is watched as it goes. -/
private theorem observing_watched {step : Observed Mismatch} {step' : StateM Session Mismatch}
    (hstep : (sides.observing []).Rel Eq step step') :
    (sides.observing []).Rel Eq ((Observed.services sides nesting).watched step)
      (sides.services.watched step') := by
  have hget : (sides.observing []).Rel Eq Observed.observe (get : StateM Session Session) :=
    fun before hbefore =>
      ⟨before.session, [], before, rfl, rfl, rfl, hbefore, .done hbefore.toSound⟩
  refine Simulation.andThen _ hget fun before => Simulation.andThen _ hstep fun mismatch => ?_
  exact Simulation.andThen _ hget fun after => Simulation.done _ _

omit hnesting in
/-- A session that starts anew forgets its counts and keeps the cache. -/
private theorem observing_renew :
    (sides.observing []).Rel Eq (Observed.act (.renew sides.options)
        (modify fun session => .new sides.options session.cache))
      (modify fun session => .new sides.options session.cache) := by
  intro before hbefore
  have hentries : before.session.cache.size ≤ before.session.cache.misses := by
    have hentries := hbefore.entries
    omega
  have hafter : (before.after (.renew sides.options)).Ready sides [] :=
    ⟨⟨.nil, rfl, Nat.zero_le _, nofun, hentries⟩, hbefore.answered, rfl, rfl, rfl⟩
  exact ⟨(), _, _, rfl, rfl, rfl, hafter, hbefore.follows_one nofun nofun hafter.toSound⟩

/-- A comparison of any kind ends, and does what the plain one does by actions that are in order. -/
theorem observing_perform (call : Call) :
    (sides.observing []).Rel Eq (Observed.perform sides nesting call) (sides.perform call) := by
  have hverdict := observing_verdict hnesting
  have hshareable := (sides.observing []).shareable hverdict
  cases call with
  | declarations a b =>
    have hcompare := (sides.observing []).compare sides hverdict observing_watched a b
    rw [sides.services_compare] at hcompare
    exact Simulation.andThen _ hcompare fun _ => Simulation.done _ ()
  | classifiers a b => exact Simulation.andThen _ (hverdict a b) fun _ => Simulation.done _ ()
  | types a b =>
    exact Simulation.andThen _ ((sides.observing []).types sides hshareable a b) fun _ =>
      Simulation.done _ ()
  | supertypes a b =>
    exact Simulation.andThen _ ((sides.observing []).sharedSupertypes sides hshareable a b) fun _ =>
      Simulation.done _ ()
  | constructors a b =>
    exact Simulation.andThen _ ((sides.observing []).sharedConstructors sides hshareable a b) fun _ =>
      Simulation.done _ ()
  | newSession => exact observing_renew

end Sides

/-- Comparators over one cache, and how many comparisons of classifiers were begun over it. -/
structure Bench where
  cache : Cache
  begun : Nat
  audits : Nat → Audit

namespace Bench

/-- Comparators that have compared nothing yet, over an empty cache. -/
def new (comparators : Nat → Sides) : Bench :=
  ⟨.empty, 0, fun n => .new (comparators n).options⟩

/-- A comparator, over the cache as the others left it. -/
def audit (bench : Bench) (n : Nat) : Audit :=
  { bench.audits n with
    session := { (bench.audits n).session with cache := bench.cache }
    begun := bench.begun }

/-- A comparator has had its turn. -/
def put (bench : Bench) (n : Nat) (audit : Audit) : Bench :=
  ⟨audit.session.cache, audit.begun, fun m => if m = n then audit else bench.audits m⟩

variable (comparators : Nat → Sides) (spare : Nat)

/-- How far the comparisons of a comparator may nest before they are cut off. -/
def nesting (n : Nat) : Nat :=
  (comparators n).levels + 1 + spare

/-- One comparator makes a comparison. -/
def turn (bench : Bench) (n : Nat) (call : Call) : Bench :=
  bench.put n ((Observed.perform (comparators n) (nesting comparators spare n) call).run
    (bench.audit n)).2

/-- The comparators take turns. -/
def run (turns : List (Nat × Call)) : Bench :=
  turns.foldl (fun bench turned => bench.turn comparators spare turned.1 turned.2) (new comparators)

/-- Nothing is under way at any comparator. -/
def Idle (bench : Bench) : Prop :=
  ∀ n, (bench.audit n).Ready (comparators n) []

variable {comparators spare} {bench : Bench}

private theorem idle_new : (new comparators).Idle comparators := by
  intro n
  exact ⟨⟨.nil, rfl, Nat.zero_le _, nofun, Nat.le_refl _⟩, rfl, rfl, rfl, rfl⟩

/-- A comparator that has had its turn leaves the others idle. -/
private theorem Idle.put (hidle : bench.Idle comparators) {n : Nat} {last : Audit}
    (hlast : last.Ready (comparators n) []) : (bench.put n last).Idle comparators := by
  intro m
  by_cases hsame : m = n
  · subst hsame
    have hself : (bench.put m last).audit m = last := by
      unfold audit Bench.put
      simp only [if_true]
    rw [hself]
    exact hlast
  · have hother : (bench.put n last).audit m =
        { bench.audits m with
          session := { (bench.audits m).session with cache := last.session.cache }
          begun := last.begun } := by
      unfold audit Bench.put
      simp only [hsame, if_false]
    have hbefore := hidle m
    have hentries : last.session.cache.size ≤ last.session.cache.misses := by
      have hentries := hlast.entries
      omega
    have hvisiting : (bench.audits m).session.guard.visiting = [] := hbefore.visiting
    rw [hother]
    refine ⟨⟨hbefore.distinct, hbefore.depth, hbefore.bounded, ?_, ?_⟩, hlast.answered,
      hbefore.counted, hbefore.visiting, hbefore.maxDepth⟩
    · intro pair hpair
      rw [show pair ∈ _ ↔ pair ∈ (bench.audits m).session.guard.visiting from Iff.rfl, hvisiting]
        at hpair
      cases hpair
    · show last.session.cache.size + (bench.audits m).session.guard.visiting.length ≤ _
      rw [hvisiting]
      exact hentries

variable (spare) in
/-- A comparison at an idle bench ends, does what the plain one does, and leaves the comparator
idle. -/
private theorem Idle.observed (hidle : bench.Idle comparators) (n : Nat) (call : Call) :
    ∃ actions last,
      (Observed.perform (comparators n) (nesting comparators spare n) call).run (bench.audit n) =
        ((some (), actions), last) ∧
      last.session = (((comparators n).perform call).run (bench.audit n).session).2 ∧
      last.Ready (comparators n) [] ∧
      (bench.audit n).Follows (comparators n).levels actions last := by
  have hnesting : (comparators n).levels < nesting comparators spare n := by
    unfold nesting
    omega
  obtain ⟨_, actions, last, hrun, -, hsame, hlast, hfollows⟩ :=
    Sides.observing_perform hnesting call (bench.audit n) (hidle n)
  exact ⟨actions, last, hrun, hsame, hlast, hfollows⟩

private theorem Idle.turn (hidle : bench.Idle comparators) (n : Nat) (call : Call) :
    (bench.turn comparators spare n call).Idle comparators := by
  obtain ⟨actions, last, hrun, -, hlast, -⟩ := hidle.observed spare n call
  unfold Bench.turn
  rw [hrun]
  exact hidle.put hlast

variable (comparators spare) in
/-- However comparators take turns, nothing is under way between two of them. -/
theorem idle_run (turns : List (Nat × Call)) : (run comparators spare turns).Idle comparators := by
  have hfrom (turns : List (Nat × Call)) : ∀ {bench : Bench}, bench.Idle comparators →
      (turns.foldl (fun bench turned => bench.turn comparators spare turned.1 turned.2)
        bench).Idle comparators := by
    induction turns with
    | nil => exact fun hidle => hidle
    | cons turned turns ih => exact fun hidle => ih (hidle.turn turned.1 turned.2)
  exact hfrom turns idle_new

/-- However comparators take turns over a cache that starts empty, the next comparison of any of
them ends, however far its bound lies above what the guard lets in. It does what the plain one does,
by actions that are all in order, in a session that is sound at every moment; it changes no verdict
that was cached, and leaves nothing under way. -/
theorem guard_and_cache_disciplined (comparators : Nat → Sides) (spare : Nat)
    (turns : List (Nat × Call)) (n : Nat) (call : Call) :
    let bench := run comparators spare turns
    bench.Idle comparators ∧ ∃ actions last,
      (Observed.perform (comparators n) ((comparators n).levels + 1 + spare) call).run
        (bench.audit n) = ((some (), actions), last) ∧
      last.session = (((comparators n).perform call).run (bench.audit n).session).2 ∧
      (bench.audit n).Follows (comparators n).levels actions last ∧
      bench.cache.Grown last.session.cache ∧ (bench.put n last).Idle comparators := by
  intro bench
  have hidle : bench.Idle comparators := idle_run comparators spare turns
  obtain ⟨actions, last, hrun, hsame, hlast, hfollows⟩ := hidle.observed spare n call
  exact ⟨hidle, actions, last, hrun, hsame, hfollows, hfollows.grown, hidle.put hlast⟩

end Bench

end Concord
