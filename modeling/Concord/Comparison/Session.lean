import Concord.Comparison.Cache
import Concord.Comparison.Guard
import Concord.Comparison.Rules

namespace Concord

/-- The state of a session: the guard, how often a pair under way was taken to match, how often a
limit was hit, and the cache, which other sessions may have filled before. -/
structure Session where
  guard : Guard Pair
  assumptions : Nat
  limitHits : Nat
  cache : Cache

namespace Session

/-- A session that has compared nothing yet, over a cache. -/
def new (options : CompiledOptions) (cache : Cache) : Session :=
  ⟨.new options.maxComparisonDepth options.maxComparisonIterations, 0, 0, cache⟩

/-- Looks a pair up in the cache. -/
def lookUp (pair : Pair) : StateM Session (Option Mismatch) :=
  modifyGet fun session =>
    let (verdict, cache) := session.cache.get pair
    (verdict, { session with cache })

/-- Tries to enter the comparison of a pair. -/
def enter (pair : Pair) : StateM Session Entry :=
  modifyGet fun session =>
    let (entry, guard) := session.guard.enter pair
    (entry, { session with guard })

/-- Leaves the comparison of a pair. -/
def leave (pair : Pair) : StateM Session Unit :=
  modify fun session => { session with guard := session.guard.leave pair }

/-- Takes a pair under way to match. -/
def assumeMatch : StateM Session Mismatch := do
  modify fun session => { session with assumptions := session.assumptions + 1 }
  return .none

/-- Gives up at a limit. -/
def giveUp : StateM Session Mismatch := do
  modify fun session => { session with limitHits := session.limitHits + 1 }
  return .ofCause .recursionLimit

/-- Stores a verdict and gives the one that is stored then. -/
def store (pair : Pair) (verdict : Mismatch) : StateM Session Mismatch :=
  modifyGet fun session =>
    let (stored, cache) := session.cache.insert pair verdict
    (stored, { session with cache })

/-- Whether a verdict reached between two states may be remembered. -/
def isDefinite (before after : Session) (verdict : Mismatch) : Bool :=
  (after.assumptions == before.assumptions || !verdict.isEmpty || !after.guard.isActive) &&
    after.limitHits == before.limitHits

/-- Compares a pair by `rules`, unless its verdict is known, under way or out of reach. A pair under
way is taken to match. A verdict is remembered only if it does not hang on such an assumption, or
says no, or belongs to the outermost pair, and if no limit was hit on the way to it. -/
def memoized (pair : Pair) (rules : StateM Session Mismatch) : StateM Session Mismatch := do
  if let some verdict ← lookUp pair then return verdict
  match ← enter pair with
  | .cycle => assumeMatch
  | .depthExceeded | .iterationExceeded => giveUp
  | .entered =>
    let before ← get
    let verdict ← rules
    leave pair
    if isDefinite before (← get) verdict then store pair verdict else return verdict

end Session

namespace Sides

variable (sides : Sides)

/-- Compares two classifiers, in which at most `levels` pairs are entered inside one another. -/
def compareWithin : (levels : Nat) → DeclId → DeclId → StateM Session Mismatch
  | 0, a, b => Session.memoized (a, b) Session.giveUp
  | levels + 1, a, b =>
    Session.memoized (a, b) (classifierFailures sides
      (fun x y => do return (← compareWithin levels x y).isEmpty) a b)

/-- The guard of a session lets no more pairs in than this. -/
def levels : Nat :=
  min sides.options.maxComparisonDepth Guard.maxVisiting

/-- Compares two classifiers. -/
def compareClassifiers (a b : DeclId) : StateM Session Mismatch :=
  sides.compareWithin sides.levels a b

/-- Whether two classifiers can be shared. -/
def shareable (a b : DeclId) : StateM Session Bool := do
  return (← sides.compareClassifiers a b).isEmpty

end Sides

end Concord
