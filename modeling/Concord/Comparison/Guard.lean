namespace Concord

/-- What became of an attempt to enter a computation. -/
inductive Entry where
  | entered
  /-- The computation of the key is under way. -/
  | cycle
  | depthExceeded
  | iterationExceeded
deriving DecidableEq

/-- The keys under way, the innermost first, the number of attempts, and the limits of both. -/
structure Guard (κ : Type) where
  visiting : List κ
  iterations : Nat
  maxDepth : Nat
  maxIterations : Nat

namespace Guard

variable {κ : Type} [DecidableEq κ]

/-- How many keys may be under way at once, whatever the limit on depth. -/
def maxVisiting : Nat := 10000

/-- Attempts are counted up to the largest number of 32 bits. -/
def maxCount : Nat := 0xFFFFFFFF

/-- A guard that nothing has entered. -/
def new (maxDepth maxIterations : Nat) : Guard κ :=
  ⟨[], 0, maxDepth, maxIterations⟩

/-- How many computations are under way inside one another. -/
def depth (guard : Guard κ) : Nat :=
  guard.visiting.length

/-- Whether any computation is under way. -/
def isActive (guard : Guard κ) : Bool :=
  !guard.visiting.isEmpty

/-- Tries to enter the computation for a key. An attempt is turned down when there were too many,
when too many keys are open at once, or when the key is open already. It counts even if it is turned
down. -/
def enter (guard : Guard κ) (key : κ) : Entry × Guard κ :=
  let guard := { guard with iterations := min (guard.iterations + 1) maxCount }
  if guard.iterations > guard.maxIterations then (.iterationExceeded, guard)
  else if guard.depth ≥ guard.maxDepth then (.depthExceeded, guard)
  else if guard.visiting.contains key then (.cycle, guard)
  else if guard.depth ≥ maxVisiting then (.depthExceeded, guard)
  else (.entered, { guard with visiting := key :: guard.visiting })

/-- Leaves the computation for a key that was entered. -/
def leave (guard : Guard κ) (key : κ) : Guard κ :=
  { guard with visiting := guard.visiting.erase key }

end Guard

end Concord
