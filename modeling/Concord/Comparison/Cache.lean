import Concord.Comparison.Mismatch

namespace Concord

/-- A classifier of the first tree and one of the second. -/
abbrev Pair := DeclId × DeclId

/-- What the counters of a cache say. -/
structure CacheCounts where
  entries : Nat
  hits : Nat
  misses : Nat
deriving DecidableEq, Inhabited

/-- The verdicts on pairs of classifiers, the latest first. -/
structure Cache where
  entries : List (Pair × Mismatch)
  hits : Nat
  misses : Nat
deriving DecidableEq, Inhabited

namespace Cache

def empty : Cache := ⟨[], 0, 0⟩

/-- The verdict stored for a pair. -/
def find? (cache : Cache) (pair : Pair) : Option Mismatch :=
  cache.entries.lookup pair

/-- Looks a pair up and counts it. -/
def get (cache : Cache) (pair : Pair) : Option Mismatch × Cache :=
  match cache.find? pair with
  | some verdict => (some verdict, { cache with hits := cache.hits + 1 })
  | none => (none, { cache with misses := cache.misses + 1 })

/-- Stores a verdict unless the pair has one, and gives the verdict that is stored then. -/
def insert (cache : Cache) (pair : Pair) (verdict : Mismatch) : Mismatch × Cache :=
  match cache.find? pair with
  | some stored => (stored, cache)
  | none => (verdict, { cache with entries := (pair, verdict) :: cache.entries })

def size (cache : Cache) : Nat :=
  cache.entries.length

def counts (cache : Cache) : CacheCounts :=
  ⟨cache.size, cache.hits, cache.misses⟩

end Cache

end Concord
