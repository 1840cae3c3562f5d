namespace Concord

/-- Ranges of code points, both ends included. Those that stand for a set ascend, and neither
overlap nor touch, so that a set has one list only. -/
abbrev CharacterRanges := List (Nat × Nat)

namespace CharacterRanges

/-- Whether a code point lies in one of the ranges. -/
def contains (point : Nat) : CharacterRanges → Bool
  | [] => false
  | (low, high) :: rest =>
    if point < low then false
    else if point ≤ high then true
    else contains point rest

/-- A range in front of ranges that begin no earlier, with which it is joined where they meet. -/
def joinAfter (low high : Nat) : CharacterRanges → CharacterRanges
  | [] => [(low, high)]
  | (nextLow, nextHigh) :: rest =>
    if nextLow ≤ high + 1 then joinAfter low (max high nextHigh) rest
    else (low, high) :: joinAfter nextLow nextHigh rest

/-- The set of the code points in any ranges. -/
def ofRanges (ranges : List (Nat × Nat)) : CharacterRanges :=
  match ranges.mergeSort (fun a b => a.1 ≤ b.1) with
  | [] => []
  | (low, high) :: rest => joinAfter low high rest

def union (a b : CharacterRanges) : CharacterRanges :=
  ofRanges (a ++ b)

/-- The last code point. -/
def lastPoint : Nat := 0x10FFFF

/-- The code points from `start` on that are in none of the ranges. -/
def gapsFrom (start : Nat) : CharacterRanges → CharacterRanges
  | [] => if start ≤ lastPoint then [(start, lastPoint)] else []
  | (low, high) :: rest =>
    if start < low then (start, low - 1) :: gapsFrom (high + 1) rest
    else gapsFrom (high + 1) rest

def complement (a : CharacterRanges) : CharacterRanges :=
  gapsFrom 0 a

def intersection (a b : CharacterRanges) : CharacterRanges :=
  complement (union (complement a) (complement b))

def difference (a b : CharacterRanges) : CharacterRanges :=
  intersection a (complement b)

/-- The code points in exactly one of two sets. -/
def symmetricDifference (a b : CharacterRanges) : CharacterRanges :=
  union (difference a b) (difference b a)

end CharacterRanges

end Concord
