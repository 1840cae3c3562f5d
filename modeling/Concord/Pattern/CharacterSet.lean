import Concord.Pattern.CharacterRanges
import Concord.Pattern.CharacterTables

namespace Concord

/-- A set of characters. -/
inductive CharacterSet where
  /-- The characters whose code points lie in ranges that ascend. -/
  | within (ranges : CharacterRanges)
  | decimalDigit
  | whiteSpace
  | wordCharacter
  /-- A set in brackets. -/
  | bracketed (content : CharacterSet)
  | union (first rest : CharacterSet)
  | intersection (a b : CharacterSet)
  /-- The characters of the first set that are not in the second. -/
  | difference (a b : CharacterSet)
  /-- The characters that are in exactly one of the two sets. -/
  | symmetricDifference (a b : CharacterSet)
  | complement (a : CharacterSet)
deriving DecidableEq

namespace CharacterSet

/-- The set without characters. -/
def none : CharacterSet := within []

/-- The characters from one to another. -/
def range (low high : Char) : CharacterSet := within [(low.toNat, high.toNat)]

/-- The set of one character. -/
def single (c : Char) : CharacterSet := range c c

/-- The union of the items of a set. -/
def ofItems : List CharacterSet → CharacterSet
  | [] => none
  | [item] => item
  | first :: rest => union first (ofItems rest)

/-- Every character but a line feed. -/
def anyButNewline : CharacterSet := complement (single '\n')

def contains : CharacterSet → Char → Bool
  | within ranges, c => ranges.contains c.toNat
  | decimalDigit, c => CharacterTables.decimalDigits.contains c.toNat
  | whiteSpace, c => CharacterTables.whiteSpace.contains c.toNat
  | wordCharacter, c => CharacterTables.wordCharacters.contains c.toNat
  | bracketed content, c => content.contains c
  | union first rest, c => first.contains c || rest.contains c
  | intersection a b, c => a.contains c && b.contains c
  | difference a b, c => a.contains c && !b.contains c
  | symmetricDifference a b, c => a.contains c != b.contains c
  | complement a, c => !a.contains c

/-- The code points of the characters of a set. -/
def ranges : CharacterSet → CharacterRanges
  | within ranges => .ofRanges ranges
  | decimalDigit => CharacterTables.decimalDigits
  | whiteSpace => CharacterTables.whiteSpace
  | wordCharacter => CharacterTables.wordCharacters
  | bracketed content => content.ranges
  | union first rest => first.ranges.union rest.ranges
  | intersection a b => a.ranges.intersection b.ranges
  | difference a b => a.ranges.difference b.ranges
  | symmetricDifference a b => a.ranges.symmetricDifference b.ranges
  | complement a => a.ranges.complement

def isUnion : CharacterSet → Bool
  | union _ _ => true
  | _ => false

/-- How deep a set is nested: each pair of brackets, each union of several items and each operator
is one level around what it holds. -/
def nesting : CharacterSet → Nat
  | within _ | decimalDigit | whiteSpace | wordCharacter => 0
  | bracketed content => content.nesting + 1
  | union first rest =>
    max (first.nesting + 1) (if rest.isUnion then rest.nesting else rest.nesting + 1)
  | intersection a b | difference a b | symmetricDifference a b => max a.nesting b.nesting + 1
  | complement a => a.nesting

end CharacterSet

end Concord
