import Concord.Pattern.Basic
import Concord.Text.Utf8

namespace Concord

/-- A pattern in normal form. Neighbouring literals are one, sequences and alternatives hold no
others of their kind and no single item, sets of characters are lists of ranges, alternatives that
are characters or sets are one set, and items with which all alternatives begin stand in front of
them. -/
inductive NormalPattern where
  | empty
  | literal (text : List Char)
  | oneOf (ranges : CharacterRanges)
  | boundary (condition : Boundary)
  | repeated (body : NormalPattern) (least : Nat) (most : Option Nat) (lazy : Bool)
  /-- A pattern that records what it matches. -/
  | captured (body : NormalPattern)
  | sequence (items : List NormalPattern)
  | either (items : List NormalPattern)

/-- The least and the greatest number of bytes that a pattern matches. There is no least one if
nothing may match, and no greatest one if there is no bound. -/
structure MatchLength where
  shortest : Option Nat
  longest : Option Nat
deriving DecidableEq

namespace MatchLength

def exactly (length : Nat) : MatchLength := ⟨some length, some length⟩

/-- The length of one match behind another. -/
def append (a b : MatchLength) : MatchLength where
  shortest := do return (← a.shortest) + (← b.shortest)
  longest := do return (← a.longest) + (← b.longest)

/-- The length of either of two matches. -/
def or (a b : MatchLength) : MatchLength where
  shortest := do return min (← a.shortest) (← b.shortest)
  longest := do return max (← a.longest) (← b.longest)

/-- The length of matches in a row. -/
def times (a : MatchLength) (least : Nat) (most : Option Nat) : MatchLength where
  shortest := do return (← a.shortest) * least
  longest := do return (← a.longest) * (← most)

/-- The length of a character of a set. -/
def ofRanges (ranges : CharacterRanges) : MatchLength where
  shortest := ranges.head?.map fun range => (Utf8.encode range.1).length
  longest := ranges.getLast?.map fun range => (Utf8.encode range.2).length

end MatchLength

namespace NormalPattern

mutual
/-- The length of the matches of a pattern. -/
def matchLength : NormalPattern → MatchLength
  | empty | boundary _ => .exactly 0
  | literal text => .exactly (Utf8.bytes text).length
  | oneOf ranges => .ofRanges ranges
  | repeated body least most _ => body.matchLength.times least most
  | captured body => body.matchLength
  | sequence items => sequenceLength items
  | either items => eitherLength items
def sequenceLength : List NormalPattern → MatchLength
  | [] => .exactly 0
  | item :: rest => item.matchLength.append (sequenceLength rest)
def eitherLength : List NormalPattern → MatchLength
  | [] => ⟨none, none⟩
  | [item] => item.matchLength
  | item :: rest => item.matchLength.or (eitherLength rest)
end

mutual
/-- Whether two patterns are written alike. What is recorded for one pattern is not what is recorded
for another, so that a pattern that records anything is like no other. -/
def isSame : NormalPattern → NormalPattern → Bool
  | empty, empty => true
  | literal a, literal b => a == b
  | oneOf a, oneOf b => a == b
  | boundary a, boundary b => a == b
  | repeated a least most lazy, repeated b least' most' lazy' =>
    a.isSame b && least == least' && most == most' && lazy == lazy'
  | sequence a, sequence b => areSame a b
  | either a, either b => areSame a b
  | _, _ => false
def areSame : List NormalPattern → List NormalPattern → Bool
  | [], [] => true
  | a :: as, b :: bs => a.isSame b && areSame as bs
  | _, _ => false
end

/-- The characters of a set. -/
def ofRanges : CharacterRanges → NormalPattern
  | [(low, high)] => if low = high then literal [Char.ofNat low] else oneOf [(low, high)]
  | ranges => oneOf ranges

/-- The items of a sequence, of which the empty one has none. -/
def sequenceItems : NormalPattern → List NormalPattern
  | empty => []
  | sequence items => items
  | item => [item]

/-- Puts an item in front of others and joins literals. -/
def prepend : NormalPattern → List NormalPattern → List NormalPattern
  | literal a, literal b :: rest => literal (a ++ b) :: rest
  | item, rest => item :: rest

/-- One pattern behind another. -/
def append (a b : NormalPattern) : NormalPattern :=
  match (sequenceItems a).foldr prepend (sequenceItems b) with
  | [] => empty
  | [item] => item
  | items => sequence items

/-- The patterns of a list one behind the other. -/
def ofSequence (patterns : List NormalPattern) : NormalPattern :=
  patterns.foldr append empty

/-- A pattern in a row. A pattern that matches nothing but empty stretches has no use for more than
one round. -/
def ofRepetition (body : NormalPattern) (least : Nat) (most : Option Nat) (lazy : Bool) :
    NormalPattern :=
  let (least, most) :=
    if body.matchLength.longest = some 0 then (min least 1, some (min (most.getD 1) 1))
    else (least, most)
  if most = some 0 then empty
  else if least = 1 ∧ most = some 1 then body
  else repeated body least most lazy

/-- The alternatives of a pattern. -/
def alternatives : NormalPattern → List NormalPattern
  | either items => items
  | item => [item]

/-- The code point of a literal of one character. -/
def character? : NormalPattern → Option Nat
  | literal [c] => some c.toNat
  | _ => none

/-- The code points of a set. -/
def ranges? : NormalPattern → Option CharacterRanges
  | oneOf ranges => some ranges
  | _ => none

/-- The items of a pattern that is a sequence. -/
def items? : NormalPattern → Option (List NormalPattern)
  | sequence items => some items
  | _ => none

/-- Any of the patterns of a list. Characters only, and sets only, become one set. -/
def ofChoice (patterns : List NormalPattern) : NormalPattern :=
  match patterns.flatMap alternatives with
  | [item] => item
  | items =>
    match items.mapM character?, items.mapM ranges? with
    | some points, _ => ofRanges (.ofRanges (points.map fun point => (point, point)))
    | none, some sets => ofRanges (.ofRanges sets.flatten)
    | none, none => either items

/-- The items with which both of two sequences begin. -/
def commonItems : List NormalPattern → List NormalPattern → List NormalPattern
  | a :: as, b :: bs => if a.isSame b then a :: commonItems as bs else []
  | _, _ => []

/-- Any of the patterns of a list. If all are sequences that begin alike, the items that they share
stand in front. The rests share no first item any more. -/
def ofAlternatives (patterns : List NormalPattern) : NormalPattern :=
  match ofChoice patterns with
  | either items =>
    match items.mapM items? with
    | some (first :: others) =>
      match others.foldl commonItems first with
      | [] => either items
      | common =>
        let rests := (first :: others).map fun sequence => ofSequence (sequence.drop common.length)
        ofSequence (common ++ [ofChoice rests])
    | _ => either items
  | pattern => pattern

/-- The pattern with these branches. One branch is the pattern itself. -/
def ofBranches : List NormalPattern → NormalPattern
  | [pattern] => pattern
  | patterns => ofAlternatives patterns

/-- The normal forms of the alternatives of a pattern. -/
def branches : Pattern → List NormalPattern
  | .empty => [empty]
  | .boundary condition => [boundary condition]
  | .oneOf set => [ofRanges set.ranges]
  | .group captures body =>
    let body := ofBranches (branches body)
    [if captures then captured body else body]
  | .sequence first rest => [(ofBranches (branches first)).append (ofBranches (branches rest))]
  | .either first rest => ofBranches (branches first) :: branches rest
  | .repeated body least most lazy => [ofRepetition (ofBranches (branches body)) least most lazy]

end NormalPattern

/-- The normal form of a pattern. -/
def Pattern.normalForm (pattern : Pattern) : NormalPattern :=
  .ofBranches (NormalPattern.branches pattern)

end Concord
