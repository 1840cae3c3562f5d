import Concord.Pattern.CharacterSet

namespace Concord

/-- A condition on the place between two characters. -/
inductive Boundary where
  | textStart
  | textEnd
  | word
  | notWord
deriving DecidableEq

/-- A pattern over texts. It matches a stretch of text between a character before it and a character
after it, either of which may be missing. -/
inductive Pattern where
  | empty
  | boundary (condition : Boundary)
  | oneOf (set : CharacterSet)
  /-- A pattern in parentheses, which may record what it matches. -/
  | group (captures : Bool) (body : Pattern)
  /-- An item and the items that follow it. -/
  | sequence (first rest : Pattern)
  /-- An alternative and the other ones. -/
  | either (first rest : Pattern)
  /-- At least `least` and at most `most` matches in a row; without `most` there is no bound. A
  `lazy` repetition prefers fewer, which is all the same to a search. -/
  | repeated (body : Pattern) (least : Nat) (most : Option Nat) (lazy : Bool)
deriving DecidableEq

/-- Whether a character is there and is a word character. -/
def isWordCharacter (c : Option Char) : Bool :=
  c.any CharacterSet.wordCharacter.contains

/-- Whether a condition holds between two characters. -/
def Boundary.holds (condition : Boundary) (before after : Option Char) : Bool :=
  match condition with
  | textStart => before.isNone
  | textEnd => after.isNone
  | word => isWordCharacter before != isWordCharacter after
  | notWord => isWordCharacter before == isWordCharacter after

namespace Pattern

/-- Whether a pattern matches the empty stretch between two characters. -/
def acceptsEmpty (before after : Option Char) : Pattern → Bool
  | empty => true
  | boundary condition => condition.holds before after
  | oneOf _ => false
  | group _ body => body.acceptsEmpty before after
  | sequence first rest => first.acceptsEmpty before after && rest.acceptsEmpty before after
  | either first rest => first.acceptsEmpty before after || rest.acceptsEmpty before after
  | repeated body least _ _ => least == 0 || body.acceptsEmpty before after

/-- The patterns of which one has to match behind the character `c` if the pattern is to match from
right before it. Rounds of a repetition that match nothing count as done, so where the body accepts
the empty stretch no further round is owed. -/
def derivatives (before : Option Char) (c : Char) : Pattern → List Pattern
  | empty | boundary _ => []
  | oneOf set => if set.contains c then [empty] else []
  | group _ body => body.derivatives before c
  | sequence first rest =>
    (first.derivatives before c).map (sequence · rest) ++
      if first.acceptsEmpty before (some c) then rest.derivatives before c else []
  | either first rest => first.derivatives before c ++ rest.derivatives before c
  | repeated body least most lazy =>
    if most = some 0 then []
    else
      let owed := if body.acceptsEmpty before (some c) then 0 else least - 1
      (body.derivatives before c).map (sequence · (repeated body owed (most.map (· - 1)) lazy))

/-- Whether one of the patterns matches from here, or the pattern itself from here or further on. -/
def searchFrom (pattern : Pattern) (before : Option Char) (pending : List Pattern) :
    List Char → Bool
  | [] => (pattern :: pending).any (·.acceptsEmpty before none)
  | c :: rest =>
    (pattern :: pending).any (·.acceptsEmpty before (some c)) ||
      pattern.searchFrom (some c)
        ((pattern :: pending).flatMap (·.derivatives before c)).eraseDups rest

/-- Whether the pattern matches some stretch of a text. The search keeps the patterns that still
have to match and takes their derivatives one character at a time. -/
def isMatch (pattern : Pattern) (text : String) : Bool :=
  pattern.searchFrom none [] text.toList

def isSequence : Pattern → Bool
  | sequence _ _ => true
  | _ => false

def isEither : Pattern → Bool
  | either _ _ => true
  | _ => false

/-- How deep a pattern is nested: each group, each repetition, each sequence and each list of
alternatives is one level around what it holds, and sets add the levels of their own. -/
def nesting : Pattern → Nat
  | empty | boundary _ => 0
  | oneOf set => set.nesting
  | group _ body => body.nesting + 1
  | sequence first rest =>
    max (first.nesting + 1) (if rest.isSequence then rest.nesting else rest.nesting + 1)
  | either first rest =>
    max (first.nesting + 1) (if rest.isEither then rest.nesting else rest.nesting + 1)
  | repeated body _ _ _ => body.nesting + 1

end Pattern

end Concord
