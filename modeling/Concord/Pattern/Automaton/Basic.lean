import Concord.Pattern.Automaton.Size
import Concord.Pattern.Normal

namespace Concord

namespace Words

/-- The words that go on from a node, in chunks: those before the first word that ends there, those
between it and the next, and so on. Words that end where nothing has gone on yet count once. A node
stands for the words that go on from it in different ways, and shares what they begin with. A
branching state chooses among its chunks. -/
def chunks (words : List (List Nat)) : List (List (List Nat)) :=
  let (closed, last) := words.foldl step ([], [])
  closed ++ [last]
where
  /-- Takes up one word behind the chunks that are closed and the one that is not. -/
  step : List (List (List Nat)) × List (List Nat) → List Nat →
      List (List (List Nat)) × List (List Nat)
    | (closed, last), [] =>
      if last.isEmpty && !closed.isEmpty && closed.all List.isEmpty then (closed, last)
      else (closed ++ [last], [])
    | (closed, last), word => (closed, last ++ [word])

/-- The first bytes of words, each once, and what follows each of them. -/
def tails (words : List (List Nat)) : List (List (List Nat)) :=
  (words.filterMap List.head?).eraseDups.map fun byte =>
    (words.filter (·.head? == some byte)).map List.tail

/-- The size of a chunk without the nodes behind it. -/
def chunkSize : Nat → AutomatonSize
  | 0 => .zero
  | 1 => .plain
  | transitions => .listed transitions

/-- The size of a node and of all nodes behind it. The words are no longer than `depth`. -/
def nodeSize : (depth : Nat) → List (List Nat) → AutomatonSize
  | 0, _ => .zero
  | depth + 1, words =>
    let chunks := (chunks words).map tails
    let branches := (chunks.filter (!·.isEmpty)).length + (chunks.length - 1)
    let inner := chunks.flatten.filter (·.any (!·.isEmpty))
    (chunks.map (chunkSize ·.length) ++ inner.map (nodeSize depth)).foldl .add
      (.branching branches)

/-- The size of the part that reads one of the words, its end included. -/
def size (words : List (List Nat)) : AutomatonSize :=
  let depth := words.foldl (fun depth word => max depth word.length) 0
  (nodeSize depth words).add .plain

/-- Adds the part that reads one of the words. -/
def build (direction : Direction) (words : List (List Nat)) : Building Ending := do
  match direction with
  | .forward => Building.grow (size words)
  | .backward => Building.grow (size (words.map List.reverse))
  return .single

end Words

namespace Ending

/-- So many further copies of a part behind one that ends as given. -/
def furtherCopies (part : Building Ending) : Nat → Ending → Building Ending
  | 0, ending => return ending
  | count + 1, ending => do
    let next ← part
    ending.leadOn
    furtherCopies part count next

/-- Copies of a part one behind the other. -/
def copies (part : Building Ending) : Nat → Building Ending
  | 0 => do
    Building.grow .plain
    return .single
  | count + 1 => do furtherCopies part count (← part)

/-- So many further copies of a part, each of which may be left out with those behind it. -/
def optionalCopies (part : Building Ending) : Nat → Ending → Building Ending
  | 0, ending => return ending
  | count + 1, ending => do
    Building.grow (.branching 2)
    ending.leadOn
    optionalCopies part count (← part)

/-- At least and at most so many copies of a part in a row. -/
def repetition (part : Building Ending) (canBeEmpty : Bool) (least : Nat) (most : Option Nat) :
    Building Ending := do
  match least, most with
  | 0, some 1 =>
    Building.grow (.branching 2)
    (← part).leadOn
    Building.grow .plain
    return .single
  | 0, none =>
    if canBeEmpty then
      (← part).leadOn
      Building.grow (.branching 2)
      Building.grow (.branching 2)
      Building.grow .plain
      return .single
    else
      Building.grow (.branching 1)
      (← part).leadOn
      return .branching
  | 1, none =>
    (← part).leadOn
    Building.grow (.branching 1)
    return .branching
  | least, none =>
    let before ← copies part (least - 1)
    let last ← part
    Building.grow (.branching 1)
    before.leadOn
    last.leadOn
    return .branching
  | least, some most =>
    let before ← copies part least
    if least = most then return before
    Building.grow .plain
    (← optionalCopies part (most - least) before).leadOn
    return .single

end Ending

namespace NormalPattern

mutual
/-- Whether every match begins at the start of the text, or for backward reading ends at its end, as
far as boundaries at that side of the pattern show. -/
def isAnchored (direction : Direction) : NormalPattern → Bool
  | boundary condition =>
    match direction with
    | .forward => condition == .textStart
    | .backward => condition == .textEnd
  | repeated body least _ _ => least != 0 && body.isAnchored direction
  | captured body => body.isAnchored direction
  | sequence items => isAnySideAnchored direction items
  | either items => areAllAnchored direction items
  | empty | literal _ | oneOf _ => false
/-- Whether an item at the side where reading begins is anchored, or one that only items without
length separate from it. -/
def isAnySideAnchored (direction : Direction) : List NormalPattern → Bool
  | [] => false
  | item :: rest =>
    match direction with
    | .forward =>
      item.isAnchored direction ||
        item.matchLength.longest == some 0 && isAnySideAnchored direction rest
    | .backward =>
      isAnySideAnchored direction rest ||
        (sequenceLength rest).longest == some 0 && item.isAnchored direction
def areAllAnchored (direction : Direction) : List NormalPattern → Bool
  | [] => true
  | item :: rest => item.isAnchored direction && areAllAnchored direction rest
end

/-- The bytes of a literal. -/
def word? : NormalPattern → Option (List Nat)
  | literal text => some (Utf8.bytes text)
  | _ => none

mutual
/-- Adds the part for a pattern. -/
def build (direction : Direction) : NormalPattern → Building Ending
  | empty | boundary _ => do
    Building.grow .plain
    return .single
  | literal text => do
    for _ in Utf8.bytes text do
      Building.grow .plain
    return .single
  | oneOf ranges => CharacterClass.build direction ranges
  | repeated body least most _ =>
    Ending.repetition (build direction body) (body.matchLength.shortest.all (· == 0)) least most
  | captured body =>
    match direction with
    | .forward => do
      Building.grow .plain
      (← build direction body).leadOn
      Building.grow .plain
      return .single
    | .backward => build direction body
  | sequence items => buildSequence direction items
  | either items =>
    match items.mapM word? with
    | some words => Words.build direction words
    | none => buildAlternatives direction items
/-- Adds the parts for the items of a sequence, in the order in which they are read. -/
def buildSequence (direction : Direction) : List NormalPattern → Building Ending
  | [] => do
    Building.grow .plain
    return .single
  | [item] => build direction item
  | item :: rest =>
    match direction with
    | .forward => do
      (← build direction item).leadOn
      buildSequence direction rest
    | .backward => do
      (← buildSequence direction rest).leadOn
      build direction item
/-- Adds the parts for alternatives. The states that join them come behind the first two. -/
def buildAlternatives (direction : Direction) : List NormalPattern → Building Ending
  | first :: second :: rest => do
    (← build direction first).leadOn
    (← build direction second).leadOn
    Building.grow (.branching 2)
    Building.grow .plain
    buildFurther direction rest
    return .single
  | items => do
    buildFurther direction items
    return .single
/-- Adds the parts for the alternatives behind the second one. -/
def buildFurther (direction : Direction) : List NormalPattern → Building Unit
  | [] => return ()
  | item :: rest => do
    (← build direction item).leadOn
    Building.addBranches 1
    buildFurther direction rest
end

/-- Builds the automaton that searches for a pattern. Unless every match begins where reading does,
it first passes over any bytes. -/
def buildSearch (direction : Direction) (pattern : NormalPattern) : Building Unit := do
  if pattern.isAnchored direction then
    Building.grow .plain
  else
    Building.grow (.branching 2)
    Building.grow .plain
    Building.grow (.listed 1)
  (← build direction (captured pattern)).leadOn
  Building.grow .plain

/-- Whether both automata that search for a pattern stay within their limit. The one that reads
forward records where what is captured begins and ends; the one that reads backward does not. -/
def isWithinLimit (pattern : NormalPattern) : Bool :=
  [Direction.forward, .backward].all fun direction =>
    ((pattern.buildSearch direction).run .zero).isSome

end NormalPattern

end Concord
