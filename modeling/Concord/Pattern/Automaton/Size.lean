import Concord.Pattern.CharacterRanges
import Concord.Text.Utf8
import Std.Data.HashMap

namespace Concord

/-- How many states an automaton has, and how many bytes they take. An automaton is built state by
state, and only as long as it stays within its limit. Nothing else of it is kept. -/
structure AutomatonSize where
  states : Nat
  bytes : Nat
deriving DecidableEq

namespace AutomatonSize

/-- The size of the automaton without states. -/
def zero : AutomatonSize := ⟨0, 0⟩

/-- The most bytes that an automaton may take. -/
def limit : Nat := 0xA00000

/-- The bytes of a state without what it keeps in a list of its own. -/
def ofState : Nat := 32

/-- The bytes of one of several transitions of a state. -/
def ofTransition : Nat := 8

/-- The bytes of one of the states among which a branching state chooses. -/
def ofBranch : Nat := 4

def add (a b : AutomatonSize) : AutomatonSize :=
  ⟨a.states + b.states, a.bytes + b.bytes⟩

/-- The size of a state that chooses among so many states. -/
def branching (branches : Nat) : AutomatonSize :=
  ⟨1, ofState + ofBranch * branches⟩

/-- The size of a state with so many transitions in a list. -/
def listed (transitions : Nat) : AutomatonSize :=
  ⟨1, ofState + ofTransition * transitions⟩

/-- The size of a state with one transition, or with none. -/
def plain : AutomatonSize := ⟨1, ofState⟩

end AutomatonSize

/-- A step in building an automaton. It gives nothing if the automaton grows beyond its limit. -/
abbrev Building := StateT AutomatonSize Option

namespace Building

/-- Makes the automaton grow. -/
def grow (size : AutomatonSize) : Building Unit := fun built =>
  let grown := built.add size
  if grown.bytes ≤ AutomatonSize.limit then some ((), grown) else none

/-- Adds one state and gives its number. -/
def addState (size : AutomatonSize) : Building Nat := do
  let built ← get
  grow size
  return built.states

/-- Adds branches to branching states. -/
def addBranches (branches : Nat) : Building Unit :=
  grow ⟨0, AutomatonSize.ofBranch * branches⟩

end Building

/-- How a part of an automaton ends: in a state that leads on to one other, or in one that chooses
among several. -/
inductive Ending where
  | single
  | branching
deriving DecidableEq

/-- Leads on from the end of a part. A branching state has a branch more then. -/
def Ending.leadOn : Ending → Building Unit
  | single => return ()
  | branching => Building.addBranches 1

/-- The way in which an automaton reads a text. -/
inductive Direction where
  | forward
  | backward
deriving DecidableEq

namespace CharacterClass

/-- Stirs a number into a hash value, as the 64-bit FNV-1a hash does with bytes. -/
def stir (hash : UInt64) (number : Nat) : UInt64 :=
  (hash ^^^ number.toUInt64) * 0x100000001b3

/-- The place of a row of numbers in a table of so many places. -/
def place (places : Nat) (numbers : List Nat) : Nat :=
  (numbers.foldl stir 0xcbf29ce484222325).toNat % places

/-- States that are found again by what they do, at the places of a table. A state takes its place
from the one that had it before, so that not all states that could be shared are. -/
abbrev StateTable := Std.HashMap Nat (List Nat × Nat)

/-- The state that the numbers describe: one of the table, or else a new one, which the table holds
from then on. -/
def shared (places : Nat) (size : AutomatonSize) (description : List Nat) (table : StateTable) :
    Building (Nat × StateTable) := do
  let place := place places description
  match table[place]? with
  | some (found, state) =>
    if found = description then return (state, table)
    else fresh place
  | none => fresh place
where
  /-- A new state, which takes a place in the table. -/
  fresh (place : Nat) : Building (Nat × StateTable) := do
    let state ← Building.addState size
    return (state, table.insert place (description, state))

/-- The first ranges of sequences with what follows them, where neighbours begin alike. -/
def groups : List (List (Nat × Nat)) → List ((Nat × Nat) × List (List (Nat × Nat)))
  | [] => []
  | [] :: rest => groups rest
  | (range :: tail) :: rest =>
    match groups rest with
    | (next, tails) :: others =>
      if range = next then (range, tail :: tails) :: others
      else (range, [tail]) :: (next, tails) :: others
    | [] => [(range, [tail])]

mutual
/-- The state from which one of the sequences leads to the target. Sequences that begin alike share
it. There are at most `depth` bytes to read. -/
def forwardState : (depth : Nat) → (target : Nat) → List (List (Nat × Nat)) → StateTable →
    Building (Nat × StateTable)
  | 0, target, _, table => return (target, table)
  | _, target, [] :: _, table => return (target, table)
  | depth + 1, target, sequences, table => do
    let mut table := table
    let mut description := []
    for ((first, last), tails) in groups sequences do
      let (next, grown) ← forwardState depth target tails table
      table := grown
      description := description ++ [first, last, next]
    shared 10000 (.listed (description.length / 3)) description table
end

/-- The states that read a sequence backward, from the state `next` on. -/
def backwardState (next : Nat) : List (Nat × Nat) → StateTable → Building StateTable
  | [], table => return table
  | (first, last) :: rest, table => do
    let (state, table) ← shared 1000 .plain [next, first, last] table
    backwardState state rest table

/-- Adds the part that reads a character of a set. -/
def build (direction : Direction) (ranges : CharacterRanges) : Building Ending := do
  if ranges.all (·.2 < 0x80) then
    Building.grow .plain
    Building.grow (.listed ranges.length)
    return .single
  let sequences := ranges.flatMap Utf8.sequences
  match direction with
  | .forward =>
    let target ← Building.addState .plain
    let _ ← forwardState 4 target sequences ∅
  | .backward =>
    Building.grow (.branching sequences.length)
    let target ← Building.addState .plain
    let _ ← sequences.foldlM (fun table sequence => backwardState target sequence table) ∅
  return .single

end CharacterClass

end Concord
