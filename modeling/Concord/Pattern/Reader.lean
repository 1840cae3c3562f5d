import Concord.Pattern.Automaton.Basic
import Concord.Pattern.Basic
import Concord.Text.Digits

namespace Concord

namespace Pattern

/-- The marks that have a meaning of their own and stand for themselves behind a backslash. -/
def marks : List Char :=
  ['\\', '.', '+', '*', '?', '(', ')', '|', '[', ']', '{', '}', '^', '$', '#', '&', '-', '~']

/-- Whether a character stands for itself behind a backslash: every ASCII character does that is no
letter, no digit and no angle bracket. -/
def isEscapable (c : Char) : Bool :=
  marks.contains c || (c.toNat < 0x80 && !c.isAlphanum && c != '<' && c != '>')

/-- What stands behind a backslash. -/
inductive Escape where
  | literal (c : Char)
  | set (set : CharacterSet)
  | boundary (condition : Boundary)

/-- The character with the code point that hexadecimal digits spell. There must be a digit. -/
def ofHex? (digits : List Char) : Option Char := do
  guard !digits.isEmpty
  let point ← digits.foldlM (fun point digit => do
    return min (point * 16 + (← Digits.hexValue? digit)) 0x110000) 0
  guard (point.isValidChar)
  return Char.ofNat point

/-- A character given by its code point: so many digits, or any number of them in braces. -/
def codePoint? (count : Nat) : List Char → Option (Escape × List Char)
  | '{' :: rest =>
    match rest.span (· != '}') with
    | (digits, '}' :: rest) => (ofHex? digits).map fun c => (.literal c, rest)
    | _ => none
  | rest =>
    if (rest.take count).length = count then
      (ofHex? (rest.take count)).map fun c => (.literal c, rest.drop count)
    else none

/-- What the characters behind a backslash stand for. -/
def escape? : List Char → Option (Escape × List Char)
  | [] => none
  | 'd' :: rest => some (.set .decimalDigit, rest)
  | 'D' :: rest => some (.set (.complement .decimalDigit), rest)
  | 's' :: rest => some (.set .whiteSpace, rest)
  | 'S' :: rest => some (.set (.complement .whiteSpace), rest)
  | 'w' :: rest => some (.set .wordCharacter, rest)
  | 'W' :: rest => some (.set (.complement .wordCharacter), rest)
  | 'x' :: rest => codePoint? 2 rest
  | 'u' :: rest => codePoint? 4 rest
  | 'U' :: rest => codePoint? 8 rest
  | 'a' :: rest => some (.literal '\x07', rest)
  | 'f' :: rest => some (.literal '\x0c', rest)
  | 't' :: rest => some (.literal '\t', rest)
  | 'n' :: rest => some (.literal '\n', rest)
  | 'r' :: rest => some (.literal '\r', rest)
  | 'v' :: rest => some (.literal '\x0b', rest)
  | 'A' :: rest => some (.boundary .textStart, rest)
  | 'z' :: rest => some (.boundary .textEnd, rest)
  | 'b' :: rest => some (.boundary .word, rest)
  | 'B' :: rest => some (.boundary .notWord, rest)
  | c :: rest => if isEscapable c then some (.literal c, rest) else none

/-- The code points of the ASCII classes that can be named inside brackets. -/
def asciiClass? : String → Option CharacterRanges
  | "alnum" => some [(0x30, 0x39), (0x41, 0x5a), (0x61, 0x7a)]
  | "alpha" => some [(0x41, 0x5a), (0x61, 0x7a)]
  | "ascii" => some [(0x00, 0x7f)]
  | "blank" => some [(0x09, 0x09), (0x20, 0x20)]
  | "cntrl" => some [(0x00, 0x1f), (0x7f, 0x7f)]
  | "digit" => some [(0x30, 0x39)]
  | "graph" => some [(0x21, 0x7e)]
  | "lower" => some [(0x61, 0x7a)]
  | "print" => some [(0x20, 0x7e)]
  | "punct" => some [(0x21, 0x2f), (0x3a, 0x40), (0x5b, 0x60), (0x7b, 0x7e)]
  | "space" => some [(0x09, 0x0d), (0x20, 0x20)]
  | "upper" => some [(0x41, 0x5a)]
  | "word" => some [(0x30, 0x39), (0x41, 0x5a), (0x5f, 0x5f), (0x61, 0x7a)]
  | "xdigit" => some [(0x30, 0x39), (0x41, 0x46), (0x61, 0x66)]
  | _ => none

/-- A named class, written between colons right behind an opening bracket. -/
def namedClass? (text : List Char) : Option (CharacterSet × List Char) :=
  match text with
  | ':' :: rest =>
    let (negated, rest) := match rest with
      | '^' :: rest => (true, rest)
      | rest => (false, rest)
    match rest.span (· != ':') with
    | (name, ':' :: ']' :: rest) =>
      (asciiClass? (String.ofList name)).map fun ranges =>
        (if negated then .complement (.within ranges) else .within ranges, rest)
    | _ => none
  | _ => none

/-- One item of a set: an escape or a character that stands for itself. -/
def setItem? : List Char → Option (Escape × List Char)
  | [] => none
  | '\\' :: rest => escape? rest
  | c :: rest => some (.literal c, rest)

/-- An item of a set, or a range of two characters. A hyphen makes no range in front of the closing
bracket or of another hyphen. -/
def setRange? (text : List Char) : Option (CharacterSet × List Char) := do
  let (item, rest) ← setItem? text
  match item, rest with
  | .literal low, '-' :: next :: rest =>
    if next = ']' ∨ next = '-' then return (.single low, '-' :: next :: rest)
    match ← setItem? (next :: rest) with
    | (.literal high, rest) => if low ≤ high then return (.range low high, rest) else none
    | _ => none
  | .literal c, rest => return (.single c, rest)
  | .set set, '-' :: next :: rest =>
    if next = ']' ∨ next = '-' then return (set, '-' :: next :: rest) else none
  | .set set, rest => return (set, rest)
  | .boundary _, _ => none

/-- The operators on sets inside brackets. -/
inductive SetOperator where
  | intersect
  | subtract
  | exclusive

def SetOperator.apply : SetOperator → CharacterSet → CharacterSet → CharacterSet
  | intersect => .intersection
  | subtract => .difference
  | exclusive => .symmetricDifference

/-- The set on the left of the last operator, if there is one, applied to the items on its right,
which come last first. -/
def operate (left : Option (CharacterSet × SetOperator)) (items : List CharacterSet) :
    CharacterSet :=
  let right := CharacterSet.ofItems items.reverse
  match left with
  | some (left, operator) => operator.apply left right
  | none => right

mutual
/-- A set behind its opening bracket. The hyphens at its start stand for themselves, and so does a
closing bracket that would leave it empty. -/
def set? : (steps : Nat) → List Char → Option (CharacterSet × List Char)
  | 0, _ => none
  | steps + 1, text => do
    let (negated, rest) := match text with
      | '^' :: rest => (true, rest)
      | rest => (false, rest)
    let (set, rest) ← match rest.span (· == '-') with
      | ([], ']' :: rest) => setRest? steps none [.single ']'] rest
      | (hyphens, rest) => setRest? steps none (hyphens.map .single) rest
    return (.bracketed (if negated then .complement set else set), rest)
/-- The rest of a set, of which `items` were read since the last operator, the last one first. -/
def setRest? : (steps : Nat) → Option (CharacterSet × SetOperator) → List CharacterSet →
    List Char → Option (CharacterSet × List Char)
  | 0, _, _, _ => none
  | steps + 1, left, items, text =>
    match text with
    | [] => none
    | ']' :: rest => some (operate left items, rest)
    | '&' :: '&' :: rest => setRest? steps (some (operate left items, .intersect)) [] rest
    | '-' :: '-' :: rest => setRest? steps (some (operate left items, .subtract)) [] rest
    | '~' :: '~' :: rest => setRest? steps (some (operate left items, .exclusive)) [] rest
    | '[' :: rest =>
      match namedClass? rest with
      | some (set, rest) => setRest? steps left (set :: items) rest
      | none => do
        let (set, rest) ← set? steps rest
        setRest? steps left (set :: items) rest
    | text => do
      let (set, rest) ← setRange? text
      setRest? steps left (set :: items) rest
end

/-- Skips white space. -/
def skipSpace (text : List Char) : List Char :=
  text.dropWhile CharacterSet.whiteSpace.contains

/-- A count of a repetition, white space around it included. It fits 32 bits. -/
def count? (text : List Char) : Option (Nat × List Char) :=
  match (skipSpace text).span Char.isDigit with
  | ([], _) => none
  | (digits, rest) =>
    let value := Digits.decimal digits
    if value < 0x100000000 then some (value, skipSpace rest) else none

/-- The least and the greatest count of a repetition, behind its opening brace. -/
def counts? (text : List Char) : Option ((Nat × Option Nat) × List Char) := do
  let (least, rest) ← count? text
  match rest with
  | '}' :: rest => return ((least, some least), rest)
  | ',' :: '}' :: rest => return ((least, none), rest)
  | ',' :: rest =>
    match ← count? rest with
    | (most, '}' :: rest) => if least ≤ most then return ((least, some most), rest) else none
    | _ => none
  | _ => none

/-- Whether a mark follows that makes a repetition prefer fewer rounds, and the text behind it. -/
def lazyMark : List Char → Bool × List Char
  | '?' :: rest => (true, rest)
  | rest => (false, rest)

/-- The least and the greatest count that the repetition mark at the start of a text stands for. -/
def repetition? : List Char → Option (Option ((Nat × Option Nat) × List Char))
  | '?' :: rest => some (some ((0, some 1), rest))
  | '*' :: rest => some (some ((0, none), rest))
  | '+' :: rest => some (some ((1, none), rest))
  | '{' :: rest => (counts? rest).map some
  | _ => some none

/-- The repetition marks behind an item, applied one after the other. -/
def repetitions? : (steps : Nat) → Pattern → List Char → Option (Pattern × List Char)
  | 0, _, _ => none
  | steps + 1, item, text => do
    match ← repetition? text with
    | none => return (item, text)
    | some ((least, most), rest) =>
      let (lazy, rest) := lazyMark rest
      repetitions? steps (.repeated item least most lazy) rest

/-- The pattern of an escape. -/
def ofEscape : Escape → Pattern
  | .literal c => .oneOf (.single c)
  | .set set => .oneOf set
  | .boundary condition => .boundary condition

mutual
/-- Alternatives up to a closing parenthesis or the end. Like the readers below that it calls, it
gives what it found together with the text behind it, and takes a bound on its steps. -/
def alternatives? : (steps : Nat) → List Char → Option (Pattern × List Char)
  | 0, _ => none
  | steps + 1, text => do
    match ← items? steps text with
    | (first, '|' :: rest) =>
      let (second, rest) ← alternatives? steps rest
      return (.either first second, rest)
    | found => return found
/-- A sequence of items up to a bar, a closing parenthesis or the end. -/
def items? : (steps : Nat) → List Char → Option (Pattern × List Char)
  | 0, _ => none
  | steps + 1, text =>
    match text with
    | [] | '|' :: _ | ')' :: _ => some (.empty, text)
    | text => do
      let (item, rest) ← item? steps text
      let (item, rest) ← repetitions? steps item rest
      match ← items? steps rest with
      | (.empty, rest) => return (item, rest)
      | (others, rest) => return (.sequence item others, rest)
/-- One item, without the repetition marks behind it. -/
def item? : (steps : Nat) → List Char → Option (Pattern × List Char)
  | 0, _ => none
  | steps + 1, text =>
    match text with
    | '(' :: '?' :: ':' :: rest => group? steps false rest
    | '(' :: '?' :: _ => none
    | '(' :: rest => group? steps true rest
    | '[' :: rest => (set? steps rest).map fun (set, rest) => (.oneOf set, rest)
    | '\\' :: rest => (escape? rest).map fun (escape, rest) => (ofEscape escape, rest)
    | '.' :: rest => some (.oneOf .anyButNewline, rest)
    | '^' :: rest => some (.boundary .textStart, rest)
    | '$' :: rest => some (.boundary .textEnd, rest)
    | c :: rest =>
      if ['?', '*', '+', '{', ')', '|'].contains c then none
      else some (.oneOf (.single c), rest)
    | [] => none
/-- The alternatives of a group behind its opening parenthesis, up to the closing one. -/
def group? : (steps : Nat) → (captures : Bool) → List Char → Option (Pattern × List Char)
  | 0, _, _ => none
  | steps + 1, captures, text => do
    match ← alternatives? steps text with
    | (body, ')' :: rest) => return (.group captures body, rest)
    | _ => none
end

/-- The pattern that a text describes, if it describes one. No reader takes more than four steps for
a character. -/
def read? (text : String) : Option Pattern :=
  match alternatives? (4 * text.length + 4) text.toList with
  | some (pattern, []) => some pattern
  | _ => none

/-- The deepest nesting of a pattern. -/
def nestingLimit : Nat := 250

/-- Whether a pattern stays within the limits of nesting and size. -/
def isAccepted (pattern : Pattern) : Bool :=
  pattern.nesting ≤ nestingLimit && pattern.normalForm.isWithinLimit

/-- The pattern that matches what `text` matches from the start to the end of a whole text. The text
is wrapped as it stands, so that a pattern may close the wrapping group itself. -/
def readWhole? (text : String) : Option Pattern :=
  (read? ("^(?:" ++ text ++ ")$")).filter isAccepted

end Pattern

end Concord
