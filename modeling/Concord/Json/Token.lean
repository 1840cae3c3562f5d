import Concord.Json.Magnitude
import Concord.Json.Value

namespace Concord

/-- A token of a JSON text. A string literal whose surrogate escapes do not pair up, and a number
beyond the range of a double, are tokens without a value, so that a reader may pass over them. -/
inductive JsonToken where
  | openArray
  | closeArray
  | openObject
  | closeObject
  | comma
  | colon
  | null
  | bool (value : Bool)
  | number (value : Option JsonNumber)
  | text (value : Option String)
  /-- The text goes on with something that is no token. -/
  | fault
deriving DecidableEq

namespace JsonToken

/-- The four characters that may stand between tokens. -/
def isBlank (c : Char) : Bool :=
  c == ' ' || c == '\n' || c == '\t' || c == '\r'

/-- The value of four hexadecimal digits. -/
def hexUnit? (a b c d : Char) : Option Nat :=
  [a, b, c, d].foldlM (fun value digit => do return value * 16 + (← Digits.hexValue? digit)) 0

/-- The character that a one-letter escape stands for. -/
def escaped? : Char → Option Char
  | '"' => some '"'
  | '\\' => some '\\'
  | '/' => some '/'
  | 'b' => some '\x08'
  | 'f' => some '\x0c'
  | 'n' => some '\n'
  | 'r' => some '\r'
  | 't' => some '\t'
  | _ => none

/-- A piece of a string literal: a character, or a 16-bit unit given by its number. -/
inductive Piece where
  | char (value : Char)
  | unit (value : Nat)

/-- The pieces up to the closing quote, and the text behind it. -/
def pieces? : List Char → Option (List Piece × List Char)
  | [] => none
  | '"' :: rest => some ([], rest)
  | '\\' :: 'u' :: a :: b :: c :: d :: rest =>
    match hexUnit? a b c d, pieces? rest with
    | some unit, some (pieces, rest) => some (.unit unit :: pieces, rest)
    | _, _ => none
  | '\\' :: e :: rest =>
    match escaped? e, pieces? rest with
    | some c, some (pieces, rest) => some (.char c :: pieces, rest)
    | _, _ => none
  | c :: rest =>
    if c.toNat < 0x20 ∨ c = '\\' then none
    else match pieces? rest with
      | some (pieces, rest) => some (.char c :: pieces, rest)
      | none => none

def isHighSurrogate (unit : Nat) : Bool := 0xD800 ≤ unit && unit < 0xDC00

def isLowSurrogate (unit : Nat) : Bool := 0xDC00 ≤ unit && unit < 0xE000

/-- The characters of a literal. A high surrogate must be followed by a low one. -/
def characters? : List Piece → Option (List Char)
  | [] => some []
  | .char c :: rest => (characters? rest).map (c :: ·)
  | .unit high :: .unit low :: rest =>
    if isHighSurrogate high then
      if isLowSurrogate low then
        let point := 0x10000 + (high - 0xD800) * 0x400 + (low - 0xDC00)
        (characters? rest).map (Char.ofNat point :: ·)
      else none
    else if isLowSurrogate high then none
    else (characters? (.unit low :: rest)).map (Char.ofNat high :: ·)
  | .unit unit :: rest =>
    if isHighSurrogate unit || isLowSurrogate unit then none
    else (characters? rest).map (Char.ofNat unit :: ·)

/-- The parts of a number literal. -/
structure NumberParts where
  isNegative : Bool
  whole : List Char
  fraction : Option (List Char)
  /-- The letter and the sign of the exponent as spelled, and its digits. -/
  exponent : Option (List Char × List Char)

namespace NumberParts

/-- The literal as it is spelled. -/
def spelling (parts : NumberParts) : List Char :=
  (if parts.isNegative then ['-'] else []) ++ parts.whole ++
    (match parts.fraction with
      | some digits => '.' :: digits
      | none => []) ++
    match parts.exponent with
      | some (mark, digits) => mark ++ digits
      | none => []

/-- The power of ten that the exponent part gives. -/
def power (parts : NumberParts) : Int :=
  match parts.exponent with
  | some (mark, digits) =>
    if mark.contains '-' then -(Digits.decimal digits : Int) else (Digits.decimal digits : Int)
  | none => 0

/-- Whether the literal is in the range of a double. -/
def isFinite (parts : NumberParts) : Bool :=
  (Magnitude.ofDigits parts.whole (parts.fraction.getD []) parts.power).isFinite

/-- The number that a literal spells, unless it is out of range. -/
def value? (parts : NumberParts) : Option JsonNumber :=
  let natural := Digits.decimal parts.whole
  match parts.isNegative, parts.fraction, parts.exponent with
  | false, none, none =>
    if natural < 0x10000000000000000 then some (.natural natural) else spelled?
  | _, _, _ => spelled?
where
  /-- The number as it is spelled, if it is in range. -/
  spelled? : Option JsonNumber :=
    if parts.isFinite then some (.spelled (String.ofList parts.spelling)) else none

end NumberParts

/-- The longest run of decimal digits, and the text behind it. -/
def digits (text : List Char) : List Char × List Char :=
  text.span Char.isDigit

/-- The part behind the decimal point, if there is one. It needs a digit. -/
def fraction? : List Char → Option (Option (List Char) × List Char)
  | '.' :: rest =>
    match digits rest with
    | ([], _) => none
    | (run, rest) => some (some run, rest)
  | rest => some (none, rest)

/-- The exponent, if there is one. It needs a digit. -/
def exponent? : List Char → Option (Option (List Char × List Char) × List Char)
  | c :: rest =>
    if c = 'e' ∨ c = 'E' then
      let (mark, rest) := match rest with
        | '+' :: rest => ([c, '+'], rest)
        | '-' :: rest => ([c, '-'], rest)
        | rest => ([c], rest)
      match digits rest with
      | ([], _) => none
      | (run, rest) => some (some (mark, run), rest)
    else some (none, c :: rest)
  | [] => some (none, [])

/-- The digits before the point. Only zero itself begins with a zero. -/
def whole? (text : List Char) : Option (List Char × List Char) :=
  match digits text with
  | ([], _) => none
  | ('0' :: _ :: _, _) => none
  | found => some found

/-- A number literal without its sign, and the text behind it. -/
def unsigned? (isNegative : Bool) (text : List Char) : Option (NumberParts × List Char) := do
  let (whole, rest) ← whole? text
  let (fraction, rest) ← fraction? rest
  let (exponent, rest) ← exponent? rest
  return (⟨isNegative, whole, fraction, exponent⟩, rest)

/-- The token at the start of a text, and the text behind it. -/
def next? : List Char → Option (JsonToken × List Char)
  | [] => none
  | '[' :: rest => some (openArray, rest)
  | ']' :: rest => some (closeArray, rest)
  | '{' :: rest => some (openObject, rest)
  | '}' :: rest => some (closeObject, rest)
  | ',' :: rest => some (comma, rest)
  | ':' :: rest => some (colon, rest)
  | 'n' :: 'u' :: 'l' :: 'l' :: rest => some (null, rest)
  | 't' :: 'r' :: 'u' :: 'e' :: rest => some (bool true, rest)
  | 'f' :: 'a' :: 'l' :: 's' :: 'e' :: rest => some (bool false, rest)
  | '"' :: rest =>
    (pieces? rest).map fun found => (text ((characters? found.1).map String.ofList), found.2)
  | '-' :: rest => (unsigned? true rest).map fun found => (number found.1.value?, found.2)
  | rest => (unsigned? false rest).map fun found => (number found.1.value?, found.2)

/-- Scans at most `steps` tokens and blanks. -/
def scanWithin : Nat → List Char → List JsonToken
  | 0, _ => []
  | _, [] => []
  | steps + 1, c :: rest =>
    if isBlank c then scanWithin steps rest
    else match next? (c :: rest) with
      | some (token, rest) => token :: scanWithin steps rest
      | none => [fault]

/-- The tokens of a text. Every step takes at least one character, so as many steps as there are
characters are enough. Where no token begins, they end with a `fault`. -/
def scan (text : String) : List JsonToken :=
  let characters := text.toList
  scanWithin characters.length characters

end JsonToken

end Concord
