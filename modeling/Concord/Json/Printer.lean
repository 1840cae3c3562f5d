import Concord.Json.Value
import Concord.Text.Digits

namespace Concord

namespace Json

/-- A character inside a string literal. Only quotes, backslashes and the characters below U+0020
are escaped. -/
def escape (c : Char) : List Char :=
  match c with
  | '"' => ['\\', '"']
  | '\\' => ['\\', '\\']
  | '\x08' => ['\\', 'b']
  | '\x0c' => ['\\', 'f']
  | '\n' => ['\\', 'n']
  | '\r' => ['\\', 'r']
  | '\t' => ['\\', 't']
  | c =>
    if c.toNat < 0x20 then
      ['\\', 'u', '0', '0', Digits.hexDigit (c.toNat / 16), Digits.hexDigit (c.toNat % 16)]
    else [c]

/-- The string literal of a text. -/
def quote (literal : String) : List Char :=
  '"' :: (literal.toList.flatMap escape ++ ['"'])

/-- The literal of a number. -/
def numeral : JsonNumber → List Char
  | .natural value => (toString value).toList
  | .spelled literal => literal.toList

mutual
/-- The compact form, which has no blanks. -/
def compact : Json → List Char
  | null => "null".toList
  | bool true => "true".toList
  | bool false => "false".toList
  | number value => numeral value
  | text value => quote value
  | array [] => ['[', ']']
  | array (item :: items) => '[' :: (compact item ++ compactItems items)
  | object [] => ['{', '}']
  | object ((name, value) :: members) =>
    '{' :: (quote name ++ ':' :: (compact value ++ compactMembers members))
/-- The items of an array behind the first, and the closing bracket. -/
def compactItems : List Json → List Char
  | [] => [']']
  | item :: items => ',' :: (compact item ++ compactItems items)
/-- The members of an object behind the first, and the closing bracket. -/
def compactMembers : List (String × Json) → List Char
  | [] => ['}']
  | (name, value) :: members =>
    ',' :: (quote name ++ ':' :: (compact value ++ compactMembers members))
end

/-- A new line at a level of indentation. -/
def lineBreak (level : Nat) : List Char :=
  '\n' :: List.replicate (2 * level) ' '

mutual
/-- The pretty form of a value that stands at a level of indentation. Every item and member has a
line of its own, indented by two blanks a level, and an array or object without content is a pair of
brackets. -/
def pretty (level : Nat) : Json → List Char
  | null => "null".toList
  | bool true => "true".toList
  | bool false => "false".toList
  | number value => numeral value
  | text value => quote value
  | array [] => ['[', ']']
  | array (item :: items) =>
    '[' :: (lineBreak (level + 1) ++ pretty (level + 1) item ++ prettyItems level items)
  | object [] => ['{', '}']
  | object ((name, value) :: members) =>
    '{' :: (lineBreak (level + 1) ++ quote name ++ [':', ' '] ++ pretty (level + 1) value ++
      prettyMembers level members)
/-- The items of an array behind the first, and the closing bracket. -/
def prettyItems (level : Nat) : List Json → List Char
  | [] => lineBreak level ++ [']']
  | item :: items =>
    ',' :: (lineBreak (level + 1) ++ pretty (level + 1) item ++ prettyItems level items)
/-- The members of an object behind the first, and the closing bracket. -/
def prettyMembers (level : Nat) : List (String × Json) → List Char
  | [] => lineBreak level ++ ['}']
  | (name, value) :: members =>
    ',' :: (lineBreak (level + 1) ++ quote name ++ [':', ' '] ++ pretty (level + 1) value ++
      prettyMembers level members)
end

/-- The compact text of a value. -/
def compactText (value : Json) : String :=
  String.ofList value.compact

/-- The pretty text of a value. -/
def prettyText (value : Json) : String :=
  String.ofList (value.pretty 0)

end Json

end Concord
