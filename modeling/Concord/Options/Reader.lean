import Concord.Json.Value
import Concord.Json.Reader
import Concord.Options.Basic

namespace Concord

namespace Options

/-- The problem with a value of the wrong type. It is reported once the literal of the value is
known to be well-formed. -/
def unexpected : List JsonToken → TextFault
  | .null :: _ | .bool _ :: _ | .number (some _) :: _ | .text (some _) :: _ => .misshapen
  | .openArray :: _ | .openObject :: _ => .misshapen
  | _ => .malformed

def readBool : List JsonToken → Except TextFault (Bool × List JsonToken)
  | .bool value :: rest => .ok (value, rest)
  | tokens => .error (unexpected tokens)

/-- A natural number of 32 bits. -/
def readCount : List JsonToken → Except TextFault (Nat × List JsonToken)
  | .number (some (.natural value)) :: rest =>
    if value < 0x100000000 then .ok (value, rest) else .error .misshapen
  | tokens => .error (unexpected tokens)

/-- The rest of a list of texts, at the place of an item. -/
def readItems : List JsonToken → Except TextFault (List String × List JsonToken)
  | .text (some item) :: .comma :: rest => do
    let (items, rest) ← readItems rest
    return (item :: items, rest)
  | .text (some item) :: .closeArray :: rest => .ok ([item], rest)
  | .text (some _) :: _ => .error .malformed
  | tokens => .error (unexpected tokens)

def readTexts : List JsonToken → Except TextFault (List String × List JsonToken)
  | .openArray :: .closeArray :: rest => .ok ([], rest)
  | .openArray :: rest => readItems rest
  | tokens => .error (unexpected tokens)

/-- The fields of the options in their declared order. -/
def fieldNames : List String :=
  ["builtin_namespaces", "excluded_function_patterns", "parallel", "max_comparison_depth",
    "max_comparison_iterations"]

/-- Reads the value of a field into the options. Values of unknown fields change nothing. -/
def readField (options : Options) (name : String) (tokens : List JsonToken) :
    Except TextFault (Options × List JsonToken) :=
  match name with
  | "builtin_namespaces" => do
    let (builtinNamespaces, rest) ← readTexts tokens
    return ({ options with builtinNamespaces }, rest)
  | "excluded_function_patterns" => do
    let (excludedFunctions, rest) ← readTexts tokens
    return ({ options with excludedFunctions }, rest)
  | "parallel" => do
    let (parallel, rest) ← readBool tokens
    return ({ options with parallel }, rest)
  | "max_comparison_depth" => do
    let (maxComparisonDepth, rest) ← readCount tokens
    return ({ options with maxComparisonDepth }, rest)
  | "max_comparison_iterations" => do
    let (maxComparisonIterations, rest) ← readCount tokens
    return ({ options with maxComparisonIterations }, rest)
  | _ =>
    match Json.read? .skipping tokens with
    | some (_, rest) => .ok (options, rest)
    | none => .error .malformed

/-- Reads members of an object, at the place of a name. `seen` holds the known names read before,
none of which may come again. Every member takes a step. -/
def readMembers : (steps : Nat) → Options → (seen : List String) → List JsonToken →
    Except TextFault (Options × List JsonToken)
  | 0, _, _, _ => .error .malformed
  | steps + 1, options, seen, .text (some name) :: tokens =>
    if seen.contains name then .error .misshapen
    else match tokens with
      | .colon :: tokens => do
        let seen := if fieldNames.contains name then name :: seen else seen
        match ← readField options name tokens with
        | (options, .comma :: rest) => readMembers steps options seen rest
        | (options, .closeObject :: rest) => return (options, rest)
        | _ => throw .malformed
      | _ => .error .malformed
  | _, _, _, _ => .error .malformed

/-- Reads the fields of an array in their declared order, at the place of an item. The array may end
early. -/
def readPositions (options : Options) :
    List String → List JsonToken → Except TextFault (Options × List JsonToken)
  | [], _ => .error .malformed
  | name :: names, tokens => do
    match ← readField options name tokens with
    | (options, .comma :: rest) => readPositions options names rest
    | (options, .closeArray :: rest) => return (options, rest)
    | _ => throw .malformed

/-- Reads options written as an object or as an array of fields. What is not written has its
default. The text is checked while it is read, so the first problem in it is the one reported. Like
the readers of its parts, it gives what it found together with the tokens behind it. -/
def read : List JsonToken → Except TextFault (Options × List JsonToken)
  | .openObject :: .closeObject :: rest => .ok (default, rest)
  | .openObject :: rest => readMembers rest.length default [] rest
  | .openArray :: .closeArray :: rest => .ok (default, rest)
  | .openArray :: rest => readPositions default fieldNames rest
  | tokens => .error (unexpected tokens)

/-- The options that a text describes, and nothing else. -/
def ofText (text : String) : Except TextFault Options := do
  match ← read (JsonToken.scan text) with
  | (options, []) => return options
  | _ => throw .malformed

end Options

end Concord
