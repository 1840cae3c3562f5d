import Concord.Json.Record
import Concord.Source.Basic

namespace Concord

namespace Source

/-- A keyword, written as a text or as an object with that one member, whose value is null. Where
`hollow` is set, an empty object may stand for the null. -/
def keyword? {α : Type} [Keyword α] (hollow : Bool) : Json → Option α
  | .text word => Keyword.ofWord? word
  | .object [(word, .null)] => Keyword.ofWord? word
  | .object [(word, .object [])] => if hollow then Keyword.ofWord? word else none
  | _ => none

def name? (json : Json) : Option SimpleName :=
  json.text?.map SimpleName.mk

def qualifiedName? (json : Json) : Option QualifiedName :=
  json.text?.map QualifiedName.mk

/-- A flag is false unless it is written. -/
def flag? (fields : Fields) (name : String) : Option Bool :=
  fields.default? name false Json.bool?

/-- A list is empty unless it is written. -/
def listField? {α : Type} (fields : Fields) (name : String) (read : Json → Option α) :
    Option (List α) :=
  fields.default? name [] (Json.list? read)

/-- The range of types that an object with two bounds describes. -/
def flexible? (simple? : Json → Option (SimpleType Spelling)) (json : Json) :
    Option (Ty Spelling) := do
  let fields ← Fields.ofObject? ["lower", "upper"] json
  let lower ← fields.required? "lower" simple?
  let upper ← fields.required? "upper" simple?
  return .flexible lower upper

/-- A type used at a variance. -/
def projection? (type? : Json → Option (Ty Spelling)) (json : Json) :
    Option (TypeArgument Spelling) := do
  let fields ← Fields.ofRecord? ["variance", "type"] json
  let variance ← fields.default? "variance" .invariant (keyword? false)
  let type ← fields.required? "type" type?
  return .projection variance type

/-- A type argument. -/
def argument? (type? : Json → Option (Ty Spelling)) : Json → Option (TypeArgument Spelling)
  | .text "star" => some .star
  | .object [("star", .null)] => some .star
  | .object [("projection", json)] => projection? type? json
  | _ => none

mutual
/-- A type: a range if the value describes one, otherwise a simple type. -/
def type? : (levels : Nat) → Json → Option (Ty Spelling)
  | 0, _ => none
  | levels + 1, json =>
    match flexible? (simple? levels) json with
    | some type => some type
    | none => (simple? levels json).map .simple
/-- A simple type. All of its fields may be absent. -/
def simple? : (levels : Nat) → Json → Option (SimpleType Spelling)
  | 0, _ => none
  | levels + 1, json => do
    let fields ← Fields.ofRecord? ["classifier", "type_parameter", "arguments", "nullable",
      "definitely_not_null", "abbreviation"] json
    let classifier ← fields.optional? "classifier" qualifiedName?
    let typeParameter ← fields.optional? "type_parameter" name?
    let arguments ← listField? fields "arguments" (argument? (type? levels))
    let nullable ← flag? fields "nullable"
    let definitelyNotNull ← flag? fields "definitely_not_null"
    let abbreviation ← fields.optional? "abbreviation" (simple? levels)
    return ⟨⟨classifier, typeParameter⟩, arguments, nullable, definitelyNotNull, abbreviation⟩
end

/-- A type of any depth. A type and its simple form are two levels of reading for one of the
value. -/
def typeOfJson? (json : Json) : Option (Ty Spelling) :=
  type? (2 * json.height + 2) json

def typeParameter? (json : Json) : Option (TypeParameter Spelling) := do
  let fields ← Fields.ofRecord? ["name", "variance", "upper_bounds", "is_reified"] json
  return {
    name := ← fields.required? "name" name?
    variance := ← fields.default? "variance" .invariant (keyword? true)
    upperBounds := ← listField? fields "upper_bounds" typeOfJson?
    isReified := ← flag? fields "is_reified" }

def parameter? (json : Json) : Option (ConstructorParameter Spelling) := do
  let fields ← Fields.ofRecord? ["name", "type", "is_vararg", "has_default"] json
  return {
    name := ← fields.required? "name" name?
    type := ← fields.required? "type" typeOfJson?
    isVararg := ← flag? fields "is_vararg"
    hasDefault := ← flag? fields "has_default" }

def constructor? (json : Json) : Option (Constructor Spelling) := do
  let fields ← Fields.ofRecord? ["is_primary", "visibility", "parameters"] json
  return {
    isPrimary := ← flag? fields "is_primary"
    visibility := ← fields.default? "visibility" .everyone (keyword? true)
    parameters := ← listField? fields "parameters" parameter? }

def accessor? (json : Json) : Option Accessor := do
  let fields ← Fields.ofRecord? ["modality", "visibility", "is_inline", "is_external"] json
  return {
    modality := ← fields.default? "modality" .final (keyword? true)
    visibility := ← fields.default? "visibility" .everyone (keyword? true)
    isInline := ← flag? fields "is_inline"
    isExternal := ← flag? fields "is_external" }

def class? (json : Json) : Option (ClassInfo Spelling) := do
  let fields ← Fields.ofObject? ["class_kind", "is_inline", "is_data", "is_inner", "is_companion",
    "is_external", "type_parameters", "supertypes", "constructors"] json
  return {
    classKind := ← fields.default? "class_kind" .ordinary (keyword? true)
    isInline := ← flag? fields "is_inline"
    isData := ← flag? fields "is_data"
    isInner := ← flag? fields "is_inner"
    isCompanion := ← flag? fields "is_companion"
    isExternal := ← flag? fields "is_external"
    typeParameters := ← listField? fields "type_parameters" typeParameter?
    supertypes := ← listField? fields "supertypes" typeOfJson?
    constructors := ← listField? fields "constructors" constructor? }

def function? (json : Json) : Option (FunctionInfo Spelling) := do
  let fields ← Fields.ofObject? ["return_type", "extension_receiver", "type_parameters",
    "is_suspend", "is_external", "is_inline", "is_operator"] json
  return {
    returnType := ← fields.required? "return_type" typeOfJson?
    receiver := ← fields.optional? "extension_receiver" typeOfJson?
    typeParameters := ← listField? fields "type_parameters" typeParameter?
    isSuspend := ← flag? fields "is_suspend"
    isExternal := ← flag? fields "is_external"
    isInline := ← flag? fields "is_inline"
    isOperator := ← flag? fields "is_operator" }

def property? (json : Json) : Option (PropertyInfo Spelling) := do
  let fields ← Fields.ofObject? ["type", "extension_receiver", "type_parameters", "is_var",
    "is_const", "is_lateinit", "is_external", "getter", "setter"] json
  return {
    type := ← fields.required? "type" typeOfJson?
    receiver := ← fields.optional? "extension_receiver" typeOfJson?
    typeParameters := ← listField? fields "type_parameters" typeParameter?
    isVar := ← flag? fields "is_var"
    isConst := ← flag? fields "is_const"
    isLateinit := ← flag? fields "is_lateinit"
    isExternal := ← flag? fields "is_external"
    getter := ← fields.optional? "getter" accessor?
    setter := ← fields.optional? "setter" accessor? }

def alias? (json : Json) : Option AliasInfo := do
  let fields ← Fields.ofObject? ["underlying", "expanded", "type_parameters"] json
  return {
    underlying := ← fields.required? "underlying" typeOfJson?
    expanded := ← fields.optional? "expanded" typeOfJson?
    typeParameters := ← listField? fields "type_parameters" typeParameter? }

def value? (json : Json) : Option (ValueInfo Spelling) := do
  let fields ← Fields.ofObject? ["type", "is_vararg", "has_default"] json
  return {
    type := ← fields.required? "type" typeOfJson?
    isVararg := ← flag? fields "is_vararg"
    hasDefault := ← flag? fields "has_default" }

def module? (json : Json) : Option ModuleInfo := do
  let fields ← Fields.ofObject? ["stable_name"] json
  return ⟨← fields.optional? "stable_name" name?⟩

/-- The kind of a declaration, written as a keyword or as its place among the kinds. -/
def kind? : Json → Option Kind
  | .text word => Keyword.ofWord? word
  | .number (.natural place) => (Keyword.all (α := Kind))[place]?
  | _ => none

/-- The payload of a declaration of a kind. Its fields stand beside those of every declaration. -/
def payload? (kind : Kind) (json : Json) : Option Payload :=
  match kind with
  | .module => (module? json).map .module
  | .package => some .package
  | .classType => (class? json).map .classType
  | .function => (function? json).map .function
  | .property => (property? json).map .property
  | .typeAlias => (alias? json).map .typeAlias
  | .value => (value? json).map .value

/-- A declaration with its members. -/
def declaration? : (levels : Nat) → Json → Option Source
  | 0, _ => none
  | levels + 1, json => do
    let fields ← Fields.ofObject? ["name", "visibility", "modality", "expectation", "kind",
      "members"] json
    let name ← fields.required? "name" name?
    let visibility ← fields.default? "visibility" .everyone (keyword? false)
    let modality ← fields.default? "modality" .final (keyword? false)
    let expectation ← fields.default? "expectation" .plain (keyword? false)
    let kind ← fields.required? "kind" kind?
    let payload ← payload? kind json
    let members ← listField? fields "members" (declaration? levels)
    return .mk name visibility modality expectation payload members

/-- The source that a JSON value describes. A value of the wrong shape describes none. -/
def ofJson? (json : Json) : Option Source :=
  declaration? (json.height + 1) json

/-- The sources of a document: a list of declarations, or one alone. -/
def listOfJson? : Json → Option (List Source)
  | .array items => items.mapM ofJson?
  | json => (ofJson? json).map ([·])

end Source

end Concord
