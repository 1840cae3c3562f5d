import Concord.Json.Value
import Concord.Source.Basic

namespace Concord

namespace Source

/-- A keyword field, left out when it has its default. -/
def keywordField {α : Type} [Keyword α] [DecidableEq α] [Inhabited α] (name : String) (value : α) :
    List (String × Json) :=
  if value = default then [] else [(name, .text (Keyword.word value))]

/-- A flag field, left out when it is false. -/
def flagField (name : String) (value : Bool) : List (String × Json) :=
  if value then [(name, .bool true)] else []

/-- A list field, left out when it is empty. -/
def itemsField (name : String) (items : List Json) : List (String × Json) :=
  if items.isEmpty then [] else [(name, .array items)]

/-- An optional field, left out when it is absent. -/
def optionField (name : String) : Option Json → List (String × Json)
  | some value => [(name, value)]
  | none => []

mutual
/-- A type. -/
def typeJson : Ty Spelling → Json
  | .simple type => simpleJson type
  | .flexible lower upper =>
    .object [("lower", simpleJson lower), ("upper", simpleJson upper)]
/-- A simple type. -/
def simpleJson : SimpleType Spelling → Json
  | { classifier, arguments, nullable, definitelyNotNull, abbreviation } =>
    .object (optionField "classifier" (classifier.classifier.map (.text ·.text)) ++
      optionField "type_parameter" (classifier.typeParameter.map (.text ·.text)) ++
      itemsField "arguments" (argumentsJson arguments) ++
      flagField "nullable" nullable ++
      flagField "definitely_not_null" definitelyNotNull ++
      optionField "abbreviation" (abbreviationJson abbreviation))
/-- The arguments of a simple type. -/
def argumentsJson : List (TypeArgument Spelling) → List Json
  | [] => []
  | .star :: rest => .text "star" :: argumentsJson rest
  | .projection variance type :: rest =>
    .object [("projection", .object (keywordField "variance" variance ++
      [("type", typeJson type)]))] :: argumentsJson rest
/-- The abbreviation of a simple type, if there is one. -/
def abbreviationJson : Option (SimpleType Spelling) → Option Json
  | none => none
  | some spelling => some (simpleJson spelling)
end

def typeParameterJson (parameter : TypeParameter Spelling) : Json :=
  .object ([("name", .text parameter.name.text)] ++
    keywordField "variance" parameter.variance ++
    itemsField "upper_bounds" (parameter.upperBounds.map typeJson) ++
    flagField "is_reified" parameter.isReified)

def parameterJson (parameter : ConstructorParameter Spelling) : Json :=
  .object ([("name", .text parameter.name.text), ("type", typeJson parameter.type)] ++
    flagField "is_vararg" parameter.isVararg ++
    flagField "has_default" parameter.hasDefault)

def constructorJson (constructor : Constructor Spelling) : Json :=
  .object (flagField "is_primary" constructor.isPrimary ++
    keywordField "visibility" constructor.visibility ++
    itemsField "parameters" (constructor.parameters.map parameterJson))

/-- All four fields of an accessor are written, also those with their default. -/
def accessorJson (accessor : Accessor) : Json :=
  .object [("modality", .text (Keyword.word accessor.modality)),
    ("visibility", .text (Keyword.word accessor.visibility)),
    ("is_inline", .bool accessor.isInline), ("is_external", .bool accessor.isExternal)]

/-- The fields of a payload. -/
def payloadFields : Payload → List (String × Json)
  | .module info => optionField "stable_name" (info.stableName.map (.text ·.text))
  | .package => []
  | .classType info =>
    keywordField "class_kind" info.classKind ++
      flagField "is_inline" info.isInline ++
      flagField "is_data" info.isData ++
      flagField "is_inner" info.isInner ++
      flagField "is_companion" info.isCompanion ++
      flagField "is_external" info.isExternal ++
      itemsField "type_parameters" (info.typeParameters.map typeParameterJson) ++
      itemsField "supertypes" (info.supertypes.map typeJson) ++
      itemsField "constructors" (info.constructors.map constructorJson)
  | .function info =>
    [("return_type", typeJson info.returnType)] ++
      optionField "extension_receiver" (info.receiver.map typeJson) ++
      itemsField "type_parameters" (info.typeParameters.map typeParameterJson) ++
      flagField "is_suspend" info.isSuspend ++
      flagField "is_external" info.isExternal ++
      flagField "is_inline" info.isInline ++
      flagField "is_operator" info.isOperator
  | .property info =>
    [("type", typeJson info.type)] ++
      optionField "extension_receiver" (info.receiver.map typeJson) ++
      itemsField "type_parameters" (info.typeParameters.map typeParameterJson) ++
      flagField "is_var" info.isVar ++
      flagField "is_const" info.isConst ++
      flagField "is_lateinit" info.isLateinit ++
      flagField "is_external" info.isExternal ++
      optionField "getter" (info.getter.map accessorJson) ++
      optionField "setter" (info.setter.map accessorJson)
  | .typeAlias info =>
    [("underlying", typeJson info.underlying)] ++
      optionField "expanded" (info.expanded.map typeJson) ++
      itemsField "type_parameters" (info.typeParameters.map typeParameterJson)
  | .value info =>
    [("type", typeJson info.type)] ++
      flagField "is_vararg" info.isVararg ++
      flagField "has_default" info.hasDefault

mutual
/-- A declaration with its members. Fields are written in a fixed order, without default keywords,
false flags, empty lists and absent options. -/
def toJson : Source → Json
  | .mk name visibility modality expectation payload members =>
    .object ([("name", .text name.text)] ++
      keywordField "visibility" visibility ++
      keywordField "modality" modality ++
      keywordField "expectation" expectation ++
      [("kind", .text (Keyword.word payload.kind))] ++
      payloadFields payload ++
      itemsField "members" (membersJson members))
/-- The members of a declaration. -/
def membersJson : List Source → List Json
  | [] => []
  | member :: members => toJson member :: membersJson members
end

end Source

end Concord
