import Concord.Proofs.Json.Fields
import Concord.Source.Encode

namespace Concord

namespace Source

open Json (gather)

section Entries

variable {α : Type} [Keyword α] [DecidableEq α] [Inhabited α]

/-- A keyword, absent when it is the default. -/
def keywordEntry (value : α) : Option Json :=
  if value = default then none else some (.text (Keyword.word value))

/-- A flag, absent when it is false. -/
def flagEntry (value : Bool) : Option Json :=
  if value then some (.bool true) else none

/-- A list, absent when it is empty. -/
def itemsEntry (items : List Json) : Option Json :=
  if items.isEmpty then none else some (.array items)

theorem keywordField_eq (name : String) (value : α) :
    keywordField name value = gather [(name, keywordEntry value)] := by
  rw [keywordField, keywordEntry]
  split <;> rfl

theorem flagField_eq (name : String) (value : Bool) :
    flagField name value = gather [(name, flagEntry value)] := by
  cases value <;> rfl

theorem itemsField_eq (name : String) (items : List Json) :
    itemsField name items = gather [(name, itemsEntry items)] := by
  cases items <;> rfl

theorem optionField_eq (name : String) (value : Option Json) :
    optionField name value = gather [(name, value)] := by
  cases value <;> rfl

end Entries

theorem presentField_eq (name : String) (value : Json) :
    [(name, value)] = gather [(name, some value)] := rfl

/-- The fields of a simple type. -/
def simpleEntries (type : SimpleType Spelling) : List (String × Option Json) :=
  [("classifier", type.classifier.classifier.map (.text ·.text)),
    ("type_parameter", type.classifier.typeParameter.map (.text ·.text)),
    ("arguments", itemsEntry (argumentsJson type.arguments)),
    ("nullable", flagEntry type.nullable),
    ("definitely_not_null", flagEntry type.definitelyNotNull),
    ("abbreviation", abbreviationJson type.abbreviation)]

theorem simpleJson_eq (type : SimpleType Spelling) :
    simpleJson type = .object (gather (simpleEntries type)) := by
  cases type
  simp only [simpleJson, optionField_eq, itemsField_eq, flagField_eq, ← Json.gather_append]
  rfl

/-- The fields of a range of types. -/
def rangeEntries (lower upper : SimpleType Spelling) : List (String × Option Json) :=
  [("lower", some (simpleJson lower)), ("upper", some (simpleJson upper))]

theorem rangeJson_eq (lower upper : SimpleType Spelling) :
    typeJson (.flexible lower upper) = .object (gather (rangeEntries lower upper)) := by
  rw [typeJson]
  rfl

/-- The fields of a use of a type at a variance. -/
def projectionEntries (variance : Variance) (type : Ty Spelling) : List (String × Option Json) :=
  [("variance", keywordEntry variance), ("type", some (typeJson type))]

/-- A type argument. -/
def argumentJson : TypeArgument Spelling → Json
  | .star => .text "star"
  | .projection variance type =>
    .object [("projection", .object (gather (projectionEntries variance type)))]

theorem argumentsJson_projection (variance : Variance) (type : Ty Spelling)
    (rest : List (TypeArgument Spelling)) : argumentsJson (.projection variance type :: rest) =
      argumentJson (.projection variance type) :: argumentsJson rest := by
  rw [argumentsJson, keywordField_eq, presentField_eq "type", ← Json.gather_append]
  rfl

theorem argumentsJson_eq_map (arguments : List (TypeArgument Spelling)) :
    argumentsJson arguments = arguments.map argumentJson := by
  induction arguments with
  | nil => rw [argumentsJson, List.map_nil]
  | cons argument arguments ih =>
    cases argument with
    | star => rw [argumentsJson, ih, List.map_cons, argumentJson]
    | projection variance type => rw [argumentsJson_projection, ih, List.map_cons]

/-- The fields of a type parameter. -/
def typeParameterEntries (parameter : TypeParameter Spelling) : List (String × Option Json) :=
  [("name", some (.text parameter.name.text)),
    ("variance", keywordEntry parameter.variance),
    ("upper_bounds", itemsEntry (parameter.upperBounds.map typeJson)),
    ("is_reified", flagEntry parameter.isReified)]

theorem typeParameterJson_eq (parameter : TypeParameter Spelling) :
    typeParameterJson parameter = .object (gather (typeParameterEntries parameter)) := by
  simp only [typeParameterJson, presentField_eq, keywordField_eq, itemsField_eq, flagField_eq,
    ← Json.gather_append]
  rfl

/-- The fields of a parameter of a constructor. -/
def parameterEntries (parameter : ConstructorParameter Spelling) : List (String × Option Json) :=
  [("name", some (.text parameter.name.text)), ("type", some (typeJson parameter.type)),
    ("is_vararg", flagEntry parameter.isVararg), ("has_default", flagEntry parameter.hasDefault)]

theorem parameterJson_eq (parameter : ConstructorParameter Spelling) :
    parameterJson parameter = .object (gather (parameterEntries parameter)) := by
  have hpresent : [("name", Json.text parameter.name.text), ("type", typeJson parameter.type)] =
      gather [("name", some (.text parameter.name.text)), ("type", some (typeJson parameter.type))] :=
    rfl
  simp only [parameterJson, hpresent, flagField_eq, ← Json.gather_append]
  rfl

/-- The fields of a constructor. -/
def constructorEntries (constructor : Constructor Spelling) : List (String × Option Json) :=
  [("is_primary", flagEntry constructor.isPrimary),
    ("visibility", keywordEntry constructor.visibility),
    ("parameters", itemsEntry (constructor.parameters.map parameterJson))]

theorem constructorJson_eq (constructor : Constructor Spelling) :
    constructorJson constructor = .object (gather (constructorEntries constructor)) := by
  simp only [constructorJson, keywordField_eq, itemsField_eq, flagField_eq, ← Json.gather_append]
  rfl

/-- The fields of an accessor, all of them present. -/
def accessorEntries (accessor : Accessor) : List (String × Option Json) :=
  [("modality", some (.text (Keyword.word accessor.modality))),
    ("visibility", some (.text (Keyword.word accessor.visibility))),
    ("is_inline", some (.bool accessor.isInline)),
    ("is_external", some (.bool accessor.isExternal))]

theorem accessorJson_eq (accessor : Accessor) :
    accessorJson accessor = .object (gather (accessorEntries accessor)) := rfl

/-- The fields of a payload. -/
def payloadEntries : Payload → List (String × Option Json)
  | .module info => [("stable_name", info.stableName.map (.text ·.text))]
  | .package => []
  | .classType info =>
    [("class_kind", keywordEntry info.classKind),
      ("is_inline", flagEntry info.isInline),
      ("is_data", flagEntry info.isData),
      ("is_inner", flagEntry info.isInner),
      ("is_companion", flagEntry info.isCompanion),
      ("is_external", flagEntry info.isExternal),
      ("type_parameters", itemsEntry (info.typeParameters.map typeParameterJson)),
      ("supertypes", itemsEntry (info.supertypes.map typeJson)),
      ("constructors", itemsEntry (info.constructors.map constructorJson))]
  | .function info =>
    [("return_type", some (typeJson info.returnType)),
      ("extension_receiver", info.receiver.map typeJson),
      ("type_parameters", itemsEntry (info.typeParameters.map typeParameterJson)),
      ("is_suspend", flagEntry info.isSuspend),
      ("is_external", flagEntry info.isExternal),
      ("is_inline", flagEntry info.isInline),
      ("is_operator", flagEntry info.isOperator)]
  | .property info =>
    [("type", some (typeJson info.type)),
      ("extension_receiver", info.receiver.map typeJson),
      ("type_parameters", itemsEntry (info.typeParameters.map typeParameterJson)),
      ("is_var", flagEntry info.isVar),
      ("is_const", flagEntry info.isConst),
      ("is_lateinit", flagEntry info.isLateinit),
      ("is_external", flagEntry info.isExternal),
      ("getter", info.getter.map accessorJson),
      ("setter", info.setter.map accessorJson)]
  | .typeAlias info =>
    [("underlying", some (typeJson info.underlying)),
      ("expanded", info.expanded.map typeJson),
      ("type_parameters", itemsEntry (info.typeParameters.map typeParameterJson))]
  | .value info =>
    [("type", some (typeJson info.type)),
      ("is_vararg", flagEntry info.isVararg),
      ("has_default", flagEntry info.hasDefault)]

theorem payloadFields_eq (payload : Payload) :
    payloadFields payload = gather (payloadEntries payload) := by
  cases payload <;>
    simp only [payloadFields, presentField_eq, optionField_eq, keywordField_eq, itemsField_eq,
      flagField_eq, ← Json.gather_append] <;> rfl

/-- The fields of every declaration. -/
def headEntries (name : SimpleName) (visibility : Visibility) (modality : Modality)
    (expectation : Expectation) (kind : Kind) : List (String × Option Json) :=
  [("name", some (.text name.text)),
    ("visibility", keywordEntry visibility),
    ("modality", keywordEntry modality),
    ("expectation", keywordEntry expectation),
    ("kind", some (.text (Keyword.word kind)))]

/-- The fields of a declaration with its members. -/
def entries : Source → List (String × Option Json)
  | .mk name visibility modality expectation payload members =>
    headEntries name visibility modality expectation payload.kind ++ payloadEntries payload ++
      [("members", itemsEntry (membersJson members))]

theorem toJson_eq (source : Source) : toJson source = .object (gather source.entries) := by
  cases source
  simp only [toJson, presentField_eq, keywordField_eq, itemsField_eq, payloadFields_eq,
    ← Json.gather_append]
  rfl

/-- The names of the fields of a payload of a kind. -/
def payloadNames : Kind → List String
  | .module => ["stable_name"]
  | .package => []
  | .classType => ["class_kind", "is_inline", "is_data", "is_inner", "is_companion", "is_external",
    "type_parameters", "supertypes", "constructors"]
  | .function => ["return_type", "extension_receiver", "type_parameters", "is_suspend",
    "is_external", "is_inline", "is_operator"]
  | .property => ["type", "extension_receiver", "type_parameters", "is_var", "is_const",
    "is_lateinit", "is_external", "getter", "setter"]
  | .typeAlias => ["underlying", "expanded", "type_parameters"]
  | .value => ["type", "is_vararg", "has_default"]

theorem payloadEntries_names (payload : Payload) :
    (payloadEntries payload).map Prod.fst = payloadNames payload.kind := by
  cases payload <;> rfl

/-- No two fields of a declaration have one name. -/
theorem entries_distinct (source : Source) : (source.entries.map Prod.fst).Nodup := by
  obtain ⟨name, visibility, modality, expectation, payload, members⟩ := source
  have hnames : (["name", "visibility", "modality", "expectation", "kind"] ++
      payloadNames payload.kind ++ ["members"]).Nodup := by
    cases payload.kind <;> decide
  rw [← payloadEntries_names] at hnames
  rw [entries, List.map_append, List.map_append]
  exact hnames

theorem membersJson_eq_map (members : List Source) : membersJson members = members.map toJson := by
  induction members with
  | nil => rw [membersJson, List.map_nil]
  | cons member members ih => rw [membersJson, ih, List.map_cons]

section Fields

open Json (EachField)

/-- What holds of texts and flags. -/
structure OfLeaves (P : Json → Prop) : Prop where
  text : ∀ word, P (.text word)
  bool : ∀ flag, P (.bool flag)

variable {P : Json → Prop} {fields : List (String × Option Json)} {name : String}

theorem OfLeaves.keyword (hleaves : OfLeaves P) {α : Type} [Keyword α] [DecidableEq α] [Inhabited α]
    {value : α} (hrest : EachField P fields) :
    EachField P ((name, keywordEntry value) :: fields) := by
  refine .cons (fun json hjson => ?_) hrest
  rw [keywordEntry] at hjson
  split at hjson
  · cases hjson
  · exact Option.some.inj hjson ▸ hleaves.text _

theorem OfLeaves.flag (hleaves : OfLeaves P) {value : Bool} (hrest : EachField P fields) :
    EachField P ((name, flagEntry value) :: fields) := by
  refine .cons (fun json hjson => ?_) hrest
  cases value with
  | false => cases hjson
  | true => exact Option.some.inj hjson ▸ hleaves.bool true

theorem eachField_list {α : Type} {write : α → Json} {parts : List α}
    (hparts : parts ≠ [] → P (.array (parts.map write))) (hrest : EachField P fields) :
    EachField P ((name, itemsEntry (parts.map write)) :: fields) := by
  refine .cons (fun json hjson => ?_) hrest
  cases parts with
  | nil => cases hjson
  | cons part parts => exact Option.some.inj hjson ▸ hparts (List.cons_ne_nil _ _)

theorem eachField_alias {info : AliasInfo} (hunderlying : P (typeJson info.underlying))
    (hexpanded : ∀ type, info.expanded = some type → P (typeJson type))
    (hparameters : info.typeParameters ≠ [] →
      P (.array (info.typeParameters.map typeParameterJson))) :
    EachField P (payloadEntries (.typeAlias info)) :=
  .present hunderlying (.optional hexpanded (eachField_list hparameters .nil))

variable (hleaves : OfLeaves P)
include hleaves

theorem eachField_simple {type : SimpleType Spelling}
    (harguments : type.arguments ≠ [] → P (.array (type.arguments.map argumentJson)))
    (habbreviation : ∀ spelling, type.abbreviation = some spelling → P (simpleJson spelling)) :
    EachField P (simpleEntries type) := by
  have hshort : abbreviationJson type.abbreviation = type.abbreviation.map simpleJson := by
    cases type.abbreviation <;> rw [abbreviationJson] <;> rfl
  rw [simpleEntries, argumentsJson_eq_map, hshort]
  exact .optional (fun _ _ => hleaves.text _) (.optional (fun _ _ => hleaves.text _)
    (eachField_list harguments (hleaves.flag (hleaves.flag (.optional habbreviation .nil)))))

theorem eachField_projection {variance : Variance} {type : Ty Spelling} (htype : P (typeJson type)) :
    EachField P (projectionEntries variance type) :=
  hleaves.keyword (.present htype .nil)

theorem eachField_typeParameter {parameter : TypeParameter Spelling}
    (hbounds : parameter.upperBounds ≠ [] → P (.array (parameter.upperBounds.map typeJson))) :
    EachField P (typeParameterEntries parameter) :=
  .present (hleaves.text _) (hleaves.keyword (eachField_list hbounds (hleaves.flag .nil)))

theorem eachField_parameter {parameter : ConstructorParameter Spelling}
    (htype : P (typeJson parameter.type)) : EachField P (parameterEntries parameter) :=
  .present (hleaves.text _) (.present htype (hleaves.flag (hleaves.flag .nil)))

theorem eachField_constructor {constructor : Constructor Spelling}
    (hparameters : constructor.parameters ≠ [] →
      P (.array (constructor.parameters.map parameterJson))) :
    EachField P (constructorEntries constructor) :=
  hleaves.flag (hleaves.keyword (eachField_list hparameters .nil))

theorem eachField_accessor (accessor : Accessor) : EachField P (accessorEntries accessor) :=
  .present (hleaves.text _) (.present (hleaves.text _)
    (.present (hleaves.bool _) (.present (hleaves.bool _) .nil)))

theorem eachField_module (info : ModuleInfo) : EachField P (payloadEntries (.module info)) :=
  .optional (fun _ _ => hleaves.text _) .nil

theorem eachField_class {info : ClassInfo Spelling}
    (hparameters : info.typeParameters ≠ [] → P (.array (info.typeParameters.map typeParameterJson)))
    (hsupertypes : info.supertypes ≠ [] → P (.array (info.supertypes.map typeJson)))
    (hconstructors : info.constructors ≠ [] → P (.array (info.constructors.map constructorJson))) :
    EachField P (payloadEntries (.classType info)) :=
  hleaves.keyword (hleaves.flag (hleaves.flag (hleaves.flag (hleaves.flag (hleaves.flag
    (eachField_list hparameters (eachField_list hsupertypes (eachField_list hconstructors .nil))))))))

theorem eachField_function {info : FunctionInfo Spelling} (hreturn : P (typeJson info.returnType))
    (hreceiver : ∀ type, info.receiver = some type → P (typeJson type))
    (hparameters : info.typeParameters ≠ [] →
      P (.array (info.typeParameters.map typeParameterJson))) :
    EachField P (payloadEntries (.function info)) :=
  .present hreturn (.optional hreceiver (eachField_list hparameters
    (hleaves.flag (hleaves.flag (hleaves.flag (hleaves.flag .nil))))))

theorem eachField_property {info : PropertyInfo Spelling} (htype : P (typeJson info.type))
    (hreceiver : ∀ type, info.receiver = some type → P (typeJson type))
    (hparameters : info.typeParameters ≠ [] → P (.array (info.typeParameters.map typeParameterJson)))
    (hgetter : ∀ accessor, info.getter = some accessor → P (accessorJson accessor))
    (hsetter : ∀ accessor, info.setter = some accessor → P (accessorJson accessor)) :
    EachField P (payloadEntries (.property info)) :=
  .present htype (.optional hreceiver (eachField_list hparameters (hleaves.flag (hleaves.flag
    (hleaves.flag (hleaves.flag (.optional hgetter (.optional hsetter .nil))))))))

theorem eachField_value {info : ValueInfo Spelling} (htype : P (typeJson info.type)) :
    EachField P (payloadEntries (.value info)) :=
  .present htype (hleaves.flag (hleaves.flag .nil))

theorem eachField_source {name : SimpleName} {visibility : Visibility} {modality : Modality}
    {expectation : Expectation} {payload : Payload} {members : List Source}
    (hpayload : EachField P (payloadEntries payload))
    (hmembers : members ≠ [] → P (.array (members.map toJson))) :
    EachField P (entries (.mk name visibility modality expectation payload members)) := by
  rw [Source.entries, membersJson_eq_map]
  refine .append (.append ?_ hpayload) (eachField_list hmembers .nil)
  exact .present (hleaves.text _) (hleaves.keyword (hleaves.keyword (hleaves.keyword
    (.present (hleaves.text _) .nil))))

end Fields

section Numbers

open Json (EachField areNumberless_iff)

private theorem numberless_leaves : OfLeaves (·.isNumberless = true) :=
  ⟨fun _ => rfl, fun _ => rfl⟩

private theorem numberless_list {α : Type} {write : α → Json} {parts : List α}
    (hparts : ∀ part ∈ parts, (write part).isNumberless = true) :
    (Json.array (parts.map write)).isNumberless = true := by
  refine areNumberless_iff.mpr fun item hitem => ?_
  obtain ⟨part, hpart, rfl⟩ := List.mem_map.mp hitem
  exact hparts part hpart

mutual
private theorem typeJson_numberless : ∀ type : Ty Spelling, (typeJson type).isNumberless = true
  | .simple type => simpleJson_numberless type
  | .flexible lower upper => by
    rw [rangeJson_eq]
    exact EachField.isNumberless (.present (simpleJson_numberless lower)
      (.present (simpleJson_numberless upper) .nil))
private theorem simpleJson_numberless :
    ∀ type : SimpleType Spelling, (simpleJson type).isNumberless = true
  | ⟨classifier, arguments, nullable, notNull, none⟩ => by
    rw [simpleJson_eq]
    refine EachField.isNumberless (eachField_simple numberless_leaves (fun _ => ?_) nofun)
    exact numberless_list (argumentsJson_numberless arguments)
  | ⟨classifier, arguments, nullable, notNull, some spelling⟩ => by
    rw [simpleJson_eq]
    refine EachField.isNumberless (eachField_simple numberless_leaves (fun _ => ?_) fun _ heq => ?_)
    · exact numberless_list (argumentsJson_numberless arguments)
    · obtain rfl := Option.some.inj heq
      exact simpleJson_numberless spelling
private theorem argumentsJson_numberless : ∀ arguments : List (TypeArgument Spelling),
    ∀ argument ∈ arguments, (argumentJson argument).isNumberless = true
  | [] => nofun
  | .star :: arguments =>
    List.forall_mem_cons.mpr ⟨rfl, argumentsJson_numberless arguments⟩
  | .projection variance type :: arguments => by
    refine List.forall_mem_cons.mpr ⟨?_, argumentsJson_numberless arguments⟩
    have htype : EachField (·.isNumberless = true) (projectionEntries variance type) :=
      eachField_projection numberless_leaves (typeJson_numberless type)
    rw [argumentJson, presentField_eq]
    exact EachField.isNumberless (.present htype.isNumberless .nil)
end

private theorem typeParameters_numberless (parameters : List (TypeParameter Spelling)) :
    (Json.array (parameters.map typeParameterJson)).isNumberless = true := by
  refine numberless_list fun parameter _ => ?_
  rw [typeParameterJson_eq]
  refine EachField.isNumberless (eachField_typeParameter numberless_leaves fun _ => ?_)
  exact numberless_list fun type _ => typeJson_numberless type

private theorem constructors_numberless (constructors : List (Constructor Spelling)) :
    (Json.array (constructors.map constructorJson)).isNumberless = true := by
  refine numberless_list fun constructor _ => ?_
  rw [constructorJson_eq]
  refine EachField.isNumberless (eachField_constructor numberless_leaves fun _ => ?_)
  refine numberless_list fun parameter _ => ?_
  rw [parameterJson_eq]
  exact EachField.isNumberless (eachField_parameter numberless_leaves (typeJson_numberless _))

private theorem payload_numberless (payload : Payload) :
    EachField (·.isNumberless = true) (payloadEntries payload) := by
  have haccessor (accessor : Accessor) : (accessorJson accessor).isNumberless = true :=
    EachField.isNumberless (eachField_accessor numberless_leaves accessor)
  cases payload with
  | module info => exact eachField_module numberless_leaves info
  | package => exact .nil
  | classType info =>
    exact eachField_class numberless_leaves (fun _ => typeParameters_numberless _)
      (fun _ => numberless_list fun type _ => typeJson_numberless type)
      (fun _ => constructors_numberless _)
  | function info =>
    exact eachField_function numberless_leaves (typeJson_numberless _)
      (fun type _ => typeJson_numberless type) (fun _ => typeParameters_numberless _)
  | property info =>
    exact eachField_property numberless_leaves (typeJson_numberless _)
      (fun type _ => typeJson_numberless type) (fun _ => typeParameters_numberless _)
      (fun accessor _ => haccessor accessor) (fun accessor _ => haccessor accessor)
  | typeAlias info =>
    exact eachField_alias (typeJson_numberless _) (fun type _ => typeJson_numberless type)
      (fun _ => typeParameters_numberless _)
  | value info => exact eachField_value numberless_leaves (typeJson_numberless _)

mutual
/-- There is no number in what is written for a source. -/
theorem isNumberless_toJson : ∀ source : Source, (toJson source).isNumberless = true
  | .mk name visibility modality expectation payload members => by
    rw [toJson_eq]
    refine EachField.isNumberless (eachField_source numberless_leaves (payload_numberless payload)
      fun _ => ?_)
    exact numberless_list (members_numberless members)
private theorem members_numberless : ∀ members : List Source,
    ∀ member ∈ members, (toJson member).isNumberless = true
  | [] => nofun
  | member :: members =>
    List.forall_mem_cons.mpr ⟨isNumberless_toJson member, members_numberless members⟩
end

/-- There is no number in what is written for sources. -/
theorem isNumberless_sources (sources : List Source) :
    (Json.array (membersJson sources)).isNumberless = true := by
  rw [membersJson_eq_map]
  exact numberless_list fun source _ => isNumberless_toJson source

end Numbers

end Source

end Concord
