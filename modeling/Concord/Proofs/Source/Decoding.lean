import Concord.Proofs.Source.Encoding
import Concord.Source.Decode

namespace Concord

/-- Keywords that can be told from their words. -/
class Keyword.Lawful (α : Type) [Keyword α] : Prop where
  ofWord?_word : ∀ value : α, Keyword.ofWord? (Keyword.word value) = some value

instance : Keyword.Lawful Variance := ⟨fun value => by cases value <;> rfl⟩

instance : Keyword.Lawful Visibility := ⟨fun value => by cases value <;> rfl⟩

instance : Keyword.Lawful Modality := ⟨fun value => by cases value <;> rfl⟩

instance : Keyword.Lawful Expectation := ⟨fun value => by cases value <;> rfl⟩

instance : Keyword.Lawful ClassKind := ⟨fun value => by cases value <;> rfl⟩

instance : Keyword.Lawful Kind := ⟨fun kind => by cases kind <;> rfl⟩

namespace Source

open Json (gather)

section Entries

variable {fields : Fields} {name : String} {α : Type}

theorem required?_entry {json : Json} {read : Json → Option α} {value : α}
    (hfield : fields.lookup name = some json) (hread : read json = some value) :
    fields.required? name read = some value := by
  rw [Fields.required?, hfield, Option.bind_some, hread]

theorem flag?_entry {value : Bool} (hfield : fields.lookup name = flagEntry value) :
    flag? fields name = some value := by
  rw [flag?, Fields.default?, hfield]
  cases value <;> rfl

theorem keyword?_entry [Keyword α] [Keyword.Lawful α] [DecidableEq α] [Inhabited α] {value : α}
    (hollow : Bool) (hfield : fields.lookup name = keywordEntry value) :
    fields.default? name default (keyword? hollow) = some value := by
  rw [Fields.default?, hfield, keywordEntry]
  by_cases hdefault : value = default
  · rw [if_pos hdefault, hdefault]
  · rw [if_neg hdefault]
    exact Keyword.Lawful.ofWord?_word value

theorem listField?_entry {read : Json → Option α} {items : List Json} {values : List α}
    (hfield : fields.lookup name = itemsEntry items) (hread : items.mapM read = some values) :
    listField? fields name read = some values := by
  rw [listField?, Fields.default?, hfield]
  cases items with
  | nil => exact hread
  | cons item items => exact hread

theorem optional?_entry {write : α → Json} {read : Json → Option α} {value : Option α}
    (hfield : fields.lookup name = value.map write)
    (hread : ∀ a, value = some a → read (write a) = some a ∧ write a ≠ .null) :
    fields.optional? name read = some value := by
  rw [Fields.optional?, hfield]
  cases value with
  | none => rfl
  | some a =>
    obtain ⟨hread, hnull⟩ := hread a rfl
    rw [Option.map_some]
    split
    · next heq => exact absurd (Option.some.inj heq) hnull
    · next json _ heq => rw [← Option.some.inj heq, hread, Option.map_some]
    · next heq => cases heq

/-- Values that are written one by one are read one by one. -/
theorem mapM_written {write : α → Json} {read : Json → Option α} {values : List α}
    (hread : ∀ a ∈ values, read (write a) = some a) :
    (values.map write).mapM read = some values := by
  induction values with
  | nil => rfl
  | cons a values ih =>
    obtain ⟨hfirst, hrest⟩ := List.forall_mem_cons.mp hread
    rw [List.map_cons, List.mapM_cons, hfirst, ih hrest]
    rfl

end Entries

section Types

theorem simpleJson_ne_null (type : SimpleType Spelling) : simpleJson type ≠ .null := by
  rw [simpleJson_eq]
  nofun

theorem typeJson_ne_null (type : Ty Spelling) : typeJson type ≠ .null := by
  cases type with
  | simple type => exact simpleJson_ne_null type
  | flexible lower upper => exact nofun

private theorem simpleEntries_distinct (type : SimpleType Spelling) :
    ((simpleEntries type).map Prod.fst).Nodup := by
  show ["classifier", "type_parameter", "arguments", "nullable", "definitely_not_null",
    "abbreviation"].Nodup
  decide

/-- A simple type is not taken for a range of types. -/
private theorem flexible?_simpleJson (read : Json → Option (SimpleType Spelling))
    (type : SimpleType Spelling) : flexible? read (simpleJson type) = none := by
  obtain ⟨fields, hfields, hlookup⟩ :=
    Fields.ofMembers?_gather ["lower", "upper"] (simpleEntries_distinct type)
  have hlower : fields.lookup "lower" = none := hlookup "lower" (by decide)
  simp only [simpleJson_eq, flexible?, Fields.ofObject?, hfields, Option.bind_eq_bind,
    Option.bind_some, Fields.required?, hlower, Option.bind_none]

/-- What a list holds stands two levels below the object whose field the list is. -/
private theorem height_item {entries : List (String × Option Json)} {name : String}
    {items : List Json} (hentry : (name, itemsEntry items) ∈ entries) {item : Json}
    (hitem : item ∈ items) : item.height + 2 ≤ (Json.object (gather entries)).height := by
  have hpresent : itemsEntry items = some (.array items) := by
    cases items with
    | nil => cases hitem
    | cons first items => rfl
  rw [hpresent] at hentry
  have hlower := Json.height_lt_of_mem hentry
  have hlowest := Json.height_lt_of_mem_array hitem
  omega

/-- Levels enough for a type are enough for its arguments. -/
private theorem argument_levels {type : SimpleType Spelling} {levels : Nat}
    (hlevels : 2 * (simpleJson type).height + 1 ≤ levels + 1) {item : Json}
    (hitem : item ∈ argumentsJson type.arguments) : 2 * item.height ≤ levels + 2 := by
  have hentry : ("arguments", itemsEntry (argumentsJson type.arguments)) ∈ simpleEntries type := by
    simp [simpleEntries]
  have hheight := height_item hentry hitem
  rw [← simpleJson_eq] at hheight
  omega

private theorem height_abbreviation {type spelling : SimpleType Spelling}
    (habbreviation : type.abbreviation = some spelling) :
    (simpleJson spelling).height < (simpleJson type).height := by
  rw [simpleJson_eq type]
  have hmem : ("abbreviation", some (simpleJson spelling)) ∈ simpleEntries type := by
    simp [simpleEntries, habbreviation, abbreviationJson]
  exact Json.height_lt_of_mem hmem

/-- A use of a type stands two levels above the type. -/
private theorem height_projection (variance : Variance) (type : Ty Spelling) :
    (typeJson type).height + 2 ≤ (argumentJson (.projection variance type)).height := by
  have htype : ("type", some (typeJson type)) ∈ projectionEntries variance type := by
    simp [projectionEntries]
  have hlower := Json.height_lt_of_mem htype
  have hprojection : ("projection", some (.object (gather (projectionEntries variance type)))) ∈
      [("projection", some (Json.object (gather (projectionEntries variance type))))] :=
    List.mem_singleton_self _
  have hlowest := Json.height_lt_of_mem hprojection
  rw [← presentField_eq, ← argumentJson] at hlowest
  omega

private theorem projection?_json {read : Json → Option (Ty Spelling)} (variance : Variance)
    {type : Ty Spelling} (hread : read (typeJson type) = some type) :
    projection? read (.object (gather (projectionEntries variance type))) =
      some (.projection variance type) := by
  have hdistinct : ((projectionEntries variance type).map Prod.fst).Nodup := by
    show ["variance", "type"].Nodup
    decide
  obtain ⟨fields, hfields, hlookup⟩ := Fields.ofMembers?_gather ["variance", "type"] hdistinct
  have hvariance : fields.default? "variance" .invariant (keyword? false) = some variance :=
    keyword?_entry false (hlookup "variance" (by decide))
  have htype : fields.required? "type" read = some type :=
    required?_entry (hlookup "type" (by decide)) hread
  simp only [projection?, Fields.ofRecord?, hfields, Option.bind_eq_bind, Option.bind_some,
    hvariance, htype]
  rfl

private theorem argument?_projection {read : Json → Option (Ty Spelling)} (variance : Variance)
    {type : Ty Spelling} (hread : read (typeJson type) = some type) :
    argument? read (argumentJson (.projection variance type)) =
      some (.projection variance type) := by
  rw [argumentJson, argument?, projection?_json variance hread]

private theorem simple?_of_parts {type : SimpleType Spelling} {levels : Nat}
    (harguments : (argumentsJson type.arguments).mapM (argument? (type? levels)) =
      some type.arguments)
    (habbreviation : ∀ spelling, type.abbreviation = some spelling →
      simple? levels (simpleJson spelling) = some spelling) :
    simple? (levels + 1) (simpleJson type) = some type := by
  obtain ⟨fields, hfields, hlookup⟩ := Fields.ofMembers?_gather ["classifier", "type_parameter",
    "arguments", "nullable", "definitely_not_null", "abbreviation"] (simpleEntries_distinct type)
  have hclassifier : fields.optional? "classifier" qualifiedName? = some type.classifier.classifier :=
    optional?_entry (hlookup "classifier" (by decide)) fun _ _ => ⟨rfl, nofun⟩
  have hparameter : fields.optional? "type_parameter" name? = some type.classifier.typeParameter :=
    optional?_entry (hlookup "type_parameter" (by decide)) fun _ _ => ⟨rfl, nofun⟩
  have hlist := listField?_entry (hlookup "arguments" (by decide)) harguments
  have hnullable := flag?_entry (hlookup "nullable" (by decide))
  have hnotNull := flag?_entry (hlookup "definitely_not_null" (by decide))
  have hspelled : fields.lookup "abbreviation" = type.abbreviation.map simpleJson := by
    rw [hlookup "abbreviation" (by decide)]
    cases habbreviation : type.abbreviation with
    | none => simp [simpleEntries, habbreviation, abbreviationJson, List.lookup_cons]
    | some spelling => simp [simpleEntries, habbreviation, abbreviationJson, List.lookup_cons]
  have hshort : fields.optional? "abbreviation" (simple? levels) = some type.abbreviation :=
    optional?_entry hspelled fun spelling heq =>
      ⟨habbreviation spelling heq, simpleJson_ne_null spelling⟩
  simp only [simpleJson_eq, simple?, Fields.ofRecord?, hfields, Option.bind_eq_bind,
    Option.bind_some, hclassifier, hparameter, hlist, hnullable, hnotNull, hshort]
  cases type
  rfl

private theorem flexible?_range {read : Json → Option (SimpleType Spelling)}
    {lower upper : SimpleType Spelling} (hlower : read (simpleJson lower) = some lower)
    (hupper : read (simpleJson upper) = some upper) :
    flexible? read (typeJson (.flexible lower upper)) = some (.flexible lower upper) := by
  have hdistinct : ((rangeEntries lower upper).map Prod.fst).Nodup := by
    show ["lower", "upper"].Nodup
    decide
  obtain ⟨fields, hfields, hlookup⟩ := Fields.ofMembers?_gather ["lower", "upper"] hdistinct
  have hfirst := required?_entry (hlookup "lower" (by decide)) hlower
  have hsecond := required?_entry (hlookup "upper" (by decide)) hupper
  simp only [rangeJson_eq, flexible?, Fields.ofObject?, hfields, Option.bind_eq_bind,
    Option.bind_some, hfirst, hsecond]
  rfl

mutual
/-- A type that was written is read with levels enough. -/
private theorem type?_json : ∀ (type : Ty Spelling) {levels : Nat},
    2 * (typeJson type).height + 2 ≤ levels → type? levels (typeJson type) = some type
  | .simple type, levels, hlevels => by
    obtain ⟨levels, rfl⟩ : ∃ left, levels = left + 1 := Nat.exists_eq_add_one.mpr (by omega)
    rw [typeJson, type?, flexible?_simpleJson, simple?_json type (Nat.le_of_succ_le_succ hlevels)]
    rfl
  | .flexible lower upper, levels, hlevels => by
    obtain ⟨levels, rfl⟩ : ∃ left, levels = left + 1 := Nat.exists_eq_add_one.mpr (by omega)
    have hfirst : (simpleJson lower).height < (typeJson (.flexible lower upper)).height := by
      rw [rangeJson_eq]
      exact Json.height_lt_of_mem List.mem_cons_self
    have hsecond : (simpleJson upper).height < (typeJson (.flexible lower upper)).height := by
      rw [rangeJson_eq]
      exact Json.height_lt_of_mem (List.mem_cons_of_mem _ List.mem_cons_self)
    have hlower := simple?_json lower (show 2 * (simpleJson lower).height + 1 ≤ levels by omega)
    have hupper := simple?_json upper (show 2 * (simpleJson upper).height + 1 ≤ levels by omega)
    rw [type?, flexible?_range hlower hupper]
private theorem simple?_json : ∀ (type : SimpleType Spelling) {levels : Nat},
    2 * (simpleJson type).height + 1 ≤ levels → simple? levels (simpleJson type) = some type
  | ⟨classifier, arguments, nullable, notNull, none⟩, levels, hlevels => by
    obtain ⟨levels, rfl⟩ : ∃ left, levels = left + 1 := Nat.exists_eq_add_one.mpr (by omega)
    refine simple?_of_parts (arguments_json arguments fun item hitem => ?_) nofun
    exact argument_levels hlevels hitem
  | ⟨classifier, arguments, nullable, notNull, some spelling⟩, levels, hlevels => by
    obtain ⟨levels, rfl⟩ : ∃ left, levels = left + 1 := Nat.exists_eq_add_one.mpr (by omega)
    refine simple?_of_parts (arguments_json arguments fun item hitem => ?_) fun _ heq => ?_
    · exact argument_levels hlevels hitem
    · have hlower := height_abbreviation heq
      obtain rfl := Option.some.inj heq
      exact simple?_json spelling (by omega)
private theorem arguments_json : ∀ (arguments : List (TypeArgument Spelling)) {levels : Nat},
    (∀ item ∈ argumentsJson arguments, 2 * item.height ≤ levels + 2) →
    (argumentsJson arguments).mapM (argument? (type? levels)) = some arguments
  | [], levels, hlevels => rfl
  | .star :: arguments, levels, hlevels => by
    rw [argumentsJson] at hlevels ⊢
    rw [List.mapM_cons, arguments_json arguments fun item hitem =>
      hlevels item (List.mem_cons_of_mem _ hitem)]
    rfl
  | .projection variance type :: arguments, levels, hlevels => by
    rw [argumentsJson_projection] at hlevels ⊢
    obtain ⟨hfirst, hrest⟩ := List.forall_mem_cons.mp hlevels
    have hheight := height_projection variance type
    have htype : type? levels (typeJson type) = some type := type?_json type (by omega)
    rw [List.mapM_cons, argument?_projection variance htype, arguments_json arguments hrest]
    rfl
end

/-- A type that was written is read as that type. -/
theorem typeOfJson?_json (type : Ty Spelling) : typeOfJson? (typeJson type) = some type :=
  type?_json type (Nat.le_refl _)

end Types

section Records

theorem typeParameter?_json (parameter : TypeParameter Spelling) :
    typeParameter? (typeParameterJson parameter) = some parameter := by
  have hdistinct : ((typeParameterEntries parameter).map Prod.fst).Nodup := by
    show ["name", "variance", "upper_bounds", "is_reified"].Nodup
    decide
  obtain ⟨fields, hfields, hlookup⟩ :=
    Fields.ofMembers?_gather ["name", "variance", "upper_bounds", "is_reified"] hdistinct
  have hname : fields.required? "name" name? = some parameter.name :=
    required?_entry (hlookup "name" (by decide)) rfl
  have hvariance : fields.default? "variance" .invariant (keyword? true) = some parameter.variance :=
    keyword?_entry true (hlookup "variance" (by decide))
  have hbounds := listField?_entry (hlookup "upper_bounds" (by decide))
    (mapM_written fun type (_ : type ∈ parameter.upperBounds) => typeOfJson?_json type)
  have hreified := flag?_entry (hlookup "is_reified" (by decide))
  simp only [typeParameterJson_eq, typeParameter?, Fields.ofRecord?, hfields, Option.bind_eq_bind,
    Option.bind_some, hname, hvariance, hbounds, hreified]
  rfl

theorem parameter?_json (parameter : ConstructorParameter Spelling) :
    parameter? (parameterJson parameter) = some parameter := by
  have hdistinct : ((parameterEntries parameter).map Prod.fst).Nodup := by
    show ["name", "type", "is_vararg", "has_default"].Nodup
    decide
  obtain ⟨fields, hfields, hlookup⟩ :=
    Fields.ofMembers?_gather ["name", "type", "is_vararg", "has_default"] hdistinct
  have hname : fields.required? "name" name? = some parameter.name :=
    required?_entry (hlookup "name" (by decide)) rfl
  have htype := required?_entry (hlookup "type" (by decide)) (typeOfJson?_json parameter.type)
  have hvararg := flag?_entry (hlookup "is_vararg" (by decide))
  have hdefault := flag?_entry (hlookup "has_default" (by decide))
  simp only [parameterJson_eq, parameter?, Fields.ofRecord?, hfields, Option.bind_eq_bind,
    Option.bind_some, hname, htype, hvararg, hdefault]
  rfl

theorem constructor?_json (constructor : Constructor Spelling) :
    constructor? (constructorJson constructor) = some constructor := by
  have hdistinct : ((constructorEntries constructor).map Prod.fst).Nodup := by
    show ["is_primary", "visibility", "parameters"].Nodup
    decide
  obtain ⟨fields, hfields, hlookup⟩ :=
    Fields.ofMembers?_gather ["is_primary", "visibility", "parameters"] hdistinct
  have hprimary := flag?_entry (hlookup "is_primary" (by decide))
  have hvisibility : fields.default? "visibility" .everyone (keyword? true) =
      some constructor.visibility := keyword?_entry true (hlookup "visibility" (by decide))
  have hparameters := listField?_entry (hlookup "parameters" (by decide))
    (mapM_written fun parameter (_ : parameter ∈ constructor.parameters) => parameter?_json parameter)
  simp only [constructorJson_eq, constructor?, Fields.ofRecord?, hfields, Option.bind_eq_bind,
    Option.bind_some, hprimary, hvisibility, hparameters]
  rfl

/-- A keyword that is always written. -/
private theorem keyword?_present {α : Type} [Keyword α] [Keyword.Lawful α] {fields : Fields}
    {name : String} {value : α} (initial : α) (hollow : Bool)
    (hfield : fields.lookup name = some (.text (Keyword.word value))) :
    fields.default? name initial (keyword? hollow) = some value := by
  rw [Fields.default?, hfield]
  exact Keyword.Lawful.ofWord?_word value

/-- A flag that is always written. -/
private theorem flag?_present {fields : Fields} {name : String} {value : Bool}
    (hfield : fields.lookup name = some (.bool value)) : flag? fields name = some value := by
  rw [flag?, Fields.default?, hfield]
  rfl

theorem accessor?_json (accessor : Accessor) : accessor? (accessorJson accessor) = some accessor := by
  have hdistinct : ((accessorEntries accessor).map Prod.fst).Nodup := by
    show ["modality", "visibility", "is_inline", "is_external"].Nodup
    decide
  obtain ⟨fields, hfields, hlookup⟩ :=
    Fields.ofMembers?_gather ["modality", "visibility", "is_inline", "is_external"] hdistinct
  have hmodality : fields.default? "modality" .final (keyword? true) = some accessor.modality :=
    keyword?_present _ true (hlookup "modality" (by decide))
  have hvisibility : fields.default? "visibility" .everyone (keyword? true) =
      some accessor.visibility := keyword?_present _ true (hlookup "visibility" (by decide))
  have hinline := flag?_present (hlookup "is_inline" (by decide))
  have hexternal := flag?_present (hlookup "is_external" (by decide))
  simp only [accessorJson_eq, accessor?, Fields.ofRecord?, hfields, Option.bind_eq_bind,
    Option.bind_some, hmodality, hvisibility, hinline, hexternal]
  rfl

end Records

section Declarations

/-- No field of a payload bears the name of a field of every declaration. -/
private theorem payloadNames_apart : ∀ (kind : Kind), ∀ name ∈ payloadNames kind,
    name ∉ ["name", "visibility", "modality", "expectation", "kind"] := by
  intro kind
  cases kind <;> decide

/-- The fields of a payload are found among those of the declaration. -/
private theorem lookup_payloadEntries {name : SimpleName} {visibility : Visibility}
    {modality : Modality} {expectation : Expectation} {payload : Payload} {members : List Source}
    {field : String} (hfield : field ∈ payloadNames payload.kind) :
    (mk name visibility modality expectation payload members).entries.lookup field =
      (payloadEntries payload).lookup field := by
  have hhead : (headEntries name visibility modality expectation payload.kind).lookup field =
      none := List.lookup_eq_none_iff.mpr fun entry hentry => bne_iff_ne.mpr fun hsame =>
    payloadNames_apart payload.kind field hfield (List.mem_map.mpr ⟨entry, hentry, hsame.symm⟩)
  rw [entries, List.lookup_append, List.lookup_append, hhead, Option.none_or]
  rw [← payloadEntries_names] at hfield
  obtain ⟨entry, hentry, rfl⟩ := List.mem_map.mp hfield
  have hfound : ((payloadEntries payload).lookup entry.1).isSome = true :=
    List.lookup_isSome_iff.mpr ⟨entry, hentry, beq_self_eq_true _⟩
  obtain ⟨value, hvalue⟩ := Option.isSome_iff_exists.mp hfound
  rw [hvalue, Option.some_or]

/-- A value in which the fields of a payload are as they are written, among others. -/
private def Payload.WrittenIn (payload : Payload) (json : Json) : Prop :=
  ∃ fields, Fields.ofObject? (payloadNames payload.kind) json = some fields ∧
    ∀ field ∈ payloadNames payload.kind,
      fields.lookup field = ((payloadEntries payload).lookup field).join

private theorem writtenIn_toJson (name : SimpleName) (visibility : Visibility)
    (modality : Modality) (expectation : Expectation) (payload : Payload) (members : List Source) :
    payload.WrittenIn (toJson (.mk name visibility modality expectation payload members)) := by
  obtain ⟨fields, hfields, hlookup⟩ := Fields.ofMembers?_gather (payloadNames payload.kind)
    (entries_distinct (.mk name visibility modality expectation payload members))
  refine ⟨fields, ?_, fun field hfield => ?_⟩
  · rw [toJson_eq]
    exact hfields
  · rw [hlookup field hfield, lookup_payloadEntries hfield]

/-- What is found of a payload under the names of its fields. -/
private theorem Payload.WrittenIn.found {payload : Payload} {json : Json}
    (hwritten : payload.WrittenIn json) (names : List String)
    (hnames : payloadNames payload.kind = names) :
    ∃ fields, Fields.ofObject? names json = some fields ∧
      ∀ field ∈ names, fields.lookup field = ((payloadEntries payload).lookup field).join :=
  hnames ▸ hwritten

private theorem typeParameters_entry {fields : Fields} {name : String}
    {parameters : List (TypeParameter Spelling)}
    (hfield : fields.lookup name = itemsEntry (parameters.map typeParameterJson)) :
    listField? fields name typeParameter? = some parameters :=
  listField?_entry hfield (mapM_written fun parameter _ => typeParameter?_json parameter)

private theorem optionalType_entry {fields : Fields} {name : String} {type : Option (Ty Spelling)}
    (hfield : fields.lookup name = type.map typeJson) :
    fields.optional? name typeOfJson? = some type :=
  optional?_entry hfield fun type _ => ⟨typeOfJson?_json type, typeJson_ne_null type⟩

private theorem accessor_entry {fields : Fields} {name : String} {accessor : Option Accessor}
    (hfield : fields.lookup name = accessor.map accessorJson) :
    fields.optional? name accessor? = some accessor :=
  optional?_entry hfield fun accessor _ => ⟨accessor?_json accessor, nofun⟩

section Payloads

variable {json : Json}

private theorem module?_json {info : ModuleInfo} (hwritten : (Payload.module info).WrittenIn json) :
    module? json = some info := by
  obtain ⟨fields, hfields, hlookup⟩ := hwritten.found ["stable_name"] rfl
  have hstable : fields.optional? "stable_name" name? = some info.stableName :=
    optional?_entry (hlookup "stable_name" (by decide)) fun _ _ => ⟨rfl, nofun⟩
  simp only [module?, hfields, Option.bind_eq_bind, Option.bind_some, hstable]
  rfl

private theorem class?_json {info : ClassInfo Spelling}
    (hwritten : (Payload.classType info).WrittenIn json) : class? json = some info := by
  obtain ⟨fields, hfields, hlookup⟩ := hwritten.found ["class_kind", "is_inline", "is_data",
    "is_inner", "is_companion", "is_external", "type_parameters", "supertypes", "constructors"] rfl
  have hkind : fields.default? "class_kind" .ordinary (keyword? true) = some info.classKind :=
    keyword?_entry true (hlookup "class_kind" (by decide))
  have hinline := flag?_entry (hlookup "is_inline" (by decide))
  have hdata := flag?_entry (hlookup "is_data" (by decide))
  have hinner := flag?_entry (hlookup "is_inner" (by decide))
  have hcompanion := flag?_entry (hlookup "is_companion" (by decide))
  have hexternal := flag?_entry (hlookup "is_external" (by decide))
  have hparameters := typeParameters_entry (hlookup "type_parameters" (by decide))
  have hsupertypes := listField?_entry (hlookup "supertypes" (by decide))
    (mapM_written fun type (_ : type ∈ info.supertypes) => typeOfJson?_json type)
  have hconstructors := listField?_entry (hlookup "constructors" (by decide))
    (mapM_written fun constructor (_ : constructor ∈ info.constructors) =>
      constructor?_json constructor)
  simp only [class?, hfields, Option.bind_eq_bind, Option.bind_some, hkind, hinline, hdata, hinner,
    hcompanion, hexternal, hparameters, hsupertypes, hconstructors]
  rfl

private theorem function?_json {info : FunctionInfo Spelling}
    (hwritten : (Payload.function info).WrittenIn json) : function? json = some info := by
  obtain ⟨fields, hfields, hlookup⟩ := hwritten.found ["return_type",
    "extension_receiver", "type_parameters", "is_suspend", "is_external", "is_inline",
    "is_operator"] rfl
  have hreturn := required?_entry (hlookup "return_type" (by decide))
    (typeOfJson?_json info.returnType)
  have hreceiver := optionalType_entry (hlookup "extension_receiver" (by decide))
  have hparameters := typeParameters_entry (hlookup "type_parameters" (by decide))
  have hsuspend := flag?_entry (hlookup "is_suspend" (by decide))
  have hexternal := flag?_entry (hlookup "is_external" (by decide))
  have hinline := flag?_entry (hlookup "is_inline" (by decide))
  have hoperator := flag?_entry (hlookup "is_operator" (by decide))
  simp only [function?, hfields, Option.bind_eq_bind, Option.bind_some, hreturn, hreceiver,
    hparameters, hsuspend, hexternal, hinline, hoperator]
  rfl

private theorem property?_json {info : PropertyInfo Spelling}
    (hwritten : (Payload.property info).WrittenIn json) : property? json = some info := by
  obtain ⟨fields, hfields, hlookup⟩ := hwritten.found ["type", "extension_receiver",
    "type_parameters", "is_var", "is_const", "is_lateinit", "is_external", "getter", "setter"] rfl
  have htype := required?_entry (hlookup "type" (by decide)) (typeOfJson?_json info.type)
  have hreceiver := optionalType_entry (hlookup "extension_receiver" (by decide))
  have hparameters := typeParameters_entry (hlookup "type_parameters" (by decide))
  have hvar := flag?_entry (hlookup "is_var" (by decide))
  have hconst := flag?_entry (hlookup "is_const" (by decide))
  have hlateinit := flag?_entry (hlookup "is_lateinit" (by decide))
  have hexternal := flag?_entry (hlookup "is_external" (by decide))
  have hgetter := accessor_entry (hlookup "getter" (by decide))
  have hsetter := accessor_entry (hlookup "setter" (by decide))
  simp only [property?, hfields, Option.bind_eq_bind, Option.bind_some, htype, hreceiver,
    hparameters, hvar, hconst, hlateinit, hexternal, hgetter, hsetter]
  rfl

private theorem alias?_json {info : AliasInfo} (hwritten : (Payload.typeAlias info).WrittenIn json) :
    alias? json = some info := by
  obtain ⟨fields, hfields, hlookup⟩ := hwritten.found ["underlying", "expanded",
    "type_parameters"] rfl
  have hunderlying := required?_entry (hlookup "underlying" (by decide))
    (typeOfJson?_json info.underlying)
  have hexpanded := optionalType_entry (hlookup "expanded" (by decide))
  have hparameters := typeParameters_entry (hlookup "type_parameters" (by decide))
  simp only [alias?, hfields, Option.bind_eq_bind, Option.bind_some, hunderlying, hexpanded,
    hparameters]
  rfl

private theorem value?_json {info : ValueInfo Spelling}
    (hwritten : (Payload.value info).WrittenIn json) : value? json = some info := by
  obtain ⟨fields, hfields, hlookup⟩ := hwritten.found ["type", "is_vararg", "has_default"] rfl
  have htype := required?_entry (hlookup "type" (by decide)) (typeOfJson?_json info.type)
  have hvararg := flag?_entry (hlookup "is_vararg" (by decide))
  have hdefault := flag?_entry (hlookup "has_default" (by decide))
  simp only [value?, hfields, Option.bind_eq_bind, Option.bind_some, htype, hvararg, hdefault]
  rfl

/-- A payload that was written is read. -/
private theorem payload?_json {payload : Payload} (hwritten : payload.WrittenIn json) :
    payload? payload.kind json = some payload := by
  cases payload with
  | module info => rw [Payload.kind, payload?, module?_json hwritten, Option.map_some]
  | package => rfl
  | classType info => rw [Payload.kind, payload?, class?_json hwritten, Option.map_some]
  | function info => rw [Payload.kind, payload?, function?_json hwritten, Option.map_some]
  | property info => rw [Payload.kind, payload?, property?_json hwritten, Option.map_some]
  | typeAlias info => rw [Payload.kind, payload?, alias?_json hwritten, Option.map_some]
  | value info => rw [Payload.kind, payload?, value?_json hwritten, Option.map_some]

end Payloads

private theorem declaration?_of_members {name : SimpleName} {visibility : Visibility}
    {modality : Modality} {expectation : Expectation} {payload : Payload} {members : List Source}
    {levels : Nat}
    (hmembers : (membersJson members).mapM (declaration? levels) = some members) :
    declaration? (levels + 1) (toJson (.mk name visibility modality expectation payload members)) =
      some (.mk name visibility modality expectation payload members) := by
  have hpayload :=
    payload?_json (writtenIn_toJson name visibility modality expectation payload members)
  obtain ⟨fields, hfields, hlookup⟩ := Fields.ofMembers?_gather ["name", "visibility", "modality",
    "expectation", "kind", "members"]
    (entries_distinct (.mk name visibility modality expectation payload members))
  have hname : fields.required? "name" name? = some name :=
    required?_entry (hlookup "name" (by decide)) rfl
  have hvisibility : fields.default? "visibility" .everyone (keyword? false) = some visibility :=
    keyword?_entry false (hlookup "visibility" (by decide))
  have hmodality : fields.default? "modality" .final (keyword? false) = some modality :=
    keyword?_entry false (hlookup "modality" (by decide))
  have hexpectation : fields.default? "expectation" .plain (keyword? false) = some expectation :=
    keyword?_entry false (hlookup "expectation" (by decide))
  have hkind : fields.required? "kind" kind? = some payload.kind :=
    required?_entry (hlookup "kind" (by decide)) (Keyword.Lawful.ofWord?_word payload.kind)
  have hlist : listField? fields "members" (declaration? levels) = some members := by
    refine listField?_entry ?_ hmembers
    have hnone : (payloadEntries payload).lookup "members" = none := by
      refine List.lookup_eq_none_iff.mpr fun entry hentry => bne_iff_ne.mpr fun hsame => ?_
      have hfield : "members" ∈ payloadNames payload.kind := by
        rw [← payloadEntries_names]
        exact List.mem_map.mpr ⟨entry, hentry, hsame.symm⟩
      have hnever : ∀ kind, "members" ∉ payloadNames kind := by
        intro kind
        cases kind <;> decide
      exact hnever payload.kind hfield
    rw [hlookup "members" (by decide), entries, List.lookup_append, List.lookup_append, hnone]
    rfl
  rw [toJson_eq] at hpayload ⊢
  simp only [declaration?, Fields.ofObject?, hfields, Option.bind_eq_bind, Option.bind_some, hname,
    hvisibility, hmodality, hexpectation, hkind, hpayload, hlist]
  rfl

mutual
/-- A declaration that was written is read with levels enough. -/
private theorem declaration?_json : ∀ (source : Source) {levels : Nat},
    (toJson source).height + 1 ≤ levels → declaration? levels (toJson source) = some source
  | .mk name visibility modality expectation payload members, levels, hlevels => by
    obtain ⟨levels, rfl⟩ : ∃ left, levels = left + 1 := Nat.exists_eq_add_one.mpr (by omega)
    refine declaration?_of_members (members_json members fun item hitem => ?_)
    have hentry : ("members", itemsEntry (membersJson members)) ∈
        entries (.mk name visibility modality expectation payload members) :=
      List.mem_append_right _ List.mem_cons_self
    have hheight := height_item hentry hitem
    rw [← toJson_eq] at hheight
    omega
private theorem members_json : ∀ (members : List Source) {levels : Nat},
    (∀ item ∈ membersJson members, item.height + 1 ≤ levels) →
    (membersJson members).mapM (declaration? levels) = some members
  | [], _, _ => rfl
  | member :: members, levels, hlevels => by
    rw [membersJson] at hlevels ⊢
    obtain ⟨hfirst, hrest⟩ := List.forall_mem_cons.mp hlevels
    rw [List.mapM_cons, declaration?_json member hfirst, members_json members hrest]
    rfl
end

/-- A source that was written is read as that source. -/
theorem ofJson?_json (source : Source) : ofJson? (toJson source) = some source :=
  declaration?_json source (Nat.le_refl _)

/-- Sources that were written are read as those sources. -/
theorem listOfJson?_json (sources : List Source) :
    listOfJson? (.array (membersJson sources)) = some sources := by
  rw [listOfJson?, membersJson_eq_map]
  exact mapM_written fun source _ => ofJson?_json source

end Declarations

end Source

end Concord
