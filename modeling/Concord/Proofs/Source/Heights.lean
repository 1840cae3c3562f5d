import Concord.Proofs.Source.Encoding
import Concord.Source.Decode

namespace Concord

namespace Source

open Json (EachField)

/-- What is written for a value stands no higher than what the value is read from. -/
def Lowers {α : Type} (read : Json → Option α) (write : α → Json) : Prop :=
  ∀ json a, read json = some a → (write a).height ≤ json.height

section Fields

variable {json : Json} {fields : Fields} {known : List String} {name : String} {α : Type}
  {read : Json → Option α} {write : α → Json}

/-- Texts and flags stand below every record. -/
private theorem leaves_below (hfields : Fields.ofRecord? known json = some fields) :
    OfLeaves (·.height < json.height) := by
  have hpositive : 0 < json.height := by
    cases json with
    | array items => exact Nat.succ_pos _
    | object members => exact Nat.succ_pos _
    | _ => cases hfields
  exact ⟨fun _ => hpositive, fun _ => hpositive⟩

private theorem required_below (hfields : Fields.ofRecord? known json = some fields)
    (hlowers : Lowers read write) {a : α} (hread : fields.required? name read = some a) :
    (write a).height < json.height := by
  obtain ⟨value, hvalue, hread⟩ := Option.bind_eq_some_iff.mp hread
  exact Nat.lt_of_le_of_lt (hlowers value a hread) (Fields.height_lt_of_ofRecord? hfields hvalue)

private theorem optional_below (hfields : Fields.ofRecord? known json = some fields)
    (hlowers : Lowers read write) {part : Option α} (hread : fields.optional? name read = some part) :
    ∀ a, part = some a → (write a).height < json.height := by
  rintro a rfl
  rw [Fields.optional?] at hread
  split at hread
  · cases hread
  · next value _ hvalue =>
    obtain ⟨b, hb, heq⟩ := Option.map_eq_some_iff.mp hread
    obtain rfl := Option.some.inj heq
    exact Nat.lt_of_le_of_lt (hlowers value b hb) (Fields.height_lt_of_ofRecord? hfields hvalue)
  · cases hread

/-- A list that is read item by item is written no higher. -/
private theorem lowers_items (hlowers : Lowers read write) {items : List Json} {parts : List α}
    (hread : items.mapM read = some parts) :
    (Json.array (parts.map write)).height ≤ (Json.array items).height := by
  rw [Json.height, Json.height, Nat.add_le_add_iff_right]
  induction items generalizing parts with
  | nil =>
    cases hread
    exact Nat.le_refl _
  | cons item items ih =>
    rw [List.mapM_cons] at hread
    obtain ⟨part, hpart, hread⟩ := Option.bind_eq_some_iff.mp hread
    obtain ⟨rest, hrest, heq⟩ := Option.bind_eq_some_iff.mp hread
    cases heq
    have hfirst := hlowers item part hpart
    have hothers := ih hrest
    rw [List.map_cons, Json.heightItems, Json.heightItems]
    omega

private theorem list_below (hfields : Fields.ofRecord? known json = some fields)
    (hlowers : Lowers read write) {parts : List α} (hread : listField? fields name read = some parts)
    (hparts : parts ≠ []) : (Json.array (parts.map write)).height < json.height := by
  rw [listField?, Fields.default?] at hread
  split at hread
  · next value hvalue =>
    cases value with
    | array items =>
      exact Nat.lt_of_le_of_lt (lowers_items hlowers hread)
        (Fields.height_lt_of_ofRecord? hfields hvalue)
    | _ => cases hread
  · cases hread
    exact absurd rfl hparts

/-- What is written for a record stands no higher than what the record is read from, if its parts
stand below that. -/
private theorem record_height {entries : List (String × Option Json)}
    (hfields : Fields.ofRecord? known json = some fields)
    (hentries : EachField (·.height < json.height) entries) :
    (Json.object (Json.gather entries)).height ≤ json.height :=
  hentries.height_le ((leaves_below hfields).bool true)

end Fields

section Types

/-- A type argument is written no higher than it is read. -/
private theorem lowers_argument {read : Json → Option (Ty Spelling)}
    (hlowers : Lowers read typeJson) : Lowers (argument? read) argumentJson := by
  intro json argument hread
  rw [argument?.eq_def] at hread
  split at hread
  · cases hread
    exact Nat.zero_le _
  · cases hread
    exact Nat.zero_le _
  · next value =>
    obtain ⟨fields, hfields, hread⟩ := Option.bind_eq_some_iff.mp hread
    obtain ⟨variance, -, hread⟩ := Option.bind_eq_some_iff.mp hread
    obtain ⟨type, htype, heq⟩ := Option.bind_eq_some_iff.mp hread
    cases heq
    have hparts : EachField (·.height < value.height) (projectionEntries variance type) :=
      eachField_projection (leaves_below hfields) (required_below hfields hlowers htype)
    have hvalue := record_height hfields hparts
    rw [argumentJson]
    simp only [Json.height, Json.heightMembers] at hvalue ⊢
    omega
  · cases hread

/-- Types and simple types are written no higher than they are read, with any number of levels. -/
private theorem lowers_levels (levels : Nat) :
    Lowers (type? levels) typeJson ∧ Lowers (simple? levels) simpleJson := by
  induction levels with
  | zero => exact ⟨nofun, nofun⟩
  | succ levels ih =>
    obtain ⟨htypes, hsimples⟩ := ih
    refine ⟨fun json type hread => ?_, fun json type hread => ?_⟩
    · rw [type?] at hread
      split at hread
      · next range hrange =>
        obtain rfl := Option.some.inj hread
        obtain ⟨fields, hfields, hrange⟩ := Option.bind_eq_some_iff.mp hrange
        obtain ⟨lower, hlower, hrange⟩ := Option.bind_eq_some_iff.mp hrange
        obtain ⟨upper, hupper, heq⟩ := Option.bind_eq_some_iff.mp hrange
        cases heq
        have hfields := Fields.ofRecord?_of_ofObject? hfields
        rw [rangeJson_eq]
        exact record_height hfields (.present (required_below hfields hsimples hlower)
          (.present (required_below hfields hsimples hupper) .nil))
      · obtain ⟨simple, hsimple, rfl⟩ := Option.map_eq_some_iff.mp hread
        exact hsimples json simple hsimple
    · obtain ⟨fields, hfields, hread⟩ := Option.bind_eq_some_iff.mp hread
      obtain ⟨classifier, -, hread⟩ := Option.bind_eq_some_iff.mp hread
      obtain ⟨typeParameter, -, hread⟩ := Option.bind_eq_some_iff.mp hread
      obtain ⟨arguments, harguments, hread⟩ := Option.bind_eq_some_iff.mp hread
      obtain ⟨nullable, -, hread⟩ := Option.bind_eq_some_iff.mp hread
      obtain ⟨notNull, -, hread⟩ := Option.bind_eq_some_iff.mp hread
      obtain ⟨abbreviation, habbreviation, heq⟩ := Option.bind_eq_some_iff.mp hread
      cases heq
      rw [simpleJson_eq]
      exact record_height hfields (eachField_simple (leaves_below hfields)
        (list_below hfields (lowers_argument htypes) harguments)
        (optional_below hfields hsimples habbreviation))

private theorem lowers_type : Lowers typeOfJson? typeJson :=
  fun json => (lowers_levels (2 * json.height + 2)).1 json

end Types

section Records

private theorem lowers_typeParameter : Lowers typeParameter? typeParameterJson := by
  intro json parameter hread
  obtain ⟨fields, hfields, hread⟩ := Option.bind_eq_some_iff.mp hread
  obtain ⟨name, -, hread⟩ := Option.bind_eq_some_iff.mp hread
  obtain ⟨variance, -, hread⟩ := Option.bind_eq_some_iff.mp hread
  obtain ⟨bounds, hbounds, hread⟩ := Option.bind_eq_some_iff.mp hread
  obtain ⟨reified, -, heq⟩ := Option.bind_eq_some_iff.mp hread
  cases heq
  rw [typeParameterJson_eq]
  exact record_height hfields (eachField_typeParameter (leaves_below hfields)
    (list_below hfields lowers_type hbounds))

private theorem lowers_parameter : Lowers parameter? parameterJson := by
  intro json parameter hread
  obtain ⟨fields, hfields, hread⟩ := Option.bind_eq_some_iff.mp hread
  obtain ⟨name, -, hread⟩ := Option.bind_eq_some_iff.mp hread
  obtain ⟨type, htype, hread⟩ := Option.bind_eq_some_iff.mp hread
  obtain ⟨vararg, -, hread⟩ := Option.bind_eq_some_iff.mp hread
  obtain ⟨default, -, heq⟩ := Option.bind_eq_some_iff.mp hread
  cases heq
  rw [parameterJson_eq]
  exact record_height hfields (eachField_parameter (leaves_below hfields)
    (required_below hfields lowers_type htype))

private theorem lowers_constructor : Lowers constructor? constructorJson := by
  intro json constructor hread
  obtain ⟨fields, hfields, hread⟩ := Option.bind_eq_some_iff.mp hread
  obtain ⟨primary, -, hread⟩ := Option.bind_eq_some_iff.mp hread
  obtain ⟨visibility, -, hread⟩ := Option.bind_eq_some_iff.mp hread
  obtain ⟨parameters, hparameters, heq⟩ := Option.bind_eq_some_iff.mp hread
  cases heq
  rw [constructorJson_eq]
  exact record_height hfields (eachField_constructor (leaves_below hfields)
    (list_below hfields lowers_parameter hparameters))

private theorem lowers_accessor : Lowers accessor? accessorJson := by
  intro json accessor hread
  obtain ⟨fields, hfields, -⟩ := Option.bind_eq_some_iff.mp hread
  rw [accessorJson_eq]
  exact record_height hfields (eachField_accessor (leaves_below hfields) accessor)

end Records

section Payloads

variable {json : Json}

private theorem class_below {info : ClassInfo Spelling} (hread : class? json = some info) :
    EachField (·.height < json.height) (payloadEntries (.classType info)) := by
  obtain ⟨fields, hfields, hread⟩ := Option.bind_eq_some_iff.mp hread
  obtain ⟨classKind, -, hread⟩ := Option.bind_eq_some_iff.mp hread
  obtain ⟨isInline, -, hread⟩ := Option.bind_eq_some_iff.mp hread
  obtain ⟨isData, -, hread⟩ := Option.bind_eq_some_iff.mp hread
  obtain ⟨isInner, -, hread⟩ := Option.bind_eq_some_iff.mp hread
  obtain ⟨isCompanion, -, hread⟩ := Option.bind_eq_some_iff.mp hread
  obtain ⟨isExternal, -, hread⟩ := Option.bind_eq_some_iff.mp hread
  obtain ⟨parameters, hparameters, hread⟩ := Option.bind_eq_some_iff.mp hread
  obtain ⟨supertypes, hsupertypes, hread⟩ := Option.bind_eq_some_iff.mp hread
  obtain ⟨constructors, hconstructors, heq⟩ := Option.bind_eq_some_iff.mp hread
  cases heq
  have hfields := Fields.ofRecord?_of_ofObject? hfields
  exact eachField_class (leaves_below hfields) (list_below hfields lowers_typeParameter hparameters)
    (list_below hfields lowers_type hsupertypes)
    (list_below hfields lowers_constructor hconstructors)

private theorem function_below {info : FunctionInfo Spelling} (hread : function? json = some info) :
    EachField (·.height < json.height) (payloadEntries (.function info)) := by
  obtain ⟨fields, hfields, hread⟩ := Option.bind_eq_some_iff.mp hread
  obtain ⟨returnType, hreturn, hread⟩ := Option.bind_eq_some_iff.mp hread
  obtain ⟨receiver, hreceiver, hread⟩ := Option.bind_eq_some_iff.mp hread
  obtain ⟨parameters, hparameters, hread⟩ := Option.bind_eq_some_iff.mp hread
  obtain ⟨isSuspend, -, hread⟩ := Option.bind_eq_some_iff.mp hread
  obtain ⟨isExternal, -, hread⟩ := Option.bind_eq_some_iff.mp hread
  obtain ⟨isInline, -, hread⟩ := Option.bind_eq_some_iff.mp hread
  obtain ⟨isOperator, -, heq⟩ := Option.bind_eq_some_iff.mp hread
  cases heq
  have hfields := Fields.ofRecord?_of_ofObject? hfields
  exact eachField_function (leaves_below hfields) (required_below hfields lowers_type hreturn)
    (optional_below hfields lowers_type hreceiver)
    (list_below hfields lowers_typeParameter hparameters)

private theorem property_below {info : PropertyInfo Spelling} (hread : property? json = some info) :
    EachField (·.height < json.height) (payloadEntries (.property info)) := by
  obtain ⟨fields, hfields, hread⟩ := Option.bind_eq_some_iff.mp hread
  obtain ⟨type, htype, hread⟩ := Option.bind_eq_some_iff.mp hread
  obtain ⟨receiver, hreceiver, hread⟩ := Option.bind_eq_some_iff.mp hread
  obtain ⟨parameters, hparameters, hread⟩ := Option.bind_eq_some_iff.mp hread
  obtain ⟨isVar, -, hread⟩ := Option.bind_eq_some_iff.mp hread
  obtain ⟨isConst, -, hread⟩ := Option.bind_eq_some_iff.mp hread
  obtain ⟨isLateinit, -, hread⟩ := Option.bind_eq_some_iff.mp hread
  obtain ⟨isExternal, -, hread⟩ := Option.bind_eq_some_iff.mp hread
  obtain ⟨getter, hgetter, hread⟩ := Option.bind_eq_some_iff.mp hread
  obtain ⟨setter, hsetter, heq⟩ := Option.bind_eq_some_iff.mp hread
  cases heq
  have hfields := Fields.ofRecord?_of_ofObject? hfields
  exact eachField_property (leaves_below hfields) (required_below hfields lowers_type htype)
    (optional_below hfields lowers_type hreceiver)
    (list_below hfields lowers_typeParameter hparameters)
    (optional_below hfields lowers_accessor hgetter)
    (optional_below hfields lowers_accessor hsetter)

private theorem alias_below {info : AliasInfo} (hread : alias? json = some info) :
    EachField (·.height < json.height) (payloadEntries (.typeAlias info)) := by
  obtain ⟨fields, hfields, hread⟩ := Option.bind_eq_some_iff.mp hread
  obtain ⟨underlying, hunderlying, hread⟩ := Option.bind_eq_some_iff.mp hread
  obtain ⟨expanded, hexpanded, hread⟩ := Option.bind_eq_some_iff.mp hread
  obtain ⟨parameters, hparameters, heq⟩ := Option.bind_eq_some_iff.mp hread
  cases heq
  have hfields := Fields.ofRecord?_of_ofObject? hfields
  exact eachField_alias (required_below hfields lowers_type hunderlying)
    (optional_below hfields lowers_type hexpanded)
    (list_below hfields lowers_typeParameter hparameters)

private theorem value_below {info : ValueInfo Spelling} (hread : value? json = some info) :
    EachField (·.height < json.height) (payloadEntries (.value info)) := by
  obtain ⟨fields, hfields, hread⟩ := Option.bind_eq_some_iff.mp hread
  obtain ⟨type, htype, hread⟩ := Option.bind_eq_some_iff.mp hread
  obtain ⟨isVararg, -, hread⟩ := Option.bind_eq_some_iff.mp hread
  obtain ⟨hasDefault, -, heq⟩ := Option.bind_eq_some_iff.mp hread
  cases heq
  have hfields := Fields.ofRecord?_of_ofObject? hfields
  exact eachField_value (leaves_below hfields) (required_below hfields lowers_type htype)

/-- The parts of a payload stand below the declaration that it is read from. -/
private theorem payload_below {kind : Kind} {payload : Payload}
    (hleaves : OfLeaves (·.height < json.height)) (hread : payload? kind json = some payload) :
    EachField (·.height < json.height) (payloadEntries payload) := by
  cases kind with
  | module =>
    obtain ⟨info, -, rfl⟩ := Option.map_eq_some_iff.mp hread
    exact eachField_module hleaves info
  | package =>
    cases hread
    exact .nil
  | classType =>
    obtain ⟨info, hinfo, rfl⟩ := Option.map_eq_some_iff.mp hread
    exact class_below hinfo
  | function =>
    obtain ⟨info, hinfo, rfl⟩ := Option.map_eq_some_iff.mp hread
    exact function_below hinfo
  | property =>
    obtain ⟨info, hinfo, rfl⟩ := Option.map_eq_some_iff.mp hread
    exact property_below hinfo
  | typeAlias =>
    obtain ⟨info, hinfo, rfl⟩ := Option.map_eq_some_iff.mp hread
    exact alias_below hinfo
  | value =>
    obtain ⟨info, hinfo, rfl⟩ := Option.map_eq_some_iff.mp hread
    exact value_below hinfo

end Payloads

private theorem lowers_declaration (levels : Nat) : Lowers (declaration? levels) toJson := by
  induction levels with
  | zero => exact nofun
  | succ levels ih =>
    intro json source hread
    obtain ⟨fields, hfields, hread⟩ := Option.bind_eq_some_iff.mp hread
    obtain ⟨name, -, hread⟩ := Option.bind_eq_some_iff.mp hread
    obtain ⟨visibility, -, hread⟩ := Option.bind_eq_some_iff.mp hread
    obtain ⟨modality, -, hread⟩ := Option.bind_eq_some_iff.mp hread
    obtain ⟨expectation, -, hread⟩ := Option.bind_eq_some_iff.mp hread
    obtain ⟨kind, -, hread⟩ := Option.bind_eq_some_iff.mp hread
    obtain ⟨payload, hpayload, hread⟩ := Option.bind_eq_some_iff.mp hread
    obtain ⟨members, hmembers, heq⟩ := Option.bind_eq_some_iff.mp hread
    cases heq
    have hfields := Fields.ofRecord?_of_ofObject? hfields
    have hleaves := leaves_below hfields
    rw [toJson_eq]
    exact record_height hfields (eachField_source hleaves (payload_below hleaves hpayload)
      (list_below hfields ih hmembers))

/-- What is written for a source stands no higher than the value that the source is read from. -/
theorem height_of_ofJson? {json : Json} {source : Source} (hread : ofJson? json = some source) :
    (toJson source).height ≤ json.height :=
  lowers_declaration _ json source hread

/-- How high a document stands once its declarations are in a list: one that stands there alone is
moved down one level. -/
def heightAsList : Json → Nat
  | .array items => (Json.array items).height
  | json => json.height + 1

/-- What is written for the sources of a document stands no higher than the document as a list. -/
theorem height_of_listOfJson? {json : Json} {sources : List Source}
    (hread : listOfJson? json = some sources) :
    (Json.array (membersJson sources)).height ≤ heightAsList json := by
  have halone (hread : (ofJson? json).map ([·]) = some sources) :
      (Json.array (membersJson sources)).height ≤ json.height + 1 := by
    obtain ⟨source, hsource, rfl⟩ := Option.map_eq_some_iff.mp hread
    have hheight := height_of_ofJson? hsource
    simp only [membersJson, Json.height, Json.heightItems]
    omega
  cases json with
  | array items =>
    rw [membersJson_eq_map]
    exact lowers_items (fun _ _ => height_of_ofJson?) hread
  | _ => exact halone hread

end Source

end Concord
