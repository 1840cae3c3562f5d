import Concord.Json.Record
import Concord.Proofs.Json.Reading

namespace Concord

namespace Json

/-- The members of an object: the fields that are present. -/
def gather (entries : List (String × Option Json)) : List (String × Json) :=
  entries.filterMap fun entry => entry.2.map (entry.1, ·)

section Gather

variable {entries : List (String × Option Json)} {name : String}

theorem gather_append (entries others : List (String × Option Json)) :
    gather (entries ++ others) = gather entries ++ gather others :=
  List.filterMap_append

private theorem gather_cons (name : String) (value : Option Json) :
    gather ((name, value) :: entries) = (value.map (name, ·)).toList ++ gather entries := by
  cases value <;> rfl

/-- The names of the fields that are present are among the names of all. -/
theorem gather_names (entries : List (String × Option Json)) :
    ((gather entries).map Prod.fst).Sublist (entries.map Prod.fst) := by
  induction entries with
  | nil => exact .slnil
  | cons entry entries ih =>
    obtain ⟨name, value⟩ := entry
    cases value with
    | none => exact ih.cons name
    | some value => exact ih.cons_cons name

/-- What stands for a name is what the field of that name holds. -/
theorem lookup_gather (hdistinct : (entries.map Prod.fst).Nodup) (name : String) :
    (gather entries).lookup name = (entries.lookup name).join := by
  induction entries with
  | nil => rfl
  | cons entry entries ih =>
    obtain ⟨other, value⟩ := entry
    obtain ⟨hfresh, hdistinct⟩ := List.nodup_cons.mp hdistinct
    rw [gather_cons, List.lookup_append, ih hdistinct, List.lookup_cons]
    by_cases hname : name = other
    · subst hname
      have hnone : entries.lookup name = none := List.lookup_eq_none_iff.mpr fun entry hentry =>
        bne_iff_ne.mpr fun hsame => hfresh (List.mem_map.mpr ⟨entry, hentry, hsame.symm⟩)
      cases value <;> simp [hnone]
    · have hother : (name == other) = false := beq_eq_false_iff_ne.mpr hname
      cases value <;> simp [hother, List.lookup_cons]

/-- What the fields hold stands lower than the object. -/
theorem height_lt_of_mem {value : Json} (hmem : (name, some value) ∈ entries) :
    value.height < (object (gather entries)).height := by
  have hgathered : (name, value) ∈ gather entries := List.mem_filterMap.mpr ⟨_, hmem, rfl⟩
  rw [height, Nat.lt_succ_iff]
  exact heightMembers_le.mp (Nat.le_refl _) _ hgathered

theorem height_lt_of_mem_array {items : List Json} {item : Json} (hitem : item ∈ items) :
    item.height < (array items).height := by
  rw [height, Nat.lt_succ_iff]
  exact heightItems_le.mp (Nat.le_refl _) item hitem

end Gather

/-- What holds of the values of all fields that are present. -/
def EachField (P : Json → Prop) (entries : List (String × Option Json)) : Prop :=
  ∀ entry ∈ entries, ∀ value, entry.2 = some value → P value

namespace EachField

variable {P : Json → Prop} {entries others : List (String × Option Json)} {name : String}
  {field : Option Json}

theorem nil : EachField P [] := nofun

theorem cons (hfield : ∀ value, field = some value → P value) (hrest : EachField P entries) :
    EachField P ((name, field) :: entries) :=
  List.forall_mem_cons.mpr ⟨hfield, hrest⟩

/-- A field that is always present. -/
theorem present {value : Json} (hvalue : P value) (hrest : EachField P entries) :
    EachField P ((name, some value) :: entries) :=
  cons (fun _ heq => Option.some.inj heq ▸ hvalue) hrest

/-- A field that is present if some part is. -/
theorem optional {α : Type} {write : α → Json} {part : Option α}
    (hpart : ∀ a, part = some a → P (write a)) (hrest : EachField P entries) :
    EachField P ((name, part.map write) :: entries) := by
  refine cons (fun value hvalue => ?_) hrest
  obtain ⟨a, ha, rfl⟩ := Option.map_eq_some_iff.mp hvalue
  exact hpart a ha

theorem append (hentries : EachField P entries) (hothers : EachField P others) :
    EachField P (entries ++ others) := by
  intro entry hentry
  obtain hentry | hentry := List.mem_append.mp hentry
  · exact hentries entry hentry
  · exact hothers entry hentry

/-- An object stands no higher than its fields allow. -/
theorem height_le {bound : Nat} (hentries : EachField (·.height < bound) entries)
    (hbound : 0 < bound) : (object (gather entries)).height ≤ bound := by
  obtain ⟨bound, rfl⟩ := Nat.exists_eq_add_one.mpr hbound
  rw [height, Nat.add_le_add_iff_right]
  refine heightMembers_le.mpr fun member hmember => ?_
  obtain ⟨entry, hentry, hpresent⟩ := List.mem_filterMap.mp hmember
  obtain ⟨value, hvalue, rfl⟩ := Option.map_eq_some_iff.mp hpresent
  exact Nat.le_of_lt_succ (hentries entry hentry value hvalue)

/-- There is no number in an object if there is none in its fields. -/
theorem isNumberless (hentries : EachField (·.isNumberless = true) entries) :
    (object (gather entries)).isNumberless = true := by
  rw [Json.isNumberless]
  induction entries with
  | nil => rfl
  | cons entry entries ih =>
    obtain ⟨hfirst, hrest⟩ := List.forall_mem_cons.mp hentries
    obtain ⟨name, _ | value⟩ := entry
    · exact ih hrest
    · exact Bool.and_eq_true_iff.mpr ⟨hfirst value rfl, ih hrest⟩

end EachField

theorem areNumberless_iff {items : List Json} :
    areNumberless items = true ↔ ∀ item ∈ items, item.isNumberless = true := by
  induction items with
  | nil => exact iff_of_true rfl nofun
  | cons item items ih => rw [areNumberless, Bool.and_eq_true, ih, List.forall_mem_cons]

end Json

namespace Fields

open Json (gather)

variable {known : List String} {name : String}

/-- Among the known members the same stands for a name as among all. -/
private theorem lookup_filter (hname : name ∈ known) (members : List (String × Json)) :
    (members.filter fun member => known.contains member.1).lookup name = members.lookup name := by
  induction members with
  | nil => rfl
  | cons member members ih =>
    obtain ⟨other, value⟩ := member
    rw [List.filter_cons]
    by_cases hknown : known.contains other = true
    · rw [if_pos hknown, List.lookup_cons, List.lookup_cons, ih]
    · have hne : (name == other) = false := by
        refine beq_eq_false_iff_ne.mpr ?_
        rintro rfl
        exact hknown (List.contains_iff_mem.mpr hname)
      rw [if_neg hknown, List.lookup_cons, hne, ih]

/-- The fields of an object that is written with distinct names are read. -/
theorem ofMembers?_gather (known : List String) {entries : List (String × Option Json)}
    (hdistinct : (entries.map Prod.fst).Nodup) : ∃ fields,
      ofMembers? known (gather entries) = some fields ∧
      ∀ name ∈ known, fields.lookup name = (entries.lookup name).join := by
  have hnames := (Json.gather_names entries).nodup hdistinct
  have hfields : (((gather entries).filter fun member => known.contains member.1).map
      Prod.fst).Nodup := (List.filter_sublist.map Prod.fst).nodup hnames
  refine ⟨_, if_pos hfields, fun name hname => ?_⟩
  rw [lookup_filter hname, Json.lookup_gather hdistinct]

private theorem mem_of_lookup {fields : Fields} {value : Json}
    (hvalue : fields.lookup name = some value) : (name, value) ∈ fields := by
  obtain ⟨before, after, rfl, -⟩ := List.lookup_eq_some_iff.mp hvalue
  exact List.mem_append_right _ List.mem_cons_self

/-- What is read for a name stands lower than the record. -/
theorem height_lt_of_ofRecord? {json value : Json} {fields : Fields}
    (hfields : ofRecord? known json = some fields) (hvalue : fields.lookup name = some value) :
    value.height < json.height := by
  cases json with
  | object members =>
    rw [ofRecord?, ofMembers?] at hfields
    split at hfields
    · cases hfields
      have hmember := (List.mem_filter.mp (mem_of_lookup hvalue)).1
      rw [Json.height, Nat.lt_succ_iff]
      exact Json.heightMembers_le.mp (Nat.le_refl _) _ hmember
    · cases hfields
  | array items =>
    rw [ofRecord?] at hfields
    split at hfields
    · cases hfields
      exact Json.height_lt_of_mem_array (List.of_mem_zip (mem_of_lookup hvalue)).2
    · cases hfields
  | _ => cases hfields

/-- What must be an object may be any record. -/
theorem ofRecord?_of_ofObject? {json : Json} {fields : Fields}
    (hfields : ofObject? known json = some fields) : ofRecord? known json = some fields := by
  cases json with
  | object members => exact hfields
  | _ => cases hfields

end Fields

end Concord
