import Concord.Output.Registry
import Concord.Proofs.Steps

namespace Concord

namespace PerOutput

variable {α : Type}

theorem get_set (values : PerOutput α) (output other : Output) (value : α) :
    (values.set output value).get other = if other = output then value else values.get other := by
  cases output <;> cases other <;> rfl

theorem get_set_self (values : PerOutput α) (output : Output) (value : α) :
    (values.set output value).get output = value := by
  rw [get_set, if_pos rfl]

theorem get_set_ne (values : PerOutput α) {output other : Output} (value : α)
    (hne : other ≠ output) : (values.set output value).get other = values.get other := by
  rw [get_set, if_neg hne]

theorem get_replicate (value : α) (output : Output) : (replicate value).get output = value := by
  cases output <;> rfl

end PerOutput

/-- Among the steps for all outputs, only the one for an output changes what is seen of it. -/
theorem Output.foldlM_all {ε σ β : Type} {step : σ → Output → Except ε σ} {view : σ → β}
    (output : Output) (hother : ∀ {before after : σ} {other : Output},
      step before other = .ok after → other ≠ output → view after = view before)
    {before after : σ} (hrun : Output.all.foldlM step before = .ok after) :
    ∃ middle done, view middle = view before ∧ step middle output = .ok done ∧
      view after = view done := by
  simp only [all, List.foldlM_cons] at hrun
  obtain ⟨one, hone, hrun⟩ := Except.bind_eq_ok.mp hrun
  obtain ⟨two, htwo, hrun⟩ := Except.bind_eq_ok.mp hrun
  obtain ⟨three, hthree, hrun⟩ := Except.bind_eq_ok.mp hrun
  cases hrun
  cases output with
  | first =>
    refine ⟨before, one, rfl, hone, ?_⟩
    rw [hother hthree nofun, hother htwo nofun]
  | common =>
    exact ⟨one, two, hother hone nofun, htwo, hother hthree nofun⟩
  | second =>
    refine ⟨two, after, ?_, hthree, rfl⟩
    rw [hother htwo nofun, hother hone nofun]

/-- Among the steps for all outputs, the one that fails sees of its output what there was before. -/
theorem Output.foldlM_all_error {ε σ β : Type} {step : σ → Output → Except ε σ}
    {view : σ → Output → β} (hother : ∀ {before after output other}, step before other = .ok after →
      other ≠ output → view after output = view before output)
    {before : σ} {error : ε} (herror : all.foldlM step before = .error error) :
    ∃ middle output, view middle output = view before output ∧ step middle output = .error error := by
  simp only [all, List.foldlM_cons] at herror
  obtain hfirst | ⟨one, hone, herror⟩ := Except.bind_eq_error.mp herror
  · exact ⟨before, .first, rfl, hfirst⟩
  obtain hcommon | ⟨two, htwo, herror⟩ := Except.bind_eq_error.mp herror
  · exact ⟨one, .common, hother hone nofun, hcommon⟩
  obtain hsecond | ⟨three, hthree, herror⟩ := Except.bind_eq_error.mp herror
  · have hlater : view two .second = view one .second := hother htwo nofun
    have hlater' : view one .second = view before .second := hother hone nofun
    exact ⟨two, .second, hlater.trans hlater', hsecond⟩
  · cases herror

/-- Steps for all outputs end as each step does, since each sees and changes only what belongs to
its output. -/
theorem Output.foldlM_all_ends {ε σ β : Type} {step : σ → Output → Except ε σ}
    {view : σ → Output → β} (Ready : Output → β → Prop) (Done : Output → β → β → Prop)
    (Fails : Output → ε → Prop)
    (hother : ∀ {before after output other}, step before other = .ok after → other ≠ output →
      view after output = view before output)
    (hstep : ∀ before output, Ready output (view before output) →
      (∃ after, step before output = .ok after ∧ Done output (view before output) (view after output)) ∨
        ∃ error, step before output = .error error ∧ Fails output error)
    (before : σ) (hready : ∀ output, Ready output (view before output)) :
    (∃ after, all.foldlM step before = .ok after ∧
        ∀ output, Done output (view before output) (view after output)) ∨
      ∃ output error, all.foldlM step before = .error error ∧ Fails output error := by
  cases hrun : all.foldlM step before with
  | ok after =>
    refine .inl ⟨after, rfl, fun output => ?_⟩
    obtain ⟨middle, done, hmiddle, hdone, hafter⟩ : ∃ middle done,
        view middle output = view before output ∧ step middle output = .ok done ∧
          view after output = view done output := foldlM_all output hother hrun
    obtain ⟨done', hdone', hends⟩ | ⟨error, herror, -⟩ :=
      hstep middle output (hmiddle ▸ hready output)
    · cases hdone.symm.trans hdone'
      rwa [hmiddle, ← hafter] at hends
    · cases hdone.symm.trans herror
  | error error =>
    obtain ⟨middle, output, hmiddle, hfails⟩ := foldlM_all_error hother hrun
    obtain ⟨after, hafter, -⟩ | ⟨error', herror, hends⟩ :=
      hstep middle output (hmiddle ▸ hready output)
    · cases hfails.symm.trans hafter
    · cases hfails.symm.trans herror
      exact .inr ⟨output, error, rfl, hends⟩

/-- Whether two kinds share a name space. Classes and type aliases do. -/
def Kind.shares (kind other : Kind) : Bool :=
  kind == other || kind.isClassifier && other.isClassifier

theorem NameSpace.get_put (names : NameSpace) (name other : QualifiedName)
    (placeholders : Placeholders) :
    (names.put name placeholders).get other =
      if other = name then placeholders else names.get other := by
  induction names with
  | nil =>
    by_cases hname : other = name
    · subst hname
      simp [put, get]
    · have hne : (other == name) = false := beq_eq_false_iff_ne.mpr hname
      simp [put, get, List.lookup_cons, hne, hname]
  | cons entry names ih =>
    obtain ⟨first, old⟩ := entry
    rw [put]
    by_cases hfirst : first = name
    · subst hfirst
      by_cases hname : other = first
      · subst hname
        simp [get]
      · have hne : (other == first) = false := beq_eq_false_iff_ne.mpr hname
        simp [get, List.lookup_cons, hne, hname]
    · rw [if_neg hfirst]
      by_cases hname : other = first
      · subst hname
        simp [get, hfirst]
      · have hne : (other == first) = false := beq_eq_false_iff_ne.mpr hname
        simp only [get, List.lookup_cons, hne] at ih ⊢
        exact ih

namespace Registry

variable {registry entered : Registry} {data : Data} {output : Output} {id : DeclId}

theorem find?_eq (kind : Kind) (name : QualifiedName) (output : Output) :
    registry.find? kind name output =
      (registry.names? kind).bind fun names => (names.get name).get output :=
  rfl

/-- Kinds that share a name space find the same. -/
theorem find?_of_shares {kind other : Kind} (hshares : kind.shares other = true)
    (name : QualifiedName) (output : Output) :
    registry.find? kind name output = registry.find? other name output := by
  have hspace : registry.names? kind = registry.names? other := by
    cases kind <;> cases other <;> first | rfl | cases hshares
  rw [find?_eq, hspace, find?_eq]

/-- Only registered kinds are found. -/
theorem isRegistered_of_find? {kind : Kind} {name : QualifiedName}
    (hfind : registry.find? kind name output = some id) : kind.isRegistered = true := by
  rw [find?_eq] at hfind
  cases kind <;> first | rfl | cases hfind

/-- Every registered kind has a name space. -/
theorem exists_names? {kind : Kind} (hregistered : kind.isRegistered = true) :
    ∃ names, registry.names? kind = some names := by
  cases kind <;> first | exact ⟨_, rfl⟩ | cases hregistered

theorem find?_empty (kind : Kind) (name : QualifiedName) (output : Output) :
    empty.find? kind name output = none := by
  cases kind <;> first | rfl | exact PerOutput.get_replicate none output

theorem names?_setNames {kind : Kind} {names : NameSpace} (hkind : kind.isRegistered = true)
    (other : Kind) : (registry.setNames kind names).names? other =
      if other.shares kind then some names else registry.names? other := by
  cases kind <;> cases other <;> first | rfl | cases hkind

/-- A placeholder is entered where its kind has a name space and its name is free. From then on it
is found, and whatever was found before is found as before. -/
theorem register_eq_ok : registry.register data output id = .ok entered ↔
    data.kind.isRegistered = true ∧ registry.find? data.kind data.qualifiedName output = none ∧
      ∃ names, registry.names? data.kind = some names ∧
        entered = registry.setNames data.kind (names.put data.qualifiedName
          ((names.get data.qualifiedName).set output (some id))) := by
  rw [find?_eq, register]
  cases hnames : registry.names? data.kind with
  | none =>
    cases hkind : data.kind <;> simp [hkind, names?] at hnames <;>
      simp [Kind.isRegistered, throw, throwThe, MonadExceptOf.throw]
  | some names =>
    have hkind : data.kind.isRegistered = true := by
      cases hkind : data.kind <;> first | rfl | simp [hkind, names?] at hnames
    simp only [hkind, true_and, Option.bind_some, Option.some.injEq, exists_eq_left']
    cases hfree : (names.get data.qualifiedName).get output with
    | none => simp [pure, Except.pure, eq_comm]
    | some other => simp [throw, throwThe, MonadExceptOf.throw, bind, Except.bind]

theorem find?_register (hregister : registry.register data output id = .ok entered) (kind : Kind)
    (name : QualifiedName) (other : Output) :
    entered.find? kind name other =
      if other = output ∧ name = data.qualifiedName ∧ kind.shares data.kind then some id
      else registry.find? kind name other := by
  obtain ⟨hkind, -, names, hnames, rfl⟩ := register_eq_ok.mp hregister
  rw [find?_eq, names?_setNames hkind]
  by_cases hshares : kind.shares data.kind = true
  · have hsame : registry.names? kind = some names := by
      rw [← hnames]
      cases hfirst : kind <;> cases hsecond : data.kind <;> rw [hfirst, hsecond] at hshares <;>
        first | rfl | cases hshares
    simp only [hshares, if_true, Option.bind_some, NameSpace.get_put, find?_eq, hsame, and_true]
    by_cases hname : name = data.qualifiedName
    · by_cases hother : other = output
      · simp [hname, hother, PerOutput.get_set]
      · simp [hname, hother, PerOutput.get_set]
    · simp [hname]
  · simp [hshares, find?_eq]

end Registry

end Concord
