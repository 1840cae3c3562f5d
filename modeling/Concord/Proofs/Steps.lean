namespace Except

variable {ε δ α β : Type} {error : ε}

theorem bind_eq_ok {step : Except ε α} {next : α → Except ε β} {result : β} :
    step >>= next = .ok result ↔ ∃ middle, step = .ok middle ∧ next middle = .ok result := by
  cases step with
  | error error => simp [bind, Except.bind]
  | ok middle => simp [bind, Except.bind]

theorem bind_eq_error {step : Except ε α} {next : α → Except ε β} :
    step >>= next = .error error ↔
      step = .error error ∨ ∃ middle, step = .ok middle ∧ next middle = .error error := by
  cases step with
  | error other => simp [bind, Except.bind]
  | ok middle => simp [bind, Except.bind]

theorem map_eq_error {step : Except ε α} {f : α → β} :
    step.map f = .error error ↔ step = .error error := by
  cases step with
  | error other => simp [Except.map]
  | ok middle => simp [Except.map]

theorem pure_eq_ok {value result : α} :
    (pure value : Except ε α) = .ok result ↔ value = result := by
  simp [pure, Except.pure]

theorem toOption_eq_some {step : Except ε α} {result : α} :
    step.toOption = some result ↔ step = .ok result := by
  cases step with
  | ok value => rw [Except.toOption, Option.some_inj, ok.injEq]
  | error error => simp [Except.toOption]

/-- A step that gives a result. -/
def Succeeds (step : Except ε α) : Prop :=
  ∃ result, step = .ok result

theorem succeeds_of_isOk {step : Except ε α} (hok : step.isOk = true) : step.Succeeds := by
  cases step with
  | ok result => exact ⟨result, rfl⟩
  | error error => cases hok

theorem not_succeeds {step : Except ε α} : ¬step.Succeeds ↔ ∃ error, step = .error error := by
  cases step with
  | ok result => simp [Succeeds]
  | error error => simp [Succeeds]

theorem succeeds_pure {result : α} : (pure result : Except ε α).Succeeds :=
  ⟨result, rfl⟩

/-- A step behind another succeeds when both do, if it matters only that the first one gives
something. -/
theorem succeeds_bind_of_ok {step : Except ε α} {next : α → Except ε β} {P : Prop}
    (hnext : ∀ middle, step = .ok middle → ((next middle).Succeeds ↔ P)) :
    (step >>= next).Succeeds ↔ step.Succeeds ∧ P := by
  constructor
  · rintro ⟨result, hrun⟩
    obtain ⟨middle, hmiddle, hresult⟩ := bind_eq_ok.mp hrun
    exact ⟨⟨middle, hmiddle⟩, (hnext middle hmiddle).mp ⟨result, hresult⟩⟩
  · rintro ⟨⟨middle, hmiddle⟩, hP⟩
    obtain ⟨result, hresult⟩ := (hnext middle hmiddle).mpr hP
    exact ⟨result, bind_eq_ok.mpr ⟨middle, hmiddle, hresult⟩⟩

/-- A step behind another succeeds when both do, if it does not matter what the first one gives. -/
theorem succeeds_bind {step : Except ε α} {next : α → Except ε β} {P : Prop}
    (hnext : ∀ middle, (next middle).Succeeds ↔ P) :
    (step >>= next).Succeeds ↔ step.Succeeds ∧ P :=
  succeeds_bind_of_ok fun middle _ => hnext middle

theorem succeeds_map {step : Except ε α} {f : α → β} :
    (do return f (← step)).Succeeds ↔ step.Succeeds :=
  (succeeds_bind fun _ => iff_true_intro succeeds_pure).trans (and_iff_left trivial)

theorem succeeds_mapM {step : α → Except ε β} {items : List α} :
    (items.mapM step).Succeeds ↔ ∀ item ∈ items, (step item).Succeeds := by
  induction items with
  | nil => exact iff_of_true succeeds_pure nofun
  | cons item items ih =>
    rw [List.mapM_cons, List.forall_mem_cons, ← ih]
    exact succeeds_bind fun _ => succeeds_map

/-- Steps that go on from each other succeed when each does, if it does not matter where it starts. -/
theorem succeeds_foldlM {step : β → α → Except ε β} {P : α → Prop}
    (hstep : ∀ start item, (step start item).Succeeds ↔ P item) {items : List α} {start : β} :
    (items.foldlM step start).Succeeds ↔ ∀ item ∈ items, P item := by
  induction items generalizing start with
  | nil => exact iff_of_true succeeds_pure nofun
  | cons item items ih =>
    rw [List.foldlM_cons, List.forall_mem_cons, ← hstep start item]
    exact succeeds_bind fun _ => ih

/-- Every error of a step is of some sort. -/
def Errs (Q : ε → Prop) (step : Except ε α) : Prop :=
  ∀ error, step = .error error → Q error

section Errs

variable {Q : ε → Prop}

theorem errs_pure {result : α} : (pure result : Except ε α).Errs Q :=
  nofun

theorem errs_bind {step : Except ε α} {next : α → Except ε β} (hstep : step.Errs Q)
    (hnext : ∀ middle, (next middle).Errs Q) : (step >>= next).Errs Q := by
  intro error herror
  obtain herror | ⟨middle, -, herror⟩ := bind_eq_error.mp herror
  · exact hstep error herror
  · exact hnext middle error herror

theorem errs_map {step : Except ε α} {f : α → β} (hstep : step.Errs Q) :
    (do return f (← step)).Errs Q :=
  errs_bind hstep fun _ => errs_pure

theorem errs_mapM {step : α → Except ε β} {items : List α}
    (hstep : ∀ item ∈ items, (step item).Errs Q) : (items.mapM step).Errs Q := by
  induction items with
  | nil => exact errs_pure
  | cons item items ih =>
    rw [List.mapM_cons]
    obtain ⟨hitem, hitems⟩ := List.forall_mem_cons.mp hstep
    exact errs_bind hitem fun _ => errs_map (ih hitems)

end Errs

/-- A step behind a refusal succeeds when nothing is refused. -/
theorem refusal_eq_ok {refused : Prop} [Decidable refused] {next : α → Except ε β}
    {step : Except ε β} {result : β} :
    (if refused then (throw error : Except ε α) >>= next else step) = .ok result ↔
      ¬refused ∧ step = .ok result := by
  split
  · next hrefused => simp [hrefused, throw, throwThe, MonadExceptOf.throw, bind, Except.bind]
  · next hrefused => simp [hrefused]

@[simp] theorem mapError_error {f : ε → δ} (error : ε) :
    (.error error : Except ε α).mapError f = .error (f error) :=
  rfl

@[simp] theorem mapError_ok {f : ε → δ} (result : α) :
    (.ok result : Except ε α).mapError f = .ok result :=
  rfl

theorem mapError_eq_ok {step : Except ε α} {f : ε → δ} {result : α} :
    step.mapError f = .ok result ↔ step = .ok result := by
  cases step with
  | error error => simp
  | ok middle => simp

/-- Where steps over a list succeed, they are a map. -/
theorem map_of_mapM {γ : Type} {step : α → Except ε β} {g : β → γ} {h : α → γ} {items : List α}
    {results : List β} (hrun : items.mapM step = .ok results)
    (hstep : ∀ item result, step item = .ok result → g result = h item) :
    results.map g = items.map h := by
  induction items generalizing results with
  | nil =>
    cases hrun
    rfl
  | cons item items ih =>
    rw [List.mapM_cons] at hrun
    obtain ⟨result, hresult, hrun⟩ := bind_eq_ok.mp hrun
    obtain ⟨others, hothers, hresults⟩ := bind_eq_ok.mp hrun
    cases hresults
    rw [List.map_cons, List.map_cons, hstep item result hresult, ih hothers]

/-- What every step keeps holds after all of them. -/
theorem foldlM_keeps {P : β → Prop} {step : β → α → Except ε β} {items : List α}
    (hstep : ∀ before item after, item ∈ items → P before → step before item = .ok after → P after)
    {before after : β} (hbefore : P before) (hrun : items.foldlM step before = .ok after) :
    P after := by
  induction items generalizing before with
  | nil =>
    cases hrun
    exact hbefore
  | cons item items ih =>
    rw [List.foldlM_cons] at hrun
    obtain ⟨middle, hmiddle, hrun⟩ := bind_eq_ok.mp hrun
    refine ih (fun before item after hitem => hstep before item after ?_) ?_ hrun
    · exact List.mem_cons_of_mem _ hitem
    · exact hstep before item middle List.mem_cons_self hbefore hmiddle

/-- Two steps that fail with the same error, or give results that are alike. -/
inductive Alike (R : α → β → Prop) : Except ε α → Except ε β → Prop
  | error (error : ε) : Alike R (.error error) (.error error)
  | ok {a : α} {b : β} (hR : R a b) : Alike R (.ok a) (.ok b)

namespace Alike

variable {γ : Type} {R : α → β → Prop} {S : γ → δ → Prop}

theorem refl (x : Except ε α) : Alike Eq x x := by
  cases x with
  | error error => exact .error error
  | ok a => exact .ok rfl

/-- Behind the same step, it is enough to go on alike. -/
theorem after (x : Except ε α) {f : α → Except ε γ} {g : α → Except ε δ}
    (hnext : ∀ a, Alike S (f a) (g a)) : Alike S (x >>= f) (x >>= g) := by
  cases x with
  | error error => exact .error error
  | ok a => exact hnext a

theorem bind {x : Except ε α} {y : Except ε β} {f : α → Except ε γ} {g : β → Except ε δ}
    (hfirst : Alike R x y) (hnext : ∀ a b, R a b → Alike S (f a) (g b)) :
    Alike S (x >>= f) (y >>= g) := by
  cases hfirst with
  | error error => exact .error error
  | ok hR => exact hnext _ _ hR

theorem ite {x x' : Except ε α} {y y' : Except ε β} {test : Prop} [Decidable test]
    (hx : Alike R x y) (hx' : Alike R x' y') :
    Alike R (if test then x else x') (if test then y else y') := by
  split
  · exact hx
  · exact hx'

theorem mapError {ε' : Type} {x : Except ε α} {y : Except ε β} (f : ε → ε') (halike : Alike R x y) :
    Alike R (x.mapError f) (y.mapError f) := by
  cases halike with
  | error error => exact .error (f error)
  | ok hR => exact .ok hR

theorem foldlM {σ σ' : Type} {R : σ → σ' → Prop} {step : σ → γ → Except ε σ}
    {step' : σ' → γ → Except ε σ'}
    (hstep : ∀ a b item, R a b → Alike R (step a item) (step' b item)) (items : List γ) {a : σ}
    {b : σ'} (hR : R a b) : Alike R (items.foldlM step a) (items.foldlM step' b) := by
  induction items generalizing a b with
  | nil => exact .ok hR
  | cons item items ih =>
    rw [List.foldlM_cons, List.foldlM_cons]
    exact (hstep a b item hR).bind fun _ _ hR => ih hR

theorem exists_ok {x : Except ε α} {y : Except ε β} (halike : Alike R x y) {a : α}
    (hrun : x = .ok a) : ∃ b, y = .ok b ∧ R a b := by
  cases halike with
  | error error => cases hrun
  | ok hR =>
    cases hrun
    exact ⟨_, rfl, hR⟩

end Alike

end Except
