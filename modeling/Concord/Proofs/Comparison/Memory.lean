import Concord.Comparison.Session

namespace Concord

namespace Guard

variable {κ : Type} [DecidableEq κ]

/-- An attempt to enter a key opens it, finds it open, or is turned down. -/
theorem enter_cases (guard : Guard κ) (key : κ) :
    ((guard.enter key).1 = .entered ∧ (guard.enter key).2.visiting = key :: guard.visiting) ∨
    ((guard.enter key).1 = .cycle ∧ key ∈ guard.visiting ∧
      (guard.enter key).2.visiting = guard.visiting) ∨
    (((guard.enter key).1 = .depthExceeded ∨ (guard.enter key).1 = .iterationExceeded) ∧
      (guard.enter key).2.visiting = guard.visiting) := by
  simp only [enter]
  split
  · exact Or.inr (Or.inr ⟨Or.inr rfl, rfl⟩)
  split
  · exact Or.inr (Or.inr ⟨Or.inl rfl, rfl⟩)
  split
  · next hopen => exact Or.inr (Or.inl ⟨rfl, List.contains_iff_mem.mp hopen, rfl⟩)
  split
  · exact Or.inr (Or.inr ⟨Or.inl rfl, rfl⟩)
  · exact Or.inl ⟨rfl, rfl⟩

/-- A key that is opened was not open. -/
theorem not_mem_of_entered {guard : Guard κ} {key : κ} (henter : (guard.enter key).1 = .entered) :
    key ∉ guard.visiting := by
  intro hopen
  simp only [enter, List.contains_iff_mem.mpr hopen, if_true] at henter
  split at henter
  · cases henter
  split at henter
  · cases henter
  · cases henter

/-- A key is opened only while fewer keys are open than either limit allows. -/
theorem depth_lt_of_entered {guard : Guard κ} {key : κ}
    (henter : (guard.enter key).1 = .entered) :
    guard.visiting.length < guard.maxDepth ∧ guard.visiting.length < maxVisiting := by
  simp only [enter] at henter
  split at henter
  · cases henter
  split at henter
  · cases henter
  next hdepth =>
    split at henter
    · cases henter
    split at henter
    · cases henter
    next hvisiting => exact ⟨Nat.lt_of_not_le hdepth, Nat.lt_of_not_le hvisiting⟩

/-- An attempt leaves the limit on depth as it is. -/
theorem enter_maxDepth (guard : Guard κ) (key : κ) :
    (guard.enter key).2.maxDepth = guard.maxDepth := by
  simp only [enter]
  split
  · rfl
  split
  · rfl
  split
  · rfl
  split <;> rfl

end Guard

namespace Cache

@[simp] theorem entries_get (cache : Cache) (pair : Pair) :
    (cache.get pair).2.entries = cache.entries := by
  unfold get
  cases cache.find? pair <;> rfl

theorem get_fst (cache : Cache) (pair : Pair) : (cache.get pair).1 = cache.find? pair := by
  unfold get
  cases cache.find? pair <;> rfl

theorem mem_entries_of_find? {cache : Cache} {pair : Pair} {verdict : Mismatch}
    (hfind : cache.find? pair = some verdict) : (pair, verdict) ∈ cache.entries := by
  obtain ⟨before, after, hentries, _⟩ := List.lookup_eq_some_iff.mp hfind
  rw [hentries]
  exact List.mem_append_right _ (List.mem_cons_self ..)

/-- Storing a verdict finds one for the pair, or adds it. -/
theorem insert_cases (cache : Cache) (pair : Pair) (verdict : Mismatch) :
    ((cache.insert pair verdict).2 = cache ∧
      (pair, (cache.insert pair verdict).1) ∈ cache.entries) ∨
    ((cache.insert pair verdict).1 = verdict ∧
      (cache.insert pair verdict).2.entries = (pair, verdict) :: cache.entries) := by
  unfold insert
  cases hfind : cache.find? pair with
  | none => exact Or.inr ⟨rfl, rfl⟩
  | some stored => exact Or.inl ⟨rfl, mem_entries_of_find? hfind⟩

end Cache

namespace Session

section Steps

variable {α β : Type} (session : Session) (pair : Pair)

theorem run_bind (step : StateM Session α) (next : α → StateM Session β) :
    (step >>= next).run session = (next (step.run session).1).run (step.run session).2 :=
  rfl

theorem run_pure (a : α) : (pure a : StateM Session α).run session = (a, session) :=
  rfl

theorem run_get : (get : StateM Session Session).run session = (session, session) :=
  rfl

theorem run_lookUp : (lookUp pair).run session =
    ((session.cache.get pair).1, { session with cache := (session.cache.get pair).2 }) :=
  rfl

theorem run_enter : (enter pair).run session =
    ((session.guard.enter pair).1, { session with guard := (session.guard.enter pair).2 }) :=
  rfl

theorem run_leave :
    (leave pair).run session = ((), { session with guard := session.guard.leave pair }) :=
  rfl

theorem run_store (verdict : Mismatch) : (store pair verdict).run session =
    ((session.cache.insert pair verdict).1,
      { session with cache := (session.cache.insert pair verdict).2 }) :=
  rfl

end Steps

/-- A session that looked a pair up in vain and tried to enter it. -/
def attempted (session : Session) (pair : Pair) : Session :=
  { session with cache := (session.cache.get pair).2, guard := (session.guard.enter pair).2 }

/-- A session after it left a pair. -/
def leaving (session : Session) (pair : Pair) : Session :=
  { session with guard := session.guard.leave pair }

variable {pair : Pair} {rules : StateM Session Mismatch} {before : Session}

theorem memoized_run_known {verdict : Mismatch} (hfind : before.cache.find? pair = some verdict) :
    (memoized pair rules).run before =
      (verdict, { before with cache := (before.cache.get pair).2 }) := by
  simp only [memoized, run_bind, run_lookUp, Cache.get_fst, hfind]
  rfl

private theorem memoized_run_unknown (hfind : before.cache.find? pair = none) :
    (memoized pair rules).run before =
      (match (before.guard.enter pair).1 with
        | .cycle => assumeMatch
        | .depthExceeded | .iterationExceeded => giveUp
        | .entered => do
          let entered ← get
          let verdict ← rules
          leave pair
          if isDefinite entered (← get) verdict then store pair verdict else return verdict).run
        (before.attempted pair) := by
  simp only [memoized, run_bind, run_lookUp, run_enter, Cache.get_fst, hfind]
  rfl

theorem memoized_run_cycle (hfind : before.cache.find? pair = none)
    (henter : (before.guard.enter pair).1 = .cycle) :
    (memoized pair rules).run before =
      (.none, { before.attempted pair with assumptions := before.assumptions + 1 }) := by
  rw [memoized_run_unknown hfind, henter]
  rfl

theorem memoized_run_limit (hfind : before.cache.find? pair = none)
    (henter : (before.guard.enter pair).1 = .depthExceeded ∨
      (before.guard.enter pair).1 = .iterationExceeded) :
    (memoized pair rules).run before =
      (.ofCause .recursionLimit,
        { before.attempted pair with limitHits := before.limitHits + 1 }) := by
  rw [memoized_run_unknown hfind]
  obtain h | h := henter <;> rw [h] <;> rfl

theorem memoized_run_entered {after : Session} {verdict : Mismatch}
    (hfind : before.cache.find? pair = none) (henter : (before.guard.enter pair).1 = .entered)
    (hrules : rules.run (before.attempted pair) = (verdict, after)) :
    (memoized pair rules).run before =
      if isDefinite (before.attempted pair) (after.leaving pair) verdict then
        (store pair verdict).run (after.leaving pair)
      else (verdict, after.leaving pair) := by
  have finish (session : Session) (definite : Bool) :
      (if definite then store pair verdict else return verdict).run session =
        if definite then (store pair verdict).run session else (verdict, session) := by
    cases definite <;> rfl
  rw [memoized_run_unknown hfind, henter]
  simp only [run_bind, run_get, run_leave, hrules]
  exact finish (after.leaving pair) _

end Session

end Concord
