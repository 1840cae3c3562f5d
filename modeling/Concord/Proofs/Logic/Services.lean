import Concord.Proofs.Logic.Basic
import Concord.Proofs.Merge.Runs
import Concord.Proofs.Parallel.Program

namespace Concord

/-- What is known of the nodes and rejections that are collected for a plan. -/
inductive Collected (post : Pairing → Merged → Prop) :
    List Pairing → List MergedNode × List Rejection → Prop
  | nil : Collected post [] ([], [])
  | cons {pairing : Pairing} {merged : Merged} {plan : List Pairing}
    {rest : List MergedNode × List Rejection} (hmerged : post pairing merged)
    (hrest : Collected post plan rest) :
    Collected post (pairing :: plan) (merged.1 :: rest.1, merged.2 ++ rest.2)

/-- A yes on a pair vouches for it. -/
def Mismatch.Vouches (trusted : Pair → Prop) (pair : Pair) (verdict : Mismatch) : Prop :=
  verdict.isEmpty = true → trusted pair

/-- Every verdict in the cache is admitted for its pair. -/
def Cache.Admits (admitted : Pair → Mismatch → Prop) (cache : Cache) : Prop :=
  ∀ entry ∈ cache.entries, admitted entry.1 entry.2

/-- Every yes in the cache vouches for its pair. -/
abbrev Cache.Vouches (trusted : Pair → Prop) (cache : Cache) : Prop :=
  cache.Admits fun pair verdict => verdict.Vouches trusted pair

namespace Cache.Admits

variable {admitted : Pair → Mismatch → Prop} {cache : Cache}

theorem get (hcache : cache.Admits admitted) (pair : Pair) :
    (cache.get pair).2.Admits admitted ∧ ∀ verdict ∈ (cache.get pair).1, admitted pair verdict := by
  refine ⟨fun entry hentry => hcache entry (by rwa [Cache.entries_get] at hentry),
    fun verdict hverdict => ?_⟩
  rw [Cache.get_fst, Option.mem_def] at hverdict
  exact hcache _ (Cache.mem_entries_of_find? hverdict)

theorem insert (hcache : cache.Admits admitted) {pair : Pair} {verdict : Mismatch}
    (hverdict : admitted pair verdict) :
    (cache.insert pair verdict).2.Admits admitted ∧ admitted pair (cache.insert pair verdict).1 := by
  obtain ⟨hsame, hstored⟩ | ⟨hstored, hentries⟩ := cache.insert_cases pair verdict
  · rw [hsame]
    exact ⟨hcache, hcache _ hstored⟩
  · refine ⟨fun entry hentry => ?_, by rwa [hstored]⟩
    rw [hentries] at hentry
    obtain rfl | hentry := List.mem_cons.mp hentry
    · exact hverdict
    · exact hcache entry hentry

end Cache.Admits

/-- A memory through which no verdict comes that is not admitted for its pair, unless it was put
there. Other steps may change the cache behind it at any time. -/
structure Memory.Admits {n : Type → Type} [Monad n] (memory : Memory n) (logic : ProgramLogic n)
    (admitted : Pair → Mismatch → Prop) : Prop where
  lookUp : ∀ {pair : Pair} {post : Option Mismatch → Session → Prop} {before : Session},
    (∀ reply cache, (∀ verdict ∈ reply, admitted pair verdict) →
      post reply { before with cache }) → logic.wp (memory.lookUp pair) post before
  store : ∀ {pair : Pair} {verdict : Mismatch} {post : Mismatch → Session → Prop}
    {before : Session}, admitted pair verdict →
    (∀ stored cache, admitted pair stored → post stored { before with cache }) →
    logic.wp (memory.store pair verdict) post before
  privately : ∀ {α : Type} {step : StateM Session α} {post : α → Session → Prop}
    {before : Session}, (step.run before).2.cache = before.cache →
    post (step.run before).1 (step.run before).2 → logic.wp (memory.privately step) post before

/-- A memory through which no yes comes on a pair that is not trusted, unless it was put there. -/
abbrev Memory.Vouches {n : Type → Type} [Monad n] (memory : Memory n) (logic : ProgramLogic n)
    (trusted : Pair → Prop) : Prop :=
  memory.Admits logic fun pair verdict => verdict.Vouches trusted pair

namespace Memory.Admits

variable {n : Type → Type} [Monad n] {memory : Memory n} {logic : ProgramLogic n}
  {admitted : Pair → Mismatch → Prop} (hmemory : memory.Admits logic admitted) {pair : Pair}
  {post : Mismatch → Session → Prop} {before : Session}
include hmemory

/-- A verdict that is stored if it is definite is admitted then. -/
private theorem storeIf {definite : Bool} {verdict : Mismatch} (hkept : post verdict before)
    (hstored : definite = true → admitted pair verdict ∧
      ∀ stored cache, admitted pair stored → post stored { before with cache }) :
    logic.wp (if definite then memory.store pair verdict else return verdict) post before := by
  cases definite with
  | true => exact hmemory.store (hstored rfl).1 (hstored rfl).2
  | false => exact logic.pure hkept

/-- What holds after a comparison of a pair that remembers its verdict, if it holds of a verdict
that comes out of the memory, of a pair under way that is taken to match, of an attempt that is
turned down, and of the verdict of the rules, as it is and as it is stored if it is definite. -/
theorem memoized {rules : n Mismatch}
    (hknown : ∀ verdict cache, admitted pair verdict → post verdict { before with cache })
    (hassumed : ∀ guard cache, pair ∈ before.guard.visiting →
      guard.visiting = before.guard.visiting →
      post .none { before with guard, cache, assumptions := before.assumptions + 1 })
    (hrefused : ∀ guard cache, guard.visiting = before.guard.visiting →
      post (.ofCause .recursionLimit) { before with guard, cache, limitHits := before.limitHits + 1 })
    (hentered : ∀ guard cache, guard.visiting = pair :: before.guard.visiting →
      logic.wp rules (fun verdict after => post verdict (after.leaving pair) ∧
        (Session.isDefinite { before with guard, cache } (after.leaving pair) verdict = true →
          admitted pair verdict ∧ ∀ stored cache, admitted pair stored →
            post stored { after.leaving pair with cache })) { before with guard, cache }) :
    logic.wp (memory.memoized pair rules) post before := by
  refine logic.bind (hmemory.lookUp fun reply cache hreply => ?_)
  cases reply with
  | some verdict => exact logic.pure (hknown verdict cache (hreply verdict rfl))
  | none =>
    refine logic.bind (hmemory.privately rfl ?_)
    simp only [Session.run_enter]
    obtain ⟨henter, hvisiting⟩ | ⟨henter, hopen, hvisiting⟩ | ⟨henter, hvisiting⟩ :=
      before.guard.enter_cases pair
    · simp only [henter]
      refine logic.bind (hmemory.privately rfl ?_)
      refine logic.bind (logic.mono (hentered _ cache hvisiting) fun verdict after hafter => ?_)
      refine logic.bind (hmemory.privately rfl (logic.bind (hmemory.privately rfl ?_)))
      exact storeIf hmemory hafter.1 hafter.2
    · simp only [henter]
      exact hmemory.privately rfl (hassumed _ cache hopen hvisiting)
    · obtain h | h := henter
      · simp only [h]
        exact hmemory.privately rfl (hrefused _ cache hvisiting)
      · simp only [h]
        exact hmemory.privately rfl (hrefused _ cache hvisiting)

end Memory.Admits

/-- Services that keep the rules of two logics. In total logics steps that may fail have to
succeed. -/
structure Services.Obeys {n m : Type → Type} [Monad n] [Monad m] (services : Services n m)
    (inner : ProgramLogic n) (outer : ProgramLogic m) (total : Prop) : Prop where
  watched : ∀ {step : n Mismatch} {post : Mismatch → Prop}, inner.Gives step post →
    inner.Gives (services.watched step) fun outcome => post outcome.1
  lift : ∀ {α : Type} {step : n α} {post : α → Prop}, inner.Gives step post →
    outer.Gives (services.lift step) post
  attempt : ∀ {α : Type} {step : Except RunError α} {post : α → Prop},
    (∀ a, step = .ok a → post a) → (total → ∃ a, step = .ok a) →
    outer.Gives (services.attempt step) post
  note : ∀ a b, outer.Runs (services.note a b)
  apart : ∀ {merge : Pairing → m Merged} {post : Pairing → Merged → Prop} {plan : List Pairing},
    (∀ pairing ∈ plan, outer.Gives (merge pairing) (post pairing)) →
    outer.Gives (services.apart merge plan) (Collected post plan)

/-- Collecting gives what each single merge gives. -/
theorem Services.collect_gives {m : Type → Type} [Monad m] {logic : ProgramLogic m}
    {merge : Pairing → m Merged} {post : Pairing → Merged → Prop} {plan : List Pairing}
    (hmerge : ∀ pairing ∈ plan, logic.Gives (merge pairing) (post pairing)) :
    logic.Gives (collect merge plan) (Collected post plan) := by
  induction plan with
  | nil => exact .pure .nil
  | cons pairing plan ih =>
    obtain ⟨hone, hothers⟩ := List.forall_mem_cons.mp hmerge
    refine .bind hone fun merged hmerged => .bind (ih hothers) fun rest hrest => ?_
    exact .pure (.cons hmerged hrest)

/-- The logic of sessions whose caches keep an invariant. -/
def Session.logic (inv : Cache → Prop) : ProgramLogic (StateM Session) where
  wp step post before := inv before.cache →
    inv (step.run before).2.cache ∧ post (step.run before).1 (step.run before).2
  pure hpost hinv := ⟨hinv, hpost⟩
  bind hstep hinv := (hstep hinv).2 (hstep hinv).1
  mono hstep hpost hinv := ⟨(hstep hinv).1, hpost _ _ (hstep hinv).2⟩

/-- The logic of merge steps whose sessions have caches that keep an invariant. In the total logic
steps do not fail. -/
def MergeM.logic (inv : Cache → Prop) (total : Prop) : ProgramLogic MergeM where
  wp step post before := inv before.cache →
    match step.run before with
    | .ok (a, after) => inv after.cache ∧ post a after
    | .error _ => ¬total
  pure hpost hinv := ⟨hinv, hpost⟩
  bind {α β step next post before} hstep hinv := by
    specialize hstep hinv
    rw [StateT.run_bind]
    cases hrun : step.run before with
    | error error => rwa [hrun] at hstep
    | ok ended =>
      rw [hrun] at hstep
      exact hstep.2 hstep.1
  mono {α step post post' before} hstep hpost hinv := by
    specialize hstep hinv
    cases hrun : step.run before with
    | error error => rwa [hrun] at hstep
    | ok ended =>
      rw [hrun] at hstep
      exact ⟨hstep.1, hpost _ _ hstep.2⟩

variable {inv : Cache → Prop} {total : Prop}

/-- The memory of a session admits what its cache does. -/
theorem Session.memory_admits (admitted : Pair → Mismatch → Prop) :
    Session.memory.Admits (Session.logic (Cache.Admits admitted)) admitted where
  lookUp {pair _ _} hpost hcache := by
    obtain ⟨hafter, hreply⟩ := hcache.get pair
    exact ⟨hafter, hpost _ _ hreply⟩
  store hverdict hpost hcache := by
    obtain ⟨hafter, hstored⟩ := hcache.insert hverdict
    exact ⟨hafter, hpost _ _ hstored⟩
  privately {α step post before} hleft hpost hcache :=
    ⟨show Cache.Admits admitted (step.run before).2.cache from hleft ▸ hcache, hpost⟩

theorem MergeM.ofSession_gives {α : Type} {step : StateM Session α} {post : α → Prop}
    (hstep : (Session.logic inv).Gives step post) :
    (MergeM.logic inv total).Gives (MergeM.ofSession step) post :=
  fun before hidle hinv => hstep before hidle hinv

/-- A session of its own ends with nothing under way, and so does the one around it. -/
theorem MergeM.inOwnSession_gives {sides : Sides} {α : Type} {step : MergeM α} {post : α → Prop}
    (hstep : (MergeM.logic inv total).Gives step post) :
    (MergeM.logic inv total).Gives (sides.inOwnSession step) post := by
  intro outer hidle hinv
  have hinner := hstep (.new sides.options outer.cache) rfl hinv
  rw [show (sides.inOwnSession step).run outer = _ from Sides.inOwnSession_apply step outer]
  cases hrun : step (.new sides.options outer.cache) with
  | error error =>
    rw [show step.run _ = _ from hrun] at hinner
    exact hinner
  | ok ended =>
    rw [show step.run _ = _ from hrun] at hinner
    exact ⟨hinner.1, hidle, hinner.2.2⟩

/-- The services of a session obey its logics. -/
theorem Sides.services_obeys (sides : Sides) (inv : Cache → Prop) (total : Prop) :
    sides.services.Obeys (Session.logic inv) (MergeM.logic inv total) total where
  watched hstep before hidle hinv := hstep before hidle hinv
  lift hstep := MergeM.ofSession_gives hstep
  attempt {α step post} hpost htotal before hidle hinv := by
    cases step with
    | ok a => exact ⟨hinv, hidle, hpost a rfl⟩
    | error error =>
      intro h
      obtain ⟨a, ha⟩ := htotal h
      cases ha
  note a b := .pure trivial
  apart {merge post plan} hmerge := by
    show (MergeM.logic inv total).Gives (Sides.collect _ plan) _
    rw [← Sides.collect_eq]
    refine Services.collect_gives fun pairing hpairing => .ite (fun _ => ?_) fun _ => ?_
    · exact MergeM.inOwnSession_gives (hmerge pairing hpairing)
    · exact hmerge pairing hpairing

/-- What a merge gives by the services of a session, it gives from any cache that keeps the
invariant. -/
theorem Sides.merge_of_gives {sides : Sides} {post : MergeResult → Prop}
    (hgives : (MergeM.logic inv total).Gives (sides.services.merge sides) post) {cache : Cache}
    (hinv : inv cache) :
    (∀ result session, sides.merge cache = .ok (result, session) →
      inv session.cache ∧ post result) ∧
    (total → ∃ result session, sides.merge cache = .ok (result, session)) := by
  have hrun := hgives (.new sides.options cache) rfl hinv
  rw [sides.services_merge cache] at hrun
  cases hmerge : sides.merge cache with
  | error error =>
    rw [hmerge] at hrun
    exact ⟨nofun, fun htotal => absurd htotal hrun⟩
  | ok merged =>
    obtain ⟨result, session⟩ := merged
    rw [hmerge] at hrun
    refine ⟨?_, fun _ => ⟨result, session, rfl⟩⟩
    rintro _ _ ⟨⟩
    exact ⟨hrun.1, hrun.2.2⟩

end Concord
