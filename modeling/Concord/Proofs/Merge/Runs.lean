import Concord.Merge.Trees
import Concord.Proofs.Comparison.Calls

namespace Concord

namespace Pairing

def first? : Pairing → Option DeclId
  | partners a _ _ _ _ | firstAlone a => some a
  | secondAlone _ => none

def second? : Pairing → Option DeclId
  | partners _ b _ _ _ | secondAlone b => some b
  | firstAlone _ => none

end Pairing

namespace Session

variable {sides : Sides} {before middle after : Session}

/-- A session that goes on: if its cache is exact, it stays so, and the session is led on. -/
def Onward (sides : Sides) (before after : Session) : Prop :=
  before.cache.Exact sides → Leads sides before after

/-- A run over an exact cache, with nothing under way, that hits no limit. -/
structure Quiet (sides : Sides) (before after : Session) : Prop where
  exact : before.cache.Exact sides
  idle : before.guard.visiting = []
  limitHits : after.limitHits = before.limitHits

theorem Onward.refl (before : Session) : Onward sides before before :=
  fun hexact => .refl hexact

theorem Onward.trans (hfirst : Onward sides before middle) (hsecond : Onward sides middle after) :
    Onward sides before after :=
  fun hexact => (hfirst hexact).trans (hsecond (hfirst hexact).exact)

/-- Both parts of a quiet run are quiet. -/
theorem Quiet.split (hquiet : Quiet sides before after) (hfirst : Onward sides before middle)
    (hsecond : Onward sides middle after) :
    Quiet sides before middle ∧ Quiet sides middle after := by
  have hlead := hfirst hquiet.exact
  have hle := hlead.limitHits
  have hle' := (hsecond hlead.exact).limitHits
  have hsame := hquiet.limitHits
  refine ⟨⟨hquiet.exact, hquiet.idle, by omega⟩, hlead.exact, ?_, by omega⟩
  exact hlead.visiting.trans hquiet.idle

section OwnSession

variable {options : CompiledOptions} {outer inner : Session}

/-- A session of its own goes on, and so does the one around it that takes over its cache. -/
theorem Onward.around (honward : Onward sides (.new options outer.cache) inner) :
    Onward sides outer { outer with
      cache := inner.cache
      limitHits := outer.limitHits + inner.limitHits } := by
  intro hexact
  have hlead := honward hexact
  exact ⟨rfl, Nat.le_refl _, Nat.le_add_right _ _, hlead.entries, hlead.exact⟩

/-- Within a quiet run a session of its own is quiet. -/
theorem Quiet.within (hquiet : Quiet sides outer { outer with
      cache := inner.cache
      limitHits := outer.limitHits + inner.limitHits }) :
    Quiet sides (.new options outer.cache) inner :=
  ⟨hquiet.exact, rfl, Nat.left_eq_add.mp hquiet.limitHits.symm⟩

end OwnSession

end Session

/-- The flag that both trees are one says so only of one tree. -/
def Sides.Consistent (sides : Sides) : Prop :=
  sides.same = true → sides.first = sides.second

/-- A session of its own takes the cache of the one around it, and gives back its own. -/
theorem Sides.inOwnSession_apply {sides : Sides} {α : Type} (step : MergeM α) (outer : Session) :
    sides.inOwnSession step outer =
      (step (.new sides.options outer.cache)).map fun (result, inner) => (result,
        { outer with
          cache := inner.cache
          limitHits := outer.limitHits + inner.limitHits }) := by
  show (sides.inOwnSession step).run outer = _
  simp only [inOwnSession, StateT.run_bind, StateT.run_get, StateT.run_set, pure_bind]
  cases hstep : step (.new sides.options outer.cache) with
  | ok ended =>
    rw [show step.run (.new sides.options outer.cache) = _ from hstep]
    rfl
  | error error =>
    rw [show step.run (.new sides.options outer.cache) = _ from hstep]
    rfl

end Concord
