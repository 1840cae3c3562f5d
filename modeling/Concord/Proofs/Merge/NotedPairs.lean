import Concord.Proofs.Merge.Mergeable
import Concord.Proofs.Merge.Notes
import Concord.Proofs.Merge.Pairs

namespace Concord

/-- The pair that a pairing makes one. -/
def Pairing.pairs : Pairing → List Pair
  | .partners a b _ _ _ => [(a, b)]
  | .firstAlone _ | .secondAlone _ => []

namespace MergedNode

/-- What both sides declare of a shared node. -/
def both? (node : MergedNode) : Option (Data × Data) :=
  match node.payloads.first, node.payloads.second with
  | some first, some second => some (first, second)
  | _, _ => none

/-- What both sides declare of the shared nodes, in the order of a walk. -/
def sharedData (nodes : List MergedNode) : List (Data × Data) :=
  (walkAll nodes).filterMap both?

theorem walkAll_append (nodes others : List MergedNode) :
    walkAll (nodes ++ others) = walkAll nodes ++ walkAll others := by
  induction nodes with
  | nil => rfl
  | cons node nodes ih => simp only [walkAll, List.cons_append, ih, List.append_assoc]

theorem sharedData_append (nodes others : List MergedNode) :
    sharedData (nodes ++ others) = sharedData nodes ++ sharedData others := by
  rw [sharedData, walkAll_append, List.filterMap_append, sharedData, sharedData]

@[simp] theorem sharedData_nil : sharedData [] = [] := rfl

@[simp] theorem sharedData_shared (first common second : Data) (children : List MergedNode) :
    sharedData [.shared first common second children] = (first, second) :: sharedData children := by
  simp only [sharedData, shared, walkAll, walk, List.append_nil]
  rfl

@[simp] theorem sharedData_single (output : Output) (data : Data) (children : List MergedNode) :
    sharedData [.single output data children] = sharedData children := by
  simp only [sharedData, single, walkAll, walk, List.append_nil]
  cases output <;> rfl

end MergedNode

open MergedNode (sharedData)

private theorem sharedData_mapM {step : DeclId → Except RunError MergedNode}
    (hstep : ∀ id node, step id = .ok node → sharedData [node] = []) {ids : List DeclId}
    {nodes : List MergedNode} (hrun : ids.mapM step = .ok nodes) : sharedData nodes = [] := by
  induction ids generalizing nodes with
  | nil =>
    cases hrun
    rfl
  | cons id ids ih =>
    rw [List.mapM_cons] at hrun
    obtain ⟨node, hnode, hrun⟩ := Except.bind_eq_ok.mp hrun
    obtain ⟨rest, hrest, hrun⟩ := Except.bind_eq_ok.mp hrun
    cases hrun
    rw [← List.singleton_append, MergedNode.sharedData_append, hstep id node hnode, ih hrest]
    rfl

private theorem sharedData_singleWithin {tree : Tree} {output : Output} {levels : Nat} {id : DeclId}
    {node : MergedNode} (hsingle : tree.singleWithin output levels id = .ok node) :
    sharedData [node] = [] := by
  induction levels generalizing id node with
  | zero => cases hsingle
  | succ levels ih =>
    rw [Tree.singleWithin] at hsingle
    cases hdata : tree.detached? id with
    | none =>
      rw [hdata] at hsingle
      cases hsingle
    | some data =>
      rw [hdata] at hsingle
      obtain ⟨children, hchildren, hnode⟩ := Except.bind_eq_ok.mp hsingle
      cases hnode
      rw [MergedNode.sharedData_single]
      exact sharedData_mapM (fun child node hchild => ih hchild) hchildren

/-- Below a declaration of one side nothing is shared. -/
theorem Tree.sharedData_single {tree : Tree} {output : Output} {id : DeclId} {node : MergedNode}
    (hsingle : tree.single output id = .ok node) : sharedData [node] = [] :=
  sharedData_singleWithin hsingle

namespace Sides

variable (sides : Sides)

/-- What two declarations say, without links into their trees. -/
def dataOf (pair : Pair) : Data × Data :=
  ((sides.first.declaration pair.1).data.mapRefs sides.first.detachRef,
    (sides.second.declaration pair.2).data.mapRefs sides.second.detachRef)

/-- Some pairs and those that match below them, every pair before those below it. -/
noncomputable def pairsWithin : (levels : Nat) → List Pair → List Pair
  | 0, pairs => pairs
  | levels + 1, pairs => pairs.flatMap fun (a, b) =>
    (a, b) ::
      if (sides.first.declaration a).kind = .function then sides.pairsUnder a b
      else pairsWithin levels (sides.pairsUnder a b)

variable {sides}

/-- What a comparison gives for two declarations that match. -/
theorem payloads_of_compare {a b : DeclId} {first common second : Data}
    (hmatched : (sides.oracle.compare sides a b).run = .matched first common second) :
    (matchedPayloads (m := Id) sides sides.oracle.shareable a b).run =
      .matched first common second := by
  simp only [Services.compare] at hmatched
  split at hmatched
  · exact hmatched
  · rw [Id.run_bind] at hmatched
    split at hmatched
    · exact hmatched
    · cases hmatched

theorem dataOf_of_compare {a b : DeclId} {first common second : Data}
    (hmatched : (sides.oracle.compare sides a b).run = .matched first common second) :
    sides.dataOf (a, b) = (first, second) := by
  have hpayloads := payloads_of_compare hmatched
  simp only [matchedPayloads] at hpayloads
  split at hpayloads <;> cases hpayloads <;> rfl

/-- The pair of two siblings that stand together. -/
private def ofPartners : Option DeclId × Option DeclId → List Pair
  | (some a, some b) => [(a, b)]
  | _ => []

/-- Of siblings as they are paired, those that stand together are the partners. -/
private theorem ofPartners_pairUp (joins : DeclId → DeclId → Bool) (as bs : List DeclId) :
    (pairUp joins as bs).flatMap ofPartners = partners joins as bs := by
  induction as generalizing bs with
  | nil => simp [pairUp_nil, partners, ofPartners]
  | cons a as ih =>
    rw [pairUp_cons, partners_cons]
    cases bs.find? (joins a) with
    | none => exact ih bs
    | some b => exact congrArg ((a, b) :: ·) (ih _)

/-- The pairs of a plan are the partners of its siblings. -/
theorem PairsUp.pairs {as bs : List DeclId} {plan : List Pairing} (hpairs : sides.PairsUp as bs plan) :
    plan.flatMap Pairing.pairs = partners sides.joins as bs := by
  rw [← ofPartners_pairUp, ← hpairs.ids, List.flatMap_map]
  refine List.flatMap_congr fun pairing _ => ?_
  cases pairing <;> rfl

theorem notedOracle_pairSiblings (as bs : List DeclId) :
    sides.PairsUp as bs (sides.notedOracle.pairSiblings sides as bs).run.1 := by
  have hcompare (a b : DeclId) :
      sides.notedOracle.compare sides a b = sides.oracle.compare sides a b := rfl
  rw [Services.pairSiblings_congr hcompare]
  exact oracle_pairSiblings as bs

/-- A step that notes some pairs and then gives what fits, if it gives anything. -/
def Tells {α : Type} (step : StateT (List Pair) (Except RunError) α) (pairs : List Pair)
    (fits : α → Prop) : Prop :=
  ∀ notes result notes', step.run notes = .ok (result, notes') →
    notes' = notes ++ pairs ∧ fits result

namespace Tells

variable {α β : Type} {fits : α → Prop} {fits' : β → Prop} {pairs pairs' : List Pair}

theorem pure {a : α} (hfits : fits a) : Tells (pure a) [] fits := by
  intro notes result notes' hrun
  cases hrun
  exact ⟨notes.append_nil.symm, hfits⟩

theorem bind {step : StateT (List Pair) (Except RunError) α}
    {next : α → StateT (List Pair) (Except RunError) β} (hstep : Tells step pairs fits)
    (hnext : ∀ a, fits a → Tells (next a) pairs' fits') :
    Tells (step >>= next) (pairs ++ pairs') fits' := by
  intro notes result notes' hrun
  rw [StateT.run_bind] at hrun
  obtain ⟨⟨a, middle⟩, ha, hrest⟩ := Except.bind_eq_ok.mp hrun
  obtain ⟨rfl, hfits⟩ := hstep notes a middle ha
  obtain ⟨rfl, hfits'⟩ := hnext a hfits _ result notes' hrest
  exact ⟨List.append_assoc _ _ _, hfits'⟩

/-- A step that notes nothing, and then one that notes some pairs. -/
theorem after {step : StateT (List Pair) (Except RunError) α}
    {next : α → StateT (List Pair) (Except RunError) β} (hstep : Tells step [] fits)
    (hnext : ∀ a, fits a → Tells (next a) pairs' fits') : Tells (step >>= next) pairs' fits' :=
  hstep.bind hnext

/-- A step whose result is put into another form. -/
theorem andGive {step : StateT (List Pair) (Except RunError) α} {give : α → β}
    (hstep : Tells step pairs fits) (hgive : ∀ a, fits a → fits' (give a)) :
    Tells (step >>= fun a => Pure.pure (give a)) pairs fits' := by
  rw [← pairs.append_nil]
  exact hstep.bind fun a hfits => .pure (hgive a hfits)

theorem lift (comparison : Id α) :
    Tells (sides.notedOracle.lift comparison) [] (· = comparison.run) := by
  intro notes result notes' hrun
  cases hrun
  exact ⟨notes.append_nil.symm, rfl⟩

theorem attempt (step : Except RunError α) :
    Tells (sides.notedOracle.attempt step) [] (step = .ok ·) := by
  intro notes result notes' hrun
  cases step with
  | error error => cases hrun
  | ok a =>
    cases hrun
    exact ⟨notes.append_nil.symm, rfl⟩

/-- A note, and then a step. -/
theorem note {a b : DeclId} {next : StateT (List Pair) (Except RunError) β}
    (hnext : Tells next pairs' fits') :
    Tells (sides.notedOracle.note a b >>= fun _ => next) ((a, b) :: pairs') fits' := by
  intro notes result notes' hrun
  obtain ⟨rfl, hfits'⟩ := hnext (notes ++ [(a, b)]) result notes' hrun
  exact ⟨List.append_assoc _ _ _, hfits'⟩

end Tells

/-- Nodes that stand for some pairs: the shared ones hold what the pairs say, in their order. -/
def StandFor (sides : Sides) (pairs : List Pair) (nodes : List MergedNode) : Prop :=
  sharedData nodes = pairs.map sides.dataOf

theorem StandFor.nothing : sides.StandFor [] [] :=
  rfl

/-- Nodes of one side stand for no pairs. -/
theorem StandFor.single {tree : Tree} {output : Output} {id : DeclId} {node : MergedNode}
    (hsingle : tree.single output id = .ok node) : sides.StandFor [] [node] :=
  Tree.sharedData_single hsingle

theorem StandFor.append {pairs pairs' : List Pair} {nodes nodes' : List MergedNode}
    (hnodes : sides.StandFor pairs nodes) (hnodes' : sides.StandFor pairs' nodes') :
    sides.StandFor (pairs ++ pairs') (nodes ++ nodes') := by
  rw [StandFor, MergedNode.sharedData_append, hnodes, hnodes', List.map_append]

theorem StandFor.shared {pair : Pair} {pairs : List Pair} {first common second : Data}
    {children : List MergedNode} (hdata : sides.dataOf pair = (first, second))
    (hchildren : sides.StandFor pairs children) :
    sides.StandFor (pair :: pairs) [.shared first common second children] := by
  rw [StandFor, MergedNode.sharedData_shared, List.map_cons, hdata, hchildren]

/-- The parameters that match by their places are noted. -/
theorem mergeParameters_tells (as bs : List DeclId) :
    Tells (sides.notedOracle.mergeParameters sides as bs)
      ((as.zip bs).filter fun pair => (sides.oracle.compare sides pair.1 pair.2).run.isMatched)
      (sides.StandFor
        ((as.zip bs).filter fun pair =>
          (sides.oracle.compare sides pair.1 pair.2).run.isMatched)) := by
  have halone {tree : Tree} {output : Output} (ids : List DeclId) :
      Tells (sides.notedOracle.attempt (ids.mapM fun id => tree.single output id)) []
        (sides.StandFor []) := by
    intro notes nodes notes' hrun
    obtain ⟨rfl, hnodes⟩ := Tells.attempt _ notes nodes notes' hrun
    exact ⟨rfl, sharedData_mapM (fun id node hnode => Tree.sharedData_single hnode) hnodes⟩
  induction as generalizing bs with
  | nil =>
    cases bs with
    | nil => exact halone []
    | cons b bs => exact halone (b :: bs)
  | cons a as ih =>
    cases bs with
    | nil => exact halone (a :: as)
    | cons b bs =>
      simp only [Services.mergeParameters, List.zip_cons_cons]
      refine Tells.after (Tells.lift _) fun comparison hcomparison => ?_
      have hrun : (sides.oracle.compare sides a b).run = comparison := hcomparison.symm
      cases comparison with
      | matched first common second =>
        rw [List.filter_cons_of_pos (by rw [hrun]; rfl)]
        refine Tells.note ?_
        refine Tells.after (Tells.pure rfl) fun nodes hnodes => ?_
        refine Tells.andGive (ih bs) fun rest hrest => ?_
        rw [← hnodes]
        exact StandFor.append (.shared (dataOf_of_compare hrun) .nothing) hrest
      | mismatched mismatch =>
        rw [List.filter_cons_of_neg (by rw [hrun]; exact Bool.false_ne_true)]
        refine Tells.after (Tells.attempt _) fun node hnode => ?_
        refine Tells.after (Tells.attempt _) fun node' hnode' => ?_
        refine Tells.after (Tells.pure rfl) fun nodes hnodes => ?_
        refine Tells.andGive (ih bs) fun rest hrest => ?_
        rw [← hnodes]
        exact StandFor.append (.append (.single hnode) (.single hnode')) hrest

/-- Merges that each note their pairs note them in their order. -/
theorem collect_tells {merge : Pairing → StateT (List Pair) (Except RunError) Merged}
    {pairs : Pairing → List Pair} {plan : List Pairing}
    (hmerge : ∀ pairing ∈ plan,
      Tells (merge pairing) (pairs pairing) fun merged => sides.StandFor (pairs pairing) [merged.1]) :
    Tells (Services.collect merge plan) (plan.flatMap pairs) fun collected =>
      sides.StandFor (plan.flatMap pairs) collected.1 := by
  induction plan with
  | nil => exact Tells.pure rfl
  | cons pairing plan ih =>
    obtain ⟨hfirst, hrest⟩ := List.forall_mem_cons.mp hmerge
    rw [List.flatMap_cons]
    exact hfirst.bind fun merged hmerged =>
      (ih hrest).andGive fun collected hcollected => hmerged.append hcollected

theorem notedOracle_mergeChildren (kind : Kind)
    (merge : Pairing → StateT (List Pair) (Except RunError) Merged) (plan : List Pairing) :
    sides.notedOracle.mergeChildren kind merge plan = Services.collect merge plan :=
  ite_self _

theorem pairsWithin_flatMap {α : Type} (levels : Nat) (items : List α) (pairs : α → List Pair) :
    sides.pairsWithin levels (items.flatMap pairs) =
      items.flatMap fun item => sides.pairsWithin levels (pairs item) := by
  cases levels with
  | zero => rfl
  | succ levels => exact List.flatMap_assoc

theorem pairsWithin_single (levels : Nat) (a b : DeclId) :
    sides.pairsWithin (levels + 1) [(a, b)] =
      (a, b) ::
        if (sides.first.declaration a).kind = .function then sides.pairsUnder a b
        else sides.pairsWithin levels (sides.pairsUnder a b) := by
  rw [pairsWithin, List.flatMap_cons, List.flatMap_nil, List.append_nil]

/-- A merge of partners notes them, and then the pairs that match below them. -/
theorem mergePaired_tells (levels : Nat) {pairing : Pairing} (hexact : pairing.Exact sides) :
    Tells (sides.notedOracle.mergePaired sides levels pairing)
      (sides.pairsWithin levels pairing.pairs)
      fun merged => sides.StandFor (sides.pairsWithin levels pairing.pairs) [merged.1] := by
  have halone {tree : Tree} {output : Output} (id : DeclId) :
      Tells (do return (← sides.notedOracle.attempt (tree.single output id), ([] : List Rejection)))
        [] fun merged => sides.StandFor [] [merged.1] :=
    (Tells.attempt _).andGive fun node hnode => .single hnode
  induction levels generalizing pairing with
  | zero =>
    cases pairing with
    | firstAlone a => exact halone a
    | secondAlone b => exact halone b
    | partners a b first common second =>
      exact Tells.note (.pure (.shared (dataOf_of_compare hexact) .nothing))
  | succ levels ih =>
    cases pairing with
    | firstAlone a => exact halone a
    | secondAlone b => exact halone b
    | partners a b first common second =>
      rw [Pairing.pairs, pairsWithin_single]
      simp only [Services.mergePaired]
      refine Tells.note ?_
      refine Tells.after (Tells.lift _) fun common _ => ?_
      split
      · next hkind =>
        rw [if_pos hkind, pairsUnder, if_pos hkind]
        exact (mergeParameters_tells _ _).andGive fun nodes hnodes =>
          .shared (dataOf_of_compare hexact) hnodes
      · next hkind =>
        rw [if_neg hkind, pairsUnder, if_neg hkind]
        refine Tells.after (Tells.lift _) fun paired hpaired => ?_
        have hpairsUp : sides.PairsUp (sides.first.children a) (sides.second.children b) paired.1 := by
          rw [hpaired]
          exact notedOracle_pairSiblings _ _
        rw [← hpairsUp.pairs, pairsWithin_flatMap]
        rw [notedOracle_mergeChildren]
        exact (collect_tells fun pairing hpairing => ih (hpairsUp.exact pairing hpairing)).andGive
          fun merged hmerged => .shared (dataOf_of_compare hexact) hmerged

/-- The oracle notes the pairs that match below the roots. -/
theorem notedOracle_merge : Tells (sides.notedOracle.merge sides)
    (sides.pairsWithin sides.first.size
      (partners sides.joins sides.first.roots sides.second.roots))
    fun told => sides.StandFor (sides.pairsWithin sides.first.size
      (partners sides.joins sides.first.roots sides.second.roots)) told.forest.roots := by
  simp only [Services.merge]
  refine Tells.after (Tells.attempt _) fun _ _ => ?_
  refine Tells.after (Tells.attempt _) fun _ _ => ?_
  refine Tells.after (Tells.lift _) fun paired hpaired => ?_
  have hpairsUp : sides.PairsUp sides.first.roots sides.second.roots paired.1 := by
    rw [hpaired]
    exact notedOracle_pairSiblings _ _
  rw [← hpairsUp.pairs, pairsWithin_flatMap]
  exact (collect_tells fun pairing hpairing =>
    mergePaired_tells _ (hpairsUp.exact pairing hpairing)).andGive fun merged hmerged => hmerged

end Sides

end Concord
