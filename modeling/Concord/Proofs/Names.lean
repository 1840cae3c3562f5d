import Concord.Name

namespace Concord

namespace QualifiedName

/-- Whether a name has no empty segment: it is the root, or there are characters in front of,
between and behind its separators. -/
def HasNoEmptySegment (name : QualifiedName) : Prop :=
  name.isRoot = true ∨ ∀ piece ∈ pieces name.text.toList, piece ≠ []

instance (name : QualifiedName) : Decidable name.HasNoEmptySegment :=
  inferInstanceAs (Decidable (_ ∨ _))

/-- What a segment is as a list of characters. -/
def IsPart (part : List Char) : Prop :=
  part ≠ [] ∧ separator ∉ part

/-- Segments with a separator between any two neighbours. -/
def joined (parts : List (List Char)) : List Char :=
  [separator].intercalate parts

/-- The name with these segments. -/
def ofParts (parts : List (List Char)) : QualifiedName :=
  ⟨String.ofList (joined parts)⟩

theorem isPart_iff {name : SimpleName} : IsPart name.text.toList ↔ name.isSegment = true := by
  simp [SimpleName.isSegment, SimpleName.isEmpty, IsPart]

section Pieces

theorem pieces_eq_splitOn (text : List Char) : pieces text = text.splitOn separator := by
  induction text with
  | nil => rfl
  | cons c rest ih =>
    rw [pieces, List.splitOn_cons_eq_if_modifyHead, ih]
    by_cases hc : c = separator
    · simp [hc]
    · simp only [hc, beq_iff_eq, if_false]
      cases hsplit : rest.splitOn separator with
      | nil => exact absurd hsplit (List.splitOn_ne_nil _ _)
      | cons piece others => rfl

theorem separator_not_mem_of_mem_pieces {text piece : List Char} (hpiece : piece ∈ pieces text) :
    separator ∉ piece := by
  induction text generalizing piece with
  | nil => simp_all [pieces]
  | cons c rest ih =>
    rw [pieces] at hpiece
    split at hpiece
    · rcases List.mem_cons.mp hpiece with rfl | hpiece
      · exact List.not_mem_nil
      · exact ih hpiece
    · rename_i hc
      split at hpiece
      · simpa [List.mem_singleton.mp hpiece] using Ne.symm hc
      · rename_i first others hpieces
        rw [hpieces] at ih
        rcases List.mem_cons.mp hpiece with rfl | hpiece
        · simp [Ne.symm hc, ih List.mem_cons_self]
        · exact ih (List.mem_cons_of_mem _ hpiece)

end Pieces

section Joined

variable {parts scope : List (List Char)}

theorem joined_append (hparts : parts ≠ []) (hscope : scope ≠ []) :
    joined (parts ++ scope) = joined parts ++ separator :: joined scope := by
  induction parts with
  | nil => exact absurd rfl hparts
  | cons part rest ih =>
    by_cases hrest : rest = []
    · rw [hrest, List.singleton_append, joined, List.intercalate_cons_of_ne_nil hscope]
      simp [joined]
    · have hboth : rest ++ scope ≠ [] := List.append_ne_nil_of_left_ne_nil hrest _
      calc joined (part :: rest ++ scope)
          = part ++ [separator] ++ joined (rest ++ scope) :=
            List.intercalate_cons_of_ne_nil hboth
        _ = part ++ [separator] ++ joined rest ++ separator :: joined scope := by
            rw [ih hrest, List.append_assoc _ (joined rest)]
        _ = joined (part :: rest) ++ separator :: joined scope := by
            rw [joined, joined, joined, List.intercalate_cons_of_ne_nil hrest]

theorem joined_eq_nil (hparts : ∀ part ∈ parts, IsPart part) : joined parts = [] ↔ parts = [] := by
  refine ⟨fun hnil => ?_, fun hnil => by rw [hnil]; rfl⟩
  cases parts with
  | nil => rfl
  | cons part rest =>
    have hpart := (hparts part List.mem_cons_self).1
    cases rest with
    | nil => exact absurd (by simpa [joined] using hnil) hpart
    | cons next others => simp [joined, List.intercalate_cons_cons] at hnil

theorem splitOn_joined (hparts : ∀ part ∈ parts, IsPart part) (hne : parts ≠ []) :
    (joined parts).splitOn separator = parts :=
  List.splitOn_intercalate separator (fun part hpart => (hparts part hpart).2) hne

theorem joined_inj (hparts : ∀ part ∈ parts, IsPart part) (hscope : ∀ part ∈ scope, IsPart part) :
    joined parts = joined scope ↔ parts = scope := by
  refine ⟨fun heq => ?_, fun heq => by rw [heq]⟩
  by_cases hne : parts = []
  · rw [hne] at heq ⊢
    exact ((joined_eq_nil hscope).mp heq.symm).symm
  · have hne' : scope ≠ [] := fun hnil =>
      hne ((joined_eq_nil hparts).mp (heq.trans ((joined_eq_nil hscope).mpr hnil)))
    rw [← splitOn_joined hparts hne, heq, splitOn_joined hscope hne']

/-- Behind the segments of a namespace the text of a name ends or goes on with a separator exactly
if the segments of the name begin with those of the namespace. -/
theorem isPrefix_iff (hparts : ∀ part ∈ parts, IsPart part) (hscope : ∀ part ∈ scope, IsPart part)
    (hne : scope ≠ []) : scope <+: parts ↔
      ∃ rest, joined parts = joined scope ++ rest ∧ (rest = [] ∨ ∃ more, rest = separator :: more) := by
  constructor
  · rintro ⟨more, rfl⟩
    by_cases hmore : more = []
    · exact ⟨[], by simp [hmore], .inl rfl⟩
    · exact ⟨_, joined_append hne hmore, .inr ⟨_, rfl⟩⟩
  · rintro ⟨rest, heq, rfl | ⟨more, rfl⟩⟩
    · rw [List.append_nil] at heq
      exact (joined_inj hparts hscope).mp heq ▸ List.prefix_refl _
    · have hparts' : parts ≠ [] := fun hnil => by simp [hnil, joined] at heq
      have hsplit : parts = scope ++ more.splitOn separator := by
        rw [← splitOn_joined hparts hparts', heq, List.splitOn_append_cons_self,
          splitOn_joined hscope hne]
      exact ⟨_, hsplit.symm⟩

end Joined

section Parts

variable {parts scope : List (List Char)} {last : List Char}

@[simp]
theorem toList_ofParts (parts : List (List Char)) : (ofParts parts).text.toList = joined parts :=
  String.toList_ofList

theorem isRoot_iff {name : QualifiedName} : name.isRoot = true ↔ name.text.toList = [] := by
  simp [isRoot]

theorem isRoot_ofParts (hparts : ∀ part ∈ parts, IsPart part) :
    (ofParts parts).isRoot = true ↔ parts = [] := by
  rw [isRoot_iff, toList_ofParts, joined_eq_nil hparts]

/-- The names without empty segments are the joined lists of segments. -/
theorem hasNoEmptySegment_iff {name : QualifiedName} : name.HasNoEmptySegment ↔
    ∃ parts, (∀ part ∈ parts, IsPart part) ∧ name = ofParts parts := by
  constructor
  · rintro (hroot | hpieces)
    · refine ⟨[], by simp, ?_⟩
      rw [isRoot, String.isEmpty_iff] at hroot
      exact congrArg mk hroot
    · refine ⟨pieces name.text.toList, fun piece hpiece =>
        ⟨hpieces piece hpiece, separator_not_mem_of_mem_pieces hpiece⟩, ?_⟩
      rw [ofParts, joined, pieces_eq_splitOn, List.intercalate_splitOn, String.ofList_toList]
  · rintro ⟨parts, hparts, rfl⟩
    by_cases hne : parts = []
    · exact .inl ((isRoot_ofParts hparts).mpr hne)
    · refine .inr fun piece hpiece => ?_
      rw [toList_ofParts, pieces_eq_splitOn, splitOn_joined hparts hne] at hpiece
      exact (hparts piece hpiece).1

theorem segments_ofParts (hparts : ∀ part ∈ parts, IsPart part) :
    (ofParts parts).segments = parts.map String.ofList := by
  rw [segments, toList_ofParts, pieces_eq_splitOn]
  by_cases hne : parts = []
  · subst hne
    rfl
  · rw [splitOn_joined hparts hne, List.filter_eq_self.mpr fun part hpart => ?_]
    simpa using (hparts part hpart).1

/-- A child has one segment more. -/
theorem child_ofParts (hparts : ∀ part ∈ parts, IsPart part) (last : List Char) :
    (ofParts parts).child ⟨String.ofList last⟩ = ofParts (parts ++ [last]) := by
  rw [child]
  by_cases hne : parts = []
  · rw [if_pos ((isRoot_ofParts hparts).mpr hne), hne]
    simp [ofParts, joined]
  · rw [if_neg (mt (isRoot_ofParts hparts).mp hne), ofParts, ofParts,
      joined_append hne (List.cons_ne_nil _ _)]
    refine congrArg mk (String.toList_inj.mp ?_)
    simp [joined]

/-- The text of a name read backward: the last segment, and behind a separator those before it. -/
theorem reverse_joined_concat (parts : List (List Char)) (last : List Char) :
    (joined (parts ++ [last])).reverse =
      last.reverse ++ if parts = [] then [] else separator :: (joined parts).reverse := by
  by_cases hne : parts = []
  · simp [hne, joined]
  · rw [joined_append hne (List.cons_ne_nil _ _), if_neg hne]
    simp [joined]

theorem IsPart.passed (hlast : IsPart last) : ∀ c ∈ last.reverse, decide (c ≠ separator) = true :=
  fun _ hc => decide_eq_true fun heq => hlast.2 (heq ▸ List.mem_reverse.mp hc)

theorem shortName_concat (parts : List (List Char)) (hlast : IsPart last) :
    (ofParts (parts ++ [last])).shortName = ⟨String.ofList last⟩ := by
  rw [shortName, toList_ofParts, reverse_joined_concat, List.takeWhile_append_of_pos hlast.passed]
  by_cases hne : parts = [] <;> simp [hne]

theorem parent?_concat (parts : List (List Char)) (hlast : IsPart last) :
    (ofParts (parts ++ [last])).parent? = some (ofParts parts) := by
  have hroot : ¬(ofParts (parts ++ [last])).isRoot = true := by
    rw [isRoot_iff, toList_ofParts, ← List.reverse_eq_nil_iff, reverse_joined_concat]
    simp [hlast.1]
  rw [parent?, if_neg hroot, toList_ofParts, reverse_joined_concat,
    List.dropWhile_append_of_pos hlast.passed]
  by_cases hne : parts = [] <;> simp [hne, ofParts, joined]

theorem after?_eq_some_iff {lead text rest : List Char} :
    after? lead text = some rest ↔ text = lead ++ rest := by
  induction lead generalizing text with
  | nil => simp [after?]
  | cons c lead ih =>
    cases text with
    | nil => simp [after?]
    | cons d text =>
      by_cases hc : c = d
      · simp [after?, hc, ih]
      · simp [after?, hc, Ne.symm hc]

/-- A name lies in a namespace if the namespace is empty, or if the text of the name goes on behind
it with a separator or not at all. -/
theorem startsWith_iff {name : QualifiedName} {scope : String} : name.startsWith scope = true ↔
    scope.toList = [] ∨ ∃ rest, name.text.toList = scope.toList ++ rest ∧
      (rest = [] ∨ ∃ more, rest = separator :: more) := by
  rw [startsWith, Bool.or_eq_true, String.isEmpty_iff, ← String.toList_eq_nil_iff]
  refine or_congr_right ?_
  cases hafter : after? scope.toList name.text.toList with
  | none =>
    refine iff_of_false (by simp) ?_
    rintro ⟨rest, heq, -⟩
    exact nomatch hafter.symm.trans (after?_eq_some_iff.mpr heq)
  | some rest =>
    rw [after?_eq_some_iff] at hafter
    rw [hafter]
    cases rest <;> simp

end Parts

theorem startsWith_ofParts {parts scope : List (List Char)} (hparts : ∀ part ∈ parts, IsPart part)
    (hscope : ∀ part ∈ scope, IsPart part) :
    (ofParts parts).startsWith (ofParts scope).text = true ↔ scope <+: parts := by
  rw [startsWith_iff, toList_ofParts, toList_ofParts, joined_eq_nil hscope]
  by_cases hne : scope = []
  · simp [hne]
  · rw [isPrefix_iff hparts hscope hne]
    exact or_iff_right hne

/-- A child has its container's segments and its own name behind them, its container is its parent
and its own name its short name. -/
theorem child_spec {container : QualifiedName} {name : SimpleName}
    (hcontainer : container.HasNoEmptySegment) (hname : name.isSegment = true) :
    (container.child name).HasNoEmptySegment ∧
    (container.child name).parent? = some container ∧
    (container.child name).shortName = name ∧
    (container.child name).segments = container.segments ++ [name.text] := by
  obtain ⟨parts, hparts, rfl⟩ := hasNoEmptySegment_iff.mp hcontainer
  obtain ⟨last, rfl⟩ : ∃ last, name = ⟨String.ofList last⟩ :=
    ⟨name.text.toList, by rw [String.ofList_toList]⟩
  have hlast : IsPart last := by simpa using isPart_iff.mpr hname
  have hall : ∀ part ∈ parts ++ [last], IsPart part := by
    simpa [or_imp, forall_and] using ⟨hparts, hlast⟩
  rw [child_ofParts hparts]
  refine ⟨hasNoEmptySegment_iff.mpr ⟨_, hall, rfl⟩, parent?_concat parts hlast,
    shortName_concat parts hlast, ?_⟩
  rw [segments_ofParts hall, segments_ofParts hparts, List.map_append, List.map_singleton]

/-- Every name but the root is the child of its parent. -/
theorem exists_parent {name : QualifiedName} (hplain : name.HasNoEmptySegment) (hroot : name ≠ root) :
    ∃ parent, name.parent? = some parent ∧ parent.HasNoEmptySegment ∧
      name.shortName.isSegment = true ∧ name = parent.child name.shortName := by
  obtain ⟨parts, hparts, rfl⟩ := hasNoEmptySegment_iff.mp hplain
  rcases List.eq_nil_or_concat parts with rfl | ⟨init, last, rfl⟩
  · exact absurd rfl hroot
  · rw [List.concat_eq_append] at hparts ⊢
    have hinit : ∀ part ∈ init, IsPart part := fun part hpart =>
      hparts part (List.mem_append_left _ hpart)
    have hlast : IsPart last := hparts last (by simp)
    refine ⟨ofParts init, parent?_concat init hlast, hasNoEmptySegment_iff.mpr ⟨_, hinit, rfl⟩, ?_⟩
    rw [shortName_concat init hlast, child_ofParts hinit]
    exact ⟨isPart_iff.mp (by simpa using hlast), rfl⟩

/-- A name lies in a namespace exactly if its segments begin with those of the namespace. -/
theorem startsWith_iff_prefix {name : QualifiedName} {scope : String}
    (hname : name.HasNoEmptySegment) (hscope : HasNoEmptySegment ⟨scope⟩) :
    name.startsWith scope = true ↔ segments ⟨scope⟩ <+: name.segments := by
  obtain ⟨parts, hparts, rfl⟩ := hasNoEmptySegment_iff.mp hname
  obtain ⟨scopeParts, hscopeParts, heq⟩ := hasNoEmptySegment_iff.mp hscope
  obtain rfl : scope = (ofParts scopeParts).text := congrArg text heq
  have hsegments : segments ⟨(ofParts scopeParts).text⟩ = scopeParts.map String.ofList :=
    segments_ofParts hscopeParts
  rw [startsWith_ofParts hparts hscopeParts, hsegments, segments_ofParts hparts,
    List.prefix_map_iff_of_injective fun _ _ => String.ofList_inj.mp]

/-- Names without empty segments are lists of segments. A child has its container's segments and its
own name behind them, its container is its parent and its own name its short name. No other
container and name make the same child, and every name but the root is the child of its parent. A
name lies in a namespace exactly if its segments begin with those of the namespace. -/
theorem names_are_segments :
    (∀ (container : QualifiedName) (name : SimpleName),
      container.HasNoEmptySegment → name.isSegment = true →
        (container.child name).HasNoEmptySegment ∧
        (container.child name).parent? = some container ∧
        (container.child name).shortName = name ∧
        (container.child name).segments = container.segments ++ [name.text]) ∧
    (∀ (container other : QualifiedName) (name otherName : SimpleName),
      container.HasNoEmptySegment → other.HasNoEmptySegment →
      name.isSegment = true → otherName.isSegment = true →
      container.child name = other.child otherName → container = other ∧ name = otherName) ∧
    (∀ name : QualifiedName, name.HasNoEmptySegment → name ≠ root →
      ∃ parent, name.parent? = some parent ∧ parent.HasNoEmptySegment ∧
        name.shortName.isSegment = true ∧ name = parent.child name.shortName) ∧
    ∀ (name : QualifiedName) (scope : String),
      name.HasNoEmptySegment → HasNoEmptySegment ⟨scope⟩ →
        (name.startsWith scope = true ↔ segments ⟨scope⟩ <+: name.segments) := by
  refine ⟨fun container name hcontainer hname => child_spec hcontainer hname,
    fun container other name otherName hcontainer hother hname hotherName heq => ?_,
    fun name hplain hroot => exists_parent hplain hroot,
    fun name scope hname hscope => startsWith_iff_prefix hname hscope⟩
  obtain ⟨-, hparent, hshort, -⟩ := child_spec hcontainer hname
  obtain ⟨-, hparent', hshort', -⟩ := child_spec hother hotherName
  rw [heq] at hparent hshort
  exact ⟨Option.some.inj (hparent.symm.trans hparent'), hshort.symm.trans hshort'⟩

/-- A name does not lie in a namespace whose text it merely begins with. -/
theorem kotlinx_beside_kotlin :
    let package : QualifiedName := ⟨"kotlinx.cinterop"⟩
    let pointer := package.child ⟨"CPointer"⟩
    (package.HasNoEmptySegment ∧ SimpleName.isSegment ⟨"CPointer"⟩ = true ∧ pointer ≠ root ∧
      HasNoEmptySegment ⟨"kotlinx"⟩ ∧ HasNoEmptySegment ⟨"kotlin"⟩) ∧
    pointer.parent? = some package ∧ pointer.segments = ["kotlinx", "cinterop", "CPointer"] ∧
    (∃ parent, pointer.parent? = some parent ∧ pointer = parent.child pointer.shortName) ∧
    (∀ (other : QualifiedName) (name : SimpleName), other.HasNoEmptySegment → name.isSegment = true →
      pointer = other.child name → package = other ∧ ⟨"CPointer"⟩ = name) ∧
    pointer.startsWith "kotlinx" = true ∧ pointer.startsWith "kotlin" = false := by
  intro package pointer
  obtain ⟨hchild, hinjective, hparent, hstarts⟩ := names_are_segments
  have hpackage : package.HasNoEmptySegment := by decide +kernel
  have hname : SimpleName.isSegment ⟨"CPointer"⟩ = true := by decide +kernel
  have hroot : pointer ≠ root := by decide +kernel
  have hkotlinx : HasNoEmptySegment ⟨"kotlinx"⟩ := by decide +kernel
  have hkotlin : HasNoEmptySegment ⟨"kotlin"⟩ := by decide +kernel
  obtain ⟨hpointer, hcontainer, -, hsegments⟩ := hchild package ⟨"CPointer"⟩ hpackage hname
  obtain ⟨parent, hparent, -, -, hback⟩ := hparent pointer hpointer hroot
  refine ⟨⟨hpackage, hname, hroot, hkotlinx, hkotlin⟩, hcontainer, ?_, ⟨parent, hparent, hback⟩,
    fun other name hother hsegment => hinjective package other _ name hpackage hother hname hsegment,
    ?_, ?_⟩
  · rw [hsegments]
    decide +kernel
  · rw [hstarts pointer "kotlinx" hpointer hkotlinx]
    decide +kernel
  · rw [← Bool.not_eq_true, hstarts pointer "kotlin" hpointer hkotlin]
    decide +kernel

end QualifiedName

end Concord
