import Concord.Options.Basic
import Concord.Proofs.Pattern.Reading
import Mathlib.Data.Set.Basic

namespace Concord

namespace Pattern

variable {text : String} {pattern body : Pattern}

/-- The texts that match as a whole the pattern that a text describes. -/
def language (text : String) : Set String :=
  {name | ∃ pattern ∈ read? text, pattern.Matches none name.toList none}

/-- The texts with a stretch that matches the pattern that a text describes. -/
def findings (text : String) : Set String :=
  {name | ∃ pattern ∈ read? text, ∃ passed stretch rest, name.toList = passed ++ stretch ++ rest ∧
    pattern.Matches passed.getLast? stretch rest.head?}

/-- A text in a group between the start and the end of what is to match. -/
def wrapped (text : String) : String :=
  "^(?:" ++ text ++ ")$"

/-- Whether a text closes the group it is put into: what it has in front of a closing parenthesis is
a pattern. -/
def ClosesGroup (text : String) : Prop :=
  ∃ lead more, text = lead ++ ")" ++ more ∧ (read? lead).isSome = true

/-- Whether a text makes alternatives of the group it is put into and of what it has behind it, so
that the start of what is to match belongs to the first one and the end to the last one. -/
def SplitsWrapping (text : String) : Prop :=
  ∃ pattern ∈ read? (wrapped text), pattern.isEither = true

section Reading

theorem read?_eq_some_iff :
    read? text = some pattern ↔ alternatives? (4 * text.length + 4) text.toList = some (pattern, []) := by
  unfold read?
  split
  case h_1 hfound => simp [hfound]
  case h_2 hfound => exact iff_of_false (by simp) (hfound pattern)

theorem reads_of_read? (hread : read? text = some pattern) :
    Reads alternatives? 5 closes text.toList pattern [] := by
  obtain ⟨used, heq, hreads⟩ := (readers _).alternatives (read?_eq_some_iff.mp hread)
  rw [List.append_nil] at heq
  exact heq ▸ hreads

theorem read?_of_reads {used rest : List Char} (hreads : Reads alternatives? 5 closes used pattern rest) :
    read? (String.ofList used) = some pattern := by
  have hfound := hreads.takes (4 * used.length + 4) (by omega) [] (by simp [closes])
  rw [List.append_nil] at hfound
  simp [read?_eq_some_iff, hfound]

theorem read?_wrapped_eq_some_iff : read? (wrapped text) = some pattern ↔
    alternatives? (4 * text.toList.length + 28)
      ('^' :: '(' :: '?' :: ':' :: (text.toList ++ [')', '$'])) = some (pattern, []) := by
  have hchars : (wrapped text).toList = '^' :: '(' :: '?' :: ':' :: (text.toList ++ [')', '$']) := by
    simp [wrapped]
  have hsteps : 4 * (wrapped text).length + 4 = 4 * text.toList.length + 28 := by
    rw [← String.length_toList, hchars]
    simp
    omega
  rw [read?_eq_some_iff, hsteps, hchars]

/-- An item without repetition marks is followed by the other items. -/
theorem items?_item {steps : Nat} {item : Pattern} {chars behind : List Char} (hends : ¬endsItems chars)
    (hitem : item? (steps + 1) chars = some (item, behind)) (hmark : noMark behind) :
    items? (steps + 2) chars =
      (items? (steps + 1) behind).map fun others => (item.followedBy others.1, others.2) := by
  have hrepeated : repetitions? (steps + 1) item behind = some (item, behind) := by
    simp [repetitions?, repetition?_eq_none_iff.mpr hmark]
  rw [items?_of_not_endsItems hends, hitem, Option.bind_some, hrepeated, Option.bind_some]

/-- The items of a wrapped text are the start of what is to match and the items from the group on. -/
theorem items?_start (steps : Nat) (chars : List Char) :
    items? (steps + 2) ('^' :: '(' :: chars) = (items? (steps + 1) ('(' :: chars)).map fun others =>
      ((boundary .textStart).followedBy others.1, others.2) :=
  items?_item (by simp [endsItems]) rfl (by simp [noMark])

/-- A text that is a pattern of its own stays in the group it is put into. -/
theorem read?_wrapped (hread : read? text = some body) : read? (wrapped text) =
    some (.sequence (.boundary .textStart) (.sequence (.group false body) (.boundary .textEnd))) := by
  have hbody := (reads_of_read? hread).takes (4 * text.toList.length + 23) (by omega) [')', '$']
    (by simp [closes])
  have hgroup : item? (4 * text.toList.length + 25)
      ('(' :: '?' :: ':' :: (text.toList ++ [')', '$'])) = some (.group false body, ['$']) := by
    simp [item?, group?, hbody]
  have hend : items? (4 * text.toList.length + 25) ['$'] = some (.boundary .textEnd, []) := rfl
  rw [read?_wrapped_eq_some_iff, alternatives?, items?_start,
    items?_item (by simp [endsItems]) hgroup (by simp [noMark]), hend]
  rfl

/-- What is read of a wrapped text goes on with the group, and up to the end if there are no
alternatives to it. -/
theorem items?_of_read?_wrapped (hread : read? (wrapped text) = some pattern) :
    ∃ steps others behind,
      items? (steps + 3) ('(' :: '?' :: ':' :: (text.toList ++ [')', '$'])) = some (others, behind) ∧
      (pattern.isEither = false → behind = [] ∧ pattern = (boundary .textStart).followedBy others) := by
  rw [read?_wrapped_eq_some_iff] at hread
  obtain ⟨first, hfirst, hread⟩ := Option.bind_eq_some_iff.mp hread
  rw [items?_start] at hfirst
  obtain ⟨⟨others, behind⟩, hothers, rfl⟩ := Option.map_eq_some_iff.mp hfirst
  refine ⟨4 * text.toList.length + 23, others, behind, hothers, fun heither => ?_⟩
  split at hread
  case h_1 =>
    obtain ⟨⟨second, behind'⟩, -, hread⟩ := Option.bind_eq_some_iff.mp hread
    cases hread
    cases heither
  case h_2 =>
    cases hread
    exact ⟨rfl, rfl⟩

/-- A group at the start holds a pattern up to a closing parenthesis. -/
theorem read?_of_items?_group {steps : Nat} {chars behind : List Char}
    (hitems : items? (steps + 3) ('(' :: '?' :: ':' :: chars) = some (pattern, behind)) :
    ∃ inside rest, chars = inside ++ ')' :: rest ∧
      (read? (String.ofList inside)).isSome = true := by
  rw [items?_of_not_endsItems (by simp [endsItems])] at hitems
  obtain ⟨item, hitem, -⟩ := Option.bind_eq_some_iff.mp hitems
  obtain ⟨⟨body, rest⟩, hbody, hclosed⟩ := Option.bind_eq_some_iff.mp hitem
  split at hclosed
  case h_2 => cases hclosed
  case h_1 heq =>
    cases heq
    obtain ⟨inside, rfl, hreads⟩ := (readers steps).alternatives hbody
    exact ⟨inside, _, rfl, Option.isSome_of_eq_some (read?_of_reads hreads)⟩

/-- A text that is accepted once it is wrapped is a pattern of its own, or closes the group it is
put into. -/
theorem closesGroup_of_read?_wrapped (hread : read? (wrapped text) = some pattern) :
    (read? text).isSome = true ∨ ClosesGroup text := by
  obtain ⟨steps, others, behind, hitems, -⟩ := items?_of_read?_wrapped hread
  obtain ⟨inside, rest, heq, hinside⟩ := read?_of_items?_group hitems
  -- The parenthesis that closes the group is the one behind the text, or stands in the text.
  rcases List.append_eq_append_iff.mp heq with ⟨more, rfl, heq⟩ | ⟨more, htext, heq⟩
  · obtain rfl : more = [] := by
      rcases more with - | ⟨c, - | ⟨d, more⟩⟩ <;> simp_all
    exact .inl (by simpa using hinside)
  · cases more with
    | nil =>
      rw [List.append_nil] at htext
      exact .inl (by simpa [← htext] using hinside)
    | cons c more =>
      obtain ⟨rfl, -⟩ := List.cons_eq_cons.mp heq
      refine .inr ⟨String.ofList inside, String.ofList more, ?_, hinside⟩
      rw [← String.toList_inj, htext]
      simp

end Reading

section Ends

/-- Whether a pattern matches in front of the end only. -/
def OnlyAtEnd (pattern : Pattern) : Prop :=
  ∀ ⦃before stretch after⦄, pattern.Matches before stretch after → after = none

theorem OnlyAtEnd.followedBy_eq {item others : Pattern} (hothers : others.OnlyAtEnd) :
    item.followedBy others = .sequence item others := by
  unfold followedBy
  split
  case h_1 => exact absurd (@hothers none [] (some 'a') rfl) (Option.some_ne_none 'a')
  case h_2 => rfl

theorem OnlyAtEnd.followedBy {item others : Pattern} (hothers : others.OnlyAtEnd) :
    (item.followedBy others).OnlyAtEnd := by
  rw [hothers.followedBy_eq]
  rintro before stretch after ⟨left, right, rfl, -, hrest⟩
  exact hothers hrest

/-- Items that end with a dollar sign match in front of the end only, unless it is escaped. -/
theorem onlyAtEnd_of_items? {steps : Nat} {lead : List Char} (hlead : lead.getLast? ≠ some '\\')
    (hfound : items? steps (lead ++ ['$']) = some (pattern, [])) : pattern.OnlyAtEnd := by
  induction steps generalizing lead pattern with
  | zero => cases hfound
  | succ steps ih =>
    by_cases hends : endsItems (lead ++ ['$'])
    · rw [items?_of_endsItems hends] at hfound
      simp at hfound
    rw [items?_of_not_endsItems hends] at hfound
    obtain ⟨⟨item, behind⟩, hitem, hfound⟩ := Option.bind_eq_some_iff.mp hfound
    obtain ⟨⟨repeated, behind'⟩, hrepeated, hfound⟩ := Option.bind_eq_some_iff.mp hfound
    obtain ⟨⟨others, behind''⟩, hothers, hfound⟩ := Option.map_eq_some_iff.mp hfound
    cases hfound
    obtain ⟨used, heq, hused, hdollar, -⟩ := (readers steps).item hitem
    obtain ⟨marks, rfl, -, hlast, hnone, -, -⟩ := repetitions?_takes hrepeated
    rcases List.eq_nil_or_concat behind' with rfl | ⟨lead', c, rfl⟩
    -- No repetition mark is a dollar sign, so the last item takes it and is the end itself.
    · obtain rfl : marks = [] := by
        by_contra hmarks
        rw [List.append_nil] at heq
        refine hlast ?_
        rw [← List.getLast?_append_of_ne_nil used hmarks, ← heq, List.getLast?_concat]
      rw [List.append_nil, List.append_nil] at heq
      obtain rfl : repeated = item := hnone rfl
      obtain rfl : others = .empty := by
        cases steps with
        | zero => cases hothers
        | succ steps => cases hothers; rfl
      rcases hdollar (by rw [← heq, List.getLast?_concat]) with rfl | ⟨-, rfl⟩
      · obtain rfl : lead = ['\\'] := List.append_cancel_right (heq : lead ++ ['$'] = ['\\'] ++ ['$'])
        exact absurd rfl hlead
      · rintro before stretch after ⟨-, hend⟩
        exact Option.isNone_iff_eq_none.mp hend
    · rw [List.concat_eq_append, ← List.append_assoc, ← List.append_assoc] at heq
      obtain ⟨rfl, hc⟩ := List.append_inj' heq rfl
      obtain rfl : '$' = c := by simpa using hc
      rw [List.concat_eq_append] at hothers
      refine (ih ?_ hothers).followedBy
      simp only [List.getLast?_append] at hlead
      cases hlast : lead'.getLast? <;> simp_all

end Ends

section Wholes

theorem mem_findings_iff {name : String} :
    name ∈ findings text ↔ ∃ pattern ∈ read? text, pattern.isMatch name = true :=
  exists_congr fun _ => and_congr_right fun hread => (isMatch_iff (reads_of_read? hread).isProper).symm

/-- Between the ends of a text, a group matches the whole text. -/
theorem matches_between_ends {name : List Char} :
    (sequence (.boundary .textStart) (.sequence (.group false body) (.boundary .textEnd))).Matches
      none name none ↔ body.Matches none name none := by
  constructor
  · rintro ⟨left, right, rfl, ⟨rfl, -⟩, inside, others, rfl, hbody, rfl, -⟩
    rwa [List.nil_append, List.append_nil]
  · intro hbody
    exact ⟨[], name, rfl, ⟨rfl, rfl⟩, name, [], (List.append_nil _).symm, hbody, rfl, rfl⟩

/-- A text that is a pattern of its own stays in the group it is put into, and wrapped it matches
the same texts as wholes. -/
theorem language_wrapped (hread : read? text = some body) :
    ¬SplitsWrapping text ∧ language (wrapped text) = language text := by
  have hwrapped := read?_wrapped hread
  constructor
  · rintro ⟨pattern, hpattern, heither⟩
    cases hwrapped.symm.trans hpattern
    cases heither
  · ext name
    simp only [language, hread, hwrapped, Set.mem_ofPred_eq, Option.mem_def, Option.some.injEq,
      exists_eq_left', matches_between_ends]

/-- Without alternatives to the group, what a wrapped text matches is a whole text. -/
theorem findings_wrapped (hwhole : ¬SplitsWrapping text) :
    findings (wrapped text) = language (wrapped text) := by
  ext name
  refine exists_congr fun pattern => and_congr_right fun hread => ?_
  constructor
  · rintro ⟨passed, stretch, rest, heq, hmatches⟩
    have heither : pattern.isEither = false :=
      Bool.eq_false_iff.mpr fun heither => hwhole ⟨pattern, hread, heither⟩
    obtain ⟨steps, others, behind, hitems, hpattern⟩ := items?_of_read?_wrapped hread
    obtain ⟨rfl, rfl⟩ := hpattern heither
    have hitems : items? (steps + 3) ('(' :: '?' :: ':' :: (text.toList ++ [')']) ++ ['$']) =
        some (others, []) := by
      simpa using hitems
    have hend : others.OnlyAtEnd :=
      onlyAtEnd_of_items? (by simp [List.getLast?_cons]) hitems
    rw [hend.followedBy_eq] at hmatches
    obtain ⟨left, right, rfl, ⟨rfl, hstart⟩, hothers⟩ := hmatches
    obtain rfl : passed = [] := List.getLast?_eq_none_iff.mp (Option.isNone_iff_eq_none.mp hstart)
    obtain rfl : rest = [] := List.head?_eq_none_iff.mp (hend hothers)
    obtain rfl : name.toList = right := by simpa using heq
    show ((boundary .textStart).followedBy others).Matches none name.toList none
    rw [hend.followedBy_eq]
    exact ⟨[], name.toList, rfl, ⟨rfl, rfl⟩, hothers⟩
  · intro hmatches
    exact ⟨[], name.toList, [], (List.append_nil _).symm, hmatches⟩

/-- A text that is accepted once it is wrapped closes the group exactly if it is no pattern of its
own. -/
theorem closesGroup_iff (hread : (read? (wrapped text)).isSome = true) :
    ClosesGroup text ↔ read? text = none := by
  constructor
  · rintro ⟨lead, more, rfl, hlead⟩
    obtain ⟨front, hfront⟩ := Option.isSome_iff_exists.mp hlead
    rw [Option.eq_none_iff_forall_ne_some]
    intro pattern hpattern
    have hwhole := read?_eq_some_iff.mp hpattern
    have hclosed := (reads_of_read? hfront).takes (4 * (lead ++ ")" ++ more).length + 4)
      (by simp only [String.length_append, String.length_toList]; omega) (')' :: more.toList)
      (by simp [closes])
    have hchars : (lead ++ ")" ++ more).toList = lead.toList ++ ')' :: more.toList := by simp
    rw [hchars, hclosed] at hwhole
    cases hwhole
  · intro hnone
    obtain ⟨pattern, hread⟩ := Option.isSome_iff_exists.mp hread
    exact (closesGroup_of_read?_wrapped hread).resolve_left (by simp [hnone])

end Wholes

end Pattern

open Pattern

variable {texts : List String} {patterns : List Pattern} {options : Options}
  {compiled : CompiledOptions} {name : SimpleName}

/-- Patterns are read one for each text, in their order. -/
theorem map_readWhole?_of_readPatterns (hread : readPatterns texts = .ok patterns) :
    texts.map readWhole? = patterns.map some := by
  induction texts generalizing patterns with
  | nil =>
    cases hread
    rfl
  | cons text texts ih =>
    rw [readPatterns] at hread
    split at hread
    case h_1 => cases hread
    case h_2 pattern hpattern =>
      cases hothers : readPatterns texts with
      | error fault =>
        rw [hothers] at hread
        cases hread
      | ok others =>
        rw [hothers] at hread
        cases hread
        rw [List.map_cons, List.map_cons, hpattern, ih hothers]

theorem readWhole?_eq_some_iff {text : String} {pattern : Pattern} : readWhole? text = some pattern ↔
    read? (wrapped text) = some pattern ∧ isAccepted pattern = true :=
  Option.filter_eq_some_iff

namespace Options

/-- The patterns of compiled options are those of the texts, each wrapped. -/
theorem map_readWhole?_of_compile (hcompile : options.compile = .ok compiled) :
    options.excludedFunctions.map readWhole? = compiled.excludedFunctions.map some := by
  cases hread : readPatterns options.excludedFunctions with
  | error text =>
    rw [compile, hread] at hcompile
    cases hcompile
  | ok patterns =>
    rw [compile, hread] at hcompile
    cases hcompile
    exact map_readWhole?_of_readPatterns hread

theorem read?_wrapped_of_compile (hcompile : options.compile = .ok compiled) {text : String}
    (htext : text ∈ options.excludedFunctions) :
    ∃ pattern ∈ compiled.excludedFunctions, read? (wrapped text) = some pattern := by
  have hmem := List.mem_map_of_mem (f := readWhole?) htext
  rw [map_readWhole?_of_compile hcompile] at hmem
  obtain ⟨pattern, hpattern, heq⟩ := List.mem_map.mp hmem
  exact ⟨pattern, hpattern, (readWhole?_eq_some_iff.mp heq.symm).1⟩

/-- A function is excluded if one of the patterns is found in its name. -/
theorem isExcluded_iff (hcompile : options.compile = .ok compiled) :
    compiled.isExcluded name = true ↔
      ∃ text ∈ options.excludedFunctions, name.text ∈ findings (wrapped text) := by
  simp only [CompiledOptions.isExcluded, List.any_eq_true, mem_findings_iff]
  constructor
  · rintro ⟨pattern, hpattern, hmatch⟩
    have hmem := List.mem_map_of_mem (f := some) hpattern
    rw [← map_readWhole?_of_compile hcompile] at hmem
    obtain ⟨text, htext, heq⟩ := List.mem_map.mp hmem
    exact ⟨text, htext, pattern, (readWhole?_eq_some_iff.mp heq).1, hmatch⟩
  · rintro ⟨text, htext, pattern, hread, hmatch⟩
    obtain ⟨pattern', hpattern, hread'⟩ := read?_wrapped_of_compile hcompile htext
    cases hread'.symm.trans hread
    exact ⟨pattern, hpattern, hmatch⟩

/-- Patterns that do not close the group they are put into exclude the names that are in the
language of one of them. The others are no patterns of their own, and exclude the names they match
as wholes once they are wrapped unless they make alternatives of what they are wrapped in. -/
theorem excluded_names_exact (hcompile : options.compile = .ok compiled) :
    ((∀ text ∈ options.excludedFunctions, ¬ClosesGroup text) → ∀ name : SimpleName,
      compiled.isExcluded name = true ↔
        ∃ text ∈ options.excludedFunctions, name.text ∈ language text) ∧
    (∀ name : SimpleName, compiled.isExcluded name = true ↔
      ∃ text ∈ options.excludedFunctions,
        name.text ∈ language text ∨ ClosesGroup text ∧ name.text ∈ findings (wrapped text)) ∧
    ∀ text ∈ options.excludedFunctions,
      (ClosesGroup text ↔ read? text = none) ∧
      (¬SplitsWrapping text → findings (wrapped text) = language (wrapped text)) := by
  have haccepted {text : String} (htext : text ∈ options.excludedFunctions) :
      (read? (wrapped text)).isSome = true := by
    obtain ⟨pattern, -, hread⟩ := read?_wrapped_of_compile hcompile htext
    exact Option.isSome_iff_exists.mpr ⟨pattern, hread⟩
  have hexcluded (name : SimpleName) : compiled.isExcluded name = true ↔
      ∃ text ∈ options.excludedFunctions,
        name.text ∈ language text ∨ ClosesGroup text ∧ name.text ∈ findings (wrapped text) := by
    rw [isExcluded_iff hcompile]
    refine exists_congr fun text => and_congr_right fun htext => ?_
    cases hread : read? text with
    | none =>
      have hcloses := (closesGroup_iff (haccepted htext)).mpr hread
      simp [hcloses, language, hread]
    | some body =>
      have hstays : ¬ClosesGroup text := by simp [closesGroup_iff (haccepted htext), hread]
      obtain ⟨hwhole, hlanguage⟩ := language_wrapped hread
      simp [hstays, findings_wrapped hwhole, hlanguage]
  refine ⟨fun hstay name => ?_, hexcluded, fun text htext =>
    ⟨closesGroup_iff (haccepted htext), findings_wrapped⟩⟩
  rw [hexcluded]
  exact exists_congr fun text => and_congr_right fun htext => by simp [hstay text htext]

/-- In normal form, the characters from one to another are a range, and one character is a literal. -/
private theorem ofRanges_range (low high : Char) :
    NormalPattern.ofRanges (CharacterSet.range low high).ranges =
      if low.toNat = high.toNat then .literal [low] else .oneOf [(low.toNat, high.toNat)] := by
  have hranges : (CharacterSet.range low high).ranges = [(low.toNat, high.toNat)] := by
    simp [CharacterSet.range, CharacterSet.ranges, CharacterRanges.ofRanges, CharacterRanges.joinAfter]
  rw [hranges, NormalPattern.ofRanges, Char.ofNat_toNat]

/-- Options with one pattern, which is accepted for its nesting and its normal form. -/
theorem compile_singleton (text : String) {normal : NormalPattern}
    (hnormal : (read? (wrapped text)).map normalForm = some normal)
    (hnesting : (read? (wrapped text)).all (·.nesting ≤ nestingLimit) = true)
    (hlimit : normal.isWithinLimit = true) : ∃ compiled,
    ({ Options.default with excludedFunctions := [text] } : Options).compile = .ok compiled ∧
    ∀ name : SimpleName,
      compiled.isExcluded name = (read? (wrapped text)).any (·.isMatch name.text) := by
  obtain ⟨pattern, hread, rfl⟩ := Option.map_eq_some_iff.mp hnormal
  have hwhole : readWhole? text = some pattern :=
    readWhole?_eq_some_iff.mpr ⟨hread, by simpa [isAccepted, hlimit, hread] using hnesting⟩
  have hread' : readPatterns [text] = .ok [pattern] := by
    rw [readPatterns, hwhole]
    rfl
  refine ⟨_, by rw [compile, hread']; rfl, fun name => ?_⟩
  simp [CompiledOptions.isExcluded, hread]

/-- A pattern of two alternatives excludes the names that match one of them, and no name that only
begins or ends like them. -/
theorem alternatives_exclude_whole_names : ∃ compiled,
    ({ Options.default with excludedFunctions := ["get|on[A-Z]+"] } : Options).compile = .ok compiled ∧
    (∀ name : SimpleName, compiled.isExcluded name = true ↔ name.text ∈ language "get|on[A-Z]+") ∧
    compiled.isExcluded ⟨"onAB"⟩ = true ∧ compiled.isExcluded ⟨"getter"⟩ = false ∧
    compiled.isExcluded ⟨"forget"⟩ = false := by
  have hread : read? "get|on[A-Z]+" = some (.either
      (.sequence (.oneOf (.single 'g')) (.sequence (.oneOf (.single 'e')) (.oneOf (.single 't'))))
      (.sequence (.oneOf (.single 'o')) (.sequence (.oneOf (.single 'n'))
        (.repeated (.oneOf (.bracketed (.range 'A' 'Z'))) 1 none false)))) := by decide +kernel
  have hnormal : (read? (wrapped "get|on[A-Z]+")).map normalForm = some (.sequence
      [.boundary .textStart,
        .either [.literal ['g', 'e', 't'],
          .sequence [.literal ['o', 'n'], .repeated (.oneOf [(65, 90)]) 1 none false]],
        .boundary .textEnd]) := by
    simp only [read?_wrapped hread, Option.map_some, normalForm, NormalPattern.branches,
      CharacterSet.single, CharacterSet.ranges, ofRanges_range]
    rfl
  obtain ⟨compiled, hcompile, hexcluded⟩ := compile_singleton _ hnormal (by decide +kernel) (by
    simp only [NormalPattern.isWithinLimit, NormalPattern.buildSearch, NormalPattern.isAnchored,
      NormalPattern.isAnySideAnchored, NormalPattern.build, NormalPattern.buildSequence,
      NormalPattern.buildAlternatives, NormalPattern.buildFurther, NormalPattern.word?,
      List.mapM_cons, List.all_cons]
    decide +kernel)
  obtain ⟨hwhole, -, hcloses⟩ := excluded_names_exact hcompile
  refine ⟨compiled, hcompile, fun name => ?_, ?_, ?_, ?_⟩
  · have hstays : ∀ text ∈ ["get|on[A-Z]+"], ¬ClosesGroup text := by
      intro text htext
      obtain rfl := List.mem_singleton.mp htext
      have hread : read? "get|on[A-Z]+" ≠ none := by decide +kernel
      exact mt (hcloses _ htext).1.mp hread
    simpa using hwhole hstays name
  · exact (hexcluded _).trans (by decide +kernel)
  · exact (hexcluded _).trans (by decide +kernel)
  · exact (hexcluded _).trans (by decide +kernel)

/-- A pattern that closes the group excludes names of which it matches a part. -/
theorem split_pattern_excludes_parts : ∃ compiled,
    ({ Options.default with excludedFunctions := ["a)|(b"] } : Options).compile = .ok compiled ∧
    compiled.isExcluded ⟨"ax"⟩ = true ∧
    "ax" ∉ language "a)|(b" ∧ "ax" ∉ language (wrapped "a)|(b") := by
  have hwrapped : read? (wrapped "a)|(b") = some (.either
      (.sequence (.boundary .textStart) (.group false (.oneOf (.single 'a'))))
      (.sequence (.group true (.oneOf (.single 'b'))) (.boundary .textEnd))) := by decide +kernel
  have hnormal : (read? (wrapped "a)|(b")).map normalForm = some (.either
      [.sequence [.boundary .textStart, .literal ['a']],
        .sequence [.captured (.literal ['b']), .boundary .textEnd]]) := by
    simp only [hwrapped, Option.map_some, normalForm, NormalPattern.branches, CharacterSet.single,
      ofRanges_range]
    rfl
  obtain ⟨compiled, hcompile, hexcluded⟩ := compile_singleton _ hnormal (by decide +kernel) (by
    simp only [NormalPattern.isWithinLimit, NormalPattern.buildSearch, NormalPattern.isAnchored,
      NormalPattern.isAnySideAnchored, NormalPattern.areAllAnchored, NormalPattern.build,
      NormalPattern.buildSequence, NormalPattern.buildAlternatives, NormalPattern.buildFurther,
      NormalPattern.word?, List.mapM_cons, List.all_cons]
    decide +kernel)
  have hown : read? "a)|(b" = none := by decide +kernel
  refine ⟨compiled, hcompile, ?_, ?_, ?_⟩
  · exact (hexcluded _).trans (by decide +kernel)
  · rintro ⟨pattern, hread, -⟩
    cases hown.symm.trans hread
  · rintro ⟨pattern, hread, hmatches⟩
    cases hwrapped.symm.trans hread
    rcases hmatches with ⟨left, right, heq, ⟨rfl, -⟩, c, rfl, -⟩ | ⟨left, right, heq, ⟨c, rfl, -⟩, rfl, -⟩
    · simp at heq
    · simp at heq

end Options

end Concord
