import Concord.Pattern.Reader
import Mathlib.Data.List.TakeDrop
import Mathlib.Data.List.TakeWhile

namespace Concord

namespace Pattern

/-- Whether a reader takes `used` off every text that goes on with something of a kind, and finds
`found` in it. -/
def Takes {α : Type} (reader : List Char → Option (α × List Char)) (mayFollow : List Char → Prop)
    (used : List Char) (found : α) : Prop :=
  ∀ tail, mayFollow tail → reader (used ++ tail) = some (found, tail)

/-- Any text may follow. -/
def anything : List Char → Prop := fun _ => True

theorem span_eq_iff {p : Char → Bool} {text taken rest : List Char} : text.span p = (taken, rest) ↔
    text = taken ++ rest ∧ (∀ c ∈ taken, p c = true) ∧ ∀ c ∈ rest.head?, p c = false := by
  rw [List.span_eq_takeWhile_dropWhile, Prod.mk.injEq]
  constructor
  · rintro ⟨rfl, rfl⟩
    refine ⟨List.takeWhile_append_dropWhile.symm, fun c hc => List.mem_takeWhile_imp hc, ?_⟩
    intro c hc
    have hnot := List.head?_dropWhile_not p text
    rw [Option.mem_def.mp hc] at hnot
    simpa using hnot
  · rintro ⟨rfl, htaken, hrest⟩
    rw [List.takeWhile_append_of_pos htaken, List.dropWhile_append_of_pos htaken]
    cases rest with
    | nil => simp
    | cons c rest => simp [hrest c rfl]

section Escapes

variable {text rest : List Char} {found : Escape}

/-- A dollar sign is no digit of a code point. -/
private theorem dollar_not_mem_of_foldlM {digits : List Char} {start point : Nat}
    (hfold : digits.foldlM (fun point digit => do
      return min (point * 16 + (← Digits.hexValue? digit)) 0x110000) start = some point) :
    '$' ∉ digits := by
  induction digits generalizing start with
  | nil => exact List.not_mem_nil
  | cons digit digits ih =>
    rw [List.foldlM_cons] at hfold
    obtain ⟨next, hnext, hfold⟩ := Option.bind_eq_some_iff.mp hfold
    obtain ⟨value, hvalue, -⟩ := Option.bind_eq_some_iff.mp hnext
    rintro (_ | ⟨_, hmem⟩)
    · exact nomatch hvalue
    · exact ih hfold hmem

private theorem dollar_not_mem_of_ofHex? {digits : List Char} {c : Char}
    (hpoint : ofHex? digits = some c) : '$' ∉ digits := by
  obtain ⟨-, -, hpoint⟩ := Option.bind_eq_some_iff.mp hpoint
  obtain ⟨point, hfold, -⟩ := Option.bind_eq_some_iff.mp hpoint
  exact dollar_not_mem_of_foldlM hfold

private theorem codePoint?_takes {count : Nat} (hcount : 0 < count)
    (hfound : codePoint? count text = some (found, rest)) :
    ∃ used, text = used ++ rest ∧ used.getLast? ≠ some '$' ∧
      Takes (codePoint? count) anything used found := by
  unfold codePoint? at hfound
  split at hfound
  · rename_i text
    split at hfound
    · rename_i digits behind hspan
      obtain ⟨rfl, hdigits, -⟩ := span_eq_iff.mp hspan
      obtain ⟨c, hpoint, hfound⟩ := Option.map_eq_some_iff.mp hfound
      cases hfound
      refine ⟨'{' :: digits ++ ['}'], by simp, by rw [List.getLast?_concat]; decide,
        fun tail _ => ?_⟩
      have hspan : (digits ++ '}' :: tail).span (· != '}') = (digits, '}' :: tail) :=
        span_eq_iff.mpr ⟨rfl, hdigits, by simp⟩
      rw [List.append_assoc, List.cons_append, List.singleton_append, codePoint?, hspan]
      simp [hpoint]
    · cases hfound
  · rename_i hbrace
    split at hfound
    · rename_i hlength
      obtain ⟨c, hpoint, hfound⟩ := Option.map_eq_some_iff.mp hfound
      cases hfound
      refine ⟨text.take count, (List.take_append_drop count text).symm, fun hlast =>
        dollar_not_mem_of_ofHex? hpoint (List.mem_of_getLast? hlast), fun tail _ => ?_⟩
      have hhead : ∀ rest, text.take count ++ tail ≠ '{' :: rest := fun rest heq => by
        cases text with
        | nil => simp at hlength; omega
        | cons d text =>
          obtain ⟨count, rfl⟩ := Nat.exists_eq_add_of_lt hcount
          simp only [List.take_succ_cons, Nat.zero_add, List.cons_append, List.cons.injEq] at heq
          exact hbrace text (by rw [heq.1])
      unfold codePoint?
      split
      · rename_i heq
        exact absurd heq (hhead _)
      · rw [List.take_left' hlength, List.drop_left' hlength, if_pos hlength, hpoint]
        rfl
    · cases hfound

/-- What stands behind a backslash is one character, or begins with one in front of a code point. -/
theorem escape?_takes (hfound : escape? text = some (found, rest)) :
    ∃ used, text = used ++ rest ∧ used ≠ [] ∧ (used.getLast? = some '$' → used = ['$']) ∧
      Takes escape? anything used found := by
  have hpoints {mark : Char} {count : Nat} {behind : List Char} (hcount : 0 < count)
      (hdollar : mark ≠ '$') (hmark : ∀ tail, escape? (mark :: tail) = codePoint? count tail)
      (htext : text = mark :: behind) (hpoint : codePoint? count behind = some (found, rest)) :
      ∃ used, text = used ++ rest ∧ used ≠ [] ∧ (used.getLast? = some '$' → used = ['$']) ∧
        Takes escape? anything used found := by
    obtain ⟨used, rfl, hlast, htakes⟩ := codePoint?_takes hcount hpoint
    refine ⟨mark :: used, htext, List.cons_ne_nil _ _, fun heq => ?_, fun tail htail => ?_⟩
    · rw [List.getLast?_cons] at heq
      cases hused : used.getLast? <;> simp_all
    · rw [List.cons_append, hmark, htakes tail htail]
  unfold escape? at hfound
  split at hfound
  case h_1 => cases hfound
  case h_8 => exact hpoints (by decide) (by decide) (fun _ => rfl) rfl hfound
  case h_9 => exact hpoints (by decide) (by decide) (fun _ => rfl) rfl hfound
  case h_10 => exact hpoints (by decide) (by decide) (fun _ => rfl) rfl hfound
  case h_21 =>
    split at hfound
    · cases hfound
      refine ⟨[_], rfl, by simp, by simp, fun tail _ => ?_⟩
      simp_all [escape?]
    · cases hfound
  all_goals
    cases hfound
    exact ⟨[_], rfl, by simp, by simp, fun tail _ => rfl⟩

theorem setItem?_takes (hfound : setItem? text = some (found, rest)) :
    ∃ used, text = used ++ rest ∧ used ≠ [] ∧ Takes setItem? anything used found := by
  unfold setItem? at hfound
  split at hfound
  · cases hfound
  · obtain ⟨used, rfl, -, -, htakes⟩ := escape?_takes hfound
    exact ⟨'\\' :: used, rfl, List.cons_ne_nil _ _, fun tail htail => htakes tail htail⟩
  · rename_i c behind hbackslash
    cases hfound
    exact ⟨[c], rfl, List.cons_ne_nil _ _, fun tail _ => by simp [setItem?]⟩

end Escapes

section Ranges

variable {text rest : List Char} {set : CharacterSet}

/-- The character behind a hyphen at the start of a text. -/
def rangeAhead : List Char → Option Char
  | '-' :: next :: _ => some next
  | _ => none

theorem rangeAhead_eq_some {next : Char} :
    rangeAhead text = some next ↔ ∃ more, text = '-' :: next :: more := by
  constructor
  · intro hahead
    unfold rangeAhead at hahead
    split at hahead <;> cases hahead
    exact ⟨_, rfl⟩
  · rintro ⟨more, rfl⟩
    rfl

theorem rangeAhead_eq_none : rangeAhead text = none ↔ ∀ next more, text ≠ '-' :: next :: more := by
  simp only [← Option.not_isSome_iff_eq_none, Option.isSome_iff_exists, rangeAhead_eq_some, not_exists,
    ne_eq]

/-- What is behind a closing bracket makes no range in front of it. -/
theorem rangeAhead_inside (inside rest tail : List Char) :
    rangeAhead (inside ++ ']' :: tail) = rangeAhead (inside ++ ']' :: rest) := by
  match inside with
  | [] => rfl
  | [a] => by_cases ha : a = '-' <;> simp [rangeAhead, ha]
  | a :: b :: inside => unfold rangeAhead; split <;> split <;> simp_all

/-- An item of a set is read in front of every text that begins with the same range or with none. -/
theorem setRange?_takes (hfound : setRange? text = some (set, rest)) :
    ∃ used, text = used ++ rest ∧ used ≠ [] ∧
      Takes setRange? (fun tail => rangeAhead tail = rangeAhead rest) used set := by
  obtain ⟨⟨item, behind⟩, hitem, hrange⟩ := Option.bind_eq_some_iff.mp hfound
  obtain ⟨used, rfl, hused, htakes⟩ := setItem?_takes hitem
  have hagain (tail : List Char) := htakes tail trivial
  clear hfound hitem
  dsimp only at hrange
  split at hrange
  case h_1 low next behind =>
    split at hrange
    · rename_i hnext
      cases hrange
      refine ⟨used, rfl, hused, fun tail htail => ?_⟩
      obtain ⟨more, rfl⟩ := rangeAhead_eq_some.mp htail
      simp [setRange?, hagain, hnext]
    · rename_i hnext
      obtain ⟨⟨other, after⟩, hother, hrange⟩ := Option.bind_eq_some_iff.mp hrange
      obtain ⟨used', heq, hused', htakes'⟩ := setItem?_takes hother
      split at hrange
      case h_2 => cases hrange
      case h_1 high behind' hhigh =>
        split at hrange
        case isFalse => cases hrange
        case isTrue hle =>
          cases hhigh
          cases hrange
          obtain ⟨c, used', rfl⟩ := List.exists_cons_of_ne_nil hused'
          obtain ⟨rfl, rfl⟩ := List.cons_eq_cons.mp heq
          refine ⟨used ++ '-' :: next :: used', by simp, by simp [hused], fun tail _ => ?_⟩
          rw [List.append_assoc]
          have hsecond := htakes' tail trivial
          rw [List.cons_append] at hsecond
          simp [setRange?, hagain, hnext, hsecond, hle]
  case h_2 behind low hahead =>
    cases hrange
    refine ⟨used, rfl, hused, fun tail htail => ?_⟩
    have hnone := rangeAhead_eq_none.mp (htail.trans (rangeAhead_eq_none.mpr hahead))
    simp only [setRange?, hagain, Option.bind_eq_bind, Option.bind_some]
    rfl
  case h_3 next behind =>
    split at hrange
    case isFalse => cases hrange
    case isTrue hnext =>
      cases hrange
      refine ⟨used, rfl, hused, fun tail htail => ?_⟩
      obtain ⟨more, rfl⟩ := rangeAhead_eq_some.mp htail
      simp [setRange?, hagain, hnext]
  case h_4 behind set hahead =>
    cases hrange
    refine ⟨used, rfl, hused, fun tail htail => ?_⟩
    have hnone := rangeAhead_eq_none.mp (htail.trans (rangeAhead_eq_none.mpr hahead))
    simp only [setRange?, hagain, Option.bind_eq_bind, Option.bind_some]
    rfl
  case h_5 => cases hrange

end Ranges

section NamedClasses

variable {text rest : List Char} {set : CharacterSet}

private theorem bracket_not_mem_of_asciiClass? {name : List Char} {ranges : CharacterRanges}
    (hclass : asciiClass? (String.ofList name) = some ranges) : ']' ∉ name := by
  have hname {known : String} (heq : String.ofList name = known) (hknown : ']' ∉ known.toList) :
      ']' ∉ name := by
    rwa [← heq, String.toList_ofList] at hknown
  unfold asciiClass? at hclass
  split at hclass
  case h_15 => cases hclass
  all_goals
    rename_i heq
    exact hname heq (by decide)

/-- Whether a text begins with the caret that makes a set a complement, and the text behind it. -/
def negation : List Char → Bool × List Char
  | '^' :: rest => (true, rest)
  | rest => (false, rest)

/-- The caret is read in front of every text that begins alike. -/
theorem negation_takes {negated : Bool} (hnegation : negation text = (negated, rest)) :
    ∃ mark, text = mark ++ rest ∧ ']' ∉ mark ∧ ∀ tail, tail.head? = rest.head? →
      negation (mark ++ tail) = (negated, tail) := by
  unfold negation at hnegation
  split at hnegation
  · cases hnegation
    exact ⟨['^'], rfl, by simp, fun tail _ => rfl⟩
  · rename_i hnone
    cases hnegation
    refine ⟨[], rfl, List.not_mem_nil, fun tail htail => ?_⟩
    unfold negation
    split
    · rename_i behind heq
      obtain rfl : tail = '^' :: behind := heq
      cases text with
      | nil => simp at htail
      | cons c text =>
        obtain rfl : '^' = c := by simpa using htail
        exact absurd rfl (hnone text)
    · rfl

private theorem namedClass?_colon (text : List Char) : namedClass? (':' :: text) =
    match (negation text).2.span (· != ':') with
    | (name, ':' :: ']' :: rest) => (asciiClass? (String.ofList name)).map fun ranges =>
        (if (negation text).1 then .complement (.within ranges) else .within ranges, rest)
    | _ => none :=
  rfl

/-- A named class ends with the first closing bracket. -/
theorem namedClass?_takes (hfound : namedClass? text = some (set, rest)) :
    ∃ inside, text = inside ++ ']' :: rest ∧ ']' ∉ inside ∧
      Takes namedClass? anything (inside ++ [']']) set := by
  have hcolon : ∃ behind, text = ':' :: behind := by
    unfold namedClass? at hfound
    split at hfound
    · exact ⟨_, rfl⟩
    · cases hfound
  obtain ⟨behind, rfl⟩ := hcolon
  rw [namedClass?_colon] at hfound
  obtain ⟨negated, inner, hnegation⟩ : ∃ negated inner, negation behind = (negated, inner) :=
    ⟨_, _, rfl⟩
  obtain ⟨mark, rfl, hmark, hagain⟩ := negation_takes hnegation
  rw [hnegation] at hfound
  split at hfound
  case h_2 => cases hfound
  case h_1 name after hspan =>
    obtain ⟨ranges, hclass, hfound⟩ := Option.map_eq_some_iff.mp hfound
    cases hfound
    obtain ⟨rfl, hname, -⟩ := span_eq_iff.mp hspan
    refine ⟨':' :: (mark ++ (name ++ [':'])), by simp, ?_, fun tail _ => ?_⟩
    · simp [hmark, bracket_not_mem_of_asciiClass? hclass]
    · have htext : ':' :: (mark ++ (name ++ [':'])) ++ [']'] ++ tail =
          ':' :: (mark ++ (name ++ ':' :: ']' :: tail)) := by simp
      have hspan : (name ++ ':' :: ']' :: tail).span (· != ':') = (name, ':' :: ']' :: tail) :=
        span_eq_iff.mpr ⟨rfl, hname, by simp⟩
      rw [htext, namedClass?_colon, hagain _ (by simp), hspan]
      simp [hclass]

/-- Whether a bracket begins a named class is decided by the text up to the next closing bracket. -/
theorem namedClass?_eq_none {inside : List Char} (hnone : namedClass? (inside ++ ']' :: rest) = none)
    (tail : List Char) : namedClass? (inside ++ ']' :: tail) = none := by
  rw [Option.eq_none_iff_forall_ne_some]
  rintro ⟨set, behind⟩ hfound
  obtain ⟨name, heq, hname, htakes⟩ := namedClass?_takes hfound
  rcases List.append_eq_append_iff.mp heq with ⟨more, rfl, hmore⟩ | ⟨more, rfl, hmore⟩
  · cases more with
    | nil =>
      have hagain := htakes rest trivial
      simp_all
    | cons c more =>
      obtain ⟨rfl, -⟩ := List.cons_eq_cons.mp hmore
      simp at hname
  · cases more with
    | nil =>
      have hagain := htakes rest trivial
      simp_all
    | cons c more =>
      obtain ⟨rfl, -⟩ := List.cons_eq_cons.mp hmore
      have hagain := htakes (more ++ ']' :: rest) trivial
      simp_all

end NamedClasses

section Sets

variable {text rest : List Char} {found : CharacterSet} {steps : Nat}
  {left : Option (CharacterSet × SetOperator)} {items : List CharacterSet}

/-- Whether a reader finds `found` in front of the closing bracket that is followed by `rest`. With
as many steps as it has read characters, and some more, it does so whatever follows. -/
def Encloses (reader : Nat → List Char → Option (CharacterSet × List Char)) (surplus : Nat)
    (text : List Char) (found : CharacterSet) (rest : List Char) : Prop :=
  ∃ inside, text = inside ++ ']' :: rest ∧ ∀ steps tail, inside.length + surplus ≤ steps →
    reader steps (inside ++ ']' :: tail) = some (found, tail)

/-- Whether the next thing inside brackets is an item and no bracket or operator. -/
def startsItem : List Char → Bool
  | [] | ']' :: _ | '[' :: _ | '&' :: '&' :: _ | '-' :: '-' :: _ | '~' :: '~' :: _ => false
  | _ => true

/-- Two characters tell what the next thing is. -/
private theorem startsItem_append {lead : List Char} (hlead : 2 ≤ lead.length)
    (text rest : List Char) : startsItem (lead ++ text) = startsItem (lead ++ rest) := by
  match lead with
  | a :: b :: lead =>
    unfold startsItem
    split <;> split <;> simp_all

private theorem setRest?_item (hitem : startsItem text = true) :
    setRest? (steps + 1) left items text =
      (setRange? text).bind fun found => setRest? steps left (found.1 :: items) found.2 := by
  unfold startsItem at hitem
  split at hitem
  case h_7 => simp only [setRest?]; rfl
  all_goals cases hitem

/-- The items that stand for themselves at the start of a set, and the text behind them. -/
def firstItems (text : List Char) : List CharacterSet × List Char :=
  match text.span (· == '-') with
  | ([], ']' :: rest) => ([.single ']'], rest)
  | (hyphens, rest) => (hyphens.map .single, rest)

private theorem set?_succ (steps : Nat) (text : List Char) : set? (steps + 1) text =
    (setRest? steps none (firstItems (negation text).2).1 (firstItems (negation text).2).2).bind
      fun found =>
        some (.bracketed (if (negation text).1 then .complement found.1 else found.1), found.2) := by
  let close (found : CharacterSet × List Char) : Option (CharacterSet × List Char) :=
    some (.bracketed (if (negation text).1 then .complement found.1 else found.1), found.2)
  change (match (negation text).2.span (· == '-') with
    | ([], ']' :: rest) => (setRest? steps none [.single ']'] rest).bind close
    | (hyphens, rest) => (setRest? steps none (hyphens.map .single) rest).bind close) = _
  unfold firstItems
  generalize (negation text).2.span (· == '-') = found
  split <;> rfl

/-- The items at the start are the same in front of every text that begins alike. -/
private theorem firstItems_takes {first : List CharacterSet} (hfirst : firstItems text = (first, rest)) :
    ∃ used, text = used ++ rest ∧ ∀ tail, tail.head? = rest.head? →
      firstItems (used ++ tail) = (first, tail) := by
  unfold firstItems at hfirst
  split at hfirst
  case h_1 behind hspan =>
    obtain ⟨rfl, -, -⟩ := span_eq_iff.mp hspan
    cases hfirst
    refine ⟨[']'], rfl, fun tail _ => ?_⟩
    have hspan : (']' :: tail).span (· == '-') = ([], ']' :: tail) :=
      span_eq_iff.mpr ⟨rfl, by simp, by simp⟩
    rw [List.singleton_append]
    unfold firstItems
    rw [hspan]
    rfl
  case h_2 hyphens behind hbracket hspan =>
    obtain ⟨rfl, hhyphens, hstop⟩ := span_eq_iff.mp hspan
    cases hfirst
    refine ⟨hyphens, rfl, fun tail htail => ?_⟩
    have hspan : (hyphens ++ tail).span (· == '-') = (hyphens, tail) :=
      span_eq_iff.mpr ⟨rfl, hhyphens, htail ▸ hstop⟩
    unfold firstItems
    rw [hspan]
    split
    · rename_i heq
      cases heq
      cases rest with
      | nil => simp at htail
      | cons c rest =>
        obtain rfl : ']' = c := by simpa using htail
        exact absurd rfl (hbracket rest rfl)
    · rename_i heq
      cases heq
      rfl

/-- A reader that takes `used` and leaves the rest to another reader finds what that one lets it
find. -/
private theorem Encloses.before {reader others : Nat → List Char → Option (CharacterSet × List Char)}
    {surplus othersSurplus : Nat} {inner : CharacterSet} {used : List Char}
    (hinner : Encloses others othersSurplus text inner rest)
    (hroom : othersSurplus < used.length + surplus)
    (hstep : ∀ steps inside tail, text = inside ++ ']' :: rest → used.length + surplus ≤ steps + 1 →
      others steps (inside ++ ']' :: tail) = some (inner, tail) →
        reader (steps + 1) (used ++ (inside ++ ']' :: tail)) = some (found, tail)) :
    Encloses reader surplus (used ++ text) found rest := by
  obtain ⟨inside, rfl, hagain⟩ := hinner
  refine ⟨used ++ inside, by simp, fun steps tail hsteps => ?_⟩
  rw [List.length_append] at hsteps
  obtain ⟨steps, rfl⟩ : ∃ k, steps = k + 1 := Nat.exists_eq_succ_of_ne_zero (by omega)
  rw [List.append_assoc]
  exact hstep steps inside tail rfl (by omega) (hagain steps tail (by omega))

/-- An operator leaves the sets on its right to the same reader. -/
private theorem Encloses.operator {before : Option (CharacterSet × SetOperator)} {c : Char}
    (hinner : Encloses (setRest? · before []) 1 text found rest)
    (hstep : ∀ steps tail,
      setRest? (steps + 1) left items (c :: c :: tail) = setRest? steps before [] tail) :
    Encloses (setRest? · left items) 1 ([c, c] ++ text) found rest :=
  hinner.before (by simp) fun k inside tail _ _ hfound => (hstep k _).trans hfound

/-- A set that follows its opening bracket, and the rest of one, are read up to the closing bracket. -/
theorem sets_enclose (steps : Nat) :
    (∀ {text found rest}, set? steps text = some (found, rest) → Encloses set? 2 text found rest) ∧
    ∀ {left items text found rest}, setRest? steps left items text = some (found, rest) →
      Encloses (setRest? · left items) 1 text found rest := by
  induction steps with
  | zero => exact ⟨fun hset => (nomatch hset), fun hrest => (nomatch hrest)⟩
  | succ steps ih =>
    obtain ⟨ihSet, ihRest⟩ := ih
    constructor
    · intro text found rest hset
      rw [set?_succ] at hset
      obtain ⟨⟨set, behind⟩, hrest, hset⟩ := Option.bind_eq_some_iff.mp hset
      cases hset
      obtain ⟨negated, unmarked, hnegation⟩ : ∃ negated unmarked, negation text = (negated, unmarked) :=
        ⟨_, _, rfl⟩
      obtain ⟨first, others, hfirst⟩ : ∃ first others, firstItems unmarked = (first, others) :=
        ⟨_, _, rfl⟩
      rw [hnegation, hfirst] at hrest
      obtain ⟨used, rfl, hused⟩ := firstItems_takes hfirst
      obtain ⟨mark, rfl, -, hmark⟩ := negation_takes hnegation
      rw [hnegation, ← List.append_assoc]
      refine (ihRest hrest).before (by omega) fun k inside tail heq _ hinner => ?_
      obtain rfl : others = inside ++ ']' :: behind := heq
      rw [List.append_assoc, set?_succ, hmark _ (by simp), hused _ (by simp), hinner]
      rfl
    · intro left items text found rest hrest
      cases hitem : startsItem text with
      | true =>
        rw [setRest?_item hitem] at hrest
        obtain ⟨⟨set, behind⟩, hrange, hothers⟩ := Option.bind_eq_some_iff.mp hrest
        obtain ⟨used, rfl, hused, htakes⟩ := setRange?_takes hrange
        have hlength := List.length_pos_iff.mpr hused
        refine (ihRest hothers).before (by omega) fun k inside tail heq _ hinner => ?_
        have hlead (behind : List Char) : used ++ (inside ++ ']' :: behind) =
            used ++ (inside ++ [']']) ++ behind := by simp
        obtain rfl : behind = inside ++ ']' :: rest := heq
        rw [setRest?_item, htakes _ (rangeAhead_inside inside rest tail)]
        · exact hinner
        · rwa [hlead, startsItem_append (by simp; omega) tail rest, ← hlead]
      | false =>
        unfold startsItem at hitem
        split at hitem
        · exact nomatch hrest
        · cases hrest
          refine ⟨[], rfl, fun k tail hk => ?_⟩
          obtain ⟨k, rfl⟩ := Nat.exists_eq_add_of_le' hk
          rfl
        · rename_i text
          cases hnamed : namedClass? text with
          | some found =>
            obtain ⟨named, behind⟩ := found
            simp only [setRest?, hnamed] at hrest
            obtain ⟨name, rfl, -, htakes⟩ := namedClass?_takes hnamed
            have hused : '[' :: (name ++ ']' :: behind) = '[' :: (name ++ [']']) ++ behind := by simp
            rw [hused]
            refine (ihRest hrest).before (by simp) fun k inside tail _ _ hinner => ?_
            simp only [List.cons_append, setRest?, htakes _ trivial]
            exact hinner
          | none =>
            simp only [setRest?, hnamed] at hrest
            obtain ⟨⟨set, behind⟩, hset, hothers⟩ := Option.bind_eq_some_iff.mp hrest
            obtain ⟨inner, rfl, hagain⟩ := ihSet hset
            have hused : '[' :: (inner ++ ']' :: behind) = '[' :: (inner ++ [']']) ++ behind := by simp
            rw [hused]
            refine (ihRest hothers).before (by simp) fun k inside tail _ hsteps hinner => ?_
            have hsame : '[' :: (inner ++ [']']) ++ (inside ++ ']' :: tail) =
                '[' :: (inner ++ ']' :: (inside ++ ']' :: tail)) := by simp
            rw [hsame]
            simp only [setRest?, namedClass?_eq_none hnamed]
            rw [hagain k _ (by simp at hsteps; omega)]
            exact hinner
        · exact (ihRest hrest).operator fun _ _ => rfl
        · exact (ihRest hrest).operator fun _ _ => rfl
        · exact (ihRest hrest).operator fun _ _ => rfl
        · cases hitem

end Sets

end Pattern

end Concord
