import Concord.Proofs.Pattern.Matching
import Concord.Proofs.Pattern.Sets

namespace Concord

namespace Pattern

section Counts

variable {text rest : List Char}

theorem skipSpace_eq_iff : skipSpace text = rest ↔ ∃ space, text = space ++ rest ∧
    (∀ c ∈ space, CharacterSet.whiteSpace.contains c = true) ∧
    ∀ c ∈ rest.head?, CharacterSet.whiteSpace.contains c = false := by
  simp only [← span_eq_iff, List.span_eq_takeWhile_dropWhile, Prod.mk.injEq, exists_eq_left', skipSpace]

theorem count?_takes {value : Nat} (hfound : count? text = some (value, rest)) :
    ∃ used, text = used ++ rest ∧ used ≠ [] ∧
      Takes count? (fun tail => tail.head? = rest.head?) used value := by
  unfold count? at hfound
  split at hfound
  case h_1 => cases hfound
  case h_2 digits behind hdigits hspan =>
    obtain ⟨hvalue, hfound⟩ := Option.ite_none_right_eq_some.mp hfound
    cases hfound
    obtain ⟨space, heq, hspace, hstart⟩ := skipSpace_eq_iff.mp (rfl : skipSpace text = skipSpace text)
    obtain ⟨gap, hgap, hgapSpace, hstop⟩ :=
      skipSpace_eq_iff.mp (rfl : skipSpace behind = skipSpace behind)
    obtain ⟨hsplit, hall, hend⟩ := span_eq_iff.mp hspan
    refine ⟨space ++ digits ++ gap, ?_, ?_, fun tail htail => ?_⟩
    · rw [heq, hsplit, hgap]
      simp [← hgap]
    · simp only [ne_eq, List.append_eq_nil_iff, not_and]
      exact fun hboth => absurd hboth.2 hdigits
    have hhead : (gap ++ tail).head? = behind.head? := by
      rw [hgap, List.head?_append, List.head?_append, htail]
    have hbegin : skipSpace (space ++ digits ++ gap ++ tail) = digits ++ (gap ++ tail) :=
      skipSpace_eq_iff.mpr ⟨space, by simp, hspace, by
        rw [hsplit] at hstart
        obtain ⟨c, digits, rfl⟩ := List.exists_cons_of_ne_nil hdigits
        exact hstart⟩
    have hspan : (digits ++ (gap ++ tail)).span Char.isDigit = (digits, gap ++ tail) :=
      span_eq_iff.mpr ⟨rfl, hall, hhead ▸ hend⟩
    have hgap : skipSpace (gap ++ tail) = tail :=
      skipSpace_eq_iff.mpr ⟨gap, rfl, hgapSpace, htail ▸ hstop⟩
    unfold count?
    rw [hbegin, hspan]
    split
    · rename_i heq
      cases heq
      exact absurd rfl hdigits
    · rename_i heq
      cases heq
      simp only [if_pos hvalue, hgap]

/-- The counts of a repetition end with a closing brace and allow as many rounds as they ask for. -/
theorem counts?_takes {bounds : Nat × Option Nat} (hfound : counts? text = some (bounds, rest)) :
    ∃ inside, text = inside ++ '}' :: rest ∧ (∀ bound ∈ bounds.2, bounds.1 ≤ bound) ∧
      Takes counts? anything (inside ++ ['}']) bounds := by
  obtain ⟨⟨least, behind⟩, hleast, hbounds⟩ := Option.bind_eq_some_iff.mp hfound
  obtain ⟨used, rfl, hused, htakes⟩ := count?_takes hleast
  dsimp only at hbounds
  split at hbounds
  case h_1 =>
    cases hbounds
    refine ⟨used, rfl, by simp, fun tail _ => ?_⟩
    have hagain := htakes ('}' :: tail) rfl
    simp [counts?, hagain]
  case h_2 =>
    cases hbounds
    refine ⟨used ++ [','], by simp, by simp, fun tail _ => ?_⟩
    have hagain := htakes (',' :: '}' :: tail) rfl
    simp [counts?, hagain]
  case h_3 behind hbrace =>
    obtain ⟨⟨most, behind'⟩, hmost, hclosed⟩ := Option.bind_eq_some_iff.mp hbounds
    obtain ⟨used', rfl, hused', htakes'⟩ := count?_takes hmost
    split at hclosed
    case h_2 => cases hclosed
    case h_1 most behind hpair =>
      cases hpair
      obtain ⟨hle, hclosed⟩ := Option.ite_none_right_eq_some.mp hclosed
      cases hclosed
      refine ⟨used ++ ',' :: used', by simp, by simpa using hle, fun tail _ => ?_⟩
      obtain ⟨c, used', rfl⟩ := List.exists_cons_of_ne_nil hused'
      have hc : c ≠ '}' := fun hc => hbrace _ (by rw [hc]; rfl)
      have hfirst := htakes (',' :: (c :: used' ++ '}' :: tail)) rfl
      have hsecond := htakes' ('}' :: tail) rfl
      simp_all [counts?]
  case h_4 => cases hbounds

end Counts

section Repetitions

variable {text rest : List Char}

/-- No repetition mark follows. -/
def noMark (text : List Char) : Prop :=
  ∀ c ∈ text.head?, c ∉ ['?', '*', '+', '{']

theorem repetition?_eq_none_iff : repetition? text = some none ↔ noMark text := by
  unfold repetition?
  split
  case h_5 hquestion hstar hplus hbrace =>
    refine iff_of_true rfl fun c hc => ?_
    obtain ⟨rest, rfl⟩ := List.head?_eq_some_iff.mp hc
    simp only [List.mem_cons, List.not_mem_nil, or_false, not_or]
    exact ⟨fun h => hquestion rest (h ▸ rfl), fun h => hstar rest (h ▸ rfl),
      fun h => hplus rest (h ▸ rfl), fun h => hbrace rest (h ▸ rfl)⟩
  all_goals simp [noMark]

/-- A repetition mark is no dollar sign and allows as many rounds as it asks for. -/
theorem repetition?_takes {bounds : Nat × Option Nat}
    (hfound : repetition? text = some (some (bounds, rest))) :
    ∃ used, text = used ++ rest ∧ used ≠ [] ∧ used.getLast? ≠ some '$' ∧
      (∀ bound ∈ bounds.2, bounds.1 ≤ bound) ∧
      ∀ tail, repetition? (used ++ tail) = some (some (bounds, tail)) := by
  unfold repetition? at hfound
  split at hfound
  case h_4 behind =>
    obtain ⟨found, hcounts, hfound⟩ := Option.map_eq_some_iff.mp hfound
    cases hfound
    obtain ⟨inside, rfl, hbounds, htakes⟩ := counts?_takes hcounts
    refine ⟨'{' :: inside ++ ['}'], by simp, by simp, by rw [List.getLast?_concat]; decide, hbounds,
      fun tail => ?_⟩
    rw [List.append_assoc, List.cons_append, repetition?, ← List.append_assoc, htakes tail trivial]
    rfl
  case h_5 => cases hfound
  all_goals
    cases hfound
    exact ⟨[_], rfl, by simp, by simp, by simp, fun tail => rfl⟩

/-- A mark that makes a repetition lazy is read as such wherever the text goes on alike or without
any mark. -/
theorem lazyMark_takes {isLazy : Bool} (hfound : lazyMark text = (isLazy, rest)) :
    ∃ used, text = used ++ rest ∧ used.getLast? ≠ some '$' ∧
      ∀ tail, tail.head? = rest.head? ∨ noMark tail → lazyMark (used ++ tail) = (isLazy, tail) := by
  unfold lazyMark at hfound
  split at hfound
  case h_1 =>
    cases hfound
    exact ⟨['?'], rfl, by simp, fun tail _ => rfl⟩
  case h_2 hquestion =>
    cases hfound
    refine ⟨[], rfl, by simp, fun tail htail => ?_⟩
    rw [List.nil_append]
    unfold lazyMark
    split
    case h_1 behind =>
      rcases htail with htail | htail
      · obtain ⟨others, rfl⟩ := List.head?_eq_some_iff.mp htail.symm
        exact absurd rfl (hquestion others)
      · exact absurd List.mem_cons_self (htail '?' rfl)
    case h_2 => rfl

private theorem getLast?_append_ne {first second : List Char} {c : Char}
    (hfirst : first.getLast? ≠ some c) (hsecond : second.getLast? ≠ some c) :
    (first ++ second).getLast? ≠ some c := by
  rw [List.getLast?_append]
  cases hlast : second.getLast? <;> simp_all

/-- What the repetition marks behind an item make of it. Without marks it is the item itself. -/
theorem repetitions?_takes {steps : Nat} {item found : Pattern}
    (hfound : repetitions? steps item text = some (found, rest)) :
    ∃ used, text = used ++ rest ∧ noMark rest ∧ used.getLast? ≠ some '$' ∧
      (used = [] → found = item) ∧ (item.IsProper → found.IsProper) ∧
      ∀ k, used.length < k → Takes (repetitions? k item) noMark used found := by
  induction steps generalizing item text with
  | zero => cases hfound
  | succ steps ih =>
    obtain ⟨mark, hmark, hgoes⟩ := Option.bind_eq_some_iff.mp hfound
    split at hgoes
    case h_1 =>
      cases hgoes
      refine ⟨[], rfl, repetition?_eq_none_iff.mp hmark, by simp, fun _ => rfl, id, ?_⟩
      intro k hk tail htail
      obtain ⟨k, rfl⟩ := Nat.exists_eq_succ_of_ne_zero (Nat.ne_of_gt hk)
      simp [repetitions?, repetition?_eq_none_iff.mpr htail]
    case h_2 least most behind =>
      obtain ⟨used, rfl, hused, hlast, hbounds, hagain⟩ := repetition?_takes hmark
      obtain ⟨isLazy, others, hlazy⟩ : ∃ isLazy others, lazyMark behind = (isLazy, others) :=
        ⟨_, _, rfl⟩
      rw [hlazy] at hgoes
      obtain ⟨lazyUsed, rfl, hlazyLast, hlazyAgain⟩ := lazyMark_takes hlazy
      obtain ⟨usedOthers, rfl, hnoMark, hothersLast, -, hproper, htakes⟩ := ih hgoes
      refine ⟨used ++ lazyUsed ++ usedOthers, by simp, hnoMark, ?_, by simp [hused], ?_, ?_⟩
      · exact getLast?_append_ne (getLast?_append_ne hlast hlazyLast) hothersLast
      · exact fun hitem => hproper ⟨hitem, hbounds⟩
      · intro k hk tail htail
        obtain ⟨k, rfl⟩ := Nat.exists_eq_succ_of_ne_zero (Nat.ne_zero_of_lt hk)
        have hlength := List.length_pos_iff.mpr hused
        simp only [List.length_append] at hk
        have hahead : (usedOthers ++ tail).head? = (usedOthers ++ rest).head? ∨
            noMark (usedOthers ++ tail) := by
          cases usedOthers with
          | nil => exact .inr htail
          | cons c usedOthers => exact .inl rfl
        rw [List.append_assoc, List.append_assoc]
        simp only [repetitions?, hagain, hlazyAgain _ hahead, Option.bind_eq_bind, Option.bind_some]
        exact htakes k (by omega) tail htail

end Repetitions

section Nested

variable {text rest used : List Char} {found : Pattern}

/-- The text ends or goes on with a closing parenthesis. -/
def closes (text : List Char) : Prop :=
  ∀ c ∈ text.head?, c = ')'

/-- The text ends or goes on with a bar or a closing parenthesis. -/
def endsItems (text : List Char) : Prop :=
  ∀ c ∈ text.head?, c = '|' ∨ c = ')'

private theorem noMark_of_endsItems (hends : endsItems text) : noMark text := fun c hc => by
  rcases hends c hc with rfl | rfl <;> decide

/-- Whether a reader finds `found` in `used` in front of every text of a kind, as it does in front
of `rest`. It takes four steps for a character, and as many more or less as the surplus is beyond
three. -/
structure Reads (reader : Nat → List Char → Option (Pattern × List Char)) (surplus : Nat)
    (mayFollow : List Char → Prop) (used : List Char) (found : Pattern) (rest : List Char) : Prop where
  follows : mayFollow rest
  isProper : found.IsProper
  takes : ∀ steps, 4 * used.length + surplus ≤ steps + 3 → Takes (reader steps) mayFollow used found

/-- Every reader takes one step before others read on. -/
private theorem Reads.of_succ {reader : Nat → List Char → Option (Pattern × List Char)} {surplus : Nat}
    {mayFollow : List Char → Prop} (hroom : 3 < 4 * used.length + surplus) (hfollows : mayFollow rest)
    (hproper : found.IsProper)
    (htakes : ∀ steps, 4 * used.length + surplus ≤ steps + 4 →
      Takes (reader (steps + 1)) mayFollow used found) :
    Reads reader surplus mayFollow used found rest := by
  refine ⟨hfollows, hproper, fun steps hsteps => ?_⟩
  obtain ⟨k, rfl⟩ : ∃ k, steps = k + 1 := Nat.exists_eq_succ_of_ne_zero (by omega)
  exact htakes k hsteps

/-- A last dollar sign is escaped or is the item itself. -/
def AnchorsDollar (used : List Char) (item : Pattern) : Prop :=
  used.getLast? = some '$' → used = ['\\', '$'] ∨ used = ['$'] ∧ item = .boundary .textEnd

theorem items?_of_endsItems {steps : Nat} (hends : endsItems text) :
    items? (steps + 1) text = some (.empty, text) := by
  match text with
  | [] => rfl
  | c :: text => rcases hends c rfl with rfl | rfl <;> rfl

/-- An item with further items behind it, of which there may be none. -/
def followedBy (item : Pattern) : Pattern → Pattern
  | .empty => item
  | others => .sequence item others

theorem IsProper.followedBy {item others : Pattern} (hitem : item.IsProper)
    (hothers : others.IsProper) : (item.followedBy others).IsProper := by
  unfold Pattern.followedBy
  split
  · exact hitem
  · exact ⟨hitem, hothers⟩

theorem items?_of_not_endsItems {steps : Nat} (hends : ¬endsItems text) :
    items? (steps + 1) text = (item? steps text).bind fun item =>
      (repetitions? steps item.1 item.2).bind fun repeated =>
        (items? steps repeated.2).map fun others => (repeated.1.followedBy others.1, others.2) := by
  conv_lhs => unfold items?
  split
  case h_4 =>
    refine Option.bind_congr fun item _ => Option.bind_congr fun repeated _ => ?_
    obtain ⟨repeated, behind⟩ := repeated
    dsimp only
    cases items? steps behind with
    | none => rfl
    | some others =>
      obtain ⟨others, rest⟩ := others
      cases others <;> rfl
  all_goals exact absurd (by simp [endsItems]) hends

private theorem anchorsDollar_of_getLast? {c : Char} (hlast : used.getLast? = some c) (hc : c ≠ '$') :
    AnchorsDollar used found := fun hdollar =>
  absurd (Option.some.inj (hlast.symm.trans hdollar)) hc

/-- An item of one character. -/
private theorem reads_character {c : Char} (hproper : found.IsProper)
    (hdollar : c = '$' → found = .boundary .textEnd)
    (hitem : ∀ steps tail, item? (steps + 1) (c :: tail) = some (found, tail)) :
    ∃ used, c :: rest = used ++ rest ∧ used ≠ [] ∧ AnchorsDollar used found ∧
      Reads item? 0 anything used found rest := by
  refine ⟨[c], rfl, List.cons_ne_nil _ _, fun hlast => .inr ?_,
    .of_succ (by simp) trivial hproper fun k _ tail _ => hitem k tail⟩
  obtain rfl : c = '$' := by simpa using hlast
  exact ⟨rfl, hdollar rfl⟩

/-- A parenthesis that no question mark follows opens a group that captures. -/
private theorem item?_group {steps : Nat} (hquestion : ∀ behind, text ≠ '?' :: behind) :
    item? (steps + 1) ('(' :: text) = group? steps true text := by
  match text with
  | [] => rfl
  | c :: text =>
    have hc : c ≠ '?' := fun hc => hquestion text (by rw [hc])
    simp [item?, hc]

/-- The readers that call one another, each up to what it leaves. -/
structure Readers (steps : Nat) : Prop where
  alternatives : ∀ {text found rest}, alternatives? steps text = some (found, rest) →
    ∃ used, text = used ++ rest ∧ Reads alternatives? 5 closes used found rest
  items : ∀ {text found rest}, items? steps text = some (found, rest) →
    ∃ used, text = used ++ rest ∧ Reads items? 4 endsItems used found rest
  item : ∀ {text found rest}, item? steps text = some (found, rest) →
    ∃ used, text = used ++ rest ∧ used ≠ [] ∧ AnchorsDollar used found ∧
      Reads item? 0 anything used found rest
  group : ∀ {captures text found rest}, group? steps captures text = some (found, rest) →
    ∃ inside, text = inside ++ ')' :: rest ∧
      Reads (group? · captures) 2 anything (inside ++ [')']) found rest

namespace Readers

variable {steps : Nat} (hreaders : Readers steps)
include hreaders

private theorem succ_alternatives (hfound : alternatives? (steps + 1) text = some (found, rest)) :
    ∃ used, text = used ++ rest ∧ Reads alternatives? 5 closes used found rest := by
  obtain ⟨⟨first, behind⟩, hfirst, hothers⟩ := Option.bind_eq_some_iff.mp hfound
  obtain ⟨used, rfl, hreads⟩ := hreaders.items hfirst
  split at hothers
  case h_1 first behind heq =>
    cases heq
    obtain ⟨⟨second, behind⟩, hsecond, hothers⟩ := Option.bind_eq_some_iff.mp hothers
    cases hothers
    obtain ⟨others, rfl, hreads'⟩ := hreaders.alternatives hsecond
    refine ⟨used ++ '|' :: others, by simp, .of_succ (by omega) hreads'.follows
      ⟨hreads.isProper, hreads'.isProper⟩ fun k hk tail htail => ?_⟩
    rw [List.length_append, List.length_cons] at hk
    have hagain := hreads.takes k (by omega) ('|' :: (others ++ tail)) (by simp [endsItems])
    have hagain' := hreads'.takes k (by omega) tail htail
    rw [List.append_assoc, List.cons_append]
    simp only [alternatives?, hagain, hagain', Option.bind_eq_bind, Option.bind_some]
    rfl
  case h_2 hbar =>
    cases hothers
    have hcloses : closes rest := fun c hc => (hreads.follows c hc).resolve_left fun heq => by
      obtain ⟨others, rfl⟩ := List.head?_eq_some_iff.mp hc
      exact hbar _ _ (by rw [heq])
    refine ⟨used, rfl, .of_succ (by omega) hcloses hreads.isProper fun k hk tail htail => ?_⟩
    have hagain := hreads.takes k (by omega) tail fun c hc => .inr (htail c hc)
    simp only [alternatives?, hagain, Option.bind_eq_bind, Option.bind_some]
    split
    case h_1 heq =>
      cases heq
      exact absurd (htail '|' rfl) (by decide)
    case h_2 => rfl

private theorem succ_items (hfound : items? (steps + 1) text = some (found, rest)) :
    ∃ used, text = used ++ rest ∧ Reads items? 4 endsItems used found rest := by
  by_cases hends : endsItems text
  · rw [items?_of_endsItems hends] at hfound
    cases hfound
    exact ⟨[], rfl, .of_succ (by omega) hends trivial fun k _ tail htail => items?_of_endsItems htail⟩
  · rw [items?_of_not_endsItems hends] at hfound
    obtain ⟨⟨item, behind⟩, hitem, hfound⟩ := Option.bind_eq_some_iff.mp hfound
    obtain ⟨⟨repeated, behind'⟩, hrepeated, hfound⟩ := Option.bind_eq_some_iff.mp hfound
    obtain ⟨⟨others, behind''⟩, hothers, hfound⟩ := Option.map_eq_some_iff.mp hfound
    cases hfound
    obtain ⟨used, rfl, hused, -, hreads⟩ := hreaders.item hitem
    obtain ⟨marks, rfl, hnoMark, -, -, hproper, htakes⟩ := repetitions?_takes hrepeated
    obtain ⟨usedOthers, rfl, hreads'⟩ := hreaders.items hothers
    refine ⟨used ++ marks ++ usedOthers, by simp, .of_succ (by omega) hreads'.follows
      ((hproper hreads.isProper).followedBy hreads'.isProper) fun k hk tail htail => ?_⟩
    have hlength := List.length_pos_iff.mpr hused
    simp only [List.length_append] at hk
    have hends' : ¬endsItems (used ++ (marks ++ (usedOthers ++ tail))) := by
      obtain ⟨c, used, rfl⟩ := List.exists_cons_of_ne_nil hused
      exact hends
    have hnoMark' : noMark (usedOthers ++ tail) := by
      cases usedOthers with
      | nil => exact noMark_of_endsItems htail
      | cons c usedOthers => exact hnoMark
    have hitem := hreads.takes k (by omega) (marks ++ (usedOthers ++ tail)) trivial
    have hrepeated := htakes k (by omega) (usedOthers ++ tail) hnoMark'
    have hothers := hreads'.takes k (by omega) tail htail
    rw [List.append_assoc, List.append_assoc, items?_of_not_endsItems hends']
    simp only [hitem, hrepeated, hothers, Option.bind_some, Option.map_some]

private theorem succ_group {captures : Bool}
    (hfound : group? (steps + 1) captures text = some (found, rest)) :
    ∃ inside, text = inside ++ ')' :: rest ∧
      Reads (group? · captures) 2 anything (inside ++ [')']) found rest := by
  obtain ⟨⟨body, behind⟩, hbody, hclosed⟩ := Option.bind_eq_some_iff.mp hfound
  split at hclosed
  case h_2 => cases hclosed
  case h_1 body behind heq =>
    cases heq
    cases hclosed
    obtain ⟨inside, rfl, hreads⟩ := hreaders.alternatives hbody
    refine ⟨inside, rfl, .of_succ (by simp; omega) trivial hreads.isProper fun k hk tail _ => ?_⟩
    rw [List.length_append, List.length_singleton] at hk
    have hagain := hreads.takes k (by omega) (')' :: tail) (by simp [closes])
    simp [group?, hagain]

private theorem succ_item (hfound : item? (steps + 1) text = some (found, rest)) :
    ∃ used, text = used ++ rest ∧ used ≠ [] ∧ AnchorsDollar used found ∧
      Reads item? 0 anything used found rest := by
  unfold item? at hfound
  split at hfound
  case h_1 behind =>
    obtain ⟨inside, rfl, hreads⟩ := hreaders.group hfound
    refine ⟨'(' :: '?' :: ':' :: (inside ++ [')']), by simp, by simp,
      anchorsDollar_of_getLast? (c := ')') (by simp [List.getLast?_cons]) (by decide),
      .of_succ (by simp; omega) trivial hreads.isProper fun k hk tail _ => ?_⟩
    simp only [List.length_cons] at hk
    exact hreads.takes k (by omega) tail trivial
  case h_2 => cases hfound
  case h_3 behind hcolon hquestion =>
    obtain ⟨inside, rfl, hreads⟩ := hreaders.group hfound
    refine ⟨'(' :: (inside ++ [')']), by simp, by simp,
      anchorsDollar_of_getLast? (c := ')') (by simp [List.getLast?_cons]) (by decide),
      .of_succ (by simp; omega) trivial hreads.isProper fun k hk tail _ => ?_⟩
    simp only [List.length_cons] at hk
    have hquestion' : ∀ behind, inside ++ [')'] ++ tail ≠ '?' :: behind := by
      cases inside with
      | nil => simp
      | cons c inside => exact fun behind heq => hquestion (inside ++ ')' :: rest) (by simp_all)
    rw [List.cons_append, item?_group hquestion']
    exact hreads.takes k (by omega) tail trivial
  case h_4 behind =>
    obtain ⟨⟨set, behind⟩, hset, hfound⟩ := Option.map_eq_some_iff.mp hfound
    cases hfound
    obtain ⟨inside, rfl, hagain⟩ := (sets_enclose steps).1 hset
    refine ⟨'[' :: (inside ++ [']']), by simp, by simp,
      anchorsDollar_of_getLast? (c := ']') (by simp [List.getLast?_cons]) (by decide),
      .of_succ (by simp; omega) trivial trivial fun k hk tail _ => ?_⟩
    simp only [List.length_cons, List.length_append, List.length_nil] at hk
    have hset := hagain k tail (by omega)
    simp [item?, hset]
  case h_5 behind =>
    obtain ⟨⟨escape, behind⟩, hescape, hfound⟩ := Option.map_eq_some_iff.mp hfound
    cases hfound
    obtain ⟨used, rfl, hused, hlast, htakes⟩ := escape?_takes hescape
    have hproper : (ofEscape escape).IsProper := by cases escape <;> trivial
    refine ⟨'\\' :: used, by simp, by simp, fun hdollar => .inl (congrArg ('\\' :: ·) (hlast ?_)),
      .of_succ (by simp; omega) trivial hproper fun k _ tail _ => ?_⟩
    · obtain ⟨c, used, rfl⟩ := List.exists_cons_of_ne_nil hused
      simpa [List.getLast?_cons] using hdollar
    · have hescape := htakes tail trivial
      simp [item?, hescape]
  case h_6 =>
    cases hfound
    exact reads_character trivial (by decide) fun _ _ => rfl
  case h_7 =>
    cases hfound
    exact reads_character trivial (by decide) fun _ _ => rfl
  case h_8 =>
    cases hfound
    exact reads_character trivial (fun _ => rfl) fun _ _ => rfl
  case h_9 c behind hcolon hquestion hgroup hset hescape hdot hstart hend =>
    obtain ⟨hmark, hfound⟩ := Option.ite_none_left_eq_some.mp hfound
    cases hfound
    refine reads_character trivial (fun hc => (hend hc).elim) fun k tail => ?_
    simp_all [item?]
  case h_10 => cases hfound

end Readers

/-- What the readers find they find again, whatever may follow, with four steps for a character. -/
theorem readers (steps : Nat) : Readers steps := by
  induction steps with
  | zero => exact ⟨fun h => (nomatch h), fun h => (nomatch h), fun h => (nomatch h), fun h => (nomatch h)⟩
  | succ steps ih => exact ⟨ih.succ_alternatives, ih.succ_items, ih.succ_item, ih.succ_group⟩

end Nested

end Pattern

end Concord
