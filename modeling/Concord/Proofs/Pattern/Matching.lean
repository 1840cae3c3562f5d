import Concord.Pattern.Basic
import Mathlib.Data.List.Basic

namespace Concord

/-- Stretches of text that are picked out by what they hold and by the characters before and after
them. -/
abbrev Stretches := Option Char → List Char → Option Char → Prop

namespace Stretches

/-- A stretch of one kind with one of another kind behind it. -/
def append (first rest : Stretches) : Stretches := fun before stretch after =>
  ∃ left right, stretch = left ++ right ∧
    first before left (right.head?.or after) ∧ rest (left.getLast?.or before) right after

/-- So many stretches of a kind one behind the other. -/
def times (body : Stretches) : Nat → Stretches
  | 0 => fun _ stretch _ => stretch = []
  | rounds + 1 => body.append (body.times rounds)

/-- What is left of the stretches that begin with `c`. -/
def behind (stretches : Stretches) (before : Option Char) (c : Char) : Stretches :=
  fun _ rest after => stretches before (c :: rest) after

variable {first rest body : Stretches} {before after : Option Char} {c : Char} {text : List Char}

theorem append_nil : first.append rest before [] after ↔
    first before [] after ∧ rest before [] after := by
  constructor
  · rintro ⟨left, right, heq, hfirst, hrest⟩
    obtain ⟨rfl, rfl⟩ := List.append_eq_nil_iff.mp heq.symm
    exact ⟨hfirst, hrest⟩
  · rintro ⟨hfirst, hrest⟩
    exact ⟨[], [], rfl, hfirst, hrest⟩

/-- What stands before a place is the last character of the text up to there, or else what stands
before that text. -/
theorem before_cons (before : Option Char) (c : Char) (passed : List Char) :
    (c :: passed).getLast?.or before = passed.getLast?.or (some c) := by
  cases hpassed : passed.getLast? <;> simp [List.getLast?_cons, hpassed]

/-- The first character is the first one of the second stretch if the first stretch is empty. -/
theorem append_cons : first.append rest before (c :: text) after ↔
    first before [] (some c) ∧ rest before (c :: text) after ∨
      (first.behind before c).append rest (some c) text after := by
  constructor
  · rintro ⟨left, right, heq, hfirst, hrest⟩
    cases left with
    | nil =>
      obtain rfl : c :: text = right := heq
      exact .inl ⟨hfirst, hrest⟩
    | cons d left =>
      obtain ⟨rfl, rfl⟩ := List.cons_eq_cons.mp heq
      exact .inr ⟨left, right, rfl, hfirst, before_cons before c left ▸ hrest⟩
  · rintro (⟨hfirst, hrest⟩ | ⟨left, right, rfl, hfirst, hrest⟩)
    · exact ⟨[], c :: text, rfl, hfirst, hrest⟩
    · exact ⟨c :: left, right, rfl, hfirst, (before_cons before c left).symm ▸ hrest⟩

/-- A choice in front may be made first. -/
theorem append_exists {α : Type} {choices : α → Prop} {choice : α → Stretches}
    (hfirst : ∀ stretch after, first before stretch after ↔
      ∃ a, choices a ∧ choice a before stretch after) :
    first.append rest before text after ↔
      ∃ a, choices a ∧ (choice a).append rest before text after := by
  simp only [append, hfirst]
  constructor
  · rintro ⟨left, right, heq, ⟨a, ha, hchoice⟩, hrest⟩
    exact ⟨a, ha, left, right, heq, hchoice, hrest⟩
  · rintro ⟨a, ha, left, right, heq, hchoice, hrest⟩
    exact ⟨left, right, heq, ⟨a, ha, hchoice⟩, hrest⟩

/-- A choice behind may be made first. -/
theorem append_exists_right {α : Type} {choices : α → Prop} {choice : α → Stretches} :
    first.append (fun before stretch after => ∃ a, choices a ∧ choice a before stretch after)
        before text after ↔
      ∃ a, choices a ∧ first.append (choice a) before text after := by
  constructor
  · rintro ⟨left, right, heq, hfirst, a, ha, hchoice⟩
    exact ⟨a, ha, left, right, heq, hfirst, hchoice⟩
  · rintro ⟨a, ha, left, right, heq, hfirst, hchoice⟩
    exact ⟨left, right, heq, hfirst, a, ha, hchoice⟩

theorem times_nil {rounds : Nat} :
    body.times rounds before [] after ↔ rounds = 0 ∨ body before [] after := by
  induction rounds with
  | zero => simp [times]
  | succ rounds ih =>
    rw [times, append_nil, ih]
    simp +contextual

/-- The first character belongs to the first round that matches any. -/
theorem times_cons {rounds : Nat} : body.times rounds before (c :: text) after ↔
    ∃ idle others, rounds = idle + (others + 1) ∧ (idle = 0 ∨ body before [] (some c)) ∧
      (body.behind before c).append (body.times others) (some c) text after := by
  induction rounds with
  | zero =>
    refine iff_of_false (by simp [times]) ?_
    rintro ⟨idle, others, heq, -⟩
    omega
  | succ rounds ih =>
    rw [times, append_cons, ih]
    constructor
    · rintro (⟨hidle, idle, others, rfl, -, hround⟩ | hround)
      · exact ⟨idle + 1, others, by omega, .inr hidle, hround⟩
      · exact ⟨0, rounds, by omega, .inl rfl, hround⟩
    · rintro ⟨idle, others, heq, hidle, hround⟩
      cases idle with
      | zero =>
        obtain rfl : rounds = others := by omega
        exact .inr hround
      | succ idle =>
        have hempty := hidle.resolve_left (Nat.succ_ne_zero idle)
        exact .inl ⟨hempty, idle, others, by omega, .inr hempty, hround⟩

end Stretches

namespace Pattern

/-- Whether a pattern matches a stretch of text between a character before it and one after it. -/
def Matches : Pattern → Stretches
  | empty => fun _ stretch _ => stretch = []
  | boundary condition => fun before stretch after =>
    stretch = [] ∧ condition.holds before after = true
  | oneOf set => fun _ stretch _ => ∃ c, stretch = [c] ∧ set.contains c = true
  | group _ body => body.Matches
  | sequence first rest => first.Matches.append rest.Matches
  | either first rest => fun before stretch after =>
    first.Matches before stretch after ∨ rest.Matches before stretch after
  | repeated body least most _ => fun before stretch after =>
    ∃ rounds, (least ≤ rounds ∧ ∀ bound ∈ most, rounds ≤ bound) ∧
      body.Matches.times rounds before stretch after

/-- Whether every repetition allows as many rounds as it asks for. -/
def IsProper : Pattern → Prop
  | empty | boundary _ | oneOf _ => True
  | group _ body => body.IsProper
  | sequence first rest | either first rest => first.IsProper ∧ rest.IsProper
  | repeated body least most _ => body.IsProper ∧ ∀ bound ∈ most, least ≤ bound

variable {pattern : Pattern} {before after : Option Char} {c : Char} {text : List Char}

theorem acceptsEmpty_iff (hproper : pattern.IsProper) :
    pattern.acceptsEmpty before after = true ↔ pattern.Matches before [] after := by
  induction pattern generalizing before after with
  | empty => simp [acceptsEmpty, Matches]
  | boundary condition => simp [acceptsEmpty, Matches]
  | oneOf set => simp [acceptsEmpty, Matches]
  | group captures body ih => exact ih hproper
  | sequence first rest ihFirst ihRest =>
    rw [acceptsEmpty, Bool.and_eq_true, ihFirst hproper.1, ihRest hproper.2, Matches,
      Stretches.append_nil]
  | either first rest ihFirst ihRest =>
    rw [acceptsEmpty, Bool.or_eq_true, ihFirst hproper.1, ihRest hproper.2, Matches]
  | repeated body least most isLazy ih =>
    simp only [acceptsEmpty, Bool.or_eq_true, beq_iff_eq, ih hproper.1, Matches, Stretches.times_nil]
    constructor
    · rintro (rfl | hbody)
      · exact ⟨0, ⟨Nat.le_refl 0, fun _ _ => Nat.zero_le _⟩, .inl rfl⟩
      · exact ⟨least, ⟨Nat.le_refl least, hproper.2⟩, .inr hbody⟩
    · rintro ⟨rounds, ⟨hleast, -⟩, rfl | hbody⟩
      · exact .inl (Nat.le_zero.mp hleast)
      · exact .inr hbody

theorem isProper_of_mem_derivatives (hproper : pattern.IsProper) :
    ∀ {next : Pattern}, next ∈ pattern.derivatives before c → next.IsProper := by
  induction pattern with
  | empty => simp [derivatives]
  | boundary condition => simp [derivatives]
  | oneOf set =>
    intro next hnext
    rw [derivatives] at hnext
    split at hnext
    · rw [List.mem_singleton.mp hnext]
      trivial
    · exact absurd hnext List.not_mem_nil
  | group captures body ih => exact ih hproper
  | sequence first rest ihFirst ihRest =>
    intro next hnext
    rw [derivatives] at hnext
    rcases List.mem_append.mp hnext with hnext | hnext
    · obtain ⟨begun, hbegun, rfl⟩ := List.mem_map.mp hnext
      exact ⟨ihFirst hproper.1 hbegun, hproper.2⟩
    · split at hnext
      · exact ihRest hproper.2 hnext
      · exact absurd hnext List.not_mem_nil
  | either first rest ihFirst ihRest =>
    intro next hnext
    rw [derivatives] at hnext
    rcases List.mem_append.mp hnext with hnext | hnext
    · exact ihFirst hproper.1 hnext
    · exact ihRest hproper.2 hnext
  | repeated body least most isLazy ih =>
    intro next hnext
    rw [derivatives] at hnext
    split at hnext
    · exact absurd hnext List.not_mem_nil
    · obtain ⟨begun, hbegun, rfl⟩ := List.mem_map.mp hnext
      refine ⟨ih hproper.1 hbegun, hproper.1, fun bound hbound => ?_⟩
      obtain ⟨most, hmost, rfl⟩ := Option.map_eq_some_iff.mp hbound
      have hroom := hproper.2 most hmost
      split <;> omega

/-- The rounds of a repetition behind the round that matches the first character. Rounds that match
nothing may be added in front if the body matches nothing there. -/
private theorem owed_iff {least others : Nat} {most : Option Nat} {idles : Prop} [Decidable idles]
    (hmost : most ≠ some 0) (hroom : ∀ bound ∈ most, least ≤ bound) :
    ((if idles then 0 else least - 1) ≤ others ∧ ∀ bound ∈ most.map (· - 1), others ≤ bound) ↔
      ∃ rounds idle, rounds = idle + (others + 1) ∧ (idle = 0 ∨ idles) ∧ least ≤ rounds ∧
        ∀ bound ∈ most, rounds ≤ bound := by
  have hpositive : ∀ bound ∈ most, 0 < bound := fun bound hbound =>
    Nat.pos_of_ne_zero fun hzero => hmost (hzero ▸ hbound)
  constructor
  · rintro ⟨howed, hbounds⟩
    have hbounds' : ∀ bound ∈ most, others + 1 ≤ bound := fun bound hbound => by
      have hbelow := hbounds _ (Option.mem_map_of_mem _ hbound)
      have hone := hpositive bound hbound
      omega
    by_cases hidles : idles
    · refine ⟨(least - (others + 1)) + (others + 1), _, rfl, .inr hidles, by omega, ?_⟩
      intro bound hbound
      have hleast := hroom bound hbound
      have hothers := hbounds' bound hbound
      omega
    · rw [if_neg hidles] at howed
      exact ⟨others + 1, 0, by omega, .inl rfl, by omega, hbounds'⟩
  · rintro ⟨rounds, idle, rfl, hidle, hleast, hbounds⟩
    refine ⟨?_, fun bound hbound => ?_⟩
    · split
      · exact Nat.zero_le others
      · rename_i hidles
        have hzero := hidle.resolve_right hidles
        omega
    · obtain ⟨most, hmost, rfl⟩ := Option.map_eq_some_iff.mp hbound
      have hbelow := hbounds most hmost
      omega

/-- A pattern matches a stretch with a first character exactly if one of its derivatives matches the
rest. -/
theorem matches_cons_iff (hproper : pattern.IsProper) : pattern.Matches before (c :: text) after ↔
    ∃ next ∈ pattern.derivatives before c, next.Matches (some c) text after := by
  induction pattern generalizing before c text after with
  | empty => simp [derivatives, Matches]
  | boundary condition => simp [derivatives, Matches]
  | oneOf set =>
    by_cases hc : set.contains c = true <;> simp [derivatives, Matches, hc]
  | group captures body ih => exact ih hproper
  | sequence first rest ihFirst ihRest =>
    have hbehind : (first.Matches.behind before c).append rest.Matches (some c) text after ↔
        ∃ begun ∈ first.derivatives before c, (sequence begun rest).Matches (some c) text after :=
      Stretches.append_exists fun _ _ => ihFirst hproper.1
    rw [Matches, Stretches.append_cons, hbehind, ← acceptsEmpty_iff hproper.1, ihRest hproper.2,
      derivatives]
    by_cases hempty : first.acceptsEmpty before (some c) = true
    · simp [hempty, or_and_right, exists_or, or_comm]
    · simp [hempty]
  | either first rest ihFirst ihRest =>
    simp only [Matches, ihFirst hproper.1, ihRest hproper.2, derivatives, List.mem_append,
      or_and_right, exists_or]
  | repeated body least most isLazy ih =>
    by_cases hmost : most = some 0
    · have hleast : least = 0 := Nat.le_zero.mp (hproper.2 0 hmost)
      rw [derivatives, if_pos hmost]
      refine iff_of_false ?_ (by simp)
      rintro ⟨rounds, ⟨-, hbound⟩, hrounds⟩
      obtain rfl : rounds = 0 := Nat.le_zero.mp (hbound 0 hmost)
      cases hrounds
    · have hbehind (others : Pattern) :
          (body.Matches.behind before c).append others.Matches (some c) text after ↔
            ∃ begun ∈ body.derivatives before c, (sequence begun others).Matches (some c) text after :=
        Stretches.append_exists fun _ _ => ih hproper.1
      rw [derivatives, if_neg hmost]
      simp only [List.mem_map, exists_exists_and_eq_and, ← hbehind]
      simp only [Matches, Stretches.append_exists_right, owed_iff hmost hproper.2,
        Stretches.times_cons, acceptsEmpty_iff hproper.1]
      constructor
      · rintro ⟨rounds, hrounds, idle, others, heq, hidle, hround⟩
        exact ⟨others, ⟨rounds, idle, heq, hidle, hrounds⟩, hround⟩
      · rintro ⟨others, ⟨rounds, idle, heq, hidle, hrounds⟩, hround⟩
        exact ⟨rounds, hrounds, idle, others, heq, hidle, hround⟩

/-- Whether a pattern matches a text from its beginning on, up to any place. -/
def Begins (pattern : Pattern) (before : Option Char) (text : List Char) : Prop :=
  ∃ stretch rest, text = stretch ++ rest ∧ pattern.Matches before stretch rest.head?

theorem begins_nil_iff (hproper : pattern.IsProper) :
    pattern.Begins before [] ↔ pattern.acceptsEmpty before none = true := by
  rw [acceptsEmpty_iff hproper]
  constructor
  · rintro ⟨stretch, rest, heq, hmatches⟩
    obtain ⟨rfl, rfl⟩ := List.append_eq_nil_iff.mp heq.symm
    exact hmatches
  · intro hmatches
    exact ⟨[], [], rfl, hmatches⟩

theorem begins_cons_iff (hproper : pattern.IsProper) : pattern.Begins before (c :: text) ↔
    pattern.acceptsEmpty before (some c) = true ∨
      ∃ next ∈ pattern.derivatives before c, next.Begins (some c) text := by
  rw [acceptsEmpty_iff hproper]
  constructor
  · rintro ⟨stretch, rest, heq, hmatches⟩
    cases stretch with
    | nil =>
      obtain rfl : c :: text = rest := heq
      exact .inl hmatches
    | cons d stretch =>
      obtain ⟨rfl, rfl⟩ := List.cons_eq_cons.mp heq
      obtain ⟨next, hnext, hmatches⟩ := (matches_cons_iff hproper).mp hmatches
      exact .inr ⟨next, hnext, stretch, rest, rfl, hmatches⟩
  · rintro (hmatches | ⟨next, hnext, stretch, rest, rfl, hmatches⟩)
    · exact ⟨[], c :: text, rfl, hmatches⟩
    · exact ⟨c :: stretch, rest, rfl, (matches_cons_iff hproper).mpr ⟨next, hnext, hmatches⟩⟩

/-- Whether a pattern matches some stretch of a text. -/
def Occurs (pattern : Pattern) (before : Option Char) (text : List Char) : Prop :=
  ∃ passed rest, text = passed ++ rest ∧ pattern.Begins (passed.getLast?.or before) rest

theorem occurs_nil_iff : pattern.Occurs before [] ↔ pattern.Begins before [] := by
  constructor
  · rintro ⟨passed, rest, heq, hbegins⟩
    obtain ⟨rfl, rfl⟩ := List.append_eq_nil_iff.mp heq.symm
    exact hbegins
  · intro hbegins
    exact ⟨[], [], rfl, hbegins⟩

theorem occurs_cons_iff : pattern.Occurs before (c :: text) ↔
    pattern.Begins before (c :: text) ∨ pattern.Occurs (some c) text := by
  constructor
  · rintro ⟨passed, rest, heq, hbegins⟩
    cases passed with
    | nil =>
      obtain rfl : c :: text = rest := heq
      exact .inl hbegins
    | cons d passed =>
      obtain ⟨rfl, rfl⟩ := List.cons_eq_cons.mp heq
      exact .inr ⟨passed, rest, rfl, Stretches.before_cons before c passed ▸ hbegins⟩
  · rintro (hbegins | ⟨passed, rest, rfl, hbegins⟩)
    · exact ⟨[], c :: text, rfl, hbegins⟩
    · exact ⟨c :: passed, rest, rfl, (Stretches.before_cons before c passed).symm ▸ hbegins⟩

/-- A search finds what is pending from here on, and the pattern from here or from further on. -/
theorem searchFrom_iff (hproper : pattern.IsProper) {pending : List Pattern}
    (hpending : ∀ next ∈ pending, next.IsProper) : pattern.searchFrom before pending text = true ↔
      (∃ next ∈ pending, next.Begins before text) ∨ pattern.Occurs before text := by
  induction text generalizing before pending with
  | nil =>
    rw [searchFrom, List.any_cons, Bool.or_eq_true, List.any_eq_true, ← begins_nil_iff hproper,
      occurs_nil_iff, or_comm]
    exact or_congr_left (exists_congr fun next => and_congr_right fun hnext =>
      (begins_nil_iff (hpending next hnext)).symm)
  | cons c text ih =>
    have hall : ∀ next ∈ pattern :: pending, next.IsProper :=
      List.forall_mem_cons.mpr ⟨hproper, hpending⟩
    have hnext : ∀ next ∈ ((pattern :: pending).flatMap (·.derivatives before c)).eraseDups,
        next.IsProper := fun next hnext => by
      obtain ⟨origin, horigin, hnext⟩ := List.mem_flatMap.mp (List.mem_eraseDups.mp hnext)
      exact isProper_of_mem_derivatives (hall origin horigin) hnext
    -- What may end here or is pending behind `c` is what begins in front of `c`.
    have hhere : ((pattern :: pending).any (·.acceptsEmpty before (some c)) = true ∨
          ∃ next ∈ ((pattern :: pending).flatMap (·.derivatives before c)).eraseDups,
            next.Begins (some c) text) ↔
        ∃ origin ∈ pattern :: pending, origin.Begins before (c :: text) := by
      simp only [List.any_eq_true, List.mem_eraseDups, List.mem_flatMap]
      constructor
      · rintro (⟨origin, horigin, hempty⟩ | ⟨next, ⟨origin, horigin, hnext⟩, hbegins⟩)
        · exact ⟨origin, horigin, (begins_cons_iff (hall origin horigin)).mpr (.inl hempty)⟩
        · exact ⟨origin, horigin,
            (begins_cons_iff (hall origin horigin)).mpr (.inr ⟨next, hnext, hbegins⟩)⟩
      · rintro ⟨origin, horigin, hbegins⟩
        rcases (begins_cons_iff (hall origin horigin)).mp hbegins with hempty | ⟨next, hnext, hbegins⟩
        · exact .inl ⟨origin, horigin, hempty⟩
        · exact .inr ⟨next, ⟨origin, horigin, hnext⟩, hbegins⟩
    rw [searchFrom, Bool.or_eq_true, ih hnext, ← or_assoc, hhere, occurs_cons_iff, ← or_assoc]
    refine or_congr_left ?_
    simp only [List.mem_cons, or_and_right, exists_or, exists_eq_left]
    exact or_comm

/-- A search finds a pattern in a text exactly if the pattern matches some stretch of it. -/
theorem isMatch_iff (hproper : pattern.IsProper) {text : String} : pattern.isMatch text = true ↔
    ∃ passed stretch rest, text.toList = passed ++ stretch ++ rest ∧
      pattern.Matches passed.getLast? stretch rest.head? := by
  rw [isMatch, searchFrom_iff hproper (by simp)]
  simp only [Occurs, Begins, List.not_mem_nil, false_and, exists_false, false_or, Option.or_none]
  constructor
  · rintro ⟨passed, tail, heq, stretch, rest, rfl, hmatches⟩
    exact ⟨passed, stretch, rest, by rw [heq, List.append_assoc], hmatches⟩
  · rintro ⟨passed, stretch, rest, heq, hmatches⟩
    exact ⟨passed, stretch ++ rest, by rw [heq, List.append_assoc], stretch, rest, rfl, hmatches⟩

end Pattern

end Concord
