import Concord.Json.Printer
import Concord.Json.Token

namespace Concord

namespace JsonToken

/-- A piece that a character is written as, whatever stands behind it. -/
private structure Writes (piece : Piece) (c : Char) : Prop where
  scanned : ∀ rest, pieces? (Json.escape c ++ rest) =
    (pieces? rest).map fun found => (piece :: found.1, found.2)
  read : ∀ pieces, characters? (piece :: pieces) = (characters? pieces).map (c :: ·)

private theorem hexUnit?_control : ∀ unit < 0x20,
    hexUnit? '0' '0' (Digits.hexDigit (unit / 16)) (Digits.hexDigit (unit % 16)) = some unit := by
  decide

/-- A unit below the surrogates stands for its character. -/
private theorem characters?_unit {unit : Nat} (hsmall : unit < 0x20) (pieces : List Piece) :
    characters? (.unit unit :: pieces) = (characters? pieces).map (Char.ofNat unit :: ·) := by
  have hhigh : isHighSurrogate unit = false := by
    simp [isHighSurrogate]
    omega
  have hlow : isLowSurrogate unit = false := by
    simp [isLowSurrogate]
    omega
  cases pieces with
  | nil => simp [characters?, hhigh, hlow]
  | cons piece pieces => cases piece <;> simp [characters?, hhigh, hlow]

/-- Every character is written as one piece. -/
private theorem exists_piece (c : Char) : ∃ piece, Writes piece c := by
  have hself {c : Char} (hescape : ∀ rest, pieces? (Json.escape c ++ rest) =
      (pieces? rest).map fun found => (.char c :: found.1, found.2)) : ∃ piece, Writes piece c :=
    ⟨.char c, hescape, fun _ => by rw [characters?]⟩
  by_cases hshort : c ∈ ['"', '\\', '\x08', '\x0c', '\n', '\r', '\t']
  · simp only [List.mem_cons, List.not_mem_nil, or_false] at hshort
    obtain rfl | rfl | rfl | rfl | rfl | rfl | rfl := hshort
    all_goals
      refine hself fun rest => ?_
      cases hrest : pieces? rest with
      | none => simp [Json.escape, pieces?, escaped?, hrest]
      | some found => simp [Json.escape, pieces?, escaped?, hrest]
  · simp only [List.mem_cons, List.not_mem_nil, or_false, not_or] at hshort
    obtain ⟨hquote, hbackslash, hb, hf, hn, hr, ht⟩ := hshort
    have hescape : Json.escape c = if c.toNat < 0x20 then
        ['\\', 'u', '0', '0', Digits.hexDigit (c.toNat / 16), Digits.hexDigit (c.toNat % 16)]
        else [c] := by
      rw [Json.escape] <;> assumption
    by_cases hcontrol : c.toNat < 0x20
    · rw [if_pos hcontrol] at hescape
      refine ⟨.unit c.toNat, fun rest => ?_, fun pieces => ?_⟩
      · rw [hescape, List.cons_append, List.cons_append, pieces?.eq_def]
        simp only [List.cons_append, List.nil_append, hexUnit?_control _ hcontrol]
        cases pieces? rest <;> rfl
      · rw [characters?_unit hcontrol, Char.ofNat_toNat]
    · rw [if_neg hcontrol] at hescape
      refine hself fun rest => ?_
      rw [hescape, List.cons_append, List.nil_append, pieces?]
      · rw [if_neg (not_or.mpr ⟨hcontrol, hbackslash⟩)]
        cases pieces? rest <;> rfl
      · exact hquote
      · exact fun a b d e rest heq _ => hbackslash heq
      · exact fun e rest heq _ => hbackslash heq

/-- A written literal is scanned up to its closing quote. -/
theorem pieces?_quote (characters rest : List Char) :
    ∃ pieces, pieces? (characters.flatMap Json.escape ++ '"' :: rest) = some (pieces, rest) ∧
      characters? pieces = some characters := by
  induction characters with
  | nil => exact ⟨[], by simp [pieces?], rfl⟩
  | cons c characters ih =>
    obtain ⟨pieces, hpieces, hcharacters⟩ := ih
    obtain ⟨piece, hscanned, hread⟩ := exists_piece c
    refine ⟨piece :: pieces, ?_, ?_⟩
    · rw [List.flatMap_cons, List.append_assoc, hscanned, hpieces, Option.map_some]
    · rw [hread, hcharacters, Option.map_some]

/-- A written literal is a token that gives back its text. -/
theorem next?_quote (literal : String) (rest : List Char) :
    next? (Json.quote literal ++ rest) = some (.text (some literal), rest) := by
  obtain ⟨pieces, hpieces, hcharacters⟩ := pieces?_quote literal.toList rest
  simp only [Json.quote, List.cons_append, List.append_assoc, List.nil_append, next?, hpieces,
    hcharacters, Option.map_some, String.ofList_toList]

end JsonToken

namespace Json

mutual
/-- The tokens that a value is written with. -/
def tokens : Json → List JsonToken
  | null => [.null]
  | bool value => [.bool value]
  | number value => [.number (some value)]
  | text value => [.text (some value)]
  | array [] => [.openArray, .closeArray]
  | array (item :: items) => .openArray :: (tokens item ++ itemTokens items)
  | object [] => [.openObject, .closeObject]
  | object ((name, value) :: members) =>
    .openObject :: .text (some name) :: .colon :: (tokens value ++ memberTokens members)
/-- The tokens of the items of an array behind the first, and the closing bracket. -/
def itemTokens : List Json → List JsonToken
  | [] => [.closeArray]
  | item :: items => .comma :: (tokens item ++ itemTokens items)
/-- The tokens of the members of an object behind the first, and the closing bracket. -/
def memberTokens : List (String × Json) → List JsonToken
  | [] => [.closeObject]
  | (name, value) :: members =>
    .comma :: .text (some name) :: .colon :: (tokens value ++ memberTokens members)
end

mutual
/-- Whether there is no number in a value. -/
def isNumberless : Json → Bool
  | number _ => false
  | array items => areNumberless items
  | object members => membersNumberless members
  | _ => true
/-- Whether there is no number in the items of an array. -/
def areNumberless : List Json → Bool
  | [] => true
  | item :: items => item.isNumberless && areNumberless items
/-- Whether there is no number in the members of an object. -/
def membersNumberless : List (String × Json) → Bool
  | [] => true
  | (_, value) :: members => value.isNumberless && membersNumberless members
end

end Json

namespace JsonToken

/-- Characters that are scanned as some tokens, whatever stands behind them. -/
def Scans (characters : List Char) (tokens : List JsonToken) : Prop :=
  ∀ steps rest, (characters ++ rest).length ≤ steps → ∃ left, rest.length ≤ left ∧
    scanWithin steps (characters ++ rest) = tokens ++ scanWithin left rest

namespace Scans

variable {characters others : List Char} {tokens tokens' : List JsonToken} {c : Char}
  {token : JsonToken}

theorem nil : Scans [] [] :=
  fun steps _ hsteps => ⟨steps, hsteps, rfl⟩

theorem append (hfirst : Scans characters tokens) (hsecond : Scans others tokens') :
    Scans (characters ++ others) (tokens ++ tokens') := by
  intro steps rest hsteps
  rw [List.append_assoc] at hsteps ⊢
  obtain ⟨middle, hmiddle, hscan⟩ := hfirst steps (others ++ rest) hsteps
  obtain ⟨left, hleft, hscan'⟩ := hsecond middle rest hmiddle
  exact ⟨left, hleft, by rw [hscan, hscan', List.append_assoc]⟩

/-- A blank is no token. -/
theorem blank (hblank : isBlank c = true) (hrest : Scans characters tokens) :
    Scans (c :: characters) tokens := by
  intro steps rest hsteps
  obtain ⟨steps, rfl⟩ : ∃ left, steps = left + 1 := Nat.exists_eq_add_one.mpr (by
    rw [List.cons_append, List.length_cons] at hsteps
    omega)
  rw [List.cons_append, scanWithin, if_pos hblank]
  exact hrest steps rest (Nat.le_of_succ_le_succ hsteps)

/-- A token that ends by itself. -/
theorem single (hblank : isBlank c = false)
    (hnext : ∀ rest, next? (c :: (characters ++ rest)) = some (token, rest)) :
    Scans (c :: characters) [token] := by
  intro steps rest hsteps
  obtain ⟨steps, rfl⟩ : ∃ left, steps = left + 1 := Nat.exists_eq_add_one.mpr (by
    rw [List.cons_append, List.length_cons] at hsteps
    omega)
  refine ⟨steps, ?_, ?_⟩
  · rw [List.cons_append, List.length_cons, List.length_append] at hsteps
    omega
  · rw [List.cons_append, scanWithin, if_neg (by rw [hblank]; exact Bool.false_ne_true), hnext]
    rfl

/-- A token of one character. -/
theorem cons (hblank : isBlank c = false)
    (hnext : ∀ rest, next? (c :: rest) = some (token, rest)) (hrest : Scans characters tokens) :
    Scans (c :: characters) (token :: tokens) := by
  have hfirst : Scans [c] [token] := .single hblank hnext
  exact hfirst.append hrest

/-- Blanks in front of tokens. -/
theorem after (hblanks : Scans others []) (hrest : Scans characters tokens) :
    Scans (others ++ characters) tokens :=
  append hblanks hrest

end Scans

private theorem scans_lineBreak (level : Nat) : Scans (Json.lineBreak level) [] := by
  refine .blank rfl ?_
  induction 2 * level with
  | zero => exact .nil
  | succ count ih => exact .blank rfl ih

private theorem scans_quote (literal : String) :
    Scans (Json.quote literal) [.text (some literal)] :=
  .single rfl fun rest => next?_quote literal rest

mutual
private theorem scans_pretty : ∀ (level : Nat) (value : Json), value.isNumberless = true →
    Scans (value.pretty level) value.tokens
  | _, .null, _ => .single rfl fun _ => rfl
  | _, .bool true, _ => .single rfl fun _ => rfl
  | _, .bool false, _ => .single rfl fun _ => rfl
  | _, .text value, _ => scans_quote value
  | _, .array [], _ => .cons rfl (fun _ => rfl) (.cons rfl (fun _ => rfl) .nil)
  | level, .array (item :: items), hnumberless => by
    rw [Json.isNumberless, Json.areNumberless, Bool.and_eq_true] at hnumberless
    rw [Json.pretty, Json.tokens, List.append_assoc]
    refine .cons rfl (fun _ => rfl) (.after (scans_lineBreak _) ?_)
    exact (scans_pretty _ item hnumberless.1).append (scans_prettyItems level items hnumberless.2)
  | _, .object [], _ => .cons rfl (fun _ => rfl) (.cons rfl (fun _ => rfl) .nil)
  | level, .object ((name, value) :: members), hnumberless => by
    rw [Json.isNumberless, Json.membersNumberless, Bool.and_eq_true] at hnumberless
    rw [Json.pretty, Json.tokens]
    simp only [List.append_assoc, List.cons_append, List.nil_append]
    refine .cons rfl (fun _ => rfl) (.after (scans_lineBreak _) ?_)
    refine (scans_quote name).append (.cons rfl (fun _ => rfl) (.blank rfl ?_))
    exact (scans_pretty _ value hnumberless.1).append
      (scans_prettyMembers level members hnumberless.2)
private theorem scans_prettyItems : ∀ (level : Nat) (items : List Json),
    Json.areNumberless items = true → Scans (Json.prettyItems level items) (Json.itemTokens items)
  | level, [], _ => .after (scans_lineBreak level) (.cons rfl (fun _ => rfl) .nil)
  | level, item :: items, hnumberless => by
    rw [Json.areNumberless, Bool.and_eq_true] at hnumberless
    rw [Json.prettyItems, Json.itemTokens, List.append_assoc]
    refine .cons rfl (fun _ => rfl) (.after (scans_lineBreak _) ?_)
    exact (scans_pretty _ item hnumberless.1).append (scans_prettyItems level items hnumberless.2)
private theorem scans_prettyMembers : ∀ (level : Nat) (members : List (String × Json)),
    Json.membersNumberless members = true →
    Scans (Json.prettyMembers level members) (Json.memberTokens members)
  | level, [], _ => .after (scans_lineBreak level) (.cons rfl (fun _ => rfl) .nil)
  | level, (name, value) :: members, hnumberless => by
    rw [Json.membersNumberless, Bool.and_eq_true] at hnumberless
    rw [Json.prettyMembers, Json.memberTokens]
    simp only [List.append_assoc, List.cons_append, List.nil_append]
    refine .cons rfl (fun _ => rfl) (.after (scans_lineBreak _) ?_)
    refine (scans_quote name).append (.cons rfl (fun _ => rfl) (.blank rfl ?_))
    exact (scans_pretty _ value hnumberless.1).append
      (scans_prettyMembers level members hnumberless.2)
end

/-- The pretty text of a value without numbers is scanned as the tokens of the value. They are the
same however it is laid out. Nothing that is written for a tree holds a number. -/
theorem scan_prettyText {value : Json} (hnumberless : value.isNumberless = true) :
    scan value.prettyText = value.tokens := by
  rw [scan, Json.prettyText, String.toList_ofList]
  obtain ⟨left, -, hscan⟩ := scans_pretty 0 value hnumberless (value.pretty 0).length []
    (Nat.le_of_eq (by rw [List.append_nil]))
  rw [List.append_nil] at hscan
  rw [hscan]
  cases left <;> simp only [scanWithin, List.append_nil]

end JsonToken

end Concord
