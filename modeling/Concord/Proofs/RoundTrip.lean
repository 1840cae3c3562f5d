import Concord.Proofs.Json.Scanning
import Concord.Proofs.Source.Decoding
import Concord.Proofs.Source.Heights
import Concord.Proofs.Source.Restoring
import Concord.Source.Document

namespace Concord

namespace Document

open Source (heightAsList toJson)

variable {text : String} {tree : Tree} {sources : List Source}

/-- What a text is read as: one whole value, whose shape is that of sources. -/
theorem sources_eq_ok : Document.sources text = .ok sources ↔ ∃ json,
    Json.read? .strict (JsonToken.scan text) = some (json, []) ∧
      Source.listOfJson? json = some sources := by
  rw [Document.sources]
  refine ⟨fun hread => ?_, ?_⟩
  · split at hread
    · next json rest hjson =>
      split at hread
      · next found hfound =>
        cases rest with
        | nil =>
          cases hread
          exact ⟨json, hjson, hfound⟩
        | cons token rest => cases hread
      · cases hread
    · cases hread
  · rintro ⟨json, hjson, hlist⟩
    simp only [hjson, hlist]
    rfl

/-- What is written for a value without numbers is read as that value, if it does not nest too
deeply. -/
private theorem read?_prettyText (json : Json) (hnumberless : json.isNumberless = true) :
    Json.read? .strict (JsonToken.scan json.prettyText) =
      if json.height ≤ 127 then some (json, []) else none := by
  rw [JsonToken.scan_prettyText hnumberless]
  exact Json.read?_tokens json

/-- The text of a list of sources is read as these sources, if it does not nest too deeply. -/
private theorem sources_prettyText (sources : List Source) :
    Document.sources (ofSources sources).prettyText =
      if (ofSources sources).height ≤ 127 then .ok sources else .error .malformed := by
  have hread := read?_prettyText (ofSources sources) (Source.isNumberless_sources sources)
  split
  · next hheight =>
    rw [if_pos hheight] at hread
    exact sources_eq_ok.mpr ⟨_, hread, Source.listOfJson?_json sources⟩
  · next hheight =>
    rw [if_neg hheight] at hread
    rw [Document.sources, hread]
    rfl

/-- A tree that is read from a text can be read from what is written for it, unless that nests too
deeply. -/
private theorem tree_ofTree_eq (hsources : Tree.ofSources sources = .ok tree) :
    Document.tree (ofTree tree) =
      if (ofSources tree.toSources).height ≤ 127 then .ok tree else .error (.text .malformed) := by
  have hwritten := Tree.toSources_of_ofSources hsources
  rw [Document.tree, ofTree, sources_prettyText]
  split
  · show (Tree.ofSources tree.toSources).mapError DocumentError.tree = .ok tree
    rw [hwritten, Tree.ofSources_tidyAll, hsources]
    rfl
  · rfl

/-- A tree that was read from a text is read again from what is written for it, as the same tree, if
that nests no more than 127 arrays and objects. It always does, unless the text is a module that
stands alone and nests as deep as a text may. -/
theorem tree_ofTree (hread : Document.tree text = .ok tree) :
    (Document.tree (ofTree tree) =
      if (ofSources tree.toSources).height ≤ 127 then .ok tree else .error (.text .malformed)) ∧
    ∃ json, Json.read? .strict (JsonToken.scan text) = some (json, []) ∧ json.height ≤ 127 ∧
      ((∃ items, json = .array items) ∨ json.height < 127 →
        Document.tree (ofTree tree) = .ok tree) := by
  obtain ⟨sources, hfound, hsources⟩ := Except.bind_eq_ok.mp hread
  obtain ⟨json, hjson, hlist⟩ := sources_eq_ok.mp (Except.mapError_eq_ok.mp hfound)
  have hsources := Except.mapError_eq_ok.mp hsources
  have hagain := tree_ofTree_eq hsources
  have hbound : json.height ≤ 127 := Json.height_of_read? hjson
  refine ⟨hagain, json, hjson, hbound, fun hcase => ?_⟩
  have hlowered : (ofSources tree.toSources).height ≤ heightAsList json := by
    rw [Tree.toSources_of_ofSources hsources, ofSources]
    exact Nat.le_trans (Source.height_of_tidyAll sources) (Source.height_of_listOfJson? hlist)
  have hfits : heightAsList json ≤ 127 := by
    obtain ⟨items, rfl⟩ | hlower := hcase
    · exact hbound
    · cases json with
      | array items => exact hbound
      | _ => exact hlower
  rw [hagain, if_pos (Nat.le_trans hlowered hfits)]

/-- A module that stands alone is read from its text, if it does not nest too deeply. -/
private theorem tree_prettyText {source : Source} (hheight : (toJson source).height ≤ 127)
    (hsources : Tree.ofSources [source] = .ok tree) :
    Document.tree (toJson source).prettyText = .ok tree := by
  have hread := read?_prettyText (toJson source) (Source.isNumberless_toJson source)
  rw [if_pos hheight] at hread
  have hlist : Source.listOfJson? (toJson source) = some [source] := by
    have halone :
        Source.listOfJson? (toJson source) = (Source.ofJson? (toJson source)).map ([·]) := by
      rw [Source.toJson_eq]
      rfl
    rw [halone, Source.ofJson?_json, Option.map_some]
  rw [Document.tree, sources_eq_ok.mpr ⟨_, hread, hlist⟩]
  show (Tree.ofSources [source]).mapError DocumentError.tree = .ok tree
  rw [hsources]
  rfl

/-- A type parameter that is abbreviated as itself, over and over. -/
def abbreviated : (count : Nat) → SimpleType Spelling
  | 0 => ⟨⟨none, some ⟨"T"⟩⟩, [], false, false, none⟩
  | count + 1 => ⟨⟨none, some ⟨"T"⟩⟩, [], false, false, some (abbreviated count)⟩

/-- A module whose one property has such a type. It nests six levels, and one for each
abbreviation. -/
def deepModule (count : Nat) : Source :=
  .mk ⟨"m"⟩ .everyone .final .plain (.module ⟨none⟩)
    [.mk ⟨"p"⟩ .everyone .final .plain .package
      [.mk ⟨"x"⟩ .everyone .final .plain
        (.property ⟨.simple (abbreviated count), none, [], false, false, false, false, none, none⟩)
        []]]

/-- A module that nests 126 levels is read again. -/
theorem tree_ofTree_deep : ∃ tree, Tree.ofSources [deepModule 120] = .ok tree ∧
    Document.tree (toJson (deepModule 120)).prettyText = .ok tree ∧
    Document.tree (ofTree tree) = .ok tree := by
  have hknown : (Tree.ofSources [deepModule 120]).isOk = true := by decide +kernel
  obtain ⟨tree, hsources⟩ := Except.succeeds_of_isOk hknown
  have hread := tree_prettyText (by decide +kernel) hsources
  have hheight : (ofSources tree.toSources).height ≤ 127 := by
    rw [Tree.toSources_of_ofSources hsources]
    decide +kernel
  have hagain := (tree_ofTree hread).1
  rw [if_pos hheight] at hagain
  exact ⟨tree, hsources, hread, hagain⟩

/-- A module that nests 127 levels is read, but it is not read again from what is written for it. -/
theorem deepest_not_read_again : ∃ tree, Tree.ofSources [deepModule 121] = .ok tree ∧
    Document.tree (toJson (deepModule 121)).prettyText = .ok tree ∧
    Document.tree (ofTree tree) = .error (.text .malformed) := by
  have hknown : (Tree.ofSources [deepModule 121]).isOk = true := by decide +kernel
  obtain ⟨tree, hsources⟩ := Except.succeeds_of_isOk hknown
  have hread := tree_prettyText (by decide +kernel) hsources
  have hheight : ¬(ofSources tree.toSources).height ≤ 127 := by
    rw [Tree.toSources_of_ofSources hsources]
    decide +kernel
  have hagain := tree_ofTree_eq hsources
  rw [if_neg hheight] at hagain
  exact ⟨tree, hsources, hread, hagain⟩

end Document

end Concord
