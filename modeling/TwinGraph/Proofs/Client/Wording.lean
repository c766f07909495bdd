import TwinGraph.Client.Statement
import TwinGraph.Proofs.Cypher.Mark

/-! The wording of the statements. Each is a fixed text with the supplied texts in it as literals
and properties, so its tokens are fixed but for the contents of these. -/
namespace TwinGraph

open Cypher

def PatchClause.pieces : PatchClause → List Piece
  | assign keys value =>
    .fixed " SET t" :: keys.map .property ++
      [.fixed " = ", .literal value.render, .fixed "::agtype"]
  | erase keys => .fixed " REMOVE t" :: keys.map .property

def literals (contents : List Text) : List Piece :=
  (contents.map .literal).intersperse (.fixed ", ")

namespace Statement

/-- The fixed text in front of the first supplied one. -/
def opening : Statement → String
  | twin _ | patchTwin _ _ _ | deleteTwin _ => "MATCH (t:Twin) WHERE t['$dtId'] = "
  | putTwin _ _ | putRelationship _ _ _ _ _ => "WITH "
  | relationship _ _ | relationships _ _ | deleteRelationship _ _ _ =>
    "MATCH (source:Twin \x7b`$dtId`: "
  | incoming _ => "MATCH (source:Twin)-[rel]->(target:Twin \x7b`$dtId`: "
  | model _ | deleteModel _ => "MATCH (m:Model) WHERE m['@id'] = "
  | models => "MATCH (m:Model) RETURN m"
  | modelsAmong _ => "MATCH (m:Model) WHERE m['@id'] IN ["
  | createModels _ => "UNWIND ["
  | linkModel _ _ => "MATCH (m:Model), (m2:Model) WHERE m['@id'] = "
  | native text => String.ofList text

/-- What follows: the supplied texts and the fixed ones between them. -/
def pieces : Statement → List Piece
  | twin id => [.literal id, .fixed " RETURN t"]
  | putTwin id document =>
    [.literal document.render, .fixed "::agtype AS twin MERGE (t:Twin \x7b`$dtId`: ", .literal id,
      .fixed "\x7d) SET t = twin RETURN t"]
  | patchTwin id clauses tag =>
    .literal id :: clauses.flatMap PatchClause.pieces ++
      [.fixed " SET t.`$etag` = ", .literal tag, .fixed " RETURN t"]
  | deleteTwin id => [.literal id, .fixed " DELETE t"]
  | relationship source id =>
    [.literal source, .fixed "\x7d)-[rel \x7b`$relationshipId`: ", .literal id,
      .fixed "\x7d]->(target:Twin) RETURN rel"]
  | relationships source none =>
    [.literal source, .fixed "\x7d)-[rel]->(target:Twin) RETURN rel"]
  | relationships source (some name) =>
    [.literal source, .fixed "\x7d)-[rel]->(target:Twin) WHERE label(rel) = ", .literal name,
      .fixed " RETURN rel"]
  | incoming target =>
    [.literal target,
      .fixed "\x7d) RETURN rel['$relationshipId'], source['$dtId'], label(rel)"]
  | putRelationship source target name id document =>
    [.literal document.render,
      .fixed "::agtype AS relationship MATCH (source:Twin \x7b`$dtId`: ", .literal source,
      .fixed "\x7d),(target:Twin \x7b`$dtId`: ", .literal target,
      .fixed "\x7d) MERGE (source)-[rel", .label name.text, .fixed " \x7b`$relationshipId`: ",
      .literal id, .fixed "\x7d]->(target) SET rel = relationship RETURN rel"]
  | deleteRelationship source name id =>
    [.literal source, .fixed "\x7d)-[rel", .label name.text, .fixed " \x7b`$relationshipId`: ",
      .literal id, .fixed "\x7d]->(target:Twin) DELETE rel"]
  | model id => [.literal id, .fixed " RETURN m"]
  | models => []
  | modelsAmong ids => literals ids ++ [.fixed "] RETURN m"]
  | createModels documents =>
    literals (documents.map Json.render) ++ [.fixed
      "] AS model WITH model::agtype AS model_agtype CREATE (m:Model) SET m = model_agtype RETURN m"]
  | linkModel id parent =>
    [.literal id, .fixed " AND m2['@id'] = ", .literal parent,
      .fixed " CREATE (m)-[:_extends]->(m2)"]
  | deleteModel id => [.literal id, .fixed " DELETE m"]
  | native _ => []

end Statement

theorem text_literals (contents : List Text) :
    (literals contents).flatMap Piece.text = Text.separated ", " (contents.map quote) := by
  have hall : ∀ contents : List Text, ∀ content : Text,
      (literals (content :: contents)).flatMap Piece.text =
        Text.separated ", " ((content :: contents).map quote) := by
    intro contents
    induction contents with
    | nil => intro content; simp [literals, Piece.text]
    | cons next contents ih =>
      intro content
      have hrest := ih next
      simp only [literals, List.map_cons, List.intersperse_cons_cons, List.flatMap_cons,
        Text.separated, List.intercalate, List.flatten_cons, Piece.text] at hrest ⊢
      rw [hrest]
  cases contents with
  | nil => rfl
  | cons content contents => exact hall contents content

theorem text_properties (root : Text) (keys : List Text) :
    propertyPath root keys = root ++ (keys.map Piece.property).flatMap Piece.text := by
  rw [propertyPath, List.flatMap_map]
  rfl

theorem PatchClause.text_pieces (clause : PatchClause) :
    clause.pieces.flatMap Piece.text = ' ' :: clause.render "t" := by
  cases clause with
  | assign keys value =>
    show (Piece.fixed " SET t" :: keys.map Piece.property ++
        [Piece.fixed " = ", .literal value.render, .fixed "::agtype"]).flatMap Piece.text =
      ' ' :: Text.joined ["SET ", propertyPath "t" keys, " = ", agtypeLiteral value]
    simp [text_properties, Piece.text, agtypeLiteral]
  | erase keys =>
    show (Piece.fixed " REMOVE t" :: keys.map Piece.property).flatMap Piece.text =
      ' ' :: Text.joined ["REMOVE ", propertyPath "t" keys]
    simp [text_properties, Piece.text]

theorem separated_append_singleton (separator : Text) (parts : List Text) (last : Text) :
    separator ++ Text.separated separator (parts ++ [last]) =
      (parts.flatMap fun part => separator ++ part) ++ (separator ++ last) := by
  induction parts with
  | nil => simp
  | cons part parts ih =>
    have hcons : Text.separated separator (part :: parts ++ [last]) =
        part ++ (separator ++ Text.separated separator (parts ++ [last])) := by
      cases parts <;> simp [List.intercalate]
    rw [hcons, ih]
    simp

theorem text_clauses (clauses : List PatchClause) (last : Text) :
    ' ' :: Text.separated [' '] (clauses.map (·.render "t") ++ [last]) =
      (clauses.flatMap PatchClause.pieces).flatMap Piece.text ++ ' ' :: last := by
  have h := separated_append_singleton [' '] (clauses.map (·.render "t")) last
  rw [List.flatMap_map] at h
  have hclauses : (clauses.flatMap PatchClause.pieces).flatMap Piece.text =
      clauses.flatMap fun clause => [' '] ++ clause.render "t" := by
    rw [List.flatMap_assoc]
    congr 1
    funext clause
    exact PatchClause.text_pieces clause
  rw [hclauses]
  exact h

namespace Statement

theorem text_whereTwin (id : Text) :
    whereTwin id = "WHERE t['$dtId'] = ".toList ++ quote id := by
  show Text.joined ["WHERE t['$dtId'] = ", quote id] = _
  simp

theorem text_twinNode (var id : Text) :
    twinNode var id = '(' :: var ++ (":Twin \x7b`$dtId`: ".toList ++ (quote id ++ ['\x7d', ')'])) := by
  show Text.joined ["(", var, ":Twin \x7b`$dtId`: ", quote id, "\x7d)"] = _
  simp

theorem text_relationshipKey (id : Text) :
    relationshipKey id = "\x7b`$relationshipId`: ".toList ++ (quote id ++ ['\x7d']) := by
  show Text.joined ["\x7b`$relationshipId`: ", quote id, "\x7d"] = _
  simp

theorem text_tagClause (tag : Text) : tagClause tag = "SET t.`$etag` = ".toList ++ quote tag := by
  show Text.joined ["SET t.`$etag` = ", quote tag] = _
  simp

theorem text_agtypeLiteral (value : Json) :
    agtypeLiteral value = quote value.render ++ "::agtype".toList := rfl

/-- A statement is its opening and its pieces. -/
theorem text_pieces (statement : Statement) :
    statement.text = statement.opening.toList ++ statement.pieces.flatMap Piece.text := by
  cases statement with
  | twin id =>
    show Text.joined ["MATCH (t:Twin) ", whereTwin id, " RETURN t"] = _
    simp only [text_whereTwin, opening, pieces, List.flatMap_cons, Piece.text]
    repeat rw [String.toList_ofList]
    simp
  | putTwin id document =>
    show Text.joined ["WITH ", agtypeLiteral document, " AS twin MERGE ", twinNode "t" id,
      " SET t = twin RETURN t"] = _
    simp only [text_agtypeLiteral, text_twinNode, opening, pieces, List.flatMap_cons, Piece.text]
    repeat rw [String.toList_ofList]
    simp
  | patchTwin id clauses tag =>
    show Text.joined ["MATCH (t:Twin) ", whereTwin id, " ",
      Text.separated " " (clauses.map (·.render "t") ++ [tagClause tag]), " RETURN t"] = _
    have hspace : Text.joined ["MATCH (t:Twin) ", whereTwin id, " ",
        Text.separated " " (clauses.map (·.render "t") ++ [tagClause tag]), " RETURN t"] =
        "MATCH (t:Twin) ".toList ++ (whereTwin id ++
          (' ' :: Text.separated [' '] (clauses.map (·.render "t") ++ [tagClause tag]) ++
            " RETURN t".toList)) := by simp
    rw [hspace, text_clauses, text_whereTwin, text_tagClause]
    simp only [opening, pieces, List.cons_append, List.flatMap_cons, List.flatMap_append, Piece.text]
    repeat rw [String.toList_ofList]
    simp
  | deleteTwin id =>
    show Text.joined ["MATCH (t:Twin) ", whereTwin id, " DELETE t"] = _
    simp only [text_whereTwin, opening, pieces, List.flatMap_cons, Piece.text]
    repeat rw [String.toList_ofList]
    simp
  | relationship source id =>
    show Text.joined ["MATCH ", twinNode "source" source, "-[rel ", relationshipKey id,
      "]->(target:Twin) RETURN rel"] = _
    simp only [text_twinNode, text_relationshipKey, opening, pieces, List.flatMap_cons, Piece.text]
    repeat rw [String.toList_ofList]
    simp
  | relationships source name =>
    cases name with
    | none =>
      show Text.joined ["MATCH ", twinNode "source" source, "-[rel]->(target:Twin)", [],
        " RETURN rel"] = _
      simp only [text_twinNode, opening, pieces, List.flatMap_cons, Piece.text]
      repeat rw [String.toList_ofList]
      simp
    | some name =>
      show Text.joined ["MATCH ", twinNode "source" source, "-[rel]->(target:Twin)",
        Text.joined [" WHERE label(rel) = ", quote name], " RETURN rel"] = _
      simp only [text_twinNode, opening, pieces, List.flatMap_cons, Piece.text]
      repeat rw [String.toList_ofList]
      simp
  | incoming target =>
    show Text.joined ["MATCH (source:Twin)-[rel]->", twinNode "target" target,
      " RETURN rel['$relationshipId'], source['$dtId'], label(rel)"] = _
    simp only [text_twinNode, opening, pieces, List.flatMap_cons, Piece.text]
    repeat rw [String.toList_ofList]
    simp
  | putRelationship source target name id document =>
    show Text.joined ["WITH ", agtypeLiteral document, " AS relationship MATCH ",
      twinNode "source" source, ",", twinNode "target" target, " MERGE (source)-[rel:", name.text,
      " ", relationshipKey id, "]->(target) SET rel = relationship RETURN rel"] = _
    simp only [text_agtypeLiteral, text_twinNode, text_relationshipKey, opening, pieces,
      List.flatMap_cons, Piece.text]
    repeat rw [String.toList_ofList]
    simp
  | deleteRelationship source name id =>
    show Text.joined ["MATCH ", twinNode "source" source, "-[rel:", name.text, " ",
      relationshipKey id, "]->(target:Twin) DELETE rel"] = _
    simp only [text_twinNode, text_relationshipKey, opening, pieces, List.flatMap_cons, Piece.text]
    repeat rw [String.toList_ofList]
    simp
  | model id =>
    show Text.joined ["MATCH (m:Model) WHERE m['@id'] = ", quote id, " RETURN m"] = _
    simp only [opening, pieces, List.flatMap_cons, Piece.text]
    repeat rw [String.toList_ofList]
    simp
  | models => exact (List.append_nil _).symm
  | modelsAmong ids =>
    show Text.joined ["MATCH (m:Model) WHERE m['@id'] IN [",
      Text.separated ", " (ids.map quote), "] RETURN m"] = _
    rw [← text_literals]
    simp only [opening, pieces, List.flatMap_append, List.flatMap_cons, Piece.text]
    repeat rw [String.toList_ofList]
    simp
  | createModels documents =>
    show Text.joined ["UNWIND [", Text.separated ", " (documents.map fun d => quote d.render),
      "] AS model WITH model::agtype AS model_agtype CREATE (m:Model) SET m = model_agtype RETURN m"]
        = _
    have h := text_literals (documents.map Json.render)
    rw [List.map_map] at h
    rw [show (documents.map fun d => quote d.render) = documents.map (quote ∘ Json.render) from rfl,
      ← h]
    simp only [opening, pieces, List.flatMap_append, List.flatMap_cons, Piece.text]
    repeat rw [String.toList_ofList]
    simp
  | linkModel id parent =>
    show Text.joined ["MATCH (m:Model), (m2:Model) WHERE m['@id'] = ", quote id,
      " AND m2['@id'] = ", quote parent, " CREATE (m)-[:_extends]->(m2)"] = _
    simp only [opening, pieces, List.flatMap_cons, Piece.text]
    repeat rw [String.toList_ofList]
    simp
  | deleteModel id =>
    show Text.joined ["MATCH (m:Model) WHERE m['@id'] = ", quote id, " DELETE m"] = _
    simp only [opening, pieces, List.flatMap_cons, Piece.text]
    repeat rw [String.toList_ofList]
    simp
  | native text =>
    show text = _
    simp [opening, pieces]

end Statement
end TwinGraph
