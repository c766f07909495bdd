import TwinGraph.Patch.Clause

/-! The statements that the client sends. What a caller supplies gets into their text as string
literals, as property keys, or as the name of a relationship, which is a plain identifier. -/
namespace TwinGraph

/-- The name of a relationship, written as it is. -/
structure RelationshipName where
  text : Text
  plain : isIdentifier text = true
  deriving DecidableEq

inductive Statement where
  | twin (id : Text)
  | putTwin (id : Text) (document : Json)
  | patchTwin (id : Text) (clauses : List PatchClause) (tag : Text)
  | deleteTwin (id : Text)
  | relationship (source id : Text)
  | relationships (source : Text) (name : Option Text)
  | incoming (target : Text)
  | putRelationship (source target : Text) (name : RelationshipName) (id : Text)
      (document : Json)
  | deleteRelationship (source : Text) (name : RelationshipName) (id : Text)
  | model (id : Text)
  | models
  | modelsAmong (ids : List Text)
  | createModels (documents : List Json)
  | linkModel (id parent : Text)
  | deleteModel (id : Text)
  | native (text : Text)
  deriving DecidableEq

def RelationshipName.ofText? (s : Text) : Option RelationshipName :=
  if h : isIdentifier s = true then some ⟨s, h⟩ else none

namespace Statement
open Cypher

def twinNode (var id : Text) : Text :=
  Text.joined ["(", var, ":Twin \x7b`$dtId`: ", quote id, "\x7d)"]

def relationshipKey (id : Text) : Text :=
  Text.joined ["\x7b`$relationshipId`: ", quote id, "\x7d"]

def whereTwin (id : Text) : Text := Text.joined ["WHERE t['$dtId'] = ", quote id]

def tagClause (tag : Text) : Text := Text.joined ["SET t.`$etag` = ", quote tag]

def nameFilter : Option Text → Text
  | none => []
  | some name => Text.joined [" WHERE label(rel) = ", quote name]

def text : Statement → Text
  | twin id => Text.joined ["MATCH (t:Twin) ", whereTwin id, " RETURN t"]
  | putTwin id document =>
    Text.joined ["WITH ", agtypeLiteral document, " AS twin MERGE ", twinNode "t" id,
      " SET t = twin RETURN t"]
  | patchTwin id clauses tag =>
    Text.joined ["MATCH (t:Twin) ", whereTwin id, " ",
      Text.separated " " (clauses.map (·.render "t") ++ [tagClause tag]), " RETURN t"]
  | deleteTwin id => Text.joined ["MATCH (t:Twin) ", whereTwin id, " DELETE t"]
  | relationship source id =>
    Text.joined ["MATCH ", twinNode "source" source, "-[rel ", relationshipKey id,
      "]->(target:Twin) RETURN rel"]
  | relationships source name =>
    Text.joined ["MATCH ", twinNode "source" source, "-[rel]->(target:Twin)", nameFilter name,
      " RETURN rel"]
  | incoming target =>
    Text.joined ["MATCH (source:Twin)-[rel]->", twinNode "target" target,
      " RETURN rel['$relationshipId'], source['$dtId'], label(rel)"]
  | putRelationship source target name id document =>
    Text.joined ["WITH ", agtypeLiteral document, " AS relationship MATCH ",
      twinNode "source" source, ",", twinNode "target" target, " MERGE (source)-[rel:", name.text,
      " ", relationshipKey id, "]->(target) SET rel = relationship RETURN rel"]
  | deleteRelationship source name id =>
    Text.joined ["MATCH ", twinNode "source" source, "-[rel:", name.text, " ", relationshipKey id,
      "]->(target:Twin) DELETE rel"]
  | model id => Text.joined ["MATCH (m:Model) WHERE m['@id'] = ", quote id, " RETURN m"]
  | models => "MATCH (m:Model) RETURN m"
  | modelsAmong ids =>
    Text.joined ["MATCH (m:Model) WHERE m['@id'] IN [", Text.separated ", " (ids.map quote),
      "] RETURN m"]
  | createModels documents =>
    Text.joined ["UNWIND [", Text.separated ", " (documents.map fun d => quote d.render),
      "] AS model WITH model::agtype AS model_agtype CREATE (m:Model) SET m = model_agtype RETURN m"]
  | linkModel id parent =>
    Text.joined ["MATCH (m:Model), (m2:Model) WHERE m['@id'] = ", quote id, " AND m2['@id'] = ",
      quote parent, " CREATE (m)-[:_extends]->(m2)"]
  | deleteModel id => Text.joined ["MATCH (m:Model) WHERE m['@id'] = ", quote id, " DELETE m"]
  | native text => text

end Statement
end TwinGraph
