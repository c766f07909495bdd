import TwinGraph.Model.Error
import TwinGraph.Model.Identifier

/-! Model documents as they are handed in, and what they say about other models. -/
namespace TwinGraph.Document

/-- Arrays of documents count as the documents in them. -/
def flatten : List Json → Except ModelError (List Json)
  | [] => .ok []
  | .object fields :: rest => do return .object fields :: (← flatten rest)
  | .array items :: rest =>
    if items.all Json.isObject then do return items ++ (← flatten rest)
    else .error (.invalidDocument .notObjects)
  | _ :: _ => .error (.invalidDocument .neitherObjectNorArray)

def typeNames (document : Json) : List Text :=
  match document.field? "@type" with
  | some (.string name) => [name]
  | some (.array items) => items.filterMap Json.string?
  | _ => []

def interfaceId (document : Json) : Except ModelError Text :=
  match document.stringField? "@id" with
  | none => .error (.invalidDocument .missingId)
  | some id =>
    if !ModelId.isValid id then .error (.invalidId id)
    else if (typeNames document).contains "Interface" then .ok id
    else .error (.invalidDocument (.notInterface id))

/-- The id of a model that is extended, given as an id or as the interface itself. -/
def parentId : Json → Except ModelError Text
  | .string id => if ModelId.isValid id then .ok id else .error (.invalidId id)
  | .object fields => interfaceId (.object fields)
  | other => .error (.invalidDocument (.badExtends other))

def parentIds (document : Json) : Except ModelError (List Text) :=
  match document.field? "extends" with
  | none => .ok []
  | some (.array items) => items.mapM parentId
  | some single => do return [← parentId single]

def contents (document : Json) : List Json := ((document.field? "contents").bind Json.items?).getD []

def componentIds (document : Json) : List Text :=
  ((contents document).filter fun content => (typeNames content).contains "Component").filterMap
    (Json.stringField? "schema")

end TwinGraph.Document
