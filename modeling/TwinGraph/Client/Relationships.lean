import TwinGraph.Client.Twins

/-! Relationships between twins. Their properties are not checked against a model. -/
namespace TwinGraph

namespace Relationship

def idKey : Text := "$relationshipId"

def sourceKey : Text := "$sourceId"

def targetKey : Text := "$targetId"

def nameKey : Text := "$relationshipName"

def readName (s : Text) : Except ArgumentFault RelationshipName :=
  match RelationshipName.ofText? s with
  | some name => .ok name
  | none => .error (.relationshipName s)

def requiredText (key : Text) (relationship : Fields Json) : Except ArgumentFault Text :=
  match Fields.find? key relationship with
  | some (.string s) => .ok s
  | _ => .error (.missingText key)

/-- If a relationship has the property, it has the expected value. -/
def checkText (key expected : Text) (relationship : Fields Json) : Except ArgumentFault Unit :=
  match Fields.find? key relationship with
  | none => .ok ()
  | some given =>
    if given = .string expected then .ok () else .error (.otherText key given expected)

def check (source id : Text) (relationship : Fields Json) :
    Except ArgumentFault (RelationshipName × Text) := do
  let name ← readName (← requiredText nameKey relationship)
  let target ← requiredText targetKey relationship
  checkText idKey id relationship
  checkText sourceKey source relationship
  return (name, target)

def stamped (source id tag : Text) (relationship : Fields Json) : Json :=
  .object (Fields.put Twin.tagKey (.string tag)
    (Fields.put sourceKey (.string source) (Fields.put idKey (.string id) relationship)))

def ofRow? (row : Row) : Option Json := do
  let edge ← row.first? >>= Cell.edge?
  if Fields.has idKey edge.properties && Fields.has targetKey edge.properties then
    some (.object edge.properties)
  else none

end Relationship

/-- A relationship seen from the twin it leads to. -/
structure IncomingRelationship where
  id : Text
  source : Text
  name : Text
  deriving DecidableEq, Repr

namespace IncomingRelationship

def cellText? : Cell → Option Text
  | .scalar value => value.string?
  | _ => none

def ofRow (row : Row) : Except ClientError IncomingRelationship :=
  let field (n : Nat) : Option Text := row.values[n]? >>= cellText?
  match field 0, field 1, field 2 with
  | some id, some source, some name => .ok ⟨id, source, name⟩
  | id, _, _ => .error (.notFound (.incomingFields (id.getD [])))

def toJson (r : IncomingRelationship) : Json :=
  .object [(Relationship.idKey, .string r.id), (Relationship.sourceKey, .string r.source),
    (Relationship.nameKey, .string r.name)]

end IncomingRelationship

namespace Client

def getRelationship (c : Client σ) (decoder : Decoder α) (source id : Text) : Action σ α := do
  match (← c.queryFirst (.relationship source id)) >>= Relationship.ofRow? with
  | some properties => decode decoder properties
  | none => throw (.notFound (.relationship id))

def listRelationships (c : Client σ) (decoder : Decoder α) (source : Text) (name : Option Text)
    (cancelAfter : Option Nat) : Action σ (List (Except ClientError α)) := do
  let results ← c.query (.relationships source name)
  return decodeRows (fun row =>
    match Relationship.ofRow? row with
    | some properties => decode decoder properties
    | none => .error (.notFound .relationshipFields)) cancelAfter results

def listIncoming (c : Client σ) (target : Text) (cancelAfter : Option Nat) :
    Action σ (List (Except ClientError IncomingRelationship)) := do
  let results ← c.query (.incoming target)
  return decodeRows IncomingRelationship.ofRow cancelAfter results

def putRelationship (c : Client σ) (decoder : Decoder α) (source id : Text) (document : Json)
    (tag : Text) : Action σ α := do
  let .object relationship := document | throw (.badArgument .relationshipNotObject)
  let (name, target) ←
    (Relationship.check source id relationship).mapError ClientError.badArgument
  let row? ← c.queryFirst
    (.putRelationship source target name id (Relationship.stamped source id tag relationship))
  match row? >>= Relationship.ofRow? with
  | some properties => decode decoder properties
  | none => throw (.notFound (.oneTwinOf source target))

def deleteRelationship (c : Client σ) (source id name : Text) : Action σ Unit := do
  let label ← (Relationship.readName name).mapError ClientError.badArgument
  if (← c.execute (.deleteRelationship source label id)) = 0 then
    throw (.notFound (.relationship id))

end Client
end TwinGraph
