import TwinGraph.Client.Models

/-! Digital twins. A twin is checked against its model before it is written. -/
namespace TwinGraph

namespace Twin

def idKey : Text := "$dtId"

def tagKey : Text := "$etag"

def metadataKey : Text := "$metadata"

def modelKey : Text := "$model"

/-- The properties that no model declares. -/
def isSystemKey (key : Text) : Bool := key == metadataKey || key == idKey || key == tagKey

def weakTag (unique : Text) : Text := Text.joined ["W/\"", unique, "\""]

/-- If a twin says its id, it is the one it is written under. -/
def checkId (id : Text) (twin : Fields Json) : Except ArgumentFault Unit :=
  match Fields.find? idKey twin with
  | none => .ok ()
  | some given => if given = .string id then .ok () else .error (.otherTwinId given id)

def modelId (twin : Fields Json) : Except ArgumentFault Text :=
  match Fields.find? metadataKey twin with
  | some (.object metadata) =>
    match Fields.find? modelKey metadata with
    | some (.string model) => if model.isEmpty then .error .emptyModelName else .ok model
    | _ => .error .noModelName
  | _ => .error .noMetadata

def propertyViolations (interface : Interface) (name : Text) (value : Json) : List Text :=
  match interface.contents.find? name with
  | none => [Text.joined ["Property '", name, "' is not defined in the model"]]
  | some content =>
    if content.isProperty then
      (content.violations value).map fun v => Text.joined ["Property '", name, "': ", v]
    else
      [Text.joined ["Property '", name, "' is a ", content.kind.word, " and is not supported"]]

def violations (interface : Interface) (twin : Fields Json) : List Text :=
  (twin.filter fun (name, _) => !isSystemKey name).flatMap fun (name, value) =>
    propertyViolations interface name value

def stamped (id tag : Text) (twin : Fields Json) : Json :=
  .object (Fields.put tagKey (.string tag) (Fields.put idKey (.string id) twin))

end Twin

namespace Client

def getTwin (c : Client σ) (decoder : Decoder α) (id : Text) : Action σ α := do
  match (← c.queryFirst (.twin id)) >>= Row.vertexProperties? with
  | some properties => decode decoder (.object properties)
  | none => throw (.notFound (.twin id))

def putTwin (c : Client σ) (decoder : Decoder α) (id : Text) (document : Json) (tag : Text) :
    Action σ α := do
  let .object twin := document | throw (.badArgument .twinNotObject)
  (Twin.checkId id twin).mapError ClientError.badArgument
  let model ← (Twin.modelId twin).mapError ClientError.badArgument
  let interface ← c.interface model
  let violations := Twin.violations interface twin
  unless violations.isEmpty do throw (.validationFailed violations)
  match (← c.queryFirst (.putTwin id (Twin.stamped id tag twin))) >>= Row.vertexProperties? with
  | some properties => decode decoder (.object properties)
  | none => throw (.badResult (.noTwinReturned id))

def patchClauses (patch : List PatchOperation) : Except ClientError (List PatchClause) :=
  (PatchClause.ofPatch patch).mapError fun
    | .pointer fault => .badArgument (.pointer fault)
    | .unsupported name => .unsupportedOperation name
    | .changesId attempts =>
      .validationFailed (List.replicate attempts "Cannot update the $dtId property")

def patchTwin (c : Client σ) (id : Text) (patch : List PatchOperation) (tag : Text) :
    Action σ Unit := do
  let clauses ← patchClauses patch
  if (← c.queryFirst (.patchTwin id clauses tag)).isNone then throw (.notFound (.twin id))

def deleteTwin (c : Client σ) (id : Text) : Action σ Unit := do
  if (← c.execute (.deleteTwin id)) = 0 then throw (.notFound (.twin id))

end Client
end TwinGraph
