import TwinGraph.Json.Printer
import TwinGraph.Store.Error

/-! The reasons for which model documents give no interfaces, and their wording. -/
namespace TwinGraph

inductive DocumentFault where
  | notObjects
  | neitherObjectNorArray
  | missingId
  | notInterface (id : Text)
  | badExtends (entry : Json)
  | redefined (id : Text)
  | missingPart (schemaType part : Text)
  | badEnumValue (entry : Json)
  | namelessField (entry : Json)
  | fieldWithoutSchema (name : Text)
  | mapWithoutSchema
  deriving DecidableEq

def DocumentFault.message : DocumentFault → Text
  | notObjects => "model arrays may only contain JSON objects"
  | neitherObjectNorArray => "a model must be a JSON object or an array of objects"
  | missingId => "interface is missing a string '@id'"
  | notInterface id => Text.joined ["'", id, "' is not an Interface"]
  | badExtends entry =>
    Text.joined ["'extends' entry ", entry.render, " is neither an id nor an interface"]
  | redefined id => Text.joined ["model '", id, "' is defined more than once"]
  | missingPart schemaType part => Text.joined [schemaType, " schema requires '", part, "'"]
  | badEnumValue entry =>
    Text.joined ["enum value ", entry.render, " needs 'name' and 'enumValue'"]
  | namelessField entry => Text.joined ["field ", entry.render, " has no name"]
  | fieldWithoutSchema name => Text.joined ["field '", name, "' has no schema"]
  | mapWithoutSchema => "Map mapValue requires a schema"

inductive ContentFault where
  | nameless (entry : Json)
  | unknownType (name : Text)
  | noSchema (kind name : Text)
  | componentWithoutInterface (name : Text)
  deriving DecidableEq

def ContentFault.message : ContentFault → Text
  | nameless entry => Text.joined [entry.render, " has no string 'name'"]
  | unknownType name => Text.joined ["'", name, "' has no known content @type"]
  | noSchema kind name => Text.joined [kind, " '", name, "' has no schema"]
  | componentWithoutInterface name =>
    Text.joined ["Component '", name, "' must reference an interface id"]

inductive SchemaFault where
  | unknown (name : Text)
  | notSchema (value : Json)
  | tooDeep (levels : Nat)
  | badEnumType
  deriving DecidableEq

def SchemaFault.message : SchemaFault → Text
  | unknown name => name
  | notSchema value => value.render
  | tooDeep levels => Text.joined ["schema nested deeper than ", Text.ofNat levels, " levels"]
  | badEnumType => "Enum valueSchema must be integer or string"

inductive ModelError where
  | invalidDocument (fault : DocumentFault)
  | invalidId (id : Text)
  | unresolved (ids : List Text)
  | extendsCycle (id : Text)
  | duplicateContent (interface name : Text)
  | invalidContent (interface : Text) (fault : ContentFault)
  | unsupportedSchema (fault : SchemaFault)
  | store (error : StoreError)
  | outOfRounds (ids : List Text)
  deriving DecidableEq

def ModelError.message : ModelError → Text
  | invalidDocument fault => Text.joined ["Invalid DTDL document: ", fault.message]
  | invalidId id => Text.joined ["'", id, "' is not a valid DTMI"]
  | unresolved ids => Text.joined ["Unable to resolve model(s): ", Text.separated ", " ids]
  | extendsCycle id =>
    Text.joined ["Model '", id, "' extends itself, directly or through its ancestors"]
  | duplicateContent interface name =>
    Text.joined ["Model '", interface, "' declares content '", name,
      "' more than once (including inherited contents)"]
  | invalidContent interface fault =>
    Text.joined ["Model '", interface, "' has invalid content: ", fault.message]
  | unsupportedSchema fault =>
    Text.joined ["Unsupported or unknown schema '", fault.message, "'"]
  | store error => Text.joined ["Model resolution failed: ", error.message]
  | outOfRounds ids =>
    Text.joined ["No round left to resolve model(s): ", Text.separated ", " ids]

end TwinGraph
