import TwinGraph.Model.Error
import TwinGraph.Patch.Pointer
import TwinGraph.Query.Error
import TwinGraph.Settings.Basic

/-! Every failure that a request to the client can end with. -/
namespace TwinGraph

inductive ArgumentFault where
  | breaksOut
  | pointer (fault : PointerFault)
  | twinNotObject
  | otherTwinId (given : Json) (id : Text)
  | noMetadata
  | noModelName
  | emptyModelName
  | relationshipNotObject
  | missingText (key : Text)
  | relationshipName (name : Text)
  | otherText (key : Text) (given : Json) (expected : Text)
  | noModels
  deriving DecidableEq

inductive Missing where
  | twin (id : Text)
  | oneTwinOf (source target : Text)
  | relationship (id : Text)
  | relationshipFields
  | incomingFields (id : Text)
  deriving DecidableEq

inductive ResultFault where
  | noTwinReturned (id : Text)
  | modelNotVertex
  | unexpectedForm
  deriving DecidableEq, Repr

inductive ClientError where
  | invalidQuery (error : QueryError)
  | badArgument (fault : ArgumentFault)
  | validationFailed (violations : List Text)
  | modelNotFound (id : Text)
  | notFound (what : Missing)
  | unsupportedOperation (name : Text)
  | badResult (fault : ResultFault)
  | invalidModel (error : ModelError)
  | store (error : StoreError)
  | settings (error : SettingsError)
  | cancelled
  deriving DecidableEq

def ArgumentFault.message : ArgumentFault → Text
  | breaksOut => "Query must not contain '$$'"
  | pointer fault => fault.message
  | twinNotObject => "Digital Twin must be a JSON object"
  | otherTwinId given id =>
    Text.joined ["$dtId ", given.render, " does not match the twin id '", id, "'"]
  | noMetadata => "Digital Twin must have a $metadata property of type object"
  | noModelName => "Digital Twin's $metadata must contain a $model property of type string"
  | emptyModelName => "Digital Twin's $model property cannot be null or empty"
  | relationshipNotObject => "Relationship must be a JSON object"
  | missingText key => Text.joined ["Relationship must contain a ", key, " property of type string"]
  | relationshipName name =>
    Text.joined ["Relationship name '", name, "' must be a plain identifier"]
  | otherText key given expected =>
    Text.joined [key, " ", given.render, " does not match '", expected, "'"]
  | noModels => "At least one model is required"

def Missing.message : Missing → Text
  | twin id => Text.joined ["Digital Twin with ID ", id, " not found"]
  | oneTwinOf source target =>
    Text.joined ["Digital Twin with ID ", source, " or ", target, " not found"]
  | relationship id => Text.joined ["Relationship with ID ", id, " not found"]
  | relationshipFields => "Relationship is missing required fields"
  | incomingFields id => Text.joined ["Incoming relationship ", id, " is missing required fields"]

def ResultFault.message : ResultFault → Text
  | noTwinReturned id => Text.joined ["Upsert of Digital Twin ", id, " returned no twin"]
  | modelNotVertex => "model row does not hold a vertex"
  | unexpectedForm => "the result does not have the expected form"

namespace ClientError

def message : ClientError → Text
  | invalidQuery error => error.message
  | badArgument fault => fault.message
  | validationFailed violations =>
    Text.joined ["Validation failed: ", Text.separated " AND " violations]
  | modelNotFound id => Text.joined ["Model with ID ", id, " not found"]
  | notFound what => what.message
  | unsupportedOperation name => Text.joined ["Operation '", name, "' is not supported"]
  | badResult fault => Text.joined ["Deserialization failed: ", fault.message]
  | invalidModel error => error.message
  | store error => error.message
  | settings error => error.message
  | cancelled => "Operation cancelled"

def status : ClientError → Nat
  | modelNotFound _ | notFound _ => 404
  | invalidQuery _ | badArgument _ | validationFailed _ | invalidModel _
  | unsupportedOperation _ => 400
  | badResult _ | store _ | settings _ | cancelled => 500

def ofStore (result : Except StoreError α) : Except ClientError α := result.mapError store

/-- A store that fails while models are looked up is no fault of the models. -/
def ofModelError : ModelError → ClientError
  | .store error => store error
  | error => invalidModel error

end ClientError
end TwinGraph
