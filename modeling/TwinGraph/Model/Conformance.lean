import TwinGraph.Json.Printer
import TwinGraph.Model.Schema
import TwinGraph.Model.Temporal

/-! Whether a value conforms to a schema. Every reason why it does not is reported, in the order
of the document, each with the way to the place it is about. -/
namespace TwinGraph

def Primitive.fault? (type : Primitive) (value : Json) : Option Text :=
  let textual (name : Text) (valid : Text → Bool) : Option Text :=
    match value with
    | .string s => if valid s then none else some (Text.joined ["is not a valid ", name, " value"])
    | _ => some (Text.joined ["is not a valid ", name, " value"])
  match type with
  | boolean => if value.bool?.isSome then none else some "is not a boolean value"
  | integer =>
    match value.signed64? with
    | none => some "is not an integer value"
    | some n =>
      if -0x80000000 ≤ n ∧ n < 0x80000000 then none else some "is out of range for an integer"
  | long => if value.signed64?.isSome then none else some "is not a long value"
  | double => if value.isNumber then none else some "is not a numeric value"
  | float => if value.isNumber then none else some "is not a numeric value"
  | string => if value.string?.isSome then none else some "is not a string value"
  | date => textual "date" Temporal.isDate
  | dateTime => textual "dateTime" Temporal.isDateTime
  | time => textual "time" Temporal.isTime
  | duration => textual "duration" Temporal.isDuration

def EnumType.admits (type : EnumType) (value : Json) : Bool :=
  match type with
  | integer => value.signed64?.isSome
  | string => value.string?.isSome

namespace Schema

/-- What is wrong with a value as a whole. Objects, arrays and maps are only looked at from
outside here. -/
def outerFault? (schema : Schema) (value : Json) : Option Text :=
  match schema with
  | primitive type => type.fault? value
  | enumeration type values =>
    if type.admits value && values.any (·.value.sameValue value) then none
    else some "is not one of the enum values"
  | object _ => if value.fields?.isSome then none else some "is not an object"
  | array _ => if value.items?.isSome then none else some "is not an array"
  | map _ => if value.fields?.isSome then none else some "is not a map"

def outerViolations (schema : Schema) (value : Json) : List Text :=
  match schema.outerFault? value with
  | some fault => [Text.joined [value.render, " ", fault]]
  | none => []

def field? (name : Text) (fields : List (Text × Schema)) : Option Schema :=
  (fields.find? (·.1 == name)).map (·.2)

def atField (name violation : Text) : Text := Text.joined ["field '", name, "': ", violation]

def atElement (index : Nat) (violation : Text) : Text :=
  Text.joined ["element ", Text.ofNat index, ": ", violation]

def atKey (key violation : Text) : Text := Text.joined ["key '", key, "': ", violation]

mutual

/-- Every reason why the value does not conform; none if it does. -/
def violations (schema : Schema) : Json → List Text
  | .object entries =>
    match schema with
    | object fields => fieldViolations fields entries
    | map value => keyViolations value entries
    | other => other.outerViolations (.object entries)
  | .array items =>
    match schema with
    | array element => elementViolations element 0 items
    | other => other.outerViolations (.array items)
  | value => schema.outerViolations value

def fieldViolations (fields : List (Text × Schema)) : List (Text × Json) → List Text
  | [] => []
  | (name, value) :: entries =>
    (match field? name fields with
      | some schema => (violations schema value).map (atField name)
      | none => [Text.joined ["'", name, "' is not a field of the object"]]) ++
    fieldViolations fields entries

def elementViolations (element : Schema) (index : Nat) : List Json → List Text
  | [] => []
  | item :: items =>
    (violations element item).map (atElement index) ++
      elementViolations element (index + 1) items

def keyViolations (schema : Schema) : List (Text × Json) → List Text
  | [] => []
  | (key, value) :: entries =>
    (violations schema value).map (atKey key) ++ keyViolations schema entries

end

end Schema
end TwinGraph
