import TwinGraph.Model.Document
import TwinGraph.Model.Schema

/-! Reading schemas out of model documents. A schema may be a name that stands for another one,
so it is the number of levels, names included, that bounds the reading. -/
namespace TwinGraph.Schema

/-- Schemas nest at most this many levels below the outermost one. -/
def maxDepth : Nat := 8

def requiredPart (schemaType part : Text) (schema : Json) : Except ModelError Json :=
  match schema.field? part with
  | some value => .ok value
  | none => .error (.invalidDocument (.missingPart schemaType part))

def readEnumType (value : Json) : Except ModelError EnumType :=
  if value = .string "integer" then .ok .integer
  else if value = .string "string" then .ok .string
  else .error (.unsupportedSchema .badEnumType)

def readEnumValue (entry : Json) : Except ModelError EnumValue :=
  match entry.stringField? "name", entry.field? "enumValue" with
  | some name, some value => .ok ⟨name, value⟩
  | _, _ => .error (.invalidDocument (.badEnumValue entry))

/-- Reads a schema with that many levels left. Names that are no primitive are looked up among
the reusable schemas. -/
def readWithin (reusable : Text → Option Json) : (levels : Nat) → Json → Except ModelError Schema
  | 0, _ => .error (.unsupportedSchema (.tooDeep maxDepth))
  | levels + 1, value =>
    match value with
    | .string name =>
      match Primitive.ofName? name with
      | some type => .ok (.primitive type)
      | none =>
        match reusable name with
        | some definition => readWithin reusable levels definition
        | none => .error (.unsupportedSchema (.unknown name))
    | .object fields =>
      let schema : Json := .object fields
      let schemaType := (schema.stringField? "@type").getD []
      if schemaType = "Enum" then do
        let type ← readEnumType (← requiredPart schemaType "valueSchema" schema)
        let values ← requiredPart schemaType "enumValues" schema
        return .enumeration type (← (values.items?.getD []).mapM readEnumValue)
      else if schemaType = "Object" then do
        let fields ← requiredPart schemaType "fields" schema
        return .object (← (fields.items?.getD []).mapM fun field => do
          match field.stringField? "name" with
          | none => throw (.invalidDocument (.namelessField field))
          | some name =>
            match field.field? "schema" with
            | none => throw (.invalidDocument (.fieldWithoutSchema name))
            | some value => return (name, ← readWithin reusable levels value))
      else if schemaType = "Array" then do
        return .array (← readWithin reusable levels (← requiredPart schemaType "elementSchema" schema))
      else if schemaType = "Map" then do
        match (← requiredPart schemaType "mapValue" schema).field? "schema" with
        | none => throw (.invalidDocument .mapWithoutSchema)
        | some value => return .map (← readWithin reusable levels value)
      else .error (.unsupportedSchema (.unknown schemaType))
    | other => .error (.unsupportedSchema (.notSchema other))

def read (reusable : Text → Option Json) (value : Json) : Except ModelError Schema :=
  readWithin reusable (maxDepth + 1) value

end TwinGraph.Schema
