import TwinGraph.Json.Basic

/-! The schemas of property values: primitive ones, and objects, arrays, maps and enumerations
built over them. -/
namespace TwinGraph

inductive Primitive where
  | boolean
  | integer
  | long
  | double
  | float
  | string
  | date
  | dateTime
  | time
  | duration
  deriving DecidableEq, Repr

inductive EnumType where
  | integer
  | string
  deriving DecidableEq, Repr

structure EnumValue where
  name : Text
  value : Json
  deriving DecidableEq

inductive Schema where
  | primitive (type : Primitive)
  | enumeration (type : EnumType) (values : List EnumValue)
  | object (fields : List (Text × Schema))
  | array (element : Schema)
  | map (value : Schema)

def Primitive.all : List Primitive :=
  [boolean, integer, long, double, float, string, date, dateTime, time, duration]

def Primitive.name : Primitive → Text
  | boolean => "boolean"
  | integer => "integer"
  | long => "long"
  | double => "double"
  | float => "float"
  | string => "string"
  | date => "date"
  | dateTime => "dateTime"
  | time => "time"
  | duration => "duration"

def Primitive.ofName? (name : Text) : Option Primitive := Primitive.all.find? (·.name == name)

def EnumValue.same (a b : EnumValue) : Bool := a.name == b.name && a.value.sameValue b.value

namespace Schema

def sameValues : List EnumValue → List EnumValue → Bool
  | [], [] => true
  | a :: as, b :: bs => a.same b && sameValues as bs
  | _, _ => false

mutual

/-- The same schema, enumerated values compared as values. -/
def same : Schema → Schema → Bool
  | primitive a, primitive b => a == b
  | enumeration s as, enumeration t bs => s == t && sameValues as bs
  | object as, object bs => sameFields as bs
  | array a, array b => a.same b
  | map a, map b => a.same b
  | _, _ => false

def sameFields : List (Text × Schema) → List (Text × Schema) → Bool
  | [], [] => true
  | (m, a) :: as, (n, b) :: bs => m == n && a.same b && sameFields as bs
  | _, _ => false

end

end Schema
end TwinGraph
