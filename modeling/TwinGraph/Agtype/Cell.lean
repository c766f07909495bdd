import TwinGraph.Json.Basic

/-! One decoded value of a result row: plain JSON, a vertex, an edge or a path, or a list or
map that holds such an entity somewhere. -/
namespace TwinGraph

structure Vertex where
  id : Int
  label : Text
  properties : Fields Json
  deriving DecidableEq

structure Edge where
  id : Int
  label : Text
  startId : Int
  endId : Int
  properties : Fields Json
  deriving DecidableEq

inductive Cell where
  | scalar (value : Json)
  | vertex (v : Vertex)
  | edge (e : Edge)
  | path (items : List Cell)
  | list (items : List Cell)
  | map (entries : List (Text × Cell))

namespace Cell

mutual

/-- The value with every entity replaced by its properties. -/
def toJson : Cell → Json
  | scalar value => value
  | vertex v => .object v.properties
  | edge e => .object e.properties
  | path items => .array (toJsonItems items)
  | list items => .array (toJsonItems items)
  | map entries => .object (Fields.ofList (toJsonEntries entries))

def toJsonItems : List Cell → List Json
  | [] => []
  | item :: items => item.toJson :: toJsonItems items

def toJsonEntries : List (Text × Cell) → List (Text × Json)
  | [] => []
  | (name, value) :: entries => (name, value.toJson) :: toJsonEntries entries

end

def vertex? : Cell → Option Vertex
  | vertex v => some v
  | _ => none

def edge? : Cell → Option Edge
  | edge e => some e
  | _ => none

def isScalar : Cell → Bool
  | scalar _ => true
  | _ => false

end Cell
end TwinGraph
