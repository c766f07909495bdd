import TwinGraph.Agtype.Annotation
import TwinGraph.Agtype.Cell
import TwinGraph.Json.Reader
import TwinGraph.Store.Error

/-! From the store's text to a cell: the annotations become marker objects, the text is read
as JSON, and the marker objects become entities. Data without entities stays plain JSON. -/
namespace TwinGraph

/-- The properties of an entity, which may be left out but not be something else than an object. -/
def decodeProperties : Option Json → Option (Fields Json)
  | none => some []
  | some (.object fields) => some fields
  | some _ => none

namespace Vertex

/-- From an object, whose other fields are ignored, or from the list of the fields in order. -/
def ofJson? : Json → Option Vertex
  | .object fields => do
    let id ← Fields.find? "id" fields >>= Json.signed64?
    let label ← Fields.find? "label" fields >>= Json.string?
    return ⟨id, label, ← decodeProperties (Fields.find? "properties" fields)⟩
  | .array (id :: label :: rest) => do
    if 1 < rest.length then none
    return ⟨← id.signed64?, ← label.string?, ← decodeProperties rest.head?⟩
  | _ => none

end Vertex

namespace Edge

def ofJson? : Json → Option Edge
  | .object fields => do
    let id ← Fields.find? "id" fields >>= Json.signed64?
    let label ← Fields.find? "label" fields >>= Json.string?
    let startId ← Fields.find? "start_id" fields >>= Json.signed64?
    let endId ← Fields.find? "end_id" fields >>= Json.signed64?
    return ⟨id, label, startId, endId, ← decodeProperties (Fields.find? "properties" fields)⟩
  | .array (id :: label :: startId :: endId :: rest) => do
    if 1 < rest.length then none
    return ⟨← id.signed64?, ← label.string?, ← startId.signed64?, ← endId.signed64?,
      ← decodeProperties rest.head?⟩
  | _ => none

end Edge

namespace Cell

def ofItems (items : List Cell) : Cell :=
  if items.all isScalar then scalar (.array (toJsonItems items)) else list items

def ofEntries (entries : List (Text × Cell)) : Cell :=
  if entries.all (·.2.isScalar) then scalar (.object (Fields.ofList (toJsonEntries entries)))
  else map entries

def isMarker (fields : Fields Json) : Bool := fields.length == 2 && Fields.has Agtype.marker fields

def ofKind (kind value : Json) (path : Except DecodeFault Cell) : Except DecodeFault Cell :=
  match kind with
  | .string word =>
    if word = Agtype.vertexWord then
      match Vertex.ofJson? value with
      | some v => .ok (vertex v)
      | none => .error .badVertex
    else if word = Agtype.edgeWord then
      match Edge.ofJson? value with
      | some e => .ok (edge e)
      | none => .error .badEdge
    else if word = Agtype.pathWord then path
    else .error (.unknownTag (some word))
  | _ => .error (.unknownTag none)

mutual

def ofJson : Json → Except DecodeFault Cell
  | .array items => do return ofItems (← ofJsonItems items)
  | .object fields =>
    if isMarker fields then ofMarker fields else do return ofEntries (← ofJsonFields fields)
  | value => .ok (scalar value)

def ofJsonItems : List Json → Except DecodeFault (List Cell)
  | [] => .ok []
  | item :: items => do return (← ofJson item) :: (← ofJsonItems items)

def ofJsonFields : List (Text × Json) → Except DecodeFault (List (Text × Cell))
  | [] => .ok []
  | (name, value) :: fields => do return (name, ← ofJson value) :: (← ofJsonFields fields)

/-- The entity of a marker object. If the other field is not called value, nothing is marked. -/
def ofMarker : List (Text × Json) → Except DecodeFault Cell
  | [(name, value), (other, second)] =>
    if name = Agtype.marker then
      if other = "value" then ofKind value second (ofPath second)
      else ofKind value .null (.error .pathNotList)
    else if name = "value" then ofKind second value (ofPath value)
    else ofKind second .null (.error .pathNotList)
  | _ => .error (.unknownTag none)

def ofPath : Json → Except DecodeFault Cell
  | .array items => do return path (← ofJsonItems items)
  | _ => .error .pathNotList

end

def maxDepth : Nat := 127

def ofText (s : Text) : Except StoreError Cell :=
  match Json.read maxDepth (Agtype.plainText s) with
  | none => .error (.undecodable s .notJson)
  | some value =>
    match ofJson value with
    | .ok cell => .ok cell
    | .error fault => .error (.undecodable s fault)

end Cell
end TwinGraph
