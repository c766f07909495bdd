import TwinGraph.Json.Basic

/-! The operations of a patch, and their two written forms: an object with the fields by name, or
a list with the fields in order. -/
namespace TwinGraph

inductive PatchOperation where
  | add (path : Text) (value : Json)
  | replace (path : Text) (value : Json)
  | remove (path : Text)
  | move (source path : Text)
  | copy (source path : Text)
  | test (path : Text) (value : Json)
  deriving DecidableEq

namespace PatchOperation

def path : PatchOperation → Text
  | add path _ | replace path _ | remove path | move _ path | copy _ path | test path _ => path

def name : PatchOperation → Text
  | add _ _ => "add"
  | replace _ _ => "replace"
  | remove _ => "remove"
  | move _ _ => "move"
  | copy _ _ => "copy"
  | test _ _ => "test"

def fields : PatchOperation → List (Text × Json)
  | add path value | replace path value | test path value =>
    [("path", .string path), ("value", value)]
  | remove path => [("path", .string path)]
  | move source path | copy source path => [("from", .string source), ("path", .string path)]

def toJson (operation : PatchOperation) : Json :=
  .object (("op", .string operation.name) :: operation.fields)

def fieldNames? (name : Text) : Option (List Text) :=
  if name = "add" ∨ name = "replace" ∨ name = "test" then some ["path", "value"]
  else if name = "remove" then some ["path"]
  else if name = "move" ∨ name = "copy" then some ["from", "path"]
  else none

def ofValues? (name : Text) : List Json → Option PatchOperation
  | [.string path] => if name = "remove" then some (remove path) else none
  | [.string first, second] =>
    if name = "add" then some (add first second)
    else if name = "replace" then some (replace first second)
    else if name = "test" then some (test first second)
    else
      match second with
      | .string path =>
        if name = "move" then some (move first path)
        else if name = "copy" then some (copy first path)
        else none
      | _ => none
  | _ => none

/-- Fields of an object that the operation does not have are ignored; a list holds exactly the
fields. -/
def ofJson? : Json → Option PatchOperation
  | .object fields => do
    let name ← Json.stringField? "op" (.object fields)
    ofValues? name (← (← fieldNames? name).mapM fun field => Fields.find? field fields)
  | .array (.string name :: values) => ofValues? name values
  | _ => none

def patchOfJson? (patch : Json) : Option (List PatchOperation) := do
  (← patch.items?).mapM ofJson?

theorem ofJson?_toJson (operation : PatchOperation) : ofJson? operation.toJson = some operation := by
  cases operation <;> rfl

end PatchOperation
end TwinGraph
