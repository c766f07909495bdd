import TwinGraph.Cypher.Literal
import TwinGraph.Cypher.Property
import TwinGraph.Patch.Operation
import TwinGraph.Patch.Pointer

/-! The clauses that apply a patch to a node. The id of a twin is not to be patched; attempts are
counted, so that all of them are told together. -/
namespace TwinGraph

inductive PatchClause where
  | assign (keys : List Text) (value : Json)
  | erase (keys : List Text)
  deriving DecidableEq

inductive PatchFault where
  | pointer (fault : PointerFault)
  | unsupported (name : Text)
  | changesId (attempts : Nat)
  deriving DecidableEq

namespace PatchClause

def idKey : Text := "$dtId"

def ofOperation? (operation : PatchOperation) : Except PatchFault (Option PatchClause) :=
  match Pointer.segments operation.path with
  | .error fault => .error (.pointer fault)
  | .ok keys =>
    if keys.head? = some idKey then .ok none
    else
      match operation with
      | .add _ value => .ok (some (assign keys value))
      | .replace _ value => .ok (some (assign keys value))
      | .remove _ => .ok (some (erase keys))
      | other => .error (.unsupported other.name)

/-- The clauses for a patch, in order. The first operation that has none decides the error;
operations on the id come last. -/
def ofPatch (patch : List PatchOperation) : Except PatchFault (List PatchClause) := do
  let steps ← patch.mapM ofOperation?
  let attempts := steps.count none
  if attempts = 0 then return steps.filterMap id
  throw (.changesId attempts)

def render (root : Text) : PatchClause → Text
  | assign keys value =>
    Text.joined ["SET ", Cypher.propertyPath root keys, " = ", Cypher.agtypeLiteral value]
  | erase keys => Text.joined ["REMOVE ", Cypher.propertyPath root keys]

end PatchClause
end TwinGraph
