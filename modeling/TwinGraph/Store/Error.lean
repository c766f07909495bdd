import TwinGraph.Text.Visible

/-! What can go wrong with the graph store: it is not reached, it refuses a statement, or it
answers with a value that cannot be decoded. -/
namespace TwinGraph

inductive DecodeFault where
  | notJson
  | badVertex
  | badEdge
  | pathNotList
  | unknownTag (name : Option Text)
  deriving DecidableEq, Repr

inductive StoreError where
  | connection (reason : Text)
  | statement (reason : Text)
  | undecodable (text : Text) (fault : DecodeFault)
  deriving DecidableEq, Repr

def DecodeFault.message : DecodeFault → Text
  | notJson => "invalid JSON"
  | badVertex => "bad vertex"
  | badEdge => "bad edge"
  | pathNotList => "path is not a list"
  | unknownTag none => "unknown annotation None"
  | unknownTag (some name) => Text.joined ["unknown annotation Some(", name.shown, ")"]

def StoreError.message : StoreError → Text
  | connection reason => Text.joined ["graph store connection error: ", reason]
  | statement reason => Text.joined ["graph store rejected statement: ", reason]
  | undecodable text fault => Text.joined ["invalid agtype value '", text, "': ", fault.message]

end TwinGraph
