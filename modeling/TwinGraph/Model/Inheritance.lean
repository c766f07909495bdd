import TwinGraph.Model.ContentReading
import TwinGraph.Model.Resolution

/-! Interfaces with everything they inherit. An entry may come down on several ways, but only as
the same declaration, and no name is declared anew below. -/
namespace TwinGraph

namespace Interface

def inherit (id : Text) (contents : Directory Content) :
    List (Text × Content) → Except ModelError (Directory Content)
  | [] => .ok contents
  | (name, content) :: rest =>
    match contents.find? name with
    | some present =>
      if present.same content then inherit id (contents.insert name content) rest
      else .error (.duplicateContent id name)
    | none => inherit id (contents.insert name content) rest

def declare (id : Text) (contents : Directory Content) :
    List Content → Except ModelError (Directory Content)
  | [] => .ok contents
  | content :: rest =>
    if contents.has content.name then .error (.duplicateContent id content.name)
    else declare id (contents.insert content.name content) rest

/-- Adds an interface to those that are built, after the ones it extends. The path holds the
interfaces that wait for this one; an id on it again is a cycle. The depth must exceed the
number of declarations not on the path. -/
def build (declared : Directory Declaration) :
    (depth : Nat) → (path : List Text) → (id : Text) → Directory Interface →
      Except ModelError (Directory Interface)
  | 0, _, id, _ => .error (.extendsCycle id)
  | depth + 1, path, id, built =>
    if built.has id then .ok built
    else if path.contains id then .error (.extendsCycle id)
    else
      match declared.find? id with
      | none => .error (.unresolved [id])
      | some declaration => do
        let (contents, built) ← declaration.parents.foldlM
          (fun (contents, built) parent => do
            let built ← build declared depth (id :: path) parent built
            let inherited := ((built.find? parent).map (·.contents.entries)).getD []
            return (← inherit id contents inherited, built))
          ((Directory.empty, built) : Directory Content × Directory Interface)
        let contents ← declare id contents declaration.contents
        return built.insert id ⟨id, declaration.parents, contents⟩

def buildAll (declared : Directory Declaration) : Except ModelError (Directory Interface) :=
  declared.names.foldlM
    (fun built id => build declared (declared.entries.length + 1) [] id built)
    Directory.empty

end Interface

def readInterfaces (rounds : Nat) (resolver : Resolver σ) (documents : List Json) :
    ExceptT ModelError (StateM σ) (Directory Interface) := do
  let known ← Resolution.collect rounds resolver documents
  Interface.buildAll (← readDeclarations known)

end TwinGraph
