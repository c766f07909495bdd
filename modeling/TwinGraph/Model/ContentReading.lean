import TwinGraph.Model.Interface
import TwinGraph.Model.SchemaReading

/-! Reading the entries that an interface declares itself. -/
namespace TwinGraph

namespace Content

def kindWords : List Text := ["Property", "Telemetry", "Relationship", "Component", "Command"]

def readSchema (interface : Text) (reusable : Text → Option Json) (word name : Text) (entry : Json) :
    Except ModelError Schema :=
  match entry.field? "schema" with
  | some schema => Schema.read reusable schema
  | none => .error (.invalidContent interface (.noSchema word name))

/-- An entry is what the first known word among its types says. -/
def read (interface : Text) (reusable : Text → Option Json) (entry : Json) :
    Except ModelError Content :=
  match entry.stringField? "name" with
  | none => .error (.invalidContent interface (.nameless entry))
  | some name =>
    match (Document.typeNames entry).find? fun type => kindWords.any (· == type) with
    | none => .error (.invalidContent interface (.unknownType name))
    | some word =>
      if word = "Property" then do
        let schema ← readSchema interface reusable word name entry
        return ⟨name, .property schema (((entry.field? "writable").bind Json.bool?).getD false)⟩
      else if word = "Telemetry" then do
        return ⟨name, .telemetry (← readSchema interface reusable word name entry)⟩
      else if word = "Relationship" then .ok ⟨name, .relationship (entry.stringField? "target")⟩
      else if word = "Component" then
        match entry.stringField? "schema" with
        | some component => .ok ⟨name, .component component⟩
        | none => .error (.invalidContent interface (.componentWithoutInterface name))
      else .ok ⟨name, .command⟩

end Content

structure Declaration where
  parents : List Text
  contents : List Content

/-- The schemas that the known documents offer for reuse, by their ids. Of several with one id
the last counts. -/
def reusableSchemas (known : Directory Json) : Directory Json :=
  (known.values.flatMap fun document =>
    ((document.field? "schemas").bind Json.items?).getD []).foldl
    (fun schemas schema =>
      match schema.stringField? "@id" with
      | some id => schemas.insert id schema
      | none => schemas)
    Directory.empty

def Declaration.read (reusable : Text → Option Json) (id : Text) (document : Json) :
    Except ModelError Declaration := do
  let contents ← (Document.contents document).mapM (Content.read id reusable)
  return ⟨← Document.parentIds document, contents⟩

def readDeclarations (known : Directory Json) : Except ModelError (Directory Declaration) :=
  let schemas := reusableSchemas known
  known.entries.foldlM
    (fun declarations (id, document) => do
      return declarations.insert id (← Declaration.read schemas.find? id document))
    Directory.empty

end TwinGraph
