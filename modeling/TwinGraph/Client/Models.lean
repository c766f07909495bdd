import TwinGraph.Client.Session

/-! Models in the graph: vertices that hold the documents, and edges to the ones they extend. -/
namespace TwinGraph

/-- The first part, which has room for that many items, and the further parts of the given size. -/
def fillParts (size : Nat) : (room : Nat) → List α → List α × List (List α)
  | _, [] => ([], [])
  | 0, a :: as =>
    let (part, parts) := fillParts size (size - 1) as
    ([], (a :: part) :: parts)
  | room + 1, a :: as =>
    let (part, parts) := fillParts size room as
    (a :: part, parts)

def inParts (size : Nat) (as : List α) : List (List α) := (fillParts size 0 as).2

namespace Client

def documentsAmong (c : Client σ) (ids : List Text) : StoreAction (Session σ) (List Json) := do
  let results ← c.ask (.modelsAmong ids)
  results.vertexDocuments

/-- Asks the store for models, not for too many at once. -/
def resolver (c : Client σ) : Resolver (Session σ) := fun ids => do
  let answers ← ((inParts c.settings.batchSize ids).mapM c.documentsAmong).adapt .store
  return answers.flatten

def readModels (c : Client σ) (documents : List Json) : Action σ (Directory Interface) := do
  let rounds := c.store.rounds (← get).store
  (c.reader rounds c.resolver documents).adapt .ofModelError

def modelDocument (c : Client σ) (id : Text) : Action σ Json := do
  match (← c.queryFirst (.model id)) >>= Row.vertexProperties? with
  | some properties => return .object properties
  | none => throw (.modelNotFound id)

def getModel (c : Client σ) (decoder : Decoder α) (id : Text) : Action σ α := do
  decode decoder (← c.modelDocument id)

def listModels (c : Client σ) (decoder : Decoder α) (cancelAfter : Option Nat) :
    Action σ (List (Except ClientError α)) := do
  let results ← c.query .models
  return decodeRows (fun row =>
    match row.vertexProperties? with
    | some properties => decode decoder (.object properties)
    | none => .error (.badResult .modelNotVertex)) cancelAfter results

/-- The links from each document of a batch to the models it extends. -/
def inheritanceLinks (interfaces : Directory Interface) (documents : List Json) :
    List (Text × Text) :=
  (documents.filterMap (Json.stringField? "@id")).flatMap fun id =>
    (((interfaces.find? id).map (·.parents)).getD []).map fun parent => (id, parent)

/-- Creates the models of a batch of documents that make sense together: first all vertices, then
one edge for each model that one of them extends. What was created before a failure stays. -/
def createModels (c : Client σ) (batch : List Json) : Action σ (List Json) := do
  let documents ← (Document.flatten batch).mapError ClientError.ofModelError
  if documents.isEmpty then throw (.badArgument .noModels)
  let interfaces ← c.readModels documents
  let results ← c.query (.createModels documents)
  let created ← ClientError.ofStore results.vertexDocuments
  (inheritanceLinks interfaces documents).forM fun (id, parent) =>
    discard (c.execute (.linkModel id parent))
  return created

def deleteModel (c : Client σ) (id : Text) : Action σ Unit := do
  if (← c.execute (.deleteModel id)) = 0 then throw (.modelNotFound id)

def interface (c : Client σ) (id : Text) : Action σ Interface := do
  let document ← c.modelDocument id
  match (← c.readModels [document]).find? id with
  | some interface => return interface
  | none => throw (.modelNotFound id)

end Client
end TwinGraph
