import TwinGraph.Client.Decoder
import TwinGraph.Client.Error
import TwinGraph.Client.Statement
import TwinGraph.Model.Inheritance
import TwinGraph.Store.Basic

/-! Clients of a graph store. What a client does is a function on the state of the store, beside
which everything that was sent is noted down in order. -/
namespace TwinGraph

inductive Request where
  | query (graph : Text) (statement : Statement)
  | execute (graph : Text) (statement : Statement)
  | sql (statement : Text)
  deriving DecidableEq

structure Session (σ : Type) where
  store : σ
  sent : List Request

abbrev Action (σ α : Type) := ExceptT ClientError (StateM (Session σ)) α

/-- Makes interfaces of documents, with a resolver to ask for others a limited number of times. -/
abbrev ModelReader (σ : Type) :=
  Nat → Resolver σ → List Json → ExceptT ModelError (StateM σ) (Directory Interface)

structure Client (σ : Type) where
  store : Store σ
  settings : Settings
  valid : settings.Valid
  reader : ModelReader (Session σ)

namespace Session

def send (request : Request) (action : StoreAction σ α) : StoreAction (Session σ) α :=
  ExceptT.mk fun session =>
    let (answer, store) := action.run session.store
    (answer, ⟨store, session.sent ++ [request]⟩)

end Session

namespace Client

def new (store : Store σ) (settings : Settings) : Except ClientError (Client σ) :=
  if h : settings.Valid then .ok ⟨store, settings, h, readInterfaces⟩
  else .error (.settings (.invalid settings.nameFaults settings.batchFaults))

def withReader (reader : ModelReader (Session σ)) (c : Client σ) : Client σ :=
  { c with reader := reader }

def graphName (c : Client σ) : Text := c.settings.graphName

def ask (c : Client σ) (statement : Statement) : StoreAction (Session σ) Results :=
  Session.send (.query c.graphName statement) (c.store.query c.graphName statement.text)

/-- A statement with the mark that would end it early is not sent. -/
def checkStatement (statement : Statement) : Except ClientError Unit :=
  if Cypher.breaksOut statement.text then .error (.badArgument .breaksOut) else .ok ()

def query (c : Client σ) (statement : Statement) : Action σ Results := do
  checkStatement statement
  (c.ask statement).adapt .store

def queryFirst (c : Client σ) (statement : Statement) : Action σ (Option Row) := do
  let results ← c.query statement
  ClientError.ofStore results.first?

def execute (c : Client σ) (statement : Statement) : Action σ Nat := do
  checkStatement statement
  (Session.send (.execute c.graphName statement)
    (c.store.execute c.graphName statement.text)).adapt .store

def executeSql (c : Client σ) (statement : Text) : Action σ Nat :=
  (Session.send (.sql statement) (c.store.executeSql statement)).adapt .store

def decode (decoder : Decoder α) (value : Json) : Except ClientError α :=
  match decoder value with
  | some a => .ok a
  | none => .error (.badResult .unexpectedForm)

/-- Decodes rows one at a time. Before each look for a further row the caller may have cancelled,
which ends the list like an error of the store does; a row that cannot be decoded does not. The
number says how many looks come before. -/
def decodeRows (decodeRow : Row → Except ClientError α) :
    (cancelAfter : Option Nat) → Results → List (Except ClientError α)
  | some 0, _ => [.error .cancelled]
  | _, [] => []
  | _, .error e :: _ => [.error (.store e)]
  | none, .ok row :: results => decodeRow row :: decodeRows decodeRow none results
  | some (looks + 1), .ok row :: results =>
    decodeRow row :: decodeRows decodeRow (some looks) results

end Client
end TwinGraph
