import TwinGraph.Model.Document
import TwinGraph.Text.Directory

/-! Collecting the documents of all models that a batch refers to. A resolver is asked, round by
round, for the ids that are referred to and not yet known. -/
namespace TwinGraph

/-- Answers with the documents of the given ids, as far as it has any; it may answer
differently from one round to the next. -/
abbrev Resolver (σ : Type) := List Text → ExceptT ModelError (StateM σ) (List Json)

namespace Resolution

mutual

/-- Adds an interface to the known ones, and before it the interfaces written out among those
it extends. A list adds the interfaces in it. -/
def enter (known : Directory Json) : Json → Except ModelError (Directory Json)
  | .object fields => do
    let id ← Document.interfaceId (.object fields)
    let known ← enterInline known fields
    if known.has id then throw (.invalidDocument (.redefined id))
    return known.insert id (.object fields)
  | .array items => enterItems known items
  | _ => .ok known

def enterInline (known : Directory Json) :
    List (Text × Json) → Except ModelError (Directory Json)
  | [] => .ok known
  | (name, value) :: rest => if name = "extends" then enter known value else enterInline known rest

def enterItems (known : Directory Json) : List Json → Except ModelError (Directory Json)
  | [] => .ok known
  | item :: items => do
    let known ← if item.isObject then enter known item else pure known
    enterItems known items

end

def references (document : Json) : Except ModelError (List Text) := do
  let ids := (← Document.parentIds document) ++ Document.componentIds document
  match ids.find? (!ModelId.isValid ·) with
  | some id => throw (.invalidId id)
  | none => return ids

def sortedIds (ids : List Text) : List Text :=
  (ids.foldl (fun set id => set.insert id ()) Directory.empty).names

/-- The ids that known documents refer to and that are not known themselves. -/
def missing (known : Directory Json) : Except ModelError (List Text) := do
  let ids ← known.values.mapM references
  return sortedIds (ids.flatten.filter (!known.has ·))

/-- A document of an answer counts if its id is new; anything else in the answer is ignored. -/
def isNew (known : Directory Json) (document : Json) : Bool :=
  (document.stringField? "@id").any (!known.has ·)

/-- The known documents after an answer to the request for the missing ids, which must all be
known then. -/
def learn (known : Directory Json) (ids : List Text) (answer : List Json) :
    Except ModelError (Directory Json) := do
  let documents ← Document.flatten answer
  let known ← enterItems known (documents.filter (isNew known))
  let unresolved := ids.filter (!known.has ·)
  if unresolved.isEmpty then return known
  throw (.unresolved unresolved)

/-- Asks for missing ids until there are none, at most that many times. -/
def complete (resolver : Resolver σ) :
    (rounds : Nat) → Directory Json → ExceptT ModelError (StateM σ) (Directory Json)
  | 0, known => do
    let ids ← missing known
    if ids.isEmpty then return known
    throw (.outOfRounds ids)
  | rounds + 1, known => do
    let ids ← missing known
    if ids.isEmpty then return known
    let answer ← resolver ids
    complete resolver rounds (← learn known ids answer)

def collect (rounds : Nat) (resolver : Resolver σ) (documents : List Json) :
    ExceptT ModelError (StateM σ) (Directory Json) := do
  let documents ← Document.flatten documents
  complete resolver rounds (← enterItems Directory.empty documents)

end Resolution
end TwinGraph
