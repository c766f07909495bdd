import TwinGraph.Store.Basic

/-! A store that answers from a queue of replies, whatever it is asked. With the queue used up
it has nothing to tell. -/
namespace TwinGraph

inductive Reply where
  | rows (columns : List (List (Text × Text))) (failure : Option StoreError)
  | failure (error : StoreError)
  | affected (count : Nat)
  deriving DecidableEq, Repr

abbrev Script := List Reply

namespace Script

def next? : StateM Script (Option Reply) := fun
  | [] => (none, [])
  | reply :: rest => (some reply, rest)

def results : Option Reply → Except StoreError Results
  | some (.rows columns failure) =>
    .ok (columns.map Row.ofTexts ++ failure.toList.map Except.error)
  | some (.failure error) => .error error
  | some (.affected _) | none => .ok []

def count : Option Reply → Except StoreError Nat
  | some (.rows _ (some error)) | some (.failure error) => .error error
  | some (.rows columns none) => .ok columns.length
  | some (.affected count) => .ok count
  | none => .ok 0

/-- Every request takes one reply, so there is no more to tell than the queue is long. -/
def store : Store Script where
  query _ _ := ExceptT.mk (results <$> next?)
  execute _ _ := ExceptT.mk (count <$> next?)
  executeSql _ := ExceptT.mk (count <$> next?)
  rounds queue := queue.length + 1

end Script
end TwinGraph
