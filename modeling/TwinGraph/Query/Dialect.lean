import TwinGraph.Query.Expression

/-! What changes in an expression on its way to Cypher: property names get the alias of the
collection, calls with an operator of their own become that operator, the model test gets
the name it has in the graph, and property steps that start with a dollar sign go into
brackets. Everything else stays as it is. -/
namespace TwinGraph
open Query

namespace Item

def operatorWords : List Text := ["AND", "OR", "NOT", "IN", "IS", "NULL", "TRUE", "FALSE"]

mutual

def qualify (var : Text) : Item → Item
  | word w =>
    if operatorWords.any (Text.sameLetters w) then word w else word (var ++ '.' :: w)
  | literal s => literal s
  | space s => space s
  | symbol s => symbol s
  | call name args => call name (qualifyAll var args)
  | group items => group (qualifyAll var items)

def qualifyAll (var : Text) : List Item → List Item
  | [] => []
  | item :: items => item.qualify var :: qualifyAll var items

end

def betweenOperator (name : Text) : Option Text :=
  if name.sameLetters "STARTSWITH" then some "STARTS WITH"
  else if name.sameLetters "ENDSWITH" then some "ENDS WITH"
  else if name.sameLetters "CONTAINS" then some "CONTAINS"
  else none

def nullTest (name : Text) : Option Text :=
  if name.sameLetters "IS_NULL" then some "IS NULL"
  else if name.sameLetters "IS_DEFINED" then some "IS NOT NULL"
  else none

/-- A call as Cypher writes it; one whose arguments do not fit stays a call. -/
def nativeCall (name : Text) (args : List Item) : List Item :=
  match betweenOperator name with
  | some operator =>
    match arguments args with
    | [left, right] => left ++ symbol (' ' :: operator ++ [' ']) :: right
    | _ => [call name args]
  | none =>
    match nullTest name with
    | some test =>
      if (trimSpaces args).isEmpty then [call name args]
      else trimSpaces args ++ [symbol (' ' :: test)]
    | none => [call name args]

mutual

/-- Changes the innermost calls first, so an outer call sees the new arguments. -/
def native : Item → List Item
  | word s => [word s]
  | literal s => [literal s]
  | space s => [space s]
  | symbol s => [symbol s]
  | call name args => nativeCall name (nativeAll args)
  | group items => [group (nativeAll items)]

def nativeAll : List Item → List Item
  | [] => []
  | item :: items => item.native ++ nativeAll items

end

mutual

/-- Names the model test as a function of the graph, and hands it the alias if there is one. -/
def bindModelTest (graph : Text) (var : Option Text) : Item → Item
  | word s => word s
  | literal s => literal s
  | space s => space s
  | symbol s => symbol s
  | call name args =>
    let args := bindModelTestAll graph var args
    if name.sameLetters "IS_OF_MODEL" then
      let subject := match var with
        | some var => [word var, symbol [',']]
        | none => []
      call (Text.joined [graph, ".is_of_model"]) (subject ++ args)
    else call name args
  | group items => group (bindModelTestAll graph var items)

def bindModelTestAll (graph : Text) (var : Option Text) : List Item → List Item
  | [] => []
  | item :: items => item.bindModelTest graph var :: bindModelTestAll graph var items

end

/-- One step of a property path behind the first: in brackets if it starts with a dollar
sign, else behind a point. -/
def pathStep : Text → Text
  | '$' :: s => Text.joined ["['$", s, "']"]
  | s => '.' :: s

def bracketPath (path : Text) : Text :=
  match path.pieces (· == '.') with
  | [] => []
  | first :: steps => first ++ (steps.map pathStep).flatten

mutual

def bracket : Item → Item
  | word w => word (bracketPath w)
  | literal s => literal s
  | space s => space s
  | symbol s => symbol s
  | call name args => call name (bracketAll args)
  | group items => group (bracketAll items)

def bracketAll : List Item → List Item
  | [] => []
  | item :: items => item.bracket :: bracketAll items

end

mutual

def isCount : Item → Bool
  | call name args => name.sameLetters "COUNT" && (trimSpaces args).isEmpty
  | group items => anyCount items
  | _ => false

def anyCount : List Item → Bool
  | [] => false
  | item :: items => item.isCount || anyCount items

end

end Item
end TwinGraph
