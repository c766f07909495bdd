import TwinGraph.Json.Printer

/-! String literals of Cypher statements. Statements travel between two `$$` marks, so no
literal holds a second dollar sign behind a first one: it is written as its code point. -/
namespace TwinGraph.Cypher

/-- The inside of a literal, with whether a dollar sign was just written. -/
def escape (afterDollar : Bool) : Text → Text
  | [] => []
  | c :: cs =>
    if c = '\\' then '\\' :: '\\' :: escape false cs
    else if c = '\'' then '\\' :: '\'' :: escape false cs
    else if c = '$' ∧ afterDollar = true then
      '\\' :: 'u' :: '0' :: '0' :: '2' :: '4' :: escape false cs
    else c :: escape (c == '$') cs

def quote (s : Text) : Text := '\'' :: escape false s ++ ['\'']

/-- A value for the store: its JSON text as a literal, cast to the store's own type. -/
def agtypeLiteral (value : Json) : Text := quote value.render ++ "::agtype".toList

/-- Whether the text holds the mark that would end a statement early. -/
def breaksOut (s : Text) : Bool := Text.contains ['$', '$'] s

end TwinGraph.Cypher
