import TwinGraph.Yaml.Node

/-! The document of a YAML text. A text holds one at most. -/
namespace TwinGraph.Yaml

def standardTags : Text := "tag:yaml.org,2002:"

def integerTag : Text := standardTags ++ "int".toList

def standardHandles : Handles := [("!", "!"), ("!!", standardTags)]

/-- The directives in front of a document: one version at most, and a handle once at most. -/
def readDirectives (version : Bool) (handles : Handles) : List Token → Option (Handles × List Token)
  | .version major minor :: tokens =>
    if !version ∧ major = 1 ∧ (minor = 1 ∨ minor = 2) then readDirectives true handles tokens
    else none
  | .tagHandle handle replacement :: tokens =>
    if (handles.lookup handle).isSome then none
    else readDirectives version ((handle, replacement) :: handles) tokens
  | tokens => some (handles, tokens)

/-- The node of a document and the tokens behind it. Without directives its mark may be missing. -/
def readDocument (tokens : List Token) : Option (Node × List Token) := do
  let (handles, rest) ← readDirectives false [] tokens
  let handles := handles ++ standardHandles
  let bound := 4 * tokens.length + 4
  match rest with
  | .documentStart :: rest =>
    match rest with
    | [] | .documentStart :: _ | .documentEnd :: _ => return (Node.empty, rest)
    | _ => do
      let (node, rest) ← readNode handles true false bound ⟨rest, []⟩
      return (node, rest.tokens)
  | _ =>
    if rest.length < tokens.length then none
    let (node, rest) ← readNode handles true false bound ⟨rest, []⟩
    return (node, rest.tokens)

def document? (s : Text) : Option (Option Node) := do
  match ← tokens? s with
  | [] => return none
  | tokens =>
    let (node, rest) ← readDocument tokens
    if rest.all (· == .documentEnd) then return some node else none

end TwinGraph.Yaml
