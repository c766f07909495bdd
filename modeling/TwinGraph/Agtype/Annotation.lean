import TwinGraph.Text.Blank

/-! Values in the store's own notation are JSON with annotations such as `::vertex` or
`::numeric` behind a value. Taking the annotations out leaves JSON: an entity annotation
behind a bracketed group wraps the group into an object with a marker field, and every
other annotation is dropped. Strings are left as they are. -/
namespace TwinGraph.Agtype

/-- The name of the field that marks a wrapped entity. It starts with a control character, so
it does not come up by itself. -/
def marker : Text := "\x01agtype"

def vertexWord : Text := "vertex"

def edgeWord : Text := "edge"

def pathWord : Text := "path"

inductive Place where
  | plain
  | quoted
  | escaped
  | colon
  | tag (letters : Text)
  deriving DecidableEq, Repr

/-- The JSON written so far, all pieces with their last character first: the groups that are
still open, the text of the innermost one, and the group closed last with the blanks
behind it, as long as nothing else follows. -/
structure Unwrapping where
  place : Place
  outer : List Text
  current : Text
  closed : Option Text
  deriving DecidableEq, Repr

namespace Unwrapping

def start : Unwrapping := ⟨.plain, [], [], none⟩

def settle (u : Unwrapping) : Unwrapping :=
  match u.closed with
  | some group => { u with current := group ++ u.current, closed := none }
  | none => u

def write (c : Char) (u : Unwrapping) : Unwrapping := { u with current := c :: u.current }

def openGroup (c : Char) (u : Unwrapping) : Unwrapping :=
  let u := u.settle
  { u with outer := u.current :: u.outer, current := [c] }

/-- Closes the innermost group, whichever bracket opened it; without one the bracket is just
written. -/
def closeGroup (c : Char) (u : Unwrapping) : Unwrapping :=
  let u := u.settle.write c
  match u.outer with
  | [] => u
  | text :: outer => { u with outer := outer, current := text, closed := some u.current }

def wrapping (name : Text) : Text :=
  Text.joined ["\x7b\"\\u0001agtype\":\"", name, "\",\"value\":"]

/-- An entity annotation wraps the closed group; any other is forgotten. -/
def annotate (name : Text) (u : Unwrapping) : Unwrapping :=
  match u.closed with
  | none => u
  | some group =>
    if name = vertexWord ∨ name = edgeWord ∨ name = pathWord then
      { u with
        current := '}' :: group ++ (wrapping name).reverse ++ u.current
        closed := none }
    else u.settle

def plainStep (u : Unwrapping) (c : Char) : Unwrapping :=
  if c = '"' then { u.settle.write c with place := .quoted }
  else if c = '{' ∨ c = '[' then u.openGroup c
  else if c = '}' ∨ c = ']' then u.closeGroup c
  else if c = ':' then { u with place := .colon }
  else if isBlank c then
    match u.closed with
    | some group => { u with closed := some (c :: group) }
    | none => u.write c
  else u.settle.write c

def leave (u : Unwrapping) : Unwrapping :=
  match u.place with
  | .colon => { u.settle.write ':' with place := .plain }
  | .tag letters => { u.annotate letters.reverse with place := .plain }
  | _ => u

def step (u : Unwrapping) (c : Char) : Unwrapping :=
  match u.place with
  | .plain => u.plainStep c
  | .quoted =>
    if c = '\\' then { u.write c with place := .escaped }
    else if c = '"' then { u.write c with place := .plain }
    else u.write c
  | .escaped => { u.write c with place := .quoted }
  | .colon => if c = ':' then { u with place := .tag [] } else u.leave.plainStep c
  | .tag letters =>
    if c.isAlpha then { u with place := .tag (c :: letters) } else u.leave.plainStep c

/-- All that was written, groups that were never closed included. -/
def finish (u : Unwrapping) : Text :=
  let u := u.leave.settle
  (u.current ++ u.outer.flatten).reverse

end Unwrapping

def plainText (s : Text) : Text := (s.foldl Unwrapping.step Unwrapping.start).finish

end TwinGraph.Agtype
