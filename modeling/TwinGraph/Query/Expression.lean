import TwinGraph.Query.Scan

/-! Projections and conditions as trees. An expression is cut into tokens, blanks included,
and the tokens are grouped by their parentheses; a word directly in front of a parenthesis
is the name of a call. Whatever nothing changes later comes back character for character. -/
namespace TwinGraph
open Query Scan

inductive Token where
  | word (text : Text)
  | literal (text : Text)
  | space (text : Text)
  | symbol (text : Text)
  | opening
  | closing
  deriving DecidableEq, Repr

namespace Token

def text : Token → Text
  | word s | literal s | space s | symbol s => s
  | opening => ['(']
  | closing => [')']

def closeQuote (quote : Char) : Text → Option (Text × Text)
  | [] => none
  | c :: cs =>
    if c = '\\' then
      match cs with
      | [] => none
      | d :: ds => (closeQuote quote ds).map fun (body, rest) => (c :: d :: body, rest)
    else if c = quote then some ([c], cs)
    else (closeQuote quote cs).map fun (body, rest) => (c :: body, rest)

def scanString : Scanner Text
  | [] => none
  | c :: cs =>
    if isQuote c then (closeQuote c cs).map fun (body, rest) => (c :: body, rest) else none

def scanFraction : Scanner Text := fun s => do
  let s ← Text.after? ['.'] s
  let (digits, s) ← scanDigits s
  some ('.' :: digits, s)

def scanSign : Scanner Char
  | '+' :: s => some ('+', s)
  | '-' :: s => some ('-', s)
  | _ => none

def scanExponent : Scanner Text
  | [] => none
  | c :: cs =>
    if c = 'e' ∨ c = 'E' then do
      let (sign, s) := optional scanSign cs
      let (digits, s) ← scanDigits s
      some (c :: sign.toList ++ digits, s)
    else none

def scanNumber : Scanner Text := fun s => do
  let (digits, s) ← scanDigits s
  let (fraction, s) := optional scanFraction s
  let (exponent, s) := optional scanExponent s
  some (digits ++ fraction.getD [] ++ exponent.getD [], s)

/-- A name behind any number of dollar signs. -/
def scanSegment : Scanner Text := fun s => do
  let (name, rest) ← scanName (s.dropWhile (· == '$'))
  some (s.takeWhile (· == '$') ++ name, rest)

def scanPath : Scanner Text := fun s => do
  let (first, s) ← scanSegment s
  let (more, s) := many (fun s => do
    let s ← Text.after? ['.'] s
    let (segment, s) ← scanSegment s
    some ('.' :: segment, s)) s
  some (first ++ more.flatten, s)

def scanSpace : Scanner Text
  | [] => none
  | c :: cs => if isGap c then some (c :: cs.takeWhile isGap, cs.dropWhile isGap) else none

def scanOperator : Scanner Token
  | '<' :: '=' :: s => some (.symbol ['<', '='], s)
  | '>' :: '=' :: s => some (.symbol ['>', '='], s)
  | '!' :: '=' :: s => some (.symbol ['!', '='], s)
  | '<' :: '>' :: s => some (.symbol ['<', '>'], s)
  | '(' :: s => some (.opening, s)
  | ')' :: s => some (.closing, s)
  | c :: s => some (.symbol [c], s)
  | [] => none

def scan : Scanner Token := fun s =>
  match scanString s with
  | some (t, rest) => some (.literal t, rest)
  | none =>
    match scanNumber s with
    | some (t, rest) => some (.literal t, rest)
    | none =>
      match scanPath s with
      | some (t, rest) => some (.word t, rest)
      | none =>
        match scanSpace s with
        | some (t, rest) => some (.space t, rest)
        | none => scanOperator s

/-- The tokens of a text. Any character can be an operator, so nothing is left over. -/
def ofText (s : Text) : List Token := (many scan s).1

end Token

inductive Item where
  | word (text : Text)
  | literal (text : Text)
  | space (text : Text)
  | symbol (text : Text)
  | call (name : Text) (args : List Item)
  | group (items : List Item)
  deriving Repr

namespace Item

/-- A parenthesis that is still open: the name in front of it, if it is a call, and the items
before that, the last one first. -/
structure Frame where
  name : Option Text
  before : List Item

def Frame.close (f : Frame) (inner : List Item) : Item :=
  match f.name with
  | some name => .call name inner
  | none => .group inner

/-- Opens a frame behind the items read so far; a word at their end becomes its name. -/
def Frame.after : List Item → Frame
  | .word w :: before => ⟨some w, before⟩
  | before => ⟨none, before⟩

/-- Groups the tokens, with the open frames and the items since the innermost one, the last
one first. Fails if the parentheses do not balance. -/
def assemble : List Frame → List Item → List Token → Option (List Item)
  | [], items, [] => some items.reverse
  | _ :: _, _, [] => none
  | frames, items, .opening :: rest => assemble (Frame.after items :: frames) [] rest
  | [], _, .closing :: _ => none
  | frame :: frames, items, .closing :: rest =>
    assemble frames (frame.close items.reverse :: frame.before) rest
  | frames, items, .word s :: rest => assemble frames (.word s :: items) rest
  | frames, items, .literal s :: rest => assemble frames (.literal s :: items) rest
  | frames, items, .space s :: rest => assemble frames (.space s :: items) rest
  | frames, items, .symbol s :: rest => assemble frames (.symbol s :: items) rest

def ofText? (s : Text) : Option (List Item) := assemble [] [] (Token.ofText s)

mutual

def render : Item → Text
  | word s | literal s | space s | symbol s => s
  | call name args => name ++ '(' :: renderAll args ++ [')']
  | group items => '(' :: renderAll items ++ [')']

def renderAll : List Item → Text
  | [] => []
  | item :: items => item.render ++ renderAll items

end

def isSpace : Item → Bool
  | space _ => true
  | _ => false

def isComma : Item → Bool
  | symbol s => s == [',']
  | _ => false

def trimSpaces (items : List Item) : List Item :=
  ((items.dropWhile isSpace).reverse.dropWhile isSpace).reverse

/-- Cuts at the commas; there is always at least one piece. -/
def commaPieces : List Item → List (List Item)
  | [] => [[]]
  | item :: items =>
    if item.isComma then [] :: commaPieces items
    else
      match commaPieces items with
      | [] => [[item]]
      | piece :: rest => (item :: piece) :: rest

/-- The arguments between top-level commas, without the spaces around them. -/
def arguments (args : List Item) : List (List Item) :=
  if args.all isSpace then [] else (commaPieces args).map trimSpaces

end Item
end TwinGraph
