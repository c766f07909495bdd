import TwinGraph.Yaml.Page
import TwinGraph.Yaml.Token

/-! What the scanner knows while it goes through a page: the tokens so far, the collections that
are open, and the places where a key may have begun, which only the colon behind it shows. -/
namespace TwinGraph.Yaml

/-- A place where a key may begin. A key has to end on its line, and not too far from its start. -/
structure Candidate where
  /-- The number of tokens in front of the place. -/
  before : Nat
  line : Nat
  column : Nat
  offset : Nat
  /-- In a block mapping nothing but a key starts at the column of the keys. -/
  required : Bool
  deriving DecidableEq, Repr

/-- The bytes between the start of a key and its colon are this many at most. -/
def keyReach : Nat := 1024

structure Layout where
  /-- The last token comes first. -/
  tokens : List Token
  /-- The columns of the open collections in block style, the innermost first. -/
  columns : List Nat
  candidate : Option Candidate
  /-- The candidates around each open collection in flow style, the innermost first. -/
  outer : List (Option Candidate)
  keyAllowed : Bool
  deriving DecidableEq, Repr

namespace Layout

def start : Layout := ⟨[], [], none, [], true⟩

def inFlow (l : Layout) : Bool := !l.outer.isEmpty

def indent (l : Layout) : Nat := (l.columns.head?.map (· + 1)).getD 0

def push (token : Token) (l : Layout) : Layout := { l with tokens := token :: l.tokens }

def allowKey (allowed : Bool) (l : Layout) : Layout := { l with keyAllowed := allowed }

def insert (before : Nat) (token : Token) (l : Layout) : Layout :=
  { l with tokens := l.tokens.insertIdx (l.tokens.length - before) token }

/-- Ends the blocks that start at the column or behind it. In flow style blocks do not end. -/
def closeFrom (column : Nat) (l : Layout) : Layout :=
  if l.inFlow then l
  else
    let (closed, columns) := l.columns.span (column ≤ ·)
    { l with tokens := closed.map (fun _ => Token.blockEnd) ++ l.tokens, columns }

def openAt (column before : Nat) (token : Token) (l : Layout) : Layout :=
  if l.inFlow || column < l.indent then l
  else { l.insert before token with columns := column :: l.columns }

def dropKey (l : Layout) : Option Layout :=
  if l.candidate.any (·.required) then none else some { l with candidate := none }

def saveKey (g : Glyph) (l : Layout) : Option Layout :=
  if l.keyAllowed then do
    let l ← l.dropKey
    let required := !l.inFlow && l.columns.head? == some g.column
    return { l with candidate := some ⟨l.tokens.length, g.line, g.column, g.offset, required⟩ }
  else some l

/-- Forgets a candidate that is out of reach. -/
def refreshed (g : Glyph) : Option Candidate → Option (Option Candidate)
  | none => some none
  | some k =>
    if k.line < g.line ∨ k.offset + keyReach < g.offset then
      if k.required then none else some none
    else some (some k)

def refresh (g : Glyph) (l : Layout) : Option Layout := do
  return { l with
    candidate := ← refreshed g l.candidate
    outer := ← l.outer.mapM (refreshed g) }

def openFlow (g : Glyph) (token : Token) (l : Layout) : Option Layout := do
  let l ← l.saveKey g
  return { l.push token with candidate := none, outer := l.candidate :: l.outer, keyAllowed := true }

def closeFlow (token : Token) (l : Layout) : Option Layout :=
  match l.outer with
  | [] => none
  | candidate :: outer => do
    let l ← l.dropKey
    return { l.push token with candidate, outer, keyAllowed := false }

/-- A comma, behind which the next item may begin with a key. -/
def nextItem (l : Layout) : Option Layout :=
  if l.inFlow then do return ((← l.dropKey).push .comma).allowKey true else none

def entry (g : Glyph) (l : Layout) : Option Layout :=
  if l.inFlow then none
  else if l.keyAllowed then do
    let l := l.openAt g.column l.tokens.length .blockList
    return ((← l.dropKey).push .entry).allowKey true
  else none

def key (g : Glyph) (l : Layout) : Option Layout :=
  if l.inFlow || l.keyAllowed then do
    let l := l.openAt g.column l.tokens.length .blockMapping
    return ((← l.dropKey).push .key).allowKey !l.inFlow
  else none

/-- The colon in front of a value. What begins at the candidate turns out to be the key. -/
def value (g : Glyph) (l : Layout) : Option Layout :=
  match l.candidate with
  | some k =>
    let l := (l.insert k.before .key).openAt k.column k.before .blockMapping
    some { l.push .value with candidate := none, keyAllowed := false }
  | none =>
    if l.inFlow || l.keyAllowed then
      let l := l.openAt g.column l.tokens.length .blockMapping
      some ((l.push .value).allowKey !l.inFlow)
    else none

def closeAll (l : Layout) : Option Layout := do
  return (← (l.closeFrom 0).dropKey).allowKey false

end Layout
end TwinGraph.Yaml
