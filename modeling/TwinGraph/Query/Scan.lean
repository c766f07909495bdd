import TwinGraph.Text.Blank
import TwinGraph.Text.Name

/-! The words of the query language. A scanner reads something at the front of a text and
hands back what follows it. Gaps are the four characters that may separate words inside a
clause; letters compare without case in keywords. -/
namespace TwinGraph

abbrev Scanner (α : Type) := Text → Option (α × Text)

namespace Scan

def optional (p : Scanner α) (s : Text) : Option α × Text :=
  match p s with
  | some (a, rest) => (some a, rest)
  | none => (none, s)

def upTo (p : Scanner α) : Nat → Text → List α × Text
  | 0, s => ([], s)
  | bound + 1, s =>
    match p s with
    | none => ([], s)
    | some (a, rest) =>
      let (more, rest) := upTo p bound rest
      (a :: more, rest)

/-- Reads as often as it can; the scanner must use up at least one character each time. -/
def many (p : Scanner α) (s : Text) : List α × Text := upTo p s.length s

/-- At least one reading, then further ones each behind the separator. A separator that
nothing follows is left in the text. -/
def listOf (separator : Text → Option Text) (p : Scanner α) : Scanner (List α) := fun s => do
  let (first, s) ← p s
  let (more, s) := many (fun s => separator s >>= p) s
  some (first :: more, s)

end Scan

namespace Query
open Scan

def isGap (c : Char) : Bool := c == ' ' || c == '\t' || c == '\r' || c == '\n'

def skipGaps (s : Text) : Text := s.dropWhile isGap

def afterGap : Text → Option Text
  | [] => none
  | c :: cs => if isGap c then some (skipGaps cs) else none

def afterSpaced (c : Char) (s : Text) : Option Text := (Text.after? [c] (skipGaps s)).map skipGaps

def scanName : Scanner Text
  | [] => none
  | c :: cs =>
    if isNameStart c then some (c :: cs.takeWhile isNameChar, cs.dropWhile isNameChar) else none

def scanDigits : Scanner Text
  | [] => none
  | c :: cs =>
    if c.isDigit then some (c :: cs.takeWhile Char.isDigit, cs.dropWhile Char.isDigit) else none

def afterLetters : Text → Text → Option Text
  | [], s => some s
  | _ :: _, [] => none
  | k :: ks, c :: cs => if k.toLower = c.toLower then afterLetters ks cs else none

/-- The text after a keyword, which must not run on into a longer name. -/
def afterKeyword (keyword s : Text) : Option Text :=
  match afterLetters keyword s with
  | none => none
  | some rest => if rest.head?.any isNameChar then none else some rest

/-- Words that end the place of an alias and so are never aliases. -/
def clauseWords : List Text :=
  ["SELECT", "FROM", "WHERE", "JOIN", "RELATED", "MATCH", "AND", "OR", "NOT", "TOP"]

def scanAlias : Scanner Text := fun s =>
  match scanName s with
  | none => none
  | some (name, rest) =>
    if clauseWords.any (Text.sameLetters name) then none else some (name, rest)

def isQuote (c : Char) : Bool := c == '\'' || c == '"'

def endsWord (c : Char) : Bool :=
  c == ' ' || c == '\t' || c == '\n' || c == '\x0c' || c == '\r' || c == ')'

/-- Searches on with the open quote, if any, and whether a keyword may start here. Inside
quotes a backslash takes the next character with it. -/
def seekKeyword (keyword : Text) (quote : Option Char) (fresh : Bool) : Text → Option (Text × Text)
  | [] => none
  | c :: cs =>
    match quote with
    | some q =>
      if c = '\\' then
        match cs with
        | [] => none
        | d :: ds =>
          (seekKeyword keyword (some q) false ds).map fun (before, rest) => (c :: d :: before, rest)
      else
        (seekKeyword keyword (if c = q then none else some q) false cs).map
          fun (before, rest) => (c :: before, rest)
    | none =>
      if isQuote c then
        (seekKeyword keyword (some c) false cs).map fun (before, rest) => (c :: before, rest)
      else if fresh && (afterKeyword keyword (c :: cs)).isSome then
        some ([], c :: cs)
      else
        (seekKeyword keyword none (endsWord c) cs).map fun (before, rest) => (c :: before, rest)

/-- The text cut in front of the first standalone occurrence of the keyword outside string
literals. -/
def findKeyword (keyword s : Text) : Option (Text × Text) := seekKeyword keyword none true s

end Query
end TwinGraph
