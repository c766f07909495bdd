import TwinGraph.Text.Basic

/-! A YAML text laid out in lines and columns. Characters that control anything but the layout
have no place in it, and a break between two lines is one character, however it is written. -/
namespace TwinGraph.Yaml

/-- A character and its place. Lines and columns count from zero. -/
structure Glyph where
  char : Char
  line : Nat
  column : Nat
  /-- The bytes in front of it on its line. -/
  offset : Nat
  deriving DecidableEq, Repr

abbrev Page := List Glyph

def isBlank (c : Char) : Bool := c == ' ' || c == '\t'

/-- The breaks of lines: the common one and the separators of lines and paragraphs. -/
def isBreak (c : Char) : Bool := c == '\n' || c == '\u2028' || c == '\u2029'

def isGap (c : Char) : Bool := isBlank c || isBreak c

def isWritable (c : Char) : Bool :=
  let n := c.toNat
  c == '\t' || c == '\n' || c == '\r' || (32 ≤ n && n ≤ 126) || n == 0x85 ||
    (0xa0 ≤ n && n ≤ 0xfffd) || 0x10000 ≤ n

/-- One break where a line ends with a carriage return, a line feed, both, or a next line. -/
def uniteBreaks : Text → Text
  | '\r' :: '\n' :: s => '\n' :: uniteBreaks s
  | '\r' :: s => '\n' :: uniteBreaks s
  | '\u0085' :: s => '\n' :: uniteBreaks s
  | c :: s => c :: uniteBreaks s
  | [] => []

def place (line column offset : Nat) : Text → Page
  | [] => []
  | c :: s =>
    ⟨c, line, column, offset⟩ ::
      if isBreak c then place (line + 1) 0 0 s else place line (column + 1) (offset + c.utf8Size) s

def Page.ofText? (s : Text) : Option Page :=
  if s.all isWritable then some (place 0 0 0 (uniteBreaks s)) else none

def textOf (page : Page) : Text := page.map Glyph.char

def spanOf (keep : Char → Bool) (page : Page) : Page × Page :=
  (page.takeWhile fun g => keep g.char, page.dropWhile fun g => keep g.char)

def next? (page : Page) : Option Char := page.head?.map Glyph.char

def startsApart (page : Page) : Bool := (next? page).all isGap

def startsWithThree (c : Char) (page : Page) : Bool :=
  page.head?.any (·.column == 0) && textOf (page.take 3) == [c, c, c] && startsApart (page.drop 3)

/-- The marks around documents, which no text on several lines may run over. -/
def startsWithDocumentMark (page : Page) : Bool :=
  startsWithThree '-' page || startsWithThree '.' page

end TwinGraph.Yaml
