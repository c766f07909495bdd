import TwinGraph.Yaml.Page

/-! Scalars that are plain or in quotes. Where one goes on over several lines, a single break
stands for a space, and of several breaks the first is left out. -/
namespace TwinGraph.Yaml

def foldBreaks : Text → Text
  | ['\n'] => [' ']
  | '\n' :: breaks => breaks
  | breaks => breaks

def breaksOf (gap : Page) : Text := (textOf gap).filter isBreak

def foldGap (gap : Page) : Text :=
  if (breaksOf gap).isEmpty then textOf gap else foldBreaks (breaksOf gap)

def isFlowMark (c : Char) : Bool := c == ',' || c == '[' || c == ']' || c == '{' || c == '}'

/-- The characters of a plain scalar up to a blank, a colon behind a key, or in flow style a mark.
There, a colon may not stand in front of a mark either. -/
def scanWord (flow : Bool) : Page → Option (Text × Page)
  | [] => some ([], [])
  | g :: page =>
    if isGap g.char then some ([], g :: page)
    else if flow && g.char == ':' && (next? page).any fun c => c == '?' || isFlowMark c then none
    else if (g.char == ':' && startsApart page) || (flow && isFlowMark g.char) then
      some ([], g :: page)
    else do
      let (text, rest) ← scanWord flow page
      return (g.char :: text, rest)

/-- A tab may not stand in front of the column where the lines of a block start. -/
def indentsWithTab (indent : Nat) (gap : Page) : Bool :=
  (gap.dropWhile fun g => !isBreak g.char).any fun g => g.char == '\t' && g.column < indent

def endsPlain (flow : Bool) (indent : Nat) (page : Page) : Bool :=
  match page with
  | [] => true
  | g :: _ => (!flow && g.column < indent) || g.char == '#' || startsWithDocumentMark page

def scanWords (flow : Bool) (indent : Nat) : (bound : Nat) → Page → Option (Text × Bool × Page)
  | 0, _ => none
  | bound + 1, page =>
    let (gap, rest) := spanOf isGap page
    if indentsWithTab indent gap then none
    else if gap.isEmpty || endsPlain flow indent rest then
      some ([], !(breaksOf gap).isEmpty, rest)
    else do
      let (word, page) ← scanWord flow rest
      if word.isEmpty then return ([], !(breaksOf gap).isEmpty, rest)
      let (words, broken, page) ← scanWords flow indent bound page
      return (foldGap gap ++ word ++ words, broken, page)

def scanPlain (flow : Bool) (indent : Nat) (page : Page) : Option (Text × Bool × Page) := do
  let (word, rest) ← scanWord flow page
  let (words, broken, rest) ← scanWords flow indent (rest.length + 1) rest
  return (word ++ words, broken, rest)

def scanCode (digits : Nat) (page : Page) : Option (Char × Page) := do
  let values ← (textOf (page.take digits)).mapM hexValue
  let code := values.foldl (fun code digit => code * 16 + digit) 0
  if values.length = digits ∧ code.isValidChar then return (Char.ofNat code, page.drop digits)
  else none

def namedEscape (c : Char) : Option Char :=
  match c with
  | '0' => some '\x00'
  | 'a' => some '\x07'
  | 'b' => some '\x08'
  | 't' | '\t' => some '\t'
  | 'n' => some '\n'
  | 'v' => some '\x0b'
  | 'f' => some '\x0c'
  | 'r' => some '\r'
  | 'e' => some '\x1b'
  | 'N' => some '\u0085'
  | '_' => some '\u00a0'
  | 'L' => some '\u2028'
  | 'P' => some '\u2029'
  | ' ' | '"' | '/' | '\\' => some c
  | _ => none

def codeLength (c : Char) : Option Nat :=
  match c with
  | 'x' => some 2
  | 'u' => some 4
  | 'U' => some 8
  | _ => none

/-- What stands behind a backslash. A break there is left out, like the blanks behind it. -/
def scanEscape : Page → Option (Text × Page)
  | [] => none
  | g :: page =>
    if isBreak g.char then
      let (gap, rest) := spanOf isGap page
      some (breaksOf gap, rest)
    else
      match namedEscape g.char, codeLength g.char with
      | some c, _ => some ([c], page)
      | none, some digits => do
        let (c, rest) ← scanCode digits page
        return ([c], rest)
      | none, none => none

/-- A scalar from behind its opening quote on, up to the closing one. A single quote within single
quotes is written twice, and a backslash within double quotes starts an escape. -/
def scanQuoted (quote : Char) : (bound : Nat) → Page → Option (Text × Page)
  | 0, _ => none
  | bound + 1, page =>
    if startsWithDocumentMark page then none
    else
      match page with
      | [] => none
      | g :: page =>
        if isGap g.char then do
          let (gap, rest) := spanOf isGap (g :: page)
          let (text, rest) ← scanQuoted quote bound rest
          return (foldGap gap ++ text, rest)
        else if g.char = quote then
          if quote = '\'' ∧ next? page = some '\'' then do
            let (text, rest) ← scanQuoted quote bound page.tail
            return ('\'' :: text, rest)
          else some ([], page)
        else if quote = '"' ∧ g.char = '\\' then do
          let (escaped, rest) ← scanEscape page
          let (text, rest) ← scanQuoted quote bound rest
          return (escaped ++ text, rest)
        else do
          let (text, rest) ← scanQuoted quote bound page
          return (g.char :: text, rest)

end TwinGraph.Yaml
