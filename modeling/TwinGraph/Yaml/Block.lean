import TwinGraph.Yaml.Scalar

/-! Scalars in block style: the lines behind the mark that are indented more than what holds them.
They are kept as they are, or folded into longer lines. -/
namespace TwinGraph.Yaml

inductive Chomping where
  | clip
  | strip
  | keep
  deriving DecidableEq, Repr

structure BlockHeader where
  chomping : Chomping
  increment : Option Nat
  deriving DecidableEq, Repr

def chompingOf (c : Char) : Option Chomping :=
  match c with
  | '+' => some .keep
  | '-' => some .strip
  | _ => none

def incrementOf (c : Char) : Option Nat := (hexValue c).filter fun n => n ≤ 9

def skipLineEnd (page : Page) : Option Page :=
  let rest := (spanOf isBlank page).2
  let rest := if next? rest = some '#' then (spanOf (!isBreak ·) rest).2 else rest
  match rest with
  | [] => some []
  | g :: rest => if isBreak g.char then some rest else none

/-- The rest of the line behind the mark of a scalar, in which the parts come in any order. -/
def scanHeader (page : Page) : Option (BlockHeader × Page) := do
  let first := next? page
  let second := next? page.tail
  let (header, rest) : BlockHeader × Page :=
    match first.bind chompingOf, first.bind incrementOf with
    | some chomping, _ =>
      match second.bind incrementOf with
      | some n => (⟨chomping, some n⟩, page.drop 2)
      | none => (⟨chomping, none⟩, page.drop 1)
    | none, some n =>
      match second.bind chompingOf with
      | some chomping => (⟨chomping, some n⟩, page.drop 2)
      | none => (⟨.clip, some n⟩, page.drop 1)
    | none, none => (⟨.clip, none⟩, page)
  if header.increment = some 0 then none else return (header, ← skipLineEnd rest)

/-- The indentation of the next line that is not empty, with the breaks in front of it. While it is
not known how far lines are indented, all spaces count as indentation, and the farthest column
comes with them. Tabs do not indent. -/
def scanIndentation (indent : Option Nat) (farthest : Nat) : Page → Option (Nat × Text × Page)
  | [] => some (farthest, [], [])
  | g :: page =>
    let within := indent.all (g.column < ·)
    let farthest' := max farthest g.column
    if within && g.char == ' ' then scanIndentation indent farthest page
    else if within && g.char == '\t' then none
    else if isBreak g.char then do
      let (farthest, breaks, rest) ← scanIndentation indent farthest' page
      return (farthest, g.char :: breaks, rest)
    else some (farthest', [], g :: page)

/-- The break between two lines, the first of which may be empty. Folding leaves it out, or puts a
space for it, where no line starts with a blank. -/
def joinLines (style : Bool) (lineBreak breaks : Text) (blank : Bool) : Text :=
  if style && lineBreak == ['\n'] && !blank then (if breaks.isEmpty then [' '] else []) ++ breaks
  else lineBreak ++ breaks

/-- The lines that start at the column. What stands in front of a line is its break, the breaks of
empty lines, and whether the line above starts with a blank. At the end comes what is left of them. -/
def scanLines (folded : Bool) (indent : Nat) :
    (bound : Nat) → (lineBreak breaks : Text) → (blank : Bool) → Page →
      Option (Text × Text × Text × Page)
  | 0, _, _, _, _ => none
  | bound + 1, lineBreak, breaks, blank, page =>
    match page with
    | [] => some ([], lineBreak, breaks, [])
    | g :: _ =>
      if g.column = indent then do
        let (line, rest) := spanOf (!isBreak ·) page
        let (_, empty, below) ← scanIndentation (some indent) 0 rest.tail
        let (text, last) ←
          scanLines folded indent bound (textOf (rest.take 1)) empty (isBlank g.char) below
        return (joinLines folded lineBreak breaks (blank || isBlank g.char) ++ textOf line ++ text,
          last)
      else some ([], lineBreak, breaks, page)

def scanBlock (folded : Bool) (column : Nat) (page : Page) : Option (Text × Page) := do
  let (header, rest) ← scanHeader page
  let (farthest, breaks, rest) ←
    scanIndentation (header.increment.map (column - 1 + ·)) 0 rest
  let indent := (header.increment.map (column - 1 + ·)).getD (max (max farthest column) 1)
  let (text, lineBreak, breaks, rest) ← scanLines folded indent (rest.length + 1) [] breaks false rest
  match header.chomping with
  | .strip => return (text, rest)
  | .clip => return (text ++ lineBreak, rest)
  | .keep => return (text ++ lineBreak ++ breaks, rest)

end TwinGraph.Yaml
