import TwinGraph.Json.Basic

/-! Reading a written value. The grammar is the strict one: no comma after the last item, no
leading zeros, no raw control characters in strings, and surrogate escapes only in pairs.
A number out of range is refused, and so are brackets nested deeper than the caller allows. -/
namespace TwinGraph.Json

def isSpace (c : Char) : Bool := c == ' ' || c == '\t' || c == '\n' || c == '\r'

def skipSpace (s : Text) : Text := s.dropWhile isSpace

def unitValue (a b c d : Char) : Option Nat := do
  return (((← hexValue a) * 16 + (← hexValue b)) * 16 + (← hexValue c)) * 16 + (← hexValue d)

/-- What a backslash and the character mean, other than a code unit. -/
def unescape (c : Char) : Option Char :=
  if c = '"' ∨ c = '\\' ∨ c = '/' then some c
  else if c = 'b' then some '\x08'
  else if c = 'f' then some '\x0c'
  else if c = 'n' then some '\n'
  else if c = 'r' then some '\r'
  else if c = 't' then some '\t'
  else none

def readString : Text → Option (Text × Text)
  | [] => none
  | c :: s =>
    if c = '"' then some ([], s)
    else if c = '\\' then
      match s with
      | [] => none
      | e :: s =>
        if e = 'u' then
          match s with
          | a :: b :: c :: d :: s =>
            match unitValue a b c d with
            | none => none
            | some unit =>
              if 0xd800 ≤ unit ∧ unit < 0xdc00 then
                match s with
                | m :: v :: a :: b :: c :: d :: s =>
                  if m = '\\' ∧ v = 'u' then
                    match unitValue a b c d with
                    | none => none
                    | some low =>
                      if 0xdc00 ≤ low ∧ low < 0xe000 then
                        (readString s).map fun (text, rest) =>
                          (Char.ofNat (0x10000 + (unit - 0xd800) * 0x400 + (low - 0xdc00)) :: text,
                            rest)
                      else none
                  else none
                | _ => none
              else if 0xdc00 ≤ unit ∧ unit < 0xe000 then none
              else (readString s).map fun (text, rest) => (Char.ofNat unit :: text, rest)
          | _ => none
        else
          match unescape e with
          | none => none
          | some c => (readString s).map fun (text, rest) => (c :: text, rest)
    else if c.toNat < 0x20 then none
    else (readString s).map fun (text, rest) => (c :: text, rest)

def readDigits (s : Text) : Option (Text × Text) :=
  let digits := s.takeWhile Char.isDigit
  if digits.isEmpty then none else some (digits, s.dropWhile Char.isDigit)

/-- A zero alone, or digits that do not start with one. -/
def readInteger : Text → Option (Text × Text)
  | '0' :: s => some (['0'], s)
  | s => readDigits s

def readFraction : Text → Option (Option Text × Text)
  | '.' :: s => (readDigits s).map fun (digits, rest) => (some digits, rest)
  | s => some (none, s)

def readSigned (s : Text) : Option (Int × Text) :=
  match s with
  | '-' :: s => (readDigits s).map fun (digits, rest) => (-(Text.natValue digits : Int), rest)
  | '+' :: s => (readDigits s).map fun (digits, rest) => ((Text.natValue digits : Int), rest)
  | s => (readDigits s).map fun (digits, rest) => ((Text.natValue digits : Int), rest)

def readExponent : Text → Option (Option Int × Text)
  | c :: s =>
    if c = 'e' ∨ c = 'E' then (readSigned s).map fun (power, rest) => (some power, rest)
    else some (none, c :: s)
  | [] => some (none, [])

def readNumber (s : Text) : Option (Number × Text) := do
  let (negative, s) := match s with
    | '-' :: s => (true, s)
    | s => (false, s)
  let (digits, s) ← readInteger s
  let (fraction, s) ← readFraction s
  let (exponent, s) ← readExponent s
  if fraction.isNone && exponent.isNone then
    return (← Number.ofNumeral negative (Text.natValue digits), s)
  let places := fraction.getD []
  return (← Number.ofDecimal negative (Text.natValue (digits ++ places))
    (exponent.getD 0 - places.length), s)

mutual

/-- A value at the front, with brackets nested at most as deep as given. Every call uses up
one unit of the budget, which twice the length of the text covers. -/
def readValue : (budget depth : Nat) → Text → Option (Json × Text)
  | 0, _, _ => none
  | budget + 1, depth, s =>
    match skipSpace s with
    | [] => none
    | c :: s =>
      if c = '"' then (readString s).map fun (text, rest) => (string text, rest)
      else if c = '[' then
        if depth = 0 then none
        else
          match skipSpace s with
          | ']' :: rest => some (array [], rest)
          | s => (readItems budget (depth - 1) s).map fun (items, rest) => (array items, rest)
      else if c = '{' then
        if depth = 0 then none
        else
          match skipSpace s with
          | '}' :: rest => some (object [], rest)
          | s =>
            (readFields budget (depth - 1) s).map fun (fields, rest) =>
              (object (Fields.ofList fields), rest)
      else
        match Text.after? "null" (c :: s) with
        | some rest => some (null, rest)
        | none =>
          match Text.after? "true" (c :: s) with
          | some rest => some (bool true, rest)
          | none =>
            match Text.after? "false" (c :: s) with
            | some rest => some (bool false, rest)
            | none => (readNumber (c :: s)).map fun (n, rest) => (number n, rest)

def readItems : (budget depth : Nat) → Text → Option (List Json × Text)
  | 0, _, _ => none
  | budget + 1, depth, s =>
    match readValue budget depth s with
    | none => none
    | some (item, s) =>
      match skipSpace s with
      | ',' :: s => (readItems budget depth s).map fun (items, rest) => (item :: items, rest)
      | ']' :: s => some ([item], s)
      | _ => none

def readFields : (budget depth : Nat) → Text → Option (List (Text × Json) × Text)
  | 0, _, _ => none
  | budget + 1, depth, s =>
    match skipSpace s with
    | '"' :: s =>
      match readString s with
      | none => none
      | some (name, s) =>
        match skipSpace s with
        | ':' :: s =>
          match readValue budget depth s with
          | none => none
          | some (value, s) =>
            match skipSpace s with
            | ',' :: s =>
              (readFields budget depth s).map fun (fields, rest) => ((name, value) :: fields, rest)
            | '}' :: s => some ([(name, value)], s)
            | _ => none
        | _ => none
    | _ => none

end

def read (depth : Nat) (s : Text) : Option Json :=
  match readValue (2 * s.length + 2) depth s with
  | some (value, rest) => if (skipSpace rest).isEmpty then some value else none
  | none => none

end TwinGraph.Json
