import TwinGraph.Json.Basic

/-! The written form of a value: no spaces, and in strings an escape only for the quote, the
backslash and the characters below the space. -/
namespace TwinGraph.Json

def hexDigit (n : Nat) : Char := if n < 10 then Char.ofNat (48 + n) else Char.ofNat (87 + n)

def escapeChar (c : Char) : Text :=
  if c = '"' then ['\\', '"']
  else if c = '\\' then ['\\', '\\']
  else if c = '\x08' then ['\\', 'b']
  else if c = '\x0c' then ['\\', 'f']
  else if c = '\n' then ['\\', 'n']
  else if c = '\r' then ['\\', 'r']
  else if c = '\t' then ['\\', 't']
  else if c.toNat < 0x20 then
    ['\\', 'u', '0', '0', hexDigit (c.toNat / 16), hexDigit (c.toNat % 16)]
  else [c]

def renderString (s : Text) : Text := '"' :: s.flatMap escapeChar ++ ['"']

mutual

def render : Json → Text
  | null => "null"
  | bool true => "true"
  | bool false => "false"
  | number n => n.render
  | string s => renderString s
  | array [] => ['[', ']']
  | array (item :: items) => '[' :: render item ++ renderItems items
  | object [] => ['{', '}']
  | object ((name, value) :: fields) =>
    '{' :: renderString name ++ ':' :: render value ++ renderFields fields

/-- The items behind the first, each behind a comma, and the closing bracket. -/
def renderItems : List Json → Text
  | [] => [']']
  | item :: items => ',' :: render item ++ renderItems items

def renderFields : List (Text × Json) → Text
  | [] => ['}']
  | (name, value) :: fields =>
    ',' :: renderString name ++ ':' :: render value ++ renderFields fields

end

end TwinGraph.Json
