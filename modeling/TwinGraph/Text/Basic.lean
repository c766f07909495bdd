/-! Texts as lists of characters, so that reading one is recursion on the list.
A string literal stands for its characters wherever a text is expected. -/
namespace TwinGraph

abbrev Text := List Char

instance : Coe String Text := ⟨String.toList⟩

def hexValue (c : Char) : Option Nat :=
  let n := c.toNat
  if 48 ≤ n ∧ n ≤ 57 then some (n - 48)
  else if 97 ≤ n ∧ n ≤ 102 then some (n - 87)
  else if 65 ≤ n ∧ n ≤ 70 then some (n - 55)
  else none

namespace Text

abbrev joined (parts : List Text) : Text := parts.flatten

abbrev separated (separator : Text) (parts : List Text) : Text := separator.intercalate parts

/-- Capital letters become small ones; only the letters A to Z have case here. -/
def foldCase (s : Text) : Text := s.map Char.toLower

def sameLetters (a b : Text) : Bool := a.foldCase == b.foldCase

abbrev ofNat (n : Nat) : Text := Nat.toDigits 10 n

abbrev natValue (digits : Text) : Nat := Nat.ofDigitChars 10 digits 0

/-- Cuts at every character that satisfies the test. There is always at least one piece. -/
def pieces (cut : Char → Bool) : Text → List Text
  | [] => [[]]
  | c :: cs =>
    if cut c then [] :: pieces cut cs
    else
      match pieces cut cs with
      | [] => [[c]]
      | piece :: rest => (c :: piece) :: rest

theorem pieces_ne_nil (cut : Char → Bool) (s : Text) : pieces cut s ≠ [] := by
  cases s with
  | nil => simp [pieces]
  | cons c cs =>
    unfold pieces
    split
    · simp
    · split <;> simp

def after? : Text → Text → Option Text
  | [], s => some s
  | _ :: _, [] => none
  | p :: ps, c :: cs => if p = c then after? ps cs else none

theorem after?_eq_some_iff {p s rest : Text} : after? p s = some rest ↔ s = p ++ rest := by
  induction p generalizing s with
  | nil => simp [after?, eq_comm]
  | cons c cs ih =>
    cases s with
    | nil => simp [after?]
    | cons d ds =>
      by_cases h : c = d
      · simp [after?, h, ih]
      · simp [after?, h, Ne.symm h]

def contains (pattern : Text) : Text → Bool
  | [] => pattern.isEmpty
  | c :: cs => pattern.isPrefixOf (c :: cs) || contains pattern cs

end Text
end TwinGraph
