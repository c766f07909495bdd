import TwinGraph.Proofs.Cypher.Mark
import TwinGraph.Proofs.Json.RoundTrip

/-! What a quoted text stands for. A literal has one quote at each end and no bare quote between
them, and its inside is read back by undoing three escapes. -/
namespace TwinGraph.Cypher

def codePoint (a b c d : Char) : Option Char := do
  let point := (((← hexValue a) * 16 + (← hexValue b)) * 16 + (← hexValue c)) * 16 + (← hexValue d)
  if point.isValidChar then some (Char.ofNat point) else none

/-- The inside of a literal without its escapes. A bare quote does not belong there, and a backslash
only in front of a backslash, a quote, or a `u` and four digits. -/
def unescaped : Text → Option Text
  | [] => some []
  | '\\' :: '\\' :: s => (unescaped s).map ('\\' :: ·)
  | '\\' :: '\'' :: s => (unescaped s).map ('\'' :: ·)
  | '\\' :: 'u' :: a :: b :: c :: d :: s => do
    let char ← codePoint a b c d
    (unescaped s).map (char :: ·)
  | c :: s => if c = '\\' ∨ c = '\'' then none else (unescaped s).map (c :: ·)

def bareQuotes (place : Nat) : Text → List Nat
  | [] => []
  | '\\' :: _ :: s => bareQuotes (place + 2) s
  | c :: s => if c = '\'' then place :: bareQuotes (place + 1) s else bareQuotes (place + 1) s

/-- A single literal that stands for the content: its only bare quotes are its first and its last
character, a statement can hold it, and without its escapes the inside is the content. -/
structure IsLiteralOf (s content : Text) : Prop where
  quotes : bareQuotes 0 s = [0, s.length - 1]
  contained : breaksOut s = false
  inside : ∃ inner, s = '\'' :: inner ++ ['\''] ∧ unescaped inner = some content

theorem IsLiteralOf.unique {s content content' : Text} (h : IsLiteralOf s content)
    (h' : IsLiteralOf s content') : content = content' := by
  obtain ⟨inner, rfl, hinner⟩ := h.inside
  obtain ⟨inner', heq, hinner'⟩ := h'.inside
  rw [List.cons_append, List.cons_append, List.cons.injEq, List.append_cancel_right_eq] at heq
  rw [heq.2, hinner'] at hinner
  exact (Option.some.inj hinner).symm

theorem unescaped_plain {c : Char} (hslash : c ≠ '\\') (hquote : c ≠ '\'') (s : Text) :
    unescaped (c :: s) = (unescaped s).map (c :: ·) := by
  rw [unescaped, if_neg (by simp [hslash, hquote])]
  all_goals simp [hslash]

theorem bareQuotes_plain {c : Char} (hslash : c ≠ '\\') (hquote : c ≠ '\'') (place : Nat)
    (s : Text) : bareQuotes place (c :: s) = bareQuotes (place + 1) s := by
  rw [bareQuotes, if_neg hquote]
  simp [hslash]

theorem unescaped_escape (afterDollar : Bool) (s : Text) :
    unescaped (escape afterDollar s) = some s := by
  induction s generalizing afterDollar with
  | nil => rfl
  | cons c s ih =>
    rw [escape]
    split
    · next hslash => rw [unescaped, ih, hslash, Option.map_some]
    · next hslash =>
      split
      · next hquote => rw [unescaped, ih, hquote, Option.map_some]
      · next hquote =>
        split
        · next hdollar =>
          have hcode : codePoint '0' '0' '2' '4' = some '$' := by decide
          rw [unescaped, hcode, ih, hdollar.1]
          rfl
        · rw [unescaped_plain hslash hquote, ih, Option.map_some]

theorem bareQuotes_escape (afterDollar : Bool) (place : Nat) (s t : Text) :
    bareQuotes place (escape afterDollar s ++ t) =
      bareQuotes (place + (escape afterDollar s).length) t := by
  induction s generalizing afterDollar place with
  | nil => rfl
  | cons c s ih =>
    rw [escape]
    split
    · rw [List.cons_append, List.cons_append, bareQuotes, ih, Nat.add_assoc, Nat.add_comm 2]
      rfl
    · next hslash =>
      split
      · rw [List.cons_append, List.cons_append, bareQuotes, ih, Nat.add_assoc, Nat.add_comm 2]
        rfl
      · next hquote =>
        split
        · have hcode : bareQuotes place
              (('\\' :: 'u' :: '0' :: '0' :: '2' :: '4' :: escape false s) ++ t) =
                bareQuotes (place + 6) (escape false s ++ t) := rfl
          rw [hcode, ih, Nat.add_assoc, Nat.add_comm 6]
          rfl
        · rw [List.cons_append, bareQuotes_plain hslash hquote, ih, Nat.add_assoc, Nat.add_comm 1]
          rfl

theorem bareQuotes_quote (s : Text) : bareQuotes 0 (quote s) = [0, (quote s).length - 1] := by
  have hopen : bareQuotes 0 (quote s) = 0 :: bareQuotes 1 (escape false s ++ ['\'']) := rfl
  have hlength : (quote s).length - 1 = 1 + (escape false s).length := by
    rw [quote, List.length_append, List.length_cons]
    exact Nat.add_comm _ _
  rw [hopen, bareQuotes_escape, hlength]
  rfl

theorem isLiteralOf_quote (s : Text) : IsLiteralOf (quote s) s where
  quotes := bareQuotes_quote s
  contained := by
    rw [breaksOut, contains_mark]
    exact doubled_escape false s
  inside := ⟨escape false s, rfl, unescaped_escape false s⟩

/-- Quoting a text gives a single literal of that text, so that no two texts are quoted alike. The
literal of a value stands for its compact JSON text, and its cast brings no mark with it; what is
read from that text is the value again, whatever its names and strings are made of. -/
theorem quoting_is_faithful :
    (∀ s, IsLiteralOf (quote s) s) ∧ Function.Injective quote ∧
    ∀ v : Json, ∃ literal, agtypeLiteral v = literal ++ "::agtype".toList ∧
      IsLiteralOf literal v.render ∧ breaksOut (agtypeLiteral v) = false ∧
      ∀ depth, v.WellFormed → v.nesting ≤ depth → Json.read depth v.render = some v := by
  refine ⟨isLiteralOf_quote, fun s s' h => ?_, fun v => ?_⟩
  · have hquote := isLiteralOf_quote s
    rw [h] at hquote
    exact hquote.unique (isLiteralOf_quote s')
  · refine ⟨quote v.render, rfl, isLiteralOf_quote _, ?_, fun _ hwell => Json.read_render hwell⟩
    have hends : endsWithDollar false (quote v.render) = false :=
      endsWithDollar_append false ('\'' :: escape false v.render) '\''
    have hquote := (isLiteralOf_quote v.render).contained
    rw [breaksOut, contains_mark] at hquote
    rw [breaksOut, contains_mark, agtypeLiteral, doubled_append, hquote, hends]
    rfl

def hostileValue : Json := .object [("it's $$\\", .string "\n$$$")]

theorem hostile_value_is_quoted :
    agtypeLiteral hostileValue =
      "'\x7b\"it\\'s $\\u0024\\\\\\\\\":\"\\\\n$\\u0024$\"\x7d'::agtype".toList ∧
    breaksOut (agtypeLiteral hostileValue) = false ∧ hostileValue.WellFormed ∧
    hostileValue.nesting ≤ 1 ∧ Json.read 1 hostileValue.render = some hostileValue := by
  obtain ⟨-, -, hvalue⟩ := quoting_is_faithful
  obtain ⟨literal, -, -, hcontained, hread⟩ := hvalue hostileValue
  have hwell : hostileValue.WellFormed := by decide +kernel
  have hnesting : hostileValue.nesting ≤ 1 := by decide +kernel
  exact ⟨by decide +kernel, hcontained, hwell, hnesting, hread 1 hwell hnesting⟩

end TwinGraph.Cypher
