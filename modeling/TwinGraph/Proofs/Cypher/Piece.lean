import TwinGraph.Proofs.Cypher.Lexing

/-! Texts put together from fixed parts, string literals, properties and labels. When each part
starts with a delimiter, the tokens of the whole are those of the parts, one after another, and
what a literal or a property stands for is exactly the text it was made of. -/
namespace TwinGraph.Cypher

open Place

theorem scan_escape (s read : Text) (afterDollar : Bool) :
    scan (.literal '\'' read) (escape afterDollar s ++ ['\'']) =
      (.plain, [.literal (read.reverse ++ s)]) := by
  induction s generalizing read afterDollar with
  | nil => simp [escape, scan, step]
  | cons c s ih =>
    unfold escape
    split
    · next h =>
      subst h
      simp [scan, step, unescape, ih]
    · split
      · next h =>
        subst h
        simp [scan, step, unescape, ih]
      · split
        · next h =>
          obtain ⟨rfl, -⟩ := h
          have hcode : codeChar ['4', '2', '0', '0'] = some '$' := by decide
          simp [scan, step, hcode, ih]
        · next hslash hquote _ => simp [scan, step, hslash, hquote, ih]

theorem scan_quote (s : Text) : scan .plain (quote s) = (.plain, [.literal s]) := by
  have h := scan_escape s [] false
  rw [List.reverse_nil, List.nil_append] at h
  unfold quote
  rw [List.cons_append, scan]
  simp only [step, begin, true_or, ↓reduceIte, h, List.nil_append]

theorem scan_word {s : Text} (h : s.all isWordChar = true) (behindDot : Bool) (read : Text) :
    scan (.word behindDot read) s = (.word behindDot (s.reverse ++ read), []) := by
  induction s generalizing read with
  | nil => rfl
  | cons c s ih =>
    rw [List.all_cons, Bool.and_eq_true] at h
    simp [scan, step, h.1, ih h.2]

theorem isWordChar_of_isNameChar {c : Char} (h : isNameChar c = true) : isWordChar c = true := by
  simp [isWordChar, h]

theorem all_isWordChar {c : Char} {s : Text} (h : isIdentifier (c :: s) = true) :
    isWordChar c = true ∧ s.all isWordChar = true := by
  simp only [isIdentifier, Bool.and_eq_true, List.all_eq_true] at h
  refine ⟨isWordChar_of_isNameChar ?_, List.all_eq_true.mpr fun d hd =>
    isWordChar_of_isNameChar (h.2 d hd)⟩
  have hstart := h.1
  simp only [isNameStart, Bool.or_eq_true] at hstart
  simp only [isNameChar, Char.isAlphanum, Bool.or_eq_true]
  exact hstart.imp_left Or.inl

theorem scan_quoteKey (s read : Text) (behindDot : Bool) :
    scan (.name behindDot read) (quoteKey s ++ ['\x60']) =
      (.tick behindDot (s.reverse ++ read), []) := by
  induction s generalizing read with
  | nil => rfl
  | cons c s ih =>
    unfold quoteKey
    split
    · next h =>
      subst h
      simp [scan, step, ih]
    · next h => simp [scan, step, h, ih]

theorem lex_propertyKey (key : Text) :
    lex ('.' :: propertyKey key) = some [.symbol '.', .property key] := by
  unfold lex propertyKey
  cases hid : isIdentifier key with
  | false =>
    have h := scan_quoteKey key [] true
    simp [scan, step, begin, h, finish, nameToken]
  | true =>
    cases key with
    | nil => cases hid
    | cons c s =>
      obtain ⟨hc, hs⟩ := all_isWordChar hid
      have htick : c ≠ '\x60' := by
        rintro rfl
        revert hc
        decide
      have h := scan_word hs true [c]
      simp [scan, step, begin, hc, htick, h, finish, wordToken]

theorem begin_word {c : Char} (hc : isWordChar c = true) : begin c = (.word false [c], []) := by
  have hne : ∀ d, isWordChar d = false → c ≠ d := by
    rintro d hd rfl
    rw [hc] at hd
    cases hd
  simp [begin, hc, hne '\'' (by decide), hne '"' (by decide), hne '\x60' (by decide),
    hne '.' (by decide), hne '/' (by decide)]

theorem lex_identifier {name : Text} (h : isIdentifier name = true) :
    lex name = some [.word name] := by
  cases name with
  | nil => cases h
  | cons c s =>
    obtain ⟨hc, hs⟩ := all_isWordChar h
    have hscan := scan_word hs false [c]
    simp [lex, scan, step, begin_word hc, hscan, finish, wordToken]

theorem lex_label {name : Text} (h : isIdentifier name = true) :
    lex (':' :: name) = some [.symbol ':', .word name] := by
  cases name with
  | nil => cases h
  | cons c s =>
    obtain ⟨hc, hs⟩ := all_isWordChar h
    have hcolon : begin ':' = (.plain, [.symbol ':']) := by decide
    have hscan := scan_word hs false [c]
    simp [lex, scan, step, hcolon, begin_word hc, hscan, finish, wordToken]

inductive Piece where
  | fixed (text : String)
  | literal (content : Text)
  | property (key : Text)
  | label (key : Text)
  deriving DecidableEq, Repr

namespace Piece

def text : Piece → Text
  | fixed text => text.toList
  | literal content => quote content
  | property key => '.' :: propertyKey key
  | label key => ':' :: key

def tokens : Piece → List Token
  | fixed text => (lex text.toList).getD []
  | literal content => [.literal content]
  | property key => [.symbol '.', .property key]
  | label key => [.symbol ':', .word key]

/-- The piece can stand behind any other. -/
def sound : Piece → Bool
  | fixed text => text.toList.head?.any delimits && (lex text.toList).isSome
  | label key => isIdentifier key
  | literal _ | property _ => true

theorem lex_text {p : Piece} (h : p.sound = true) : lex p.text = some p.tokens := by
  cases p with
  | fixed text =>
    simp only [sound, Bool.and_eq_true] at h
    obtain ⟨tokens, ht⟩ := Option.isSome_iff_exists.mp h.2
    rw [Piece.text, Piece.tokens, ht, Option.getD_some]
  | literal content => exact lex_of_plain (scan_quote content)
  | property key => exact lex_propertyKey key
  | label key => exact lex_label h

theorem text_delimits {p : Piece} (h : p.sound = true) :
    ∃ c t, p.text = c :: t ∧ delimits c = true := by
  cases p with
  | fixed text =>
    simp only [sound, Bool.and_eq_true] at h
    cases ht : text.toList with
    | nil => simp [ht] at h
    | cons c t => exact ⟨c, t, ht, by simpa [ht] using h.1⟩
  | literal content => exact ⟨'\'', _, rfl, by decide⟩
  | property key => exact ⟨'.', _, rfl, by decide⟩
  | label key => exact ⟨':', _, rfl, by decide⟩

theorem lex_flatMap {first : Text} {ts : List Token} {ps : List Piece} (hfirst : lex first = some ts)
    (h : ∀ p ∈ ps, p.sound = true) :
    lex (first ++ ps.flatMap text) = some (ts ++ ps.flatMap tokens) := by
  induction ps generalizing first ts with
  | nil => simpa using hfirst
  | cons p ps ih =>
    rw [List.forall_mem_cons] at h
    obtain ⟨c, t, ht, hc⟩ := text_delimits h.1
    have hp : lex (c :: t) = some p.tokens := ht ▸ lex_text h.1
    have hjoin : lex (first ++ c :: t) = some (ts ++ p.tokens) := lex_append hfirst hc hp
    have hrest := ih hjoin h.2
    rw [List.flatMap_cons, List.flatMap_cons, ht]
    simpa only [List.append_assoc, List.cons_append] using hrest

end Piece
end TwinGraph.Cypher
