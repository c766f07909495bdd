import TwinGraph.Proofs.Cypher.Piece

/-! The mark that ends a statement early. A literal never holds it and never meets it at its ends,
so a statement of literals and harmless parts does not break out. -/
namespace TwinGraph.Cypher

/-- Two dollar signs stand side by side, the one in front of the text counted. -/
def doubled (afterDollar : Bool) : Text → Bool
  | [] => false
  | c :: cs => afterDollar && c == '$' || doubled (c == '$') cs

theorem contains_mark (s : Text) : Text.contains ['$', '$'] s = doubled false s := by
  induction s with
  | nil => rfl
  | cons c cs ih =>
    unfold Text.contains doubled
    rw [ih]
    cases cs with
    | nil =>
      have hne : (['$', '$'] : Text).isPrefixOf [c] = false := by
        cases hc : '$' == c <;> simp [List.isPrefixOf, hc]
      rw [hne]
      rfl
    | cons d ds =>
      have hpair : (['$', '$'] : Text).isPrefixOf (c :: d :: ds) = (c == '$' && d == '$') := by
        rw [List.isPrefixOf, List.isPrefixOf, List.isPrefixOf, Bool.and_true, Bool.beq_comm,
          Bool.beq_comm (a := d)]
      rw [hpair, doubled, doubled, Bool.false_and, Bool.false_or, Bool.false_and, Bool.false_or]

def endsWithDollar (afterDollar : Bool) : Text → Bool
  | [] => afterDollar
  | c :: cs => endsWithDollar (c == '$') cs

theorem endsWithDollar_append (afterDollar : Bool) (s : Text) (c : Char) :
    endsWithDollar afterDollar (s ++ [c]) = (c == '$') := by
  induction s generalizing afterDollar with
  | nil => rfl
  | cons d s ih => exact ih (d == '$')

theorem doubled_append (afterDollar : Bool) (s t : Text) :
    doubled afterDollar (s ++ t) =
      (doubled afterDollar s || doubled (endsWithDollar afterDollar s) t) := by
  induction s generalizing afterDollar with
  | nil => simp [doubled, endsWithDollar]
  | cons c s ih => simp [doubled, ih, endsWithDollar, Bool.or_assoc]

theorem doubled_escape (afterDollar : Bool) (s : Text) :
    doubled afterDollar (escape afterDollar s ++ ['\'']) = false := by
  induction s generalizing afterDollar with
  | nil => cases afterDollar <;> rfl
  | cons c s ih =>
    unfold escape
    split
    · simpa [doubled] using ih false
    · split
      · simpa [doubled] using ih false
      · split
        · simpa [doubled] using ih false
        · next h =>
          rw [not_and, Bool.not_eq_true] at h
          rw [List.cons_append, doubled, ih]
          by_cases hc : c = '$'
          · simp [h hc]
          · simp [hc]

theorem doubled_identifier {s : Text} (h : isIdentifier s = true) (afterDollar : Bool) :
    doubled afterDollar s = false ∧ endsWithDollar afterDollar s = false := by
  have hall : ∀ (s : Text) (b : Bool), s.all isNameChar = true → s ≠ [] →
      doubled b s = false ∧ endsWithDollar b s = false := by
    intro s
    induction s with
    | nil => simp
    | cons c s ih =>
      intro b hs _
      rw [List.all_cons, Bool.and_eq_true] at hs
      have hc : (c == '$') = false := by
        rw [beq_eq_false_iff_ne]
        rintro rfl
        have := hs.1
        revert this
        decide
      rw [doubled, endsWithDollar, hc, Bool.and_false, Bool.false_or]
      by_cases hnil : s = []
      · subst hnil
        exact ⟨rfl, rfl⟩
      · exact ih false hs.2 hnil
  cases s with
  | nil => cases h
  | cons c s =>
    refine hall (c :: s) afterDollar ?_ (by simp)
    simp only [isIdentifier, Bool.and_eq_true] at h
    rw [List.all_cons, h.2, Bool.and_true]
    have hstart := h.1
    simp only [isNameStart, Bool.or_eq_true] at hstart
    simp only [isNameChar, Char.isAlphanum, Bool.or_eq_true]
    exact hstart.imp_left Or.inl

namespace Piece

/-- The piece holds no mark, and none comes about where it meets another piece. -/
def markFree : Piece → Bool
  | fixed text => !doubled true text.toList && !endsWithDollar true text.toList
  | literal _ => true
  | property _ => false
  | label key => isIdentifier key

theorem markFree_text {p : Piece} (h : p.markFree = true) (afterDollar : Bool) :
    doubled afterDollar p.text = false ∧ endsWithDollar afterDollar p.text = false := by
  cases p with
  | fixed text =>
    simp only [markFree, Bool.and_eq_true, Bool.not_eq_true'] at h
    rw [Piece.text]
    cases ht : text.toList with
    | nil => simp [ht, endsWithDollar] at h
    | cons c t =>
      rw [ht] at h
      refine ⟨?_, h.2⟩
      have hdoubled := h.1
      rw [doubled, Bool.true_and, Bool.or_eq_false_iff] at hdoubled
      rw [doubled, hdoubled.2, hdoubled.1, Bool.and_false, Bool.or_false]
  | literal content =>
    refine ⟨?_, ?_⟩
    · have hescape := doubled_escape false content
      simpa [Piece.text, quote, doubled] using hescape
    · exact endsWithDollar_append _ ('\'' :: escape false content) '\''
  | property key => cases h
  | label key =>
    obtain ⟨hdoubled, hends⟩ := doubled_identifier h false
    refine ⟨?_, ?_⟩
    · simpa [Piece.text, doubled] using hdoubled
    · exact hends

theorem breaksOut_flatMap {ps : List Piece} (h : ∀ p ∈ ps, p.markFree = true) :
    breaksOut (ps.flatMap text) = false := by
  have hall : ∀ b, doubled b (ps.flatMap text) = false := by
    induction ps with
    | nil => exact fun _ => rfl
    | cons p ps ih =>
      rw [List.forall_mem_cons] at h
      intro b
      obtain ⟨hdoubled, hends⟩ := markFree_text h.1 b
      rw [List.flatMap_cons, doubled_append, hdoubled, hends, Bool.false_or, ih h.2]
  exact (contains_mark _).trans (hall false)

end Piece
end TwinGraph.Cypher
