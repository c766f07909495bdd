import Mathlib.Data.List.Basic
import TwinGraph.Text.Basic

/-! Texts cut into pieces. Cutting at a character undoes joining with it, if no part holds it. -/
namespace TwinGraph

theorem pieces_plain {cut : Char → Bool} {s : Text} (hs : ∀ c ∈ s, cut c = false) :
    s.pieces cut = [s] := by
  induction s with
  | nil => rfl
  | cons c s ih =>
    rw [List.forall_mem_cons] at hs
    rw [Text.pieces, if_neg (by simp [hs.1]), ih hs.2]

/-- The last piece begins behind the last cut. -/
theorem pieces_append {cut : Char → Bool} {c : Char} (hc : cut c = true) (s t : Text) :
    (s ++ c :: t).pieces cut = s.pieces cut ++ t.pieces cut := by
  induction s with
  | nil =>
    have hcut : Text.pieces cut (c :: t) = [] :: t.pieces cut := by rw [Text.pieces, if_pos hc]
    exact hcut
  | cons d s ih =>
    rw [List.cons_append, Text.pieces, Text.pieces, ih]
    split
    · rfl
    · obtain ⟨piece, rest, hs⟩ := List.exists_cons_of_ne_nil (Text.pieces_ne_nil cut s)
      rw [hs]
      rfl

theorem intercalate_pieces (c : Char) (s : Text) :
    [c].intercalate (s.pieces (· == c)) = s := by
  induction s with
  | nil => rfl
  | cons d s ih =>
    obtain ⟨piece, rest, hs⟩ := List.exists_cons_of_ne_nil (Text.pieces_ne_nil (· == c) s)
    rw [Text.pieces]
    split
    · next hd =>
      rw [hs, List.intercalate_cons_cons, ← hs, ih, beq_iff_eq.mp hd]
      rfl
    · rw [hs] at ih ⊢
      dsimp only
      cases rest with
      | nil =>
        rw [List.intercalate_singleton] at ih ⊢
        rw [ih]
      | cons next rest =>
        rw [List.intercalate_cons_cons] at ih ⊢
        rw [← ih]
        rfl

theorem mem_of_mem_pieces {cut : Char → Bool} {c : Char} {piece s : Text}
    (hpiece : piece ∈ s.pieces cut) (h : c ∈ piece) : c ∈ s := by
  induction s generalizing piece with
  | nil =>
    rw [Text.pieces, List.mem_singleton] at hpiece
    rw [hpiece] at h
    exact h
  | cons d s ih =>
    rw [Text.pieces] at hpiece
    split at hpiece
    · rcases List.mem_cons.mp hpiece with rfl | hpiece
      · cases h
      · exact List.mem_cons_of_mem _ (ih hpiece h)
    · split at hpiece
      · rw [List.mem_singleton] at hpiece
        rw [hpiece, List.mem_singleton] at h
        rw [h]
        exact List.mem_cons_self
      · next next rest heq =>
        rw [heq] at ih
        rcases List.mem_cons.mp hpiece with rfl | hpiece
        · rcases List.mem_cons.mp h with rfl | h
          · exact List.mem_cons_self
          · exact List.mem_cons_of_mem _ (ih List.mem_cons_self h)
        · exact List.mem_cons_of_mem _ (ih (List.mem_cons_of_mem _ hpiece) h)

theorem not_cut_of_mem_pieces {cut : Char → Bool} {s piece : Text} (h : piece ∈ s.pieces cut) :
    ∀ c ∈ piece, cut c = false := by
  induction s generalizing piece with
  | nil =>
    intro c hc
    rw [List.mem_singleton.mp h] at hc
    cases hc
  | cons d s ih =>
    intro c hc
    rw [Text.pieces] at h
    split at h
    · rcases List.mem_cons.mp h with rfl | h
      · cases hc
      · exact ih h c hc
    · next hd =>
      obtain ⟨first, rest, hs⟩ := List.exists_cons_of_ne_nil (Text.pieces_ne_nil cut s)
      rw [hs] at h ih
      rcases List.mem_cons.mp h with rfl | h
      · rcases List.mem_cons.mp hc with rfl | hc
        · exact Bool.eq_false_iff.mpr hd
        · exact ih List.mem_cons_self c hc
      · exact ih (List.mem_cons_of_mem _ h) c hc

theorem pieces_separated {c : Char} {parts : List Text} (hne : parts ≠ [])
    (h : ∀ part ∈ parts, c ∉ part) : (Text.separated [c] parts).pieces (· == c) = parts := by
  induction parts with
  | nil => exact absurd rfl hne
  | cons part parts ih =>
    rw [List.forall_mem_cons] at h
    have hpart : ∀ d ∈ part, (d == c) = false := by
      intro d hd
      apply beq_eq_false_iff_ne.mpr
      rintro rfl
      exact h.1 hd
    cases parts with
    | nil =>
      rw [Text.separated, List.intercalate_singleton]
      exact pieces_plain hpart
    | cons next parts =>
      have happend := @pieces_append (· == c) c (beq_self_eq_true c)
      rw [Text.separated, List.intercalate_cons_cons, List.append_assoc, List.singleton_append,
        happend, pieces_plain hpart, ih (List.cons_ne_nil _ _) h.2]
      rfl

theorem Text.length_pieces (cut : Char → Bool) (s : Text) :
    (pieces cut s).length = s.countP cut + 1 := by
  induction s with
  | nil => rfl
  | cons c s ih =>
    unfold pieces
    split
    · next h => rw [List.length_cons, ih, List.countP_cons_of_pos h]
    · next h =>
      rw [List.countP_cons_of_neg h, ← ih]
      split
      · next hnil => exact absurd hnil (pieces_ne_nil cut s)
      · next hcons => rw [hcons, List.length_cons, List.length_cons]

end TwinGraph
