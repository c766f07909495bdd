import TwinGraph.Text.Basic

/-! The order of texts by their characters, a beginning of a text before the text itself. -/
namespace TwinGraph.Text

def before : Text → Text → Bool
  | _, [] => false
  | [], _ :: _ => true
  | a :: as, b :: bs => decide (a.toNat < b.toNat) || (a.toNat == b.toNat && before as bs)

theorem not_before_self (s : Text) : before s s = false := by
  induction s with
  | nil => rfl
  | cons c cs ih => simp [before, ih]

theorem before_trans {a b c : Text} (h : before a b = true) (k : before b c = true) :
    before a c = true := by
  induction a generalizing b c with
  | nil =>
    cases c with
    | nil => cases b <;> simp [before] at k
    | cons => rfl
  | cons x xs ih =>
    cases b with
    | nil => simp [before] at h
    | cons y ys =>
      cases c with
      | nil => simp [before] at k
      | cons z zs =>
        simp only [before, Bool.or_eq_true, decide_eq_true_eq, Bool.and_eq_true,
          beq_iff_eq] at h k ⊢
        rcases h with h | ⟨h, hs⟩ <;> rcases k with k | ⟨k, ks⟩
        · exact Or.inl (Nat.lt_trans h k)
        · exact Or.inl (k ▸ h)
        · exact Or.inl (h ▸ k)
        · exact Or.inr ⟨h.trans k, ih hs ks⟩

theorem before_total {a b : Text} (h : before a b = false) (hne : a ≠ b) : before b a = true := by
  induction a generalizing b with
  | nil =>
    cases b with
    | nil => exact absurd rfl hne
    | cons => simp [before] at h
  | cons x xs ih =>
    cases b with
    | nil => rfl
    | cons y ys =>
      simp only [before, Bool.or_eq_false_iff, decide_eq_false_iff_not, Bool.and_eq_false_imp,
        beq_iff_eq] at h
      simp only [before, Bool.or_eq_true, decide_eq_true_eq, Bool.and_eq_true, beq_iff_eq]
      rcases Nat.lt_trichotomy x.toNat y.toNat with k | k | k
      · exact absurd k h.1
      · refine Or.inr ⟨k.symm, ih (h.2 k) ?_⟩
        intro hs
        exact hne (by rw [hs, Char.toNat_inj.1 k])
      · exact Or.inl k

end TwinGraph.Text
