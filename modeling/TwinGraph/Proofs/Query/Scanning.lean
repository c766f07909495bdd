import TwinGraph.Query.Expression

/-! What a scanner takes from the front of a text, and how a repeated scanner goes on. -/
namespace TwinGraph

open Query

/-- Only the characters of the text are tried, not all the characters there are. -/
instance Text.decidableForallMem {p : Char → Prop} [DecidablePred p] (s : Text) :
    Decidable (∀ c ∈ s, p c) :=
  List.decidableBAll p s

instance decidableForallHead {p : Char → Prop} [DecidablePred p] (c : Option Char) :
    Decidable (∀ d ∈ c, p d) :=
  Option.decidableForallMem c

/-- The second text is left of the first one when characters that are no quotes are taken away. -/
def Skips (s rest : Text) : Prop := ∃ front, s = front ++ rest ∧ ∀ c ∈ front, isQuote c = false

namespace Skips

theorem refl (s : Text) : Skips s s := ⟨[], rfl, fun _ h => absurd h List.not_mem_nil⟩

theorem trans {s t u : Text} (h : Skips s t) (h' : Skips t u) : Skips s u := by
  obtain ⟨front, rfl, hfront⟩ := h
  obtain ⟨front', rfl, hfront'⟩ := h'
  refine ⟨front ++ front', (List.append_assoc ..).symm, fun c hc => ?_⟩
  rcases List.mem_append.mp hc with hc | hc
  · exact hfront c hc
  · exact hfront' c hc

theorem cons {c : Char} (hc : isQuote c = false) (s : Text) : Skips (c :: s) s :=
  ⟨[c], rfl, fun d hd => by rw [List.mem_singleton.mp hd]; exact hc⟩

theorem dropWhile {test : Char → Bool} (h : ∀ c, test c = true → isQuote c = false) (s : Text) :
    Skips s (s.dropWhile test) :=
  ⟨s.takeWhile test, List.takeWhile_append_dropWhile.symm, fun c hc =>
    h c (List.all_eq_true.mp List.all_takeWhile c hc)⟩

end Skips

/-- What the scanner hands back is not empty, has no quotes and stood at the front of the text. -/
def ReadsText (p : Scanner Text) : Prop :=
  ∀ {s t rest : Text}, p s = some (t, rest) →
    s = t ++ rest ∧ t ≠ [] ∧ ∀ c ∈ t, isQuote c = false

theorem ReadsText.skips {p : Scanner Text} (hp : ReadsText p) {s t rest : Text}
    (h : p s = some (t, rest)) : Skips s rest :=
  have ⟨heq, _, hquote⟩ := hp h
  ⟨t, heq, hquote⟩

namespace Scan

variable {α : Type} {p : Scanner α} {s rest : Text} {a : α}

def Shortens (p : Scanner α) : Prop := ∀ {s a rest}, p s = some (a, rest) → rest.length < s.length

theorem ReadsText.shortens {p : Scanner Text} (hp : ReadsText p) : Shortens p := by
  intro s t rest h
  obtain ⟨rfl, hne, -⟩ := hp h
  have hpos := List.length_pos_iff.mpr hne
  rw [List.length_append]
  omega

theorem upTo_of_none (h : p s = none) (bound : Nat) : upTo p bound s = ([], s) := by
  cases bound with
  | zero => rfl
  | succ bound =>
    rw [upTo]
    split
    · rfl
    · next h' =>
      rw [h] at h'
      cases h'

/-- A bound that is not less than the length of the text is never met. -/
theorem upTo_eq_many (hp : Shortens p) (bound : Nat) (h : s.length ≤ bound) :
    upTo p bound s = many p s := by
  have hall : ∀ (bound bound' : Nat) (s : Text), s.length ≤ bound → s.length ≤ bound' →
      upTo p bound s = upTo p bound' s := by
    intro bound
    induction bound with
    | zero =>
      intro bound' s hs _
      obtain rfl : s = [] := List.length_eq_zero_iff.mp (by omega)
      have hnone : p [] = none := by
        cases hnil : p [] with
        | none => rfl
        | some found => exact absurd (hp hnil) (Nat.not_lt_zero _)
      rw [upTo_of_none hnone, upTo_of_none hnone]
    | succ bound ih =>
      intro bound' s hs hs'
      cases hread : p s with
      | none => rw [upTo_of_none hread, upTo_of_none hread]
      | some found =>
        obtain ⟨a, rest⟩ := found
        have hlt := hp hread
        obtain ⟨bound', rfl⟩ : ∃ b, bound' = b + 1 := ⟨bound' - 1, by omega⟩
        simp only [upTo, hread]
        rw [ih bound' rest (by omega) (by omega)]
  exact hall bound s.length s h (Nat.le_refl _)

theorem many_of_some (hp : Shortens p) (h : p s = some (a, rest)) :
    many p s = (a :: (many p rest).1, (many p rest).2) := by
  have hlt := hp h
  obtain ⟨bound, hbound⟩ : ∃ b, s.length = b + 1 := ⟨s.length - 1, by omega⟩
  unfold many
  rw [hbound]
  simp only [upTo, h]
  rw [upTo_eq_many hp bound (by omega)]
  rfl

theorem many_stops (hp : Shortens p) (s : Text) : p (many p s).2 = none := by
  induction hlength : s.length using Nat.strongRecOn generalizing s with
  | _ n ih =>
    cases hread : p s with
    | none => rwa [many, upTo_of_none hread]
    | some found =>
      have hlt := hp hread
      rw [many_of_some hp hread]
      exact ih _ (by omega) found.2 rfl

theorem skips_optional (hp : ∀ {s a rest}, p s = some (a, rest) → Skips s rest) (s : Text) :
    Skips s (optional p s).2 := by
  unfold optional
  split
  · next h => exact hp h
  · exact .refl s

theorem optional_readsText {p : Scanner Text} (hp : ReadsText p) (s : Text) :
    s = (optional p s).1.getD [] ++ (optional p s).2 ∧
      ∀ c ∈ (optional p s).1.getD [], isQuote c = false := by
  unfold optional
  split
  · next h =>
    obtain ⟨heq, -, hquote⟩ := hp h
    exact ⟨heq, hquote⟩
  · exact ⟨rfl, fun _ h => absurd h List.not_mem_nil⟩

theorem skips_upTo (hp : ∀ {s a rest}, p s = some (a, rest) → Skips s rest) (bound : Nat)
    (s : Text) : Skips s (upTo p bound s).2 := by
  induction bound generalizing s with
  | zero => exact .refl s
  | succ bound ih =>
    rw [upTo]
    split
    · exact .refl s
    · next h => exact (hp h).trans (ih _)

theorem skips_many (hp : ∀ {s a rest}, p s = some (a, rest) → Skips s rest) (s : Text) :
    Skips s (many p s).2 := skips_upTo hp _ s

theorem skips_listOf {separator : Text → Option Text}
    (hseparator : ∀ {s rest}, separator s = some rest → Skips s rest)
    (hp : ∀ {s a rest}, p s = some (a, rest) → Skips s rest) {found : List α}
    (h : listOf separator p s = some (found, rest)) : Skips s rest := by
  simp only [listOf, Option.bind_eq_bind, Option.bind_eq_some_iff] at h
  obtain ⟨⟨first, s'⟩, hfirst, h⟩ := h
  simp only [Option.some.injEq, Prod.mk.injEq] at h
  obtain ⟨-, rfl⟩ := h
  refine (hp hfirst).trans (skips_many ?_ s')
  intro s a rest h
  obtain ⟨s', hs', h⟩ := Option.bind_eq_some_iff.mp h
  exact (hseparator hs').trans (hp h)

theorem upTo_readsText {p : Scanner Text} (hp : ReadsText p) (bound : Nat) (s : Text) :
    s = (upTo p bound s).1.flatten ++ (upTo p bound s).2 ∧
      ∀ c ∈ (upTo p bound s).1.flatten, isQuote c = false := by
  induction bound generalizing s with
  | zero => exact ⟨rfl, fun _ h => absurd h List.not_mem_nil⟩
  | succ bound ih =>
    rw [upTo]
    split
    · exact ⟨rfl, fun _ h => absurd h List.not_mem_nil⟩
    · next t rest h =>
      obtain ⟨heq, -, hquote⟩ := hp h
      obtain ⟨hmore, hmoreQuote⟩ := ih rest
      dsimp only
      rw [List.flatten_cons, List.append_assoc, ← hmore]
      refine ⟨heq, fun c hc => ?_⟩
      rcases List.mem_append.mp hc with hc | hc
      · exact hquote c hc
      · exact hmoreQuote c hc

end Scan

namespace Query

theorem not_quote_of_isNameChar {c : Char} (h : isNameChar c = true) : isQuote c = false := by
  refine Bool.eq_false_iff.mpr fun hquote => ?_
  rw [isQuote, Bool.or_eq_true, beq_iff_eq, beq_iff_eq] at hquote
  rcases hquote with rfl | rfl <;> exact absurd h (by decide)

theorem toNat_of_isNameChar {c : Char} (h : isNameChar c = true) :
    (48 ≤ c.toNat ∧ c.toNat ≤ 57) ∨ (65 ≤ c.toNat ∧ c.toNat ≤ 90) ∨ c.toNat = 95 ∨
      (97 ≤ c.toNat ∧ c.toNat ≤ 122) := by
  have hletter : c.isAlpha = (decide (c.val ≥ 65 ∧ c.val ≤ 90) ||
      (decide (c.val ≥ 97) && decide (c.val ≤ 122))) := rfl
  simp only [isNameChar, Char.isAlphanum, hletter, Char.isDigit, Bool.or_eq_true,
    Bool.and_eq_true, decide_eq_true_eq, UInt32.le_iff_toNat_le, ge_iff_le, beq_iff_eq] at h
  rcases h with ((h | h) | h) | rfl
  · exact Or.inr (Or.inl h)
  · exact Or.inr (Or.inr (Or.inr h))
  · exact Or.inl h
  · exact Or.inr (Or.inr (Or.inl rfl))

theorem not_isBlank_of_isNameChar {c : Char} (h : isNameChar c = true) : isBlank c = false := by
  have hrange := toNat_of_isNameChar h
  simp only [isBlank, Bool.or_eq_false_iff, Bool.and_eq_false_iff, decide_eq_false_iff_not,
    beq_eq_false_iff_ne]
  omega

theorem isNameChar_of_isNameStart {c : Char} (h : isNameStart c = true) : isNameChar c = true := by
  unfold isNameStart at h
  unfold isNameChar Char.isAlphanum
  rw [Bool.or_eq_true] at h ⊢
  exact h.imp_left fun halpha => by rw [halpha]; rfl

theorem not_quote_of_isDigit {c : Char} (h : c.isDigit = true) : isQuote c = false :=
  not_quote_of_isNameChar (by simp [isNameChar, Char.isAlphanum, h])

theorem not_quote_of_isBlank {c : Char} (h : isBlank c = true) : isQuote c = false := by
  refine Bool.eq_false_iff.mpr fun hquote => ?_
  rw [isQuote, Bool.or_eq_true, beq_iff_eq, beq_iff_eq] at hquote
  rcases hquote with rfl | rfl <;> exact absurd h (by decide)

theorem isBlank_of_isGap {c : Char} (h : isGap c = true) : isBlank c = true := by
  simp only [isGap, Bool.or_eq_true, beq_iff_eq] at h
  rcases h with ((rfl | rfl) | rfl) | rfl <;> decide

theorem not_quote_of_isGap {c : Char} (h : isGap c = true) : isQuote c = false :=
  not_quote_of_isBlank (isBlank_of_isGap h)

theorem scanName_readsText : ReadsText scanName := by
  intro s t rest h
  cases s with
  | nil => cases h
  | cons c cs =>
    rw [scanName] at h
    split at h
    · next hstart =>
      simp only [Option.some.injEq, Prod.mk.injEq] at h
      obtain ⟨rfl, rfl⟩ := h
      refine ⟨by rw [List.cons_append, List.takeWhile_append_dropWhile], List.cons_ne_nil _ _, ?_⟩
      rw [List.forall_mem_cons]
      exact ⟨not_quote_of_isNameChar (isNameChar_of_isNameStart hstart), fun d hd =>
        not_quote_of_isNameChar (List.all_eq_true.mp List.all_takeWhile d hd)⟩
    · cases h

theorem scanDigits_readsText : ReadsText scanDigits := by
  intro s t rest h
  cases s with
  | nil => cases h
  | cons c cs =>
    rw [scanDigits] at h
    split at h
    · next hdigit =>
      simp only [Option.some.injEq, Prod.mk.injEq] at h
      obtain ⟨rfl, rfl⟩ := h
      refine ⟨by rw [List.cons_append, List.takeWhile_append_dropWhile], List.cons_ne_nil _ _, ?_⟩
      rw [List.forall_mem_cons]
      exact ⟨not_quote_of_isDigit hdigit, fun d hd =>
        not_quote_of_isDigit (List.all_eq_true.mp List.all_takeWhile d hd)⟩
    · cases h

end Query
end TwinGraph
