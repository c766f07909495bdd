import TwinGraph.Proofs.Query.Scanning

/-! The string literals of a text. A literal starts at a quote outside of the literals before it
and ends at the next such quote, and a backslash in it takes the next character with it. -/
namespace TwinGraph.Query

open Scan Token

/-- One literal, a quote that is never closed, or a character that is no quote. -/
def scanMark : Scanner (Option Text)
  | [] => none
  | c :: cs =>
    if isQuote c then
      match closeQuote c cs with
      | some (body, rest) => some (some (c :: body), rest)
      | none => some (some [c], cs)
    else some (none, cs)

/-- The literals and the quotes that are never closed, in order. -/
def marks (s : Text) : List Text := (many scanMark s).1.filterMap id

def literals (s : Text) : List Text := (marks s).filter fun m => 1 < m.length

/-- Every quote outside of a literal starts one. -/
def Closed (s : Text) : Prop := ∀ m ∈ marks s, 1 < m.length

instance (s : Text) : Decidable (Closed s) := inferInstanceAs (Decidable (∀ m ∈ marks s, _))

theorem closeQuote_escape (q d : Char) (s : Text) : closeQuote q ('\\' :: d :: s) =
    (closeQuote q s).map fun found => ('\\' :: d :: found.1, found.2) := by
  rw [closeQuote.eq_def]
  rfl

theorem closeQuote_close {q : Char} (hq : q ≠ '\\') (s : Text) :
    closeQuote q (q :: s) = some ([q], s) := by
  rw [closeQuote.eq_def]
  dsimp only
  rw [if_neg hq, if_pos rfl]

theorem closeQuote_other {q c : Char} (hslash : c ≠ '\\') (hquote : c ≠ q) (s : Text) :
    closeQuote q (c :: s) = (closeQuote q s).map fun found => (c :: found.1, found.2) := by
  rw [closeQuote.eq_def]
  dsimp only
  rw [if_neg hslash, if_neg hquote]

theorem closeQuote_eq_some {q : Char} {s body rest : Text}
    (h : closeQuote q s = some (body, rest)) : s = body ++ rest ∧ body ≠ [] := by
  fun_induction closeQuote q s generalizing body with
  | case1 => cases h
  | case2 => cases h
  | case3 d ds ih =>
    obtain ⟨⟨inner, rest'⟩, hinner, heq⟩ := Option.map_eq_some_iff.mp h
    simp only [Prod.mk.injEq] at heq
    obtain ⟨rfl, rfl⟩ := heq
    rw [(ih hinner).1]
    exact ⟨rfl, List.cons_ne_nil _ _⟩
  | case4 =>
    simp only [Option.some.injEq, Prod.mk.injEq] at h
    obtain ⟨rfl, rfl⟩ := h
    exact ⟨rfl, List.cons_ne_nil _ _⟩
  | case5 c cs _ _ ih =>
    obtain ⟨⟨inner, rest'⟩, hinner, heq⟩ := Option.map_eq_some_iff.mp h
    simp only [Prod.mk.injEq] at heq
    obtain ⟨rfl, rfl⟩ := heq
    rw [(ih hinner).1]
    exact ⟨rfl, List.cons_ne_nil _ _⟩

theorem closeQuote_last {q : Char} {s body rest : Text}
    (h : closeQuote q s = some (body, rest)) : ∃ inner, body = inner ++ [q] := by
  fun_induction closeQuote q s generalizing body with
  | case1 => cases h
  | case2 => cases h
  | case3 d ds ih =>
    obtain ⟨⟨inner, rest'⟩, hinner, heq⟩ := Option.map_eq_some_iff.mp h
    simp only [Prod.mk.injEq] at heq
    obtain ⟨rfl, rfl⟩ := heq
    obtain ⟨inner, rfl⟩ := ih hinner
    exact ⟨'\\' :: d :: inner, rfl⟩
  | case4 =>
    simp only [Option.some.injEq, Prod.mk.injEq] at h
    obtain ⟨rfl, rfl⟩ := h
    exact ⟨[], rfl⟩
  | case5 c cs _ _ ih =>
    obtain ⟨⟨inner, rest'⟩, hinner, heq⟩ := Option.map_eq_some_iff.mp h
    simp only [Prod.mk.injEq] at heq
    obtain ⟨rfl, rfl⟩ := heq
    obtain ⟨inner, rfl⟩ := ih hinner
    exact ⟨c :: inner, rfl⟩

theorem scanMark_shortens : Shortens scanMark := by
  intro s m rest h
  cases s with
  | nil => cases h
  | cons c cs =>
    rw [scanMark] at h
    split at h
    · split at h
      · next body rest' hclose =>
        simp only [Option.some.injEq, Prod.mk.injEq] at h
        obtain ⟨-, rfl⟩ := h
        rw [(closeQuote_eq_some hclose).1, List.length_cons, List.length_append]
        omega
      · simp only [Option.some.injEq, Prod.mk.injEq] at h
        obtain ⟨-, rfl⟩ := h
        exact Nat.lt_succ_self _
    · simp only [Option.some.injEq, Prod.mk.injEq] at h
      obtain ⟨-, rfl⟩ := h
      exact Nat.lt_succ_self _

theorem marks_nil : marks [] = [] := rfl

theorem marks_of_scanMark {s rest : Text} {m : Option Text} (h : scanMark s = some (m, rest)) :
    marks s = m.toList ++ marks rest := by
  unfold marks
  rw [many_of_some scanMark_shortens h]
  cases m <;> rfl

theorem marks_plain {c : Char} (hc : isQuote c = false) (s : Text) : marks (c :: s) = marks s :=
  marks_of_scanMark (m := none) (by rw [scanMark, hc]; rfl)

theorem marks_literal {c : Char} (hc : isQuote c = true) {s body rest : Text}
    (h : closeQuote c s = some (body, rest)) : marks (c :: s) = (c :: body) :: marks rest :=
  marks_of_scanMark (m := some (c :: body)) (by rw [scanMark, if_pos hc, h])

theorem marks_lone {c : Char} (hc : isQuote c = true) {s : Text} (h : closeQuote c s = none) :
    marks (c :: s) = [c] :: marks s :=
  marks_of_scanMark (m := some [c]) (by rw [scanMark, if_pos hc, h])

theorem marks_induction {P : Text → Prop} (nil : P [])
    (plain : ∀ c s, isQuote c = false → P s → P (c :: s))
    (literal : ∀ c s body rest, isQuote c = true → closeQuote c s = some (body, rest) → P rest →
      P (c :: s))
    (lone : ∀ c s, isQuote c = true → closeQuote c s = none → P s → P (c :: s)) (s : Text) :
    P s := by
  induction hlength : s.length using Nat.strongRecOn generalizing s with
  | _ n ih =>
    cases s with
    | nil => exact nil
    | cons c s =>
      rw [List.length_cons] at hlength
      by_cases hc : isQuote c = true
      · cases hclose : closeQuote c s with
        | none => exact lone c s hc hclose (ih _ (by omega) s rfl)
        | some found =>
          obtain ⟨body, rest⟩ := found
          have hs := congrArg List.length (closeQuote_eq_some hclose).1
          rw [List.length_append] at hs
          exact literal c s body rest hc hclose (ih _ (by omega) rest rfl)
      · exact plain c s (Bool.eq_false_iff.mpr hc) (ih _ (by omega) s rfl)

theorem closed_plain {c : Char} (hc : isQuote c = false) {s : Text} :
    Closed (c :: s) ↔ Closed s := by
  rw [Closed, Closed, marks_plain hc]

theorem closed_quote {q : Char} (hq : isQuote q = true) {s : Text} :
    Closed (q :: s) ↔ ∃ body rest, closeQuote q s = some (body, rest) ∧ Closed rest := by
  cases hclose : closeQuote q s with
  | none =>
    rw [Closed, marks_lone hq hclose, List.forall_mem_cons]
    simp
  | some found =>
    obtain ⟨body, rest⟩ := found
    have hlong : 1 < (q :: body).length := by
      have hpos := List.length_pos_iff.mpr (closeQuote_eq_some hclose).2
      rw [List.length_cons]
      omega
    rw [Closed, marks_literal hq hclose, List.forall_mem_cons]
    constructor
    · exact fun h => ⟨body, rest, rfl, h.2⟩
    · rintro ⟨_, _, heq, hrest⟩
      cases heq
      exact ⟨hlong, hrest⟩

theorem closeQuote_append {q : Char} {s body rest : Text} (h : closeQuote q s = some (body, rest))
    (t : Text) : closeQuote q (s ++ t) = some (body, rest ++ t) := by
  fun_induction closeQuote q s generalizing body with
  | case1 => cases h
  | case2 => cases h
  | case3 d ds ih =>
    obtain ⟨⟨inner, rest'⟩, hinner, heq⟩ := Option.map_eq_some_iff.mp h
    simp only [Prod.mk.injEq] at heq
    obtain ⟨rfl, rfl⟩ := heq
    rw [List.cons_append, List.cons_append, closeQuote_escape, ih hinner]
    rfl
  | case4 cs hslash =>
    simp only [Option.some.injEq, Prod.mk.injEq] at h
    obtain ⟨rfl, rfl⟩ := h
    exact closeQuote_close hslash _
  | case5 c cs hslash hquote ih =>
    obtain ⟨⟨inner, rest'⟩, hinner, heq⟩ := Option.map_eq_some_iff.mp h
    simp only [Prod.mk.injEq] at heq
    obtain ⟨rfl, rfl⟩ := heq
    rw [List.cons_append, closeQuote_other hslash hquote, ih hinner]
    rfl

theorem mark_ends {s m : Text} (h : m ∈ marks s) :
    ∃ q, isQuote q = true ∧ (∃ t, m = q :: t) ∧ ∃ t, m = t ++ [q] := by
  induction s using marks_induction with
  | nil => cases h
  | plain c s hc ih => exact ih (by rwa [marks_plain hc] at h)
  | literal c s body rest hc hclose ih =>
    rw [marks_literal hc hclose] at h
    rcases List.mem_cons.mp h with rfl | h
    · obtain ⟨inner, rfl⟩ := closeQuote_last hclose
      exact ⟨c, hc, ⟨_, rfl⟩, ⟨c :: inner, rfl⟩⟩
    · exact ih h
  | lone c s hc hclose ih =>
    rw [marks_lone hc hclose] at h
    rcases List.mem_cons.mp h with rfl | h
    · exact ⟨c, hc, ⟨[], rfl⟩, ⟨[], rfl⟩⟩
    · exact ih h

/-- The marks behind a text without open quotes are those of the text that follows. -/
theorem marks_append {s : Text} (hs : Closed s) (t : Text) :
    marks (s ++ t) = marks s ++ marks t := by
  induction s using marks_induction with
  | nil => rfl
  | plain c s hc ih =>
    rw [List.cons_append, marks_plain hc, marks_plain hc]
    exact ih (by rwa [Closed, marks_plain hc] at hs)
  | literal c s body rest hc hclose ih =>
    rw [Closed, marks_literal hc hclose, List.forall_mem_cons] at hs
    rw [List.cons_append, marks_literal hc (closeQuote_append hclose t), ih hs.2,
      marks_literal hc hclose, List.cons_append]
  | lone c s hc hclose _ =>
    rw [Closed, marks_lone hc hclose, List.forall_mem_cons] at hs
    exact absurd hs.1 (Nat.lt_irrefl 1)

theorem literals_append {s : Text} (hs : Closed s) (t : Text) :
    literals (s ++ t) = literals s ++ literals t := by
  unfold literals
  rw [marks_append hs, List.filter_append]

theorem Closed.append {s t : Text} (hs : Closed s) (ht : Closed t) : Closed (s ++ t) := by
  rw [Closed, marks_append hs, List.forall_mem_append]
  exact ⟨hs, ht⟩

theorem marks_of_quoteless {s : Text} (hs : ∀ c ∈ s, isQuote c = false) : marks s = [] := by
  induction s with
  | nil => rfl
  | cons c s ih =>
    rw [List.forall_mem_cons] at hs
    rw [marks_plain hs.1, ih hs.2]

theorem closed_of_quoteless {s : Text} (hs : ∀ c ∈ s, isQuote c = false) : Closed s := by
  rw [Closed, marks_of_quoteless hs]
  exact fun _ h => absurd h List.not_mem_nil

theorem marks_append_left {s : Text} (hs : ∀ c ∈ s, isQuote c = false) (t : Text) :
    marks (s ++ t) = marks t := by
  rw [marks_append (closed_of_quoteless hs), marks_of_quoteless hs, List.nil_append]

theorem ne_of_isQuote {q c : Char} (hq : isQuote q = true) (hc : isQuote c = false) : c ≠ q := by
  rintro rfl
  rw [hq] at hc
  cases hc

theorem closeQuote_append_right {q : Char} (hq : isQuote q = true) (s : Text) {t : Text}
    (ht : ∀ c ∈ t, isQuote c = false) :
    closeQuote q (s ++ t) = (closeQuote q s).map fun found => (found.1, found.2 ++ t) := by
  have hnone : ∀ t : Text, (∀ c ∈ t, isQuote c = false) → closeQuote q t = none := by
    intro t ht
    fun_induction closeQuote q t with
    | case1 => rfl
    | case2 => rfl
    | case3 d ds ih => rw [ih fun c hc => ht c (by simp [hc])]; rfl
    | case4 => exact absurd rfl (ne_of_isQuote hq (ht _ List.mem_cons_self))
    | case5 c cs _ _ ih => rw [ih fun c hc => ht c (by simp [hc])]; rfl
  fun_induction closeQuote q s with
  | case1 => exact hnone t ht
  | case2 =>
    cases t with
    | nil => rfl
    | cons d t =>
      rw [List.singleton_append, closeQuote_escape,
        hnone t fun c hc => ht c (List.mem_cons_of_mem _ hc)]
      rfl
  | case3 d ds ih =>
    rw [List.cons_append, List.cons_append, closeQuote_escape, ih]
    cases closeQuote q ds <;> rfl
  | case4 cs hslash => exact closeQuote_close hslash _
  | case5 c cs hslash hquote ih =>
    rw [List.cons_append, closeQuote_other hslash hquote, ih]
    cases closeQuote q cs <;> rfl

theorem marks_append_right (s : Text) {t : Text} (ht : ∀ c ∈ t, isQuote c = false) :
    marks (s ++ t) = marks s := by
  induction s using marks_induction with
  | nil => exact marks_of_quoteless ht
  | plain c s hc ih => rw [List.cons_append, marks_plain hc, marks_plain hc, ih]
  | literal c s body rest hc hclose ih =>
    rw [List.cons_append, marks_literal hc (closeQuote_append hclose t), ih,
      marks_literal hc hclose]
  | lone c s hc hclose ih =>
    have hnone : closeQuote c (s ++ t) = none := by
      rw [closeQuote_append_right hc s ht, hclose]
      rfl
    rw [List.cons_append, marks_lone hc hnone, ih, marks_lone hc hclose]

end TwinGraph.Query
