import TwinGraph.Proofs.Query.Quoting

/-! Respacing a query keeps its string literals in order, but makes one space of every run of blanks
in them. -/
namespace TwinGraph

namespace Text

/-- Every run of blanks becomes one space; the run in front is left out behind a blank. -/
def collapse : Bool → Text → Text
  | _, [] => []
  | behind, c :: s =>
    if isBlank c then if behind then collapse true s else ' ' :: collapse true s
    else c :: collapse false s

variable {c : Char} {s t : Text}

theorem collapse_blank (hc : isBlank c = true) (behind : Bool) (s : Text) :
    collapse behind (c :: s) = if behind then collapse true s else ' ' :: collapse true s := by
  rw [collapse, if_pos hc]

theorem collapse_other (hc : isBlank c = false) (behind : Bool) (s : Text) :
    collapse behind (c :: s) = c :: collapse false s := by
  rw [collapse, if_neg (by simp [hc])]

theorem words_blank (hc : isBlank c = true) (s : Text) : words (c :: s) = words s := by
  unfold words
  rw [pieces, if_pos hc]
  rfl

theorem words_single (hc : isBlank c = false) : words [c] = [[c]] := by
  simp [words, pieces, hc]

theorem words_last (hc : isBlank c = false) {d : Char} (hd : isBlank d = true) (s : Text) :
    words (c :: d :: s) = [c] :: words s := by
  have hpieces : pieces isBlank (c :: d :: s) = [c] :: pieces isBlank s := by
    rw [pieces, if_neg (by simp [hc]), pieces, if_pos hd]
  unfold words
  rw [hpieces]
  rfl

theorem words_longer (hc : isBlank c = false) {d : Char} (hd : isBlank d = false) (s : Text) :
    ∃ word rest, words (d :: s) = word :: rest ∧ words (c :: d :: s) = (c :: word) :: rest := by
  obtain ⟨piece, rest, hpieces⟩ : ∃ piece rest, pieces isBlank (d :: s) = (d :: piece) :: rest := by
    rw [pieces, if_neg (by simp [hd])]
    cases pieces isBlank s with
    | nil => exact ⟨[], [], rfl⟩
    | cons piece rest => exact ⟨piece, rest, rfl⟩
  have hlonger : pieces isBlank (c :: d :: s) = (c :: d :: piece) :: rest := by
    rw [pieces, if_neg (by simp [hc]), hpieces]
  unfold words
  rw [hpieces, hlonger]
  exact ⟨_, _, rfl, rfl⟩

theorem trimRight_cons (hc : isBlank c = false) (s : Text) :
    trimRight (c :: s) = c :: trimRight s := by
  unfold trimRight
  rw [List.reverse_cons, List.dropWhile_append]
  split
  · next h =>
    rw [List.isEmpty_iff] at h
    rw [h]
    simp [hc]
  · simp

theorem trimRight_space (s : Text) :
    trimRight (' ' :: s) = if trimRight s = [] then [] else ' ' :: trimRight s := by
  unfold trimRight
  rw [List.reverse_cons, List.dropWhile_append]
  by_cases h : s.reverse.dropWhile isBlank = []
  · rw [h]
    rfl
  · rw [if_neg (by simpa using h), if_neg (by simpa using h), List.reverse_append]
    rfl

theorem separated_cons (word : Text) {rest : List Text} (h : rest ≠ []) :
    separated " " (word :: rest) = word ++ ' ' :: separated " " rest := by
  cases rest with
  | nil => exact absurd rfl h
  | cons next rest =>
    rw [separated, List.intercalate_cons_cons, List.append_assoc]
    rfl

theorem ne_nil_of_mem_words {word : Text} (h : word ∈ words s) : word ≠ [] := by
  obtain ⟨-, h⟩ := List.mem_filter.mp h
  simpa using h

theorem respaced_eq_nil : s.respaced = [] ↔ words s = [] := by
  unfold respaced
  constructor
  · intro h
    cases hwords : words s with
    | nil => rfl
    | cons word rest =>
      have hne : word ≠ [] := ne_nil_of_mem_words (hwords ▸ List.mem_cons_self)
      rw [hwords] at h
      cases rest with
      | nil => exact absurd (by simpa [separated, List.intercalate] using h) hne
      | cons next rest =>
        rw [separated_cons word (List.cons_ne_nil _ _)] at h
        simp at h
  · intro h
    rw [h]
    rfl

theorem respaced_blank (hc : isBlank c = true) (s : Text) : respaced (c :: s) = respaced s := by
  unfold respaced
  rw [words_blank hc]

theorem respaced_last (hc : isBlank c = false) {d : Char} (hd : isBlank d = true) (s : Text) :
    respaced (c :: d :: s) = c :: if respaced s = [] then [] else ' ' :: respaced s := by
  have hwords := words_last hc hd s
  by_cases h : words s = []
  · rw [if_pos (respaced_eq_nil.mpr h), respaced, hwords, h]
    rfl
  · rw [if_neg (mt respaced_eq_nil.mp h), respaced, hwords, separated_cons _ h]
    rfl

theorem respaced_longer (hc : isBlank c = false) {d : Char} (hd : isBlank d = false) (s : Text) :
    respaced (c :: d :: s) = c :: respaced (d :: s) := by
  obtain ⟨word, rest, hwords, hlonger⟩ := words_longer hc hd s
  rw [respaced, respaced, hwords, hlonger]
  cases rest with
  | nil => simp [separated, List.intercalate]
  | cons next rest =>
    rw [separated_cons _ (List.cons_ne_nil _ _), separated_cons _ (List.cons_ne_nil _ _)]
    rfl

theorem respaced_eq_collapse (s : Text) : s.respaced = trimRight (collapse true s) := by
  induction hlength : s.length using Nat.strongRecOn generalizing s with
  | _ n ih =>
    cases s with
    | nil => rfl
    | cons c s =>
      rw [List.length_cons] at hlength
      by_cases hc : isBlank c = true
      · rw [collapse_blank hc, if_pos rfl, respaced_blank hc, ih _ (by omega) s rfl]
      · rw [Bool.not_eq_true] at hc
        rw [collapse_other hc, trimRight_cons hc]
        cases s with
        | nil => rw [respaced, words_single hc]; rfl
        | cons d s =>
          rw [List.length_cons] at hlength
          by_cases hd : isBlank d = true
          · rw [collapse_blank hd, if_neg Bool.false_ne_true, trimRight_space, respaced_last hc hd,
              ih _ (by omega) s rfl]
          · rw [Bool.not_eq_true] at hd
            have hrest := ih _ (by rw [List.length_cons]; omega) (d :: s) rfl
            rw [respaced_longer hc hd, hrest, collapse_other hd, collapse_other hd]

theorem length_collapse (behind : Bool) (s : Text) : (collapse behind s).length ≤ s.length := by
  induction s generalizing behind with
  | nil => exact Nat.le_refl 0
  | cons c s ih =>
    have htrue := ih true
    have hfalse := ih false
    unfold collapse
    split
    · split
      · rw [List.length_cons]
        omega
      · rw [List.length_cons, List.length_cons]
        omega
    · rw [List.length_cons, List.length_cons]
      omega

theorem collapse_append_other (hc : isBlank c = false) (behind : Bool) (s t : Text) :
    collapse behind (s ++ c :: t) = collapse behind s ++ c :: collapse false t := by
  induction s generalizing behind with
  | nil => exact collapse_other hc behind t
  | cons d s ih =>
    rw [List.cons_append, collapse, collapse, ih, ih]
    split
    · split <;> rfl
    · rfl

theorem trimRight_append_blanks (s : Text) {t : Text} (ht : ∀ c ∈ t, isBlank c = true) :
    trimRight (s ++ t) = trimRight s := by
  unfold trimRight
  rw [List.reverse_append,
    List.dropWhile_append_of_pos fun c hc => ht c (List.mem_reverse.mp hc)]

theorem trimRight_append (s : Text) : ∃ t, s = trimRight s ++ t ∧ ∀ c ∈ t, isBlank c = true := by
  refine ⟨(s.reverse.takeWhile isBlank).reverse, ?_, fun c hc =>
    List.all_eq_true.mp List.all_takeWhile c (List.mem_reverse.mp hc)⟩
  unfold trimRight
  rw [← List.reverse_append, List.takeWhile_append_dropWhile, List.reverse_reverse]

theorem trimRight_trimRight (s : Text) : trimRight (trimRight s) = trimRight s := by
  obtain ⟨t, heq, hblank⟩ := trimRight_append s
  rw [← trimRight_append_blanks _ hblank, ← heq]

theorem trimLeft_append (s : Text) : ∃ t, s = t ++ trimLeft s ∧ ∀ c ∈ t, isBlank c = true :=
  ⟨s.takeWhile isBlank, List.takeWhile_append_dropWhile.symm, fun c hc =>
    List.all_eq_true.mp List.all_takeWhile c hc⟩

theorem trimLeft_eq_cons {s t : Text} (h : trimLeft s = c :: t) : isBlank c = false := by
  have hhead := List.head?_dropWhile_not isBlank s
  rw [show s.dropWhile isBlank = c :: t from h] at hhead
  exact Bool.eq_false_iff.mpr (by simpa using hhead)

theorem head?_trim (s : Text) : ∀ c ∈ s.trim.head?, isBlank c = false := by
  unfold trim
  cases hleft : trimLeft s with
  | nil => exact fun c hc => nomatch hc
  | cons d t =>
    have hd := trimLeft_eq_cons hleft
    rw [trimRight_cons hd]
    intro c hc
    cases hc
    exact hd

theorem trimRight_trim (s : Text) : trimRight s.trim = s.trim := trimRight_trimRight _

theorem trim_append (s : Text) : ∃ left right, s = left ++ (s.trim ++ right) ∧
    (∀ c ∈ left, isBlank c = true) ∧ ∀ c ∈ right, isBlank c = true := by
  obtain ⟨left, hleft, hleftBlank⟩ := trimLeft_append s
  obtain ⟨right, hright, hrightBlank⟩ := trimRight_append (trimLeft s)
  exact ⟨left, right, hleft.trans (congrArg _ hright), hleftBlank, hrightBlank⟩

theorem blank_of_trim_eq_nil {s : Text} (h : s.trim = []) : ∀ c ∈ s, isBlank c = true := by
  obtain ⟨left, right, heq, hleft, hright⟩ := trim_append s
  rw [h, List.nil_append] at heq
  intro c hc
  rw [heq, List.mem_append] at hc
  exact hc.elim (hleft c) (hright c)

theorem trimRight_of_last (s : Text) {c : Char} (hc : isBlank c = false) :
    trimRight (s ++ [c]) = s ++ [c] := by
  simp [trimRight, hc]

theorem length_respaced (s : Text) : s.respaced.length ≤ s.length := by
  obtain ⟨t, heq, -⟩ := trimRight_append (collapse true s)
  have hlength := congrArg List.length heq
  have hcollapse := length_collapse true s
  rw [List.length_append, ← respaced_eq_collapse] at hlength
  omega

theorem collapse_collapse (s : Text) : collapse true (collapse true s) = collapse true s ∧
    ∀ behind, collapse false (collapse behind s) = collapse behind s := by
  induction s with
  | nil => exact ⟨rfl, fun _ => rfl⟩
  | cons c s ih =>
    obtain ⟨htrue, hfalse⟩ := ih
    by_cases hc : isBlank c = true
    · have hspace : isBlank ' ' = true := by decide
      refine ⟨?_, fun behind => ?_⟩
      · rw [collapse_blank hc, if_pos rfl, htrue]
      · rw [collapse_blank hc]
        split
        · exact hfalse true
        · rw [collapse_blank hspace, if_neg Bool.false_ne_true, htrue]
    · rw [Bool.not_eq_true] at hc
      refine ⟨?_, fun behind => ?_⟩
      · rw [collapse_other hc, collapse_other hc, hfalse]
      · rw [collapse_other hc, collapse_other hc, hfalse]

theorem collapse_of_blankless {s : Text} (h : ∀ c ∈ s, isBlank c = false) (behind : Bool) :
    collapse behind s = s := by
  induction s generalizing behind with
  | nil => rfl
  | cons c s ih =>
    rw [List.forall_mem_cons] at h
    rw [collapse_other h.1, ih h.2]

/-- A cut of a collapsed text in front of something else than a blank is a cut of the text. -/
theorem collapse_eq_append {behind : Bool} {s x y : Text} (h : collapse behind s = x ++ y)
    (hy : ∀ c ∈ y.head?, isBlank c = false) (hne : y ≠ []) :
    ∃ front back, s = front ++ back ∧ collapse behind front = x ∧ collapse false back = y := by
  induction s generalizing behind x with
  | nil =>
    rw [collapse] at h
    exact absurd (List.append_eq_nil_iff.mp h.symm).2 hne
  | cons c s ih =>
    by_cases hc : isBlank c = true
    · rw [collapse_blank hc] at h
      cases behind with
      | true =>
        rw [if_pos rfl] at h
        obtain ⟨front, back, rfl, hfront, hback⟩ := ih h
        exact ⟨c :: front, back, rfl, by rw [collapse_blank hc, if_pos rfl, hfront], hback⟩
      | false =>
        rw [if_neg Bool.false_ne_true] at h
        cases x with
        | nil =>
          rw [List.nil_append] at h
          exact absurd (hy ' ' (by rw [← h]; rfl)) (by decide)
        | cons d x =>
          rw [List.cons_append, List.cons.injEq] at h
          obtain ⟨rfl, h⟩ := h
          obtain ⟨front, back, rfl, hfront, hback⟩ := ih h
          exact ⟨c :: front, back, rfl,
            by rw [collapse_blank hc, if_neg Bool.false_ne_true, hfront], hback⟩
    · rw [Bool.not_eq_true] at hc
      rw [collapse_other hc] at h
      cases x with
      | nil => exact ⟨[], c :: s, rfl, rfl, by rw [collapse_other hc, h, List.nil_append]⟩
      | cons d x =>
        rw [List.cons_append, List.cons.injEq] at h
        obtain ⟨rfl, h⟩ := h
        obtain ⟨front, back, rfl, hfront, hback⟩ := ih h
        exact ⟨c :: front, back, rfl, by rw [collapse_other hc, hfront], hback⟩

theorem respaced_of_blankless {s : Text} (h : ∀ c ∈ s, isBlank c = false) : s.respaced = s := by
  have htrim : s.reverse.dropWhile isBlank = s.reverse := by
    cases hs : s.reverse with
    | nil => rfl
    | cons c t =>
      have hc : isBlank c = false := h c (List.mem_reverse.mp (hs ▸ List.mem_cons_self))
      rw [List.dropWhile_cons_of_neg (by simp [hc])]
  rw [respaced_eq_collapse, collapse_of_blankless h, trimRight, htrim, List.reverse_reverse]

end Text

namespace Query

open Text Token

variable {q : Char}

theorem not_isBlank_of_isQuote (hq : isQuote q = true) : isBlank q = false := by
  refine Bool.eq_false_iff.mpr fun hblank => ?_
  rw [not_quote_of_isBlank hblank] at hq
  cases hq

theorem closeQuote_collapse (hq : isQuote q = true) (behind : Bool) (s : Text) :
    closeQuote q (collapse behind s) =
      (closeQuote q s).map fun found => (collapse behind found.1, collapse false found.2) := by
  have hnot := not_isBlank_of_isQuote hq
  fun_induction closeQuote q s generalizing behind with
  | case1 => rfl
  | case2 => rfl
  | case3 d ds ih =>
    have hslash : isBlank '\\' = false := by decide
    rw [collapse_other hslash]
    by_cases hd : isBlank d = true
    · rw [collapse_blank hd, if_neg Bool.false_ne_true, closeQuote_escape, ih]
      cases closeQuote q ds with
      | none => rfl
      | some found => simp [collapse_other hslash, collapse_blank hd]
    · rw [Bool.not_eq_true] at hd
      rw [collapse_other hd, closeQuote_escape, ih]
      cases closeQuote q ds with
      | none => rfl
      | some found => simp [collapse_other hslash, collapse_other hd]
  | case4 cs hslash =>
    rw [collapse_other hnot, closeQuote_close hslash]
    simp [collapse, hnot]
  | case5 c cs hslash hquote ih =>
    by_cases hc : isBlank c = true
    · rw [collapse_blank hc]
      cases behind with
      | true =>
        rw [if_pos rfl, ih]
        cases closeQuote q cs with
        | none => rfl
        | some found => simp [collapse_blank hc]
      | false =>
        have hspace : ' ' ≠ q := ne_of_isQuote hq (by decide)
        rw [if_neg Bool.false_ne_true, closeQuote_other (by decide) hspace, ih]
        cases closeQuote q cs with
        | none => rfl
        | some found => simp [collapse_blank hc]
    · rw [Bool.not_eq_true] at hc
      rw [collapse_other hc, closeQuote_other hslash hquote, ih]
      cases closeQuote q cs with
      | none => rfl
      | some found => simp [collapse_other hc]

theorem marks_collapse (behind : Bool) (s : Text) :
    marks (collapse behind s) = (marks s).map (collapse false) := by
  induction s using marks_induction generalizing behind with
  | nil => rfl
  | plain c s hc ih =>
    rw [marks_plain hc]
    by_cases hblank : isBlank c = true
    · rw [collapse_blank hblank]
      split
      · exact ih true
      · rw [marks_plain (by decide)]
        exact ih true
    · rw [Bool.not_eq_true] at hblank
      rw [collapse_other hblank, marks_plain hc]
      exact ih false
  | literal c s body rest hc hclose ih =>
    have hnot := not_isBlank_of_isQuote hc
    have hmoved : closeQuote c (collapse false s) =
        some (collapse false body, collapse false rest) := by
      rw [closeQuote_collapse hc, hclose]
      rfl
    rw [collapse_other hnot, marks_literal hc hmoved, ih, marks_literal hc hclose, List.map_cons,
      collapse_other hnot]
  | lone c s hc hclose ih =>
    have hnot := not_isBlank_of_isQuote hc
    have hmoved : closeQuote c (collapse false s) = none := by
      rw [closeQuote_collapse hc, hclose]
      rfl
    rw [collapse_other hnot, marks_lone hc hmoved, ih, marks_lone hc hclose, List.map_cons,
      collapse_other hnot]
    rfl

theorem collapse_mark {s m : Text} (h : m ∈ marks s) : collapse false m = m.respaced := by
  obtain ⟨q, hq, ⟨t, hhead⟩, ⟨front, hlast⟩⟩ := mark_ends h
  have hnot := not_isBlank_of_isQuote hq
  have hbehind : collapse true m = collapse false m := by
    rw [hhead, collapse_other hnot, collapse_other hnot]
  rw [respaced_eq_collapse, hbehind, hlast, collapse_append_other hnot,
    show collapse false [] = [] from rfl, trimRight_of_last _ hnot]

theorem marks_respaced (s : Text) : marks s.respaced = (marks s).map respaced := by
  obtain ⟨t, heq, hblank⟩ := trimRight_append (collapse true s)
  have hmarks : marks (collapse true s) = marks s.respaced := by
    rw [heq, ← respaced_eq_collapse, marks_append_right _ fun c hc =>
      not_quote_of_isBlank (hblank c hc)]
  rw [← hmarks, marks_collapse]
  exact List.map_congr_left fun m hm => collapse_mark hm

theorem respaced_mark {s m : Text} (h : m ∈ marks s) : m.respaced.respaced = m.respaced := by
  have hmem : m.respaced ∈ marks s.respaced := by
    rw [marks_respaced]
    exact List.mem_map_of_mem h
  rw [← collapse_mark hmem, ← collapse_mark h]
  exact (collapse_collapse m).2 false

theorem one_lt_length_mark {s m : Text} (h : m ∈ marks s) :
    1 < m.respaced.length ↔ 1 < m.length := by
  constructor
  · exact fun hlong => Nat.lt_of_lt_of_le hlong (length_respaced m)
  · intro hlong
    rw [← collapse_mark h]
    obtain ⟨q, hq, ⟨t, rfl⟩, ⟨front, hlast⟩⟩ := mark_ends h
    have hnot := not_isBlank_of_isQuote hq
    cases front with
    | nil =>
      rw [hlast] at hlong
      exact absurd hlong (Nat.lt_irrefl 1)
    | cons c front =>
      rw [hlast, collapse_append_other hnot, List.length_append]
      have hne : collapse false (c :: front) ≠ [] := by
        unfold collapse
        split <;> exact List.cons_ne_nil _ _
      have hpos := List.length_pos_iff.mpr hne
      show 1 < _ + 1
      omega

/-- Respacing keeps every literal, apart from the blanks in it. -/
theorem literals_respaced (s : Text) : literals s.respaced = (literals s).map respaced := by
  unfold literals
  rw [marks_respaced, List.filter_map]
  refine congrArg _ (List.filter_congr fun m hm => ?_)
  exact decide_eq_decide.mpr (one_lt_length_mark hm)

theorem collapse_of_head {s : Text} (h : ∀ c ∈ (collapse false s).head?, isBlank c = false) :
    collapse true s = collapse false s := by
  cases s with
  | nil => rfl
  | cons c s =>
    by_cases hc : isBlank c = true
    · rw [collapse_blank hc, if_neg Bool.false_ne_true] at h
      exact absurd (h ' ' rfl) (by decide)
    · rw [Bool.not_eq_true] at hc
      rw [collapse_other hc, collapse_other hc]

/-- Where a respaced text can be cut, in front of something else than a blank, the text itself can
be cut. -/
theorem respaced_eq_append {s x y blanks : Text} (h : s.respaced = x ++ y ++ blanks)
    (hblanks : ∀ c ∈ blanks, isBlank c = true) (hne : y ≠ [])
    (hhead : ∀ c ∈ y.head?, isBlank c = false) (hlast : trimRight y = y) (hx : Closed x) :
    ∃ front back, s = front ++ back ∧ back.respaced = y ∧ Closed front := by
  obtain ⟨t, heq, ht⟩ := trimRight_append (collapse true s)
  rw [← respaced_eq_collapse, h, List.append_assoc, List.append_assoc] at heq
  have hblank : ∀ c ∈ blanks ++ t, isBlank c = true := List.forall_mem_append.mpr ⟨hblanks, ht⟩
  have hhead' : ∀ c ∈ (y ++ (blanks ++ t)).head?, isBlank c = false := by
    obtain ⟨d, y', rfl⟩ := List.exists_cons_of_ne_nil hne
    exact hhead
  obtain ⟨front, back, rfl, hfront, hback⟩ :=
    collapse_eq_append heq hhead' (List.append_ne_nil_of_left_ne_nil hne _)
  refine ⟨front, back, rfl, ?_, fun m hm => ?_⟩
  · rw [respaced_eq_collapse, collapse_of_head (by rw [hback]; exact hhead'), hback,
      trimRight_append_blanks y hblank, hlast]
  · have hmem : collapse false m ∈ marks x := by
      rw [← hfront, marks_collapse]
      exact List.mem_map_of_mem hm
    exact Nat.lt_of_lt_of_le (hx _ hmem) (length_collapse false m)

theorem Closed.respaced {s : Text} (h : Closed s) : Closed s.respaced := by
  rw [Closed, marks_respaced, List.forall_mem_map]
  exact fun m hm => (one_lt_length_mark hm).mpr (h m hm)

end Query
end TwinGraph
