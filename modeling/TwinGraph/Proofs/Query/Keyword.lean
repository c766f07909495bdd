import TwinGraph.Proofs.Query.Quoting

/-! The search for a keyword finds the first place where the keyword stands alone outside of the
string literals. -/
namespace TwinGraph.Query

open Scan Token

def IsKeyword (keyword : Text) : Prop := keyword ≠ [] ∧ ∀ k ∈ keyword, isNameChar k.toLower = true

instance (keyword : Text) : Decidable (IsKeyword keyword) :=
  inferInstanceAs (Decidable (_ ∧ ∀ k ∈ keyword, _))

theorem toLower_of_isQuote {c : Char} (h : isQuote c = true) : isQuote c.toLower = true := by
  rw [isQuote, Bool.or_eq_true, beq_iff_eq, beq_iff_eq] at h
  rcases h with rfl | rfl <;> decide

theorem ne_slash_of_isQuote {q : Char} (h : isQuote q = true) : q ≠ '\\' := by
  rintro rfl
  exact absurd h (by decide)

theorem not_endsWord_of_isQuote {q : Char} (h : isQuote q = true) : endsWord q = false := by
  rw [isQuote, Bool.or_eq_true, beq_iff_eq, beq_iff_eq] at h
  rcases h with rfl | rfl <;> decide

theorem closed_close {q : Char} (hq : isQuote q = true) {s : Text} :
    Closed (q :: q :: s) ↔ Closed s := by
  rw [closed_quote hq, closeQuote_close (ne_slash_of_isQuote hq)]
  constructor
  · rintro ⟨_, _, hclose, hrest⟩
    cases hclose
    exact hrest
  · exact fun hs => ⟨[q], s, rfl, hs⟩

theorem closed_escape {q : Char} (hq : isQuote q = true) (d : Char) {s : Text} :
    Closed (q :: '\\' :: d :: s) ↔ Closed (q :: s) := by
  rw [closed_quote hq, closed_quote hq, closeQuote_escape]
  simp only [Option.map_eq_some_iff, Prod.mk.injEq]
  constructor
  · rintro ⟨_, _, ⟨found, hclose, rfl, rfl⟩, hrest⟩
    exact ⟨found.1, found.2, hclose, hrest⟩
  · rintro ⟨body, rest, hclose, hrest⟩
    exact ⟨_, _, ⟨(body, rest), hclose, rfl, rfl⟩, hrest⟩

theorem closed_other {q c : Char} (hq : isQuote q = true) (hslash : c ≠ '\\') (hquote : c ≠ q)
    {s : Text} : Closed (q :: c :: s) ↔ Closed (q :: s) := by
  rw [closed_quote hq, closed_quote hq, closeQuote_other hslash hquote]
  simp only [Option.map_eq_some_iff, Prod.mk.injEq]
  constructor
  · rintro ⟨_, _, ⟨found, hclose, rfl, rfl⟩, hrest⟩
    exact ⟨found.1, found.2, hclose, hrest⟩
  · rintro ⟨body, rest, hclose, hrest⟩
    exact ⟨_, _, ⟨(body, rest), hclose, rfl, rfl⟩, hrest⟩

theorem not_closed_singleton {q : Char} (hq : isQuote q = true) : ¬Closed [q] := by
  rw [closed_quote hq]
  rintro ⟨body, rest, hclose, -⟩
  cases hclose

theorem not_closed_slash {q : Char} (hq : isQuote q = true) : ¬Closed [q, '\\'] := by
  rw [closed_quote hq]
  rintro ⟨body, rest, hclose, -⟩
  rw [closeQuote.eq_def] at hclose
  cases hclose

theorem length_of_sameLetters {s t : Text} (h : s.sameLetters t = true) : s.length = t.length := by
  rw [Text.sameLetters, beq_iff_eq, Text.foldCase, Text.foldCase] at h
  simpa using congrArg List.length h

theorem afterLetters_append_self (keyword rest : Text) :
    afterLetters keyword (keyword ++ rest) = some rest := by
  induction keyword with
  | nil => rfl
  | cons k ks ih => rw [List.cons_append, afterLetters, if_pos rfl, ih]

theorem afterLetters_append {keyword s rest : Text} (h : afterLetters keyword s = some rest)
    (t : Text) : afterLetters keyword (s ++ t) = some (rest ++ t) := by
  induction keyword generalizing s with
  | nil =>
    cases h
    rfl
  | cons k ks ih =>
    cases s with
    | nil => cases h
    | cons c cs =>
      rw [afterLetters] at h
      rw [List.cons_append, afterLetters]
      split at h
      · next hletter =>
        rw [if_pos hletter]
        exact ih h
      · cases h

/-- Letters that do not stand in a text do not come to stand there through a space behind it. -/
theorem afterLetters_append_space {keyword s : Text}
    (hkeyword : ∀ k ∈ keyword, isNameChar k.toLower = true) (h : afterLetters keyword s = none)
    (t : Text) : afterLetters keyword (s ++ ' ' :: t) = none := by
  induction keyword generalizing s with
  | nil => cases h
  | cons k ks ih =>
    rw [List.forall_mem_cons] at hkeyword
    cases s with
    | nil =>
      have hletter : k.toLower ≠ ' '.toLower := by
        intro heq
        rw [heq] at hkeyword
        exact absurd hkeyword.1 (by decide)
      rw [List.nil_append, afterLetters, if_neg hletter]
    | cons c cs =>
      rw [afterLetters] at h
      rw [List.cons_append, afterLetters]
      split at h
      · next hletter =>
        rw [if_pos hletter]
        exact ih hkeyword.2 h
      · next hletter => rw [if_neg hletter]

theorem isNameChar_of_toLower {c : Char} (h : isNameChar c.toLower = true) :
    isNameChar c = true := by
  by_cases hupper : c.isUpper = true
  · show ((c.isUpper || c.isLower) || c.isDigit || c == '_') = true
    rw [hupper]
    rfl
  · have hlower : c.toLower = c := dif_neg fun hletter => hupper (decide_eq_true hletter)
    rwa [hlower] at h

theorem afterLetters_eq_some {keyword s rest : Text} (h : afterLetters keyword s = some rest) :
    ∃ word, s = word ++ rest ∧ word.sameLetters keyword = true := by
  induction keyword generalizing s with
  | nil =>
    cases h
    exact ⟨[], rfl, rfl⟩
  | cons k ks ih =>
    cases s with
    | nil => cases h
    | cons c cs =>
      rw [afterLetters] at h
      split at h
      · next hletter =>
        obtain ⟨word, rfl, hword⟩ := ih h
        rw [Text.sameLetters, beq_iff_eq, Text.foldCase, Text.foldCase] at hword
        refine ⟨c :: word, rfl, ?_⟩
        rw [Text.sameLetters, beq_iff_eq, Text.foldCase, Text.foldCase, List.map_cons,
          List.map_cons, hletter, hword]
      · cases h

theorem afterKeyword_eq_some {keyword s rest : Text} (h : afterKeyword keyword s = some rest) :
    ∃ word, s = word ++ rest ∧ word.sameLetters keyword = true ∧
      rest.head?.any isNameChar = false := by
  unfold afterKeyword at h
  split at h
  · cases h
  · next hletters =>
    split at h
    · cases h
    · next hhead =>
      cases h
      obtain ⟨word, hs, hword⟩ := afterLetters_eq_some hletters
      exact ⟨word, hs, hword, Bool.eq_false_iff.mpr hhead⟩

theorem isNameChar_of_sameLetters {keyword word : Text} (hkeyword : IsKeyword keyword)
    (h : word.sameLetters keyword = true) : ∀ c ∈ word, isNameChar c = true := by
  intro c hc
  rw [Text.sameLetters, beq_iff_eq, Text.foldCase, Text.foldCase] at h
  have hmem : c.toLower ∈ keyword.map Char.toLower := h ▸ List.mem_map_of_mem hc
  obtain ⟨k, hk, heq⟩ := List.mem_map.mp hmem
  exact isNameChar_of_toLower (heq ▸ hkeyword.2 k hk)

theorem afterKeyword_append_self (keyword : Text) {rest : Text}
    (hrest : rest.head?.any isNameChar = false) :
    afterKeyword keyword (keyword ++ rest) = some rest := by
  rw [afterKeyword, afterLetters_append_self]
  dsimp only
  rw [hrest, if_neg Bool.false_ne_true]

theorem afterKeyword_append_space (keyword rest : Text) :
    afterKeyword keyword (keyword ++ ' ' :: rest) = some (' ' :: rest) :=
  afterKeyword_append_self keyword rfl

theorem isSome_afterKeyword_append_space {keyword : Text} (hkeyword : IsKeyword keyword)
    (s t : Text) :
    (afterKeyword keyword (s ++ ' ' :: t)).isSome = (afterKeyword keyword s).isSome := by
  unfold afterKeyword
  cases hletters : afterLetters keyword s with
  | none => rw [afterLetters_append_space hkeyword.2 hletters]
  | some rest =>
    rw [afterLetters_append hletters]
    cases rest with
    | nil => rfl
    | cons c cs =>
      have hhead : (c :: cs ++ ' ' :: t).head?.any isNameChar =
          (c :: cs).head?.any isNameChar := rfl
      dsimp only
      rw [hhead]
      split <;> rfl

theorem afterKeyword_nil {keyword : Text} (hkeyword : IsKeyword keyword) :
    afterKeyword keyword [] = none := by
  obtain ⟨k, ks, rfl⟩ := List.exists_cons_of_ne_nil hkeyword.1
  rfl

theorem afterKeyword_quote {keyword : Text} (hkeyword : IsKeyword keyword) {q : Char}
    (hq : isQuote q = true) (s : Text) : afterKeyword keyword (q :: s) = none := by
  obtain ⟨k, ks, rfl⟩ := List.exists_cons_of_ne_nil hkeyword.1
  have hletter : k.toLower ≠ q.toLower := by
    intro heq
    have hname := hkeyword.2 k List.mem_cons_self
    rw [heq] at hname
    have hplain := not_quote_of_isNameChar hname
    rw [toLower_of_isQuote hq] at hplain
    cases hplain
  rw [afterKeyword, afterLetters, if_neg hletter]

/-- The keyword stands alone behind a text that closes its quotes, the one that may be open in
front of it among them. -/
structure Stands (keyword : Text) (quote : Option Char) (fresh : Bool) (before rest : Text) :
    Prop where
  closed : Closed (quote.toList ++ before)
  fresh : before.getLast?.elim fresh endsWord = true
  keyword : (afterKeyword keyword rest).isSome = true

section Stands

variable {keyword before rest : Text} {fresh : Bool} {q c : Char}

theorem elim_getLast?_cons (fresh : Bool) (c : Char) (before : Text) :
    (c :: before).getLast?.elim fresh endsWord = before.getLast?.elim (endsWord c) endsWord := by
  rw [List.getLast?_cons]
  cases before.getLast? <;> rfl

theorem stands_plain (hc : isQuote c = false) :
    Stands keyword none fresh (c :: before) rest ↔
      Stands keyword none (endsWord c) before rest := by
  have hclosed : Closed (c :: before) ↔ Closed before := closed_plain hc
  exact ⟨fun h => ⟨hclosed.mp h.closed, elim_getLast?_cons fresh c before ▸ h.fresh, h.keyword⟩,
    fun h => ⟨hclosed.mpr h.closed, elim_getLast?_cons fresh c before ▸ h.fresh, h.keyword⟩⟩

theorem stands_open (hc : isQuote c = true) :
    Stands keyword none fresh (c :: before) rest ↔ Stands keyword (some c) false before rest := by
  have hfresh := elim_getLast?_cons fresh c before
  rw [not_endsWord_of_isQuote hc] at hfresh
  exact ⟨fun h => ⟨h.closed, hfresh ▸ h.fresh, h.keyword⟩,
    fun h => ⟨h.closed, hfresh ▸ h.fresh, h.keyword⟩⟩

theorem stands_close (hq : isQuote q = true) :
    Stands keyword (some q) fresh (q :: before) rest ↔ Stands keyword none false before rest := by
  have hclosed : Closed (q :: q :: before) ↔ Closed before := closed_close hq
  have hfresh := elim_getLast?_cons fresh q before
  rw [not_endsWord_of_isQuote hq] at hfresh
  exact ⟨fun h => ⟨hclosed.mp h.closed, hfresh ▸ h.fresh, h.keyword⟩,
    fun h => ⟨hclosed.mpr h.closed, hfresh ▸ h.fresh, h.keyword⟩⟩

theorem fresh_of_open (hq : isQuote q = true) (hclosed : Closed (q :: before))
    (fresh fresh' : Bool) :
    before.getLast?.elim fresh endsWord = before.getLast?.elim fresh' endsWord := by
  cases before with
  | nil => exact absurd hclosed (not_closed_singleton hq)
  | cons c cs => rw [elim_getLast?_cons, elim_getLast?_cons]

theorem stands_other (hq : isQuote q = true) (hslash : c ≠ '\\') (hquote : c ≠ q) :
    Stands keyword (some q) fresh (c :: before) rest ↔
      Stands keyword (some q) false before rest := by
  have hclosed : Closed (q :: c :: before) ↔ Closed (q :: before) := closed_other hq hslash hquote
  have hfresh : Closed (q :: before) → (c :: before).getLast?.elim fresh endsWord =
      before.getLast?.elim false endsWord := fun h => by
    rw [elim_getLast?_cons, fresh_of_open hq h]
  exact ⟨fun h => ⟨hclosed.mp h.closed, hfresh (hclosed.mp h.closed) ▸ h.fresh, h.keyword⟩,
    fun h => ⟨hclosed.mpr h.closed, (hfresh h.closed).trans h.fresh, h.keyword⟩⟩

theorem stands_escape (hq : isQuote q = true) :
    Stands keyword (some q) fresh ('\\' :: c :: before) rest ↔
      Stands keyword (some q) false before rest := by
  have hclosed : Closed (q :: '\\' :: c :: before) ↔ Closed (q :: before) := closed_escape hq c
  have hfresh : Closed (q :: before) → ('\\' :: c :: before).getLast?.elim fresh endsWord =
      before.getLast?.elim false endsWord := fun h => by
    rw [elim_getLast?_cons, elim_getLast?_cons, fresh_of_open hq h]
  exact ⟨fun h => ⟨hclosed.mp h.closed, hfresh (hclosed.mp h.closed) ▸ h.fresh, h.keyword⟩,
    fun h => ⟨hclosed.mpr h.closed, (hfresh h.closed).trans h.fresh, h.keyword⟩⟩

end Stands

/-- The first of the places where a text can be cut so that its parts have a property. -/
def FirstCut (P : Text → Text → Prop) (s : Text) : Option (Text × Text) → Prop
  | none => ∀ before rest, s = before ++ rest → ¬P before rest
  | some (before, rest) => s = before ++ rest ∧ P before rest ∧
      ∀ before' rest', s = before' ++ rest' → P before' rest' → before.length ≤ before'.length

theorem FirstCut.here {P : Text → Text → Prop} {s : Text} (h : P [] s) :
    FirstCut P s (some ([], s)) :=
  ⟨rfl, h, fun _ _ _ _ => Nat.zero_le _⟩

theorem FirstCut.cons {P : Text → Text → Prop} {c : Char} {s : Text} {cut : Option (Text × Text)}
    (hhere : ¬P [] (c :: s)) (h : FirstCut (fun before rest => P (c :: before) rest) s cut) :
    FirstCut P (c :: s) (cut.map fun (before, rest) => (c :: before, rest)) := by
  cases cut with
  | none =>
    intro before rest hs hP
    cases before with
    | nil =>
      obtain rfl : c :: s = rest := hs
      exact hhere hP
    | cons d before =>
      obtain ⟨rfl, rfl⟩ := List.cons.inj hs
      exact h before rest rfl hP
  | some found =>
    obtain ⟨rfl, hfound, hfirst⟩ := h
    refine ⟨rfl, hfound, fun before rest hs hP => ?_⟩
    cases before with
    | nil =>
      obtain rfl : c :: _ = rest := hs
      exact absurd hP hhere
    | cons d before =>
      obtain ⟨rfl, heq⟩ := List.cons.inj hs
      exact Nat.succ_le_succ (hfirst before rest heq hP)

theorem FirstCut.congr {P P' : Text → Text → Prop} {s : Text} {cut : Option (Text × Text)}
    (hP : ∀ before rest, s = before ++ rest → (P before rest ↔ P' before rest))
    (h : FirstCut P s cut) : FirstCut P' s cut := by
  cases cut with
  | none => exact fun before rest hs hbefore => h before rest hs ((hP before rest hs).mpr hbefore)
  | some found =>
    obtain ⟨rfl, hfound, hfirst⟩ := h
    exact ⟨rfl, (hP _ _ rfl).mp hfound, fun before rest hs hbefore =>
      hfirst before rest hs ((hP before rest hs).mpr hbefore)⟩

/-- The first cut is the only one. -/
theorem FirstCut.eq_some {P : Text → Text → Prop} {before rest : Text} {cut : Option (Text × Text)}
    (h : FirstCut P (before ++ rest) cut) (hP : P before rest)
    (hfirst : ∀ before' rest', before ++ rest = before' ++ rest' → P before' rest' →
      before.length ≤ before'.length) : cut = some (before, rest) := by
  cases cut with
  | none => exact absurd hP (h before rest rfl)
  | some found =>
    obtain ⟨before', rest'⟩ := found
    obtain ⟨hs, hP', hleast⟩ := h
    have hlength : before.length = before'.length :=
      Nat.le_antisymm (hfirst before' rest' hs hP') (hleast before rest rfl hP)
    obtain ⟨rfl, rfl⟩ := List.append_inj hs hlength
    rfl

theorem not_stands_nil {keyword : Text} (hkeyword : IsKeyword keyword) {quote : Option Char}
    {fresh : Bool} (before rest : Text) (h : [] = before ++ rest) :
    ¬Stands keyword quote fresh before rest := by
  obtain ⟨rfl, rfl⟩ := List.append_eq_nil_iff.mp h.symm
  intro hstands
  have hword := hstands.keyword
  rw [afterKeyword_nil hkeyword] at hword
  cases hword

/-- While a quote is open the keyword is not found. -/
theorem not_stands_open {keyword rest : Text} {q : Char} (hq : isQuote q = true) {fresh : Bool} :
    ¬Stands keyword (some q) fresh [] rest :=
  fun h => not_closed_singleton hq h.closed

theorem seekKeyword_firstCut {keyword : Text} (hkeyword : IsKeyword keyword) {quote : Option Char}
    (hquote : ∀ q ∈ quote, isQuote q = true) (fresh : Bool) (s : Text) :
    FirstCut (Stands keyword quote fresh) s (seekKeyword keyword quote fresh s) := by
  fun_induction seekKeyword keyword quote fresh s with
  | case1 => exact not_stands_nil hkeyword
  | case2 fresh q =>
    have hq := hquote q rfl
    intro before rest hs hstands
    cases before with
    | nil => exact not_stands_open hq hstands
    | cons c before =>
      obtain ⟨rfl, heq⟩ := List.cons.inj hs
      obtain ⟨rfl, rfl⟩ := List.append_eq_nil_iff.mp heq.symm
      exact not_closed_slash hq hstands.closed
  | case3 fresh q d ds ih =>
    have hq := hquote q rfl
    have hrest : FirstCut
        (fun before rest => Stands keyword (some q) fresh ('\\' :: d :: before) rest) ds
        (seekKeyword keyword (some q) false ds) :=
      (ih hquote).congr fun _ _ _ => (stands_escape hq).symm
    have hskip : ¬Stands keyword (some q) fresh ['\\'] (d :: ds) := fun h =>
      not_closed_slash hq h.closed
    have hcut := FirstCut.cons (not_stands_open hq) (FirstCut.cons hskip hrest)
    rwa [Option.map_map] at hcut
  | case4 fresh c cs q hslash ih =>
    have hq := hquote q rfl
    by_cases hend : c = q
    · subst hend
      rw [if_pos rfl] at ih ⊢
      exact FirstCut.cons (not_stands_open hq) ((ih (by simp)).congr fun _ _ _ =>
        (stands_close hq).symm)
    · rw [if_neg hend] at ih ⊢
      exact FirstCut.cons (not_stands_open hq) ((ih hquote).congr fun _ _ _ =>
        (stands_other hq hslash hend).symm)
  | case5 fresh c cs hc ih =>
    refine FirstCut.cons (fun h => ?_) ((ih ?_).congr fun _ _ _ => (stands_open hc).symm)
    · have hword := h.keyword
      rw [afterKeyword_quote hkeyword hc] at hword
      cases hword
    · rintro q ⟨⟩
      exact hc
  | case6 fresh c cs hc hfound =>
    rw [Bool.and_eq_true] at hfound
    exact FirstCut.here ⟨closed_of_quoteless (by simp), hfound.1, hfound.2⟩
  | case7 fresh c cs hc hnot ih =>
    refine FirstCut.cons (fun h => hnot ?_) ((ih hquote).congr fun _ _ _ =>
      (stands_plain (Bool.eq_false_iff.mpr hc)).symm)
    rw [Bool.and_eq_true]
    exact ⟨h.fresh, h.keyword⟩

theorem findKeyword_firstCut {keyword : Text} (hkeyword : IsKeyword keyword) (s : Text) :
    FirstCut (Stands keyword none true) s (findKeyword keyword s) :=
  seekKeyword_firstCut hkeyword (by simp) true s

theorem findKeyword_eq_some {keyword before rest s : Text} (hkeyword : IsKeyword keyword)
    (h : findKeyword keyword s = some (before, rest)) : s = before ++ rest ∧ Closed before := by
  have hcut := findKeyword_firstCut hkeyword s
  rw [h] at hcut
  exact ⟨hcut.1, hcut.2.1.closed⟩

def Lacks (keyword s : Text) : Prop :=
  ∀ before rest, s = before ++ rest → ¬Stands keyword none true before rest

theorem findKeyword_eq_none {keyword s : Text} (hkeyword : IsKeyword keyword) :
    findKeyword keyword s = none ↔ Lacks keyword s := by
  have hcut := findKeyword_firstCut hkeyword s
  constructor
  · intro h
    rwa [h] at hcut
  · intro hs
    cases hfind : findKeyword keyword s with
    | none => rfl
    | some found =>
      rw [hfind] at hcut
      exact absurd hcut.2.1 (hs found.1 found.2 hcut.1)

theorem findKeyword_append {keyword s t : Text} (hkeyword : IsKeyword keyword) (hclosed : Closed s)
    (hs : Lacks keyword s) (ht : (afterKeyword keyword t).isSome = true) :
    findKeyword keyword (s ++ ' ' :: t) = some (s ++ [' '], t) := by
  have htext : s ++ ' ' :: t = (s ++ [' ']) ++ t := by
    rw [List.append_assoc]
    rfl
  have hcut := findKeyword_firstCut hkeyword (s ++ ' ' :: t)
  rw [htext] at hcut ⊢
  refine hcut.eq_some ⟨hclosed.append (by decide), ?_, ht⟩ fun before rest heq hstands => ?_
  · rw [List.getLast?_concat]
    rfl
  · by_cases hlong : (s ++ [' ']).length ≤ before.length
    · exact hlong
    -- Otherwise the place is inside of the text, where the keyword does not stand.
    have hle : before.length ≤ s.length := by
      rw [List.length_append, List.length_singleton] at hlong
      omega
    rw [← htext] at heq
    obtain ⟨rest', rfl, rfl⟩ : ∃ rest', s = before ++ rest' ∧ rest = rest' ++ ' ' :: t := by
      rcases List.append_eq_append_iff.mp heq with ⟨between, rfl, hrest⟩ | h
      · rw [List.length_append] at hle
        obtain rfl : between = [] := List.length_eq_zero_iff.mp (by omega)
        exact ⟨[], by simp, hrest.symm⟩
      · exact h
    have hword := hstands.keyword
    rw [isSome_afterKeyword_append_space hkeyword] at hword
    exact absurd ⟨hstands.closed, hstands.fresh, hword⟩ (hs before rest' rfl)

end TwinGraph.Query
