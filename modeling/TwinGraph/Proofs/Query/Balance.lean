import Mathlib.Data.List.Infix
import TwinGraph.Proofs.Query.Joining

/-! Parentheses outside of string literals. They are the parenthesis tokens of a text, and the tokens
are grouped exactly if each of them that opens is closed again. -/
namespace TwinGraph

open Query Scan

def isParen (c : Char) : Bool := c == '(' || c == ')'

def Parenless (s : Text) : Prop := ∀ c ∈ s, isParen c = false

instance (s : Text) : Decidable (Parenless s) := inferInstanceAs (Decidable (∀ c ∈ s, _))

/-- Behind so many open parentheses no part of the text closes more than are open, and at its end all
of them are closed. -/
structure Closes (opened : Nat) (s : Text) : Prop where
  within : ∀ front, front <+: s → front.count ')' ≤ opened + front.count '('
  all : s.count ')' = opened + s.count '('

def Balanced (s : Text) : Prop := Closes 0 s

instance (opened : Nat) (s : Text) : Decidable (Closes opened s) :=
  decidable_of_iff ((∀ front ∈ s.inits, front.count ')' ≤ opened + front.count '(') ∧
    s.count ')' = opened + s.count '(')
    ⟨fun h => ⟨fun front hfront => h.1 front ((List.mem_inits front s).mpr hfront), h.2⟩,
      fun h => ⟨fun front hfront => h.within front ((List.mem_inits front s).mp hfront), h.all⟩⟩

instance (s : Text) : Decidable (Balanced s) := inferInstanceAs (Decidable (Closes 0 s))

theorem not_isParen_of {test : Char → Bool} {c : Char} (h : test c = true)
    (hopening : test '(' = false) (hclosing : test ')' = false) : isParen c = false := by
  refine Bool.eq_false_iff.mpr fun hparen => ?_
  rw [isParen, Bool.or_eq_true, beq_iff_eq, beq_iff_eq] at hparen
  rcases hparen with rfl | rfl
  · rw [hopening] at h
    cases h
  · rw [hclosing] at h
    cases h

theorem IsPath.parenless {s : Text} (h : IsPath s) : Parenless s := fun c hc =>
  not_isParen_of (h c hc) (by decide) (by decide)

/-! ### Counting -/

theorem closes_nil {opened : Nat} : Closes opened [] ↔ opened = 0 := by
  constructor
  · intro h
    simpa [eq_comm] using h.all
  · rintro rfl
    exact ⟨fun front hfront => by simp [List.prefix_nil.mp hfront], rfl⟩

theorem closes_cons {opened : Nat} {c : Char} {s : Text} : Closes opened (c :: s) ↔
    (∀ front, front <+: s → (c :: front).count ')' ≤ opened + (c :: front).count '(') ∧
      (c :: s).count ')' = opened + (c :: s).count '(' := by
  constructor
  · intro h
    exact ⟨fun front hfront => h.within _ (List.cons_prefix_cons.mpr ⟨rfl, hfront⟩), h.all⟩
  · rintro ⟨hwithin, hall⟩
    refine ⟨fun front hfront => ?_, hall⟩
    rcases List.prefix_cons_iff.mp hfront with rfl | ⟨front', rfl, hfront'⟩
    · simp
    · exact hwithin front' hfront'

theorem closes_opening {opened : Nat} {s : Text} :
    Closes opened ('(' :: s) ↔ Closes (opened + 1) s := by
  have hne : '(' ≠ ')' := by decide
  simp only [closes_cons, List.count_cons_self, List.count_cons_of_ne hne]
  constructor
  · rintro ⟨hwithin, hall⟩
    refine ⟨fun front hfront => ?_, by omega⟩
    have hcount := hwithin front hfront
    omega
  · rintro ⟨hwithin, hall⟩
    refine ⟨fun front hfront => ?_, by omega⟩
    have hcount := hwithin front hfront
    omega

theorem closes_closing {opened : Nat} {s : Text} :
    Closes opened (')' :: s) ↔ ∃ before, opened = before + 1 ∧ Closes before s := by
  have hne : ')' ≠ '(' := by decide
  simp only [closes_cons, List.count_cons_self, List.count_cons_of_ne hne]
  constructor
  · rintro ⟨hwithin, hall⟩
    have hfirst := hwithin [] List.nil_prefix
    rw [List.count_nil, List.count_nil] at hfirst
    refine ⟨opened - 1, by omega, fun front hfront => ?_, by omega⟩
    have hcount := hwithin front hfront
    omega
  · rintro ⟨before, rfl, hwithin, hall⟩
    refine ⟨fun front hfront => ?_, by omega⟩
    have hcount := hwithin front hfront
    omega

theorem closes_other {opened : Nat} {c : Char} {s : Text} (hc : isParen c = false) :
    Closes opened (c :: s) ↔ Closes opened s := by
  rw [isParen, Bool.or_eq_false_iff, beq_eq_false_iff_ne, beq_eq_false_iff_ne] at hc
  rw [closes_cons]
  simp only [List.count_cons_of_ne hc.1, List.count_cons_of_ne hc.2]
  exact ⟨fun h => ⟨h.1, h.2⟩, fun h => ⟨h.within, h.all⟩⟩

theorem eq_of_isParen {c : Char} (h : isParen c = true) : c = '(' ∨ c = ')' := by
  rwa [isParen, Bool.or_eq_true, beq_iff_eq, beq_iff_eq] at h

theorem closes_filter {opened : Nat} {s : Text} :
    Closes opened (s.filter isParen) ↔ Closes opened s := by
  induction s generalizing opened with
  | nil => rfl
  | cons c s ih =>
    by_cases hc : isParen c = true
    · rw [List.filter_cons_of_pos hc]
      rcases eq_of_isParen hc with rfl | rfl
      · rw [closes_opening, closes_opening, ih]
      · simp only [closes_closing, ih]
    · rw [List.filter_cons_of_neg hc, ih, closes_other (Bool.eq_false_iff.mpr hc)]

theorem Closes.append {opened more : Nat} {s t : Text} (hs : Closes opened s)
    (ht : Closes more t) : Closes (opened + more) (s ++ t) := by
  induction s generalizing opened with
  | nil =>
    rw [closes_nil.mp hs, Nat.zero_add]
    exact ht
  | cons c s ih =>
    rw [List.cons_append]
    by_cases hc : isParen c = true
    · rcases eq_of_isParen hc with rfl | rfl
      · have hrest := ih (closes_opening.mp hs)
        rw [closes_opening]
        rwa [Nat.add_right_comm] at hrest
      · obtain ⟨before, rfl, hrest⟩ := closes_closing.mp hs
        exact closes_closing.mpr ⟨before + more, by omega, ih hrest⟩
    · rw [Bool.not_eq_true] at hc
      exact (closes_other hc).mpr (ih ((closes_other hc).mp hs))

theorem balanced_of_parenless {s : Text} (h : Parenless s) : Balanced s := by
  induction s with
  | nil => exact closes_nil.mpr rfl
  | cons c s ih =>
    rw [Parenless, List.forall_mem_cons] at h
    exact (closes_other h.1).mpr (ih h.2)

theorem Balanced.append {s t : Text} (hs : Balanced s) (ht : Balanced t) : Balanced (s ++ t) :=
  Closes.append hs ht

theorem Balanced.group {s : Text} (hs : Balanced s) : Balanced ('(' :: s ++ [')']) := by
  have hend : Closes 1 [')'] := closes_closing.mpr ⟨0, rfl, closes_nil.mpr rfl⟩
  exact closes_opening.mpr (Closes.append hs hend)

/-! ### What stands outside of the literals -/

namespace Query

open Token

/-- A literal, which is left out, or a single character. -/
def scanOutside : Scanner Text
  | [] => none
  | c :: cs =>
    if isQuote c then
      match closeQuote c cs with
      | some (_, rest) => some ([], rest)
      | none => some ([c], cs)
    else some ([c], cs)

def outside (s : Text) : Text := (many scanOutside s).1.flatten

theorem scanOutside_shortens : Shortens scanOutside := by
  intro s t rest h
  cases s with
  | nil => cases h
  | cons c cs =>
    rw [scanOutside] at h
    split at h
    · split at h
      · next body rest' hclose =>
        cases h
        rw [(closeQuote_eq_some hclose).1, List.length_cons, List.length_append]
        omega
      · cases h
        exact Nat.lt_succ_self _
    · cases h
      exact Nat.lt_succ_self _

theorem outside_nil : outside [] = [] := rfl

theorem outside_of_scanOutside {s t rest : Text} (h : scanOutside s = some (t, rest)) :
    outside s = t ++ outside rest := by
  unfold outside
  rw [many_of_some scanOutside_shortens h]
  rfl

theorem outside_plain {c : Char} (hc : isQuote c = false) (s : Text) :
    outside (c :: s) = c :: outside s :=
  outside_of_scanOutside (t := [c]) (by rw [scanOutside, hc]; rfl)

theorem outside_literal {c : Char} (hc : isQuote c = true) {s body rest : Text}
    (h : closeQuote c s = some (body, rest)) : outside (c :: s) = outside rest :=
  outside_of_scanOutside (t := []) (by rw [scanOutside, if_pos hc, h])

theorem outside_lone {c : Char} (hc : isQuote c = true) {s : Text} (h : closeQuote c s = none) :
    outside (c :: s) = c :: outside s :=
  outside_of_scanOutside (t := [c]) (by rw [scanOutside, if_pos hc, h])

theorem outside_append_left {s : Text} (hs : Quoteless s) (t : Text) :
    outside (s ++ t) = s ++ outside t := by
  induction s with
  | nil => rfl
  | cons c s ih =>
    rw [Quoteless, List.forall_mem_cons] at hs
    rw [List.cons_append, outside_plain hs.1, ih hs.2, List.cons_append]

theorem outside_of_quoteless {s : Text} (hs : Quoteless s) : outside s = s := by
  have h := outside_append_left hs []
  rwa [List.append_nil, outside_nil, List.append_nil] at h

theorem outside_append {s : Text} (hs : Closed s) (t : Text) :
    outside (s ++ t) = outside s ++ outside t := by
  induction s using marks_induction with
  | nil => rfl
  | plain c s hc ih =>
    rw [List.cons_append, outside_plain hc, outside_plain hc, ih ((closed_plain hc).mp hs),
      List.cons_append]
  | literal c s body rest hc hclose ih =>
    obtain ⟨body', rest', hclose', hrest⟩ := (closed_quote hc).mp hs
    rw [hclose] at hclose'
    cases hclose'
    rw [List.cons_append, outside_literal hc (closeQuote_append hclose t), ih hrest,
      outside_literal hc hclose]
  | lone c s hc hclose _ =>
    obtain ⟨body, rest, hclose', -⟩ := (closed_quote hc).mp hs
    rw [hclose] at hclose'
    cases hclose'

end Query

/-! ### Parenthesis tokens -/

namespace Token

def parens : Token → Text
  | opening => ['(']
  | closing => [')']
  | word _ | literal _ | space _ | symbol _ => []

theorem scanNumber_parenless {s number rest : Text} (h : scanNumber s = some (number, rest)) :
    Parenless number := fun c hc =>
  not_isParen_of (scanNumber_chars h c hc) (by decide) (by decide)

theorem scanOperator_parenless {s x rest : Text} (h : scanOperator s = some (symbol x, rest)) :
    Parenless x := by
  unfold scanOperator at h
  split at h
  case h_7 hopening hclosing =>
    cases h
    refine List.forall_mem_singleton.mpr (Bool.eq_false_iff.mpr fun hc => ?_)
    rcases eq_of_isParen hc with rfl | rfl
    · exact hopening rfl
    · exact hclosing rfl
  all_goals
    cases h
    try decide

theorem parens_of_scan {s rest : Text} {t : Token} (h : scan s = some (t, rest))
    (hquote : Quoteless t.text) : t.text.filter isParen = t.parens := by
  have hnone : ∀ x : Text, Parenless x → x.filter isParen = [] := fun x hx =>
    List.filter_eq_nil_iff.mpr fun c hc => by simp [hx c hc]
  cases t with
  | opening | closing => rfl
  | word w => exact hnone w (scanPath_isPath (scanPath_of_scan h)).parenless
  | literal l =>
    rcases literal_of_scan h with hstring | hnumber
    · obtain ⟨q, s', body, hq, rfl, rfl, -⟩ := scanString_eq_some hstring
      have hplain := hquote q List.mem_cons_self
      rw [hq] at hplain
      cases hplain
    · exact hnone l (scanNumber_parenless hnumber)
  | space gaps =>
    refine hnone gaps fun c hc => ?_
    exact not_isParen_of ((scanSpace_eq_some (space_of_scan h)).2.1 c hc) (by decide) (by decide)
  | symbol x => exact hnone x (scanOperator_parenless (symbol_of_scan h))

/-- The parenthesis tokens of a text are its parentheses outside of string literals. -/
theorem parens_ofText (s : Text) : (ofText s).flatMap parens = (outside s).filter isParen := by
  induction s using tokens_induction with
  | nil => rfl
  | cons s t rest hscan ih =>
    rw [ofText_of_scan hscan, List.flatMap_cons, ih]
    cases scanned_of_scan hscan with
    | string hc hclose => rw [outside_literal hc hclose, parens, List.nil_append]
    | @lone c _ hc hclose =>
      have hparen : isParen c = false := not_isParen_of hc (by decide) (by decide)
      rw [outside_lone hc hclose, List.filter_cons_of_neg (by simp [hparen]), parens,
        List.nil_append]
    | plain heq hne hquote =>
      rw [heq, outside_append_left hquote, List.filter_append, parens_of_scan hscan hquote]

end Token

namespace Item

open Token

/-- Tokens are grouped exactly if their parentheses close what is open, and no more. -/
theorem isSome_assemble_iff (frames : List Frame) (items : List Item) (ts : List Token) :
    (assemble frames items ts).isSome = true ↔ Closes frames.length (ts.flatMap parens) := by
  fun_induction assemble frames items ts with
  | case1 items => exact iff_of_true rfl (closes_nil.mpr rfl)
  | case2 frame frames items => simp [closes_nil]
  | case3 frames items rest ih =>
    rw [ih, List.flatMap_cons, parens, List.singleton_append, closes_opening]
    rfl
  | case4 items rest => simp [parens, closes_closing]
  | case5 frame frames items rest ih =>
    rw [ih, List.flatMap_cons, parens, List.singleton_append, closes_closing, List.length_cons]
    simp
  | case6 frames items s rest ih | case7 frames items s rest ih | case8 frames items s rest ih
  | case9 frames items s rest ih =>
    rw [ih, List.flatMap_cons, parens, List.nil_append]

theorem exists_ofText?_iff (s : Text) :
    (∃ items, ofText? s = some items) ↔ Balanced (outside s) := by
  rw [← Option.isSome_iff_exists, ofText?, isSome_assemble_iff, parens_ofText, closes_filter]
  rfl

end Item
end TwinGraph
