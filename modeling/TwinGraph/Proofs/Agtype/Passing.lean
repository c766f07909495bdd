import TwinGraph.Proofs.Agtype.Unannotated
import TwinGraph.Proofs.Json.SameValue
import TwinGraph.Proofs.Json.Spelled

/-! No annotation starts in a JSON text, whatever strings and names are in it and however they are
spelled: such a text comes out as it is. -/
namespace TwinGraph

open Agtype Json

namespace Agtype

variable {p q r : Place} {s t : Text} {c : Char}

/-- The text leads from place to place, and no annotation starts in it. -/
def Passes (p : Place) (s : Text) (q : Place) : Prop := s.foldlM Place.next? p = some q

namespace Passes

theorem nil (p : Place) : Passes p [] p := rfl

theorem append (h : Passes p s q) (h' : Passes q t r) : Passes p (s ++ t) r := by
  rw [Passes, List.foldlM_append, h]
  exact h'

theorem cons (hc : p.next? c = some q) (h : Passes q s r) : Passes p (c :: s) r := by
  rw [Passes, List.foldlM_cons, hc]
  exact h

theorem plain_cons (hquote : c ≠ '"') (hcolon : c ≠ ':') (h : Passes .plain s r) :
    Passes .plain (c :: s) r :=
  cons (by rw [Place.next?, Place.behind, if_neg hquote, if_neg hcolon]) h

theorem of_ordinary (hs : ∀ c ∈ s, c ≠ '"' ∧ c ≠ ':') : Passes .plain s .plain := by
  induction s with
  | nil => exact nil _
  | cons c s ih =>
    rw [List.forall_mem_cons] at hs
    exact plain_cons hs.1.1 hs.1.2 (ih hs.2)

end Passes

/-- The text is one of a value, which may also stand behind a colon. -/
def Enters (s : Text) : Prop := ∀ p, p = .plain ∨ p = .colon → Passes p s .plain

namespace Enters

theorem plain (h : Enters s) : Passes .plain s .plain := h .plain (Or.inl rfl)

theorem colon (h : Enters s) : Passes .colon s .plain := h .colon (Or.inr rfl)

theorem cons (hquote : c ≠ '"') (hcolon : c ≠ ':') (h : Passes .plain s .plain) :
    Enters (c :: s) := by
  rintro p (rfl | rfl)
  · exact .plain_cons hquote hcolon h
  · exact .cons (by rw [Place.next?, Place.behind, if_neg hcolon, if_neg hquote, if_neg hcolon]) h

theorem append (h : Enters s) (ht : Passes .plain t .plain) : Enters (s ++ t) :=
  fun p hp => (h p hp).append ht

theorem of_ordinary (hne : s ≠ []) (hs : ∀ c ∈ s, c ≠ '"' ∧ c ≠ ':') : Enters s := by
  obtain ⟨c, s, rfl⟩ := List.exists_cons_of_ne_nil hne
  rw [List.forall_mem_cons] at hs
  exact cons hs.1.1 hs.1.2 (.of_ordinary hs.2)

theorem behind (hs : ∀ c ∈ s, c ≠ '"' ∧ c ≠ ':') (h : Enters t) : Enters (s ++ t) := by
  cases s with
  | nil => exact h
  | cons c s =>
    rw [List.forall_mem_cons] at hs
    exact cons hs.1.1 hs.1.2 ((Passes.of_ordinary hs.2).append h.plain)

end Enters

end Agtype

namespace Json

theorem Gap.ordinary {s : Text} (h : Gap s) : ∀ c ∈ s, c ≠ '"' ∧ c ≠ ':' := by
  intro c hc
  have hspace := h c hc
  constructor <;> rintro rfl <;> cases hspace

/-! ### Numbers -/

theorem not_mark_of_isDigit {c : Char} (h : c.isDigit = true) : c ≠ '"' ∧ c ≠ ':' := by
  constructor <;> rintro rfl <;> cases h

theorem Fraction.ordinary {fraction : Option Text} {s : Text} (h : Fraction fraction s) :
    ∀ c ∈ s, c ≠ '"' ∧ c ≠ ':' := by
  cases h with
  | none => exact fun c hc => absurd hc List.not_mem_nil
  | places hdigits =>
    exact List.forall_mem_cons.mpr ⟨by decide, fun c hc => not_mark_of_isDigit (hdigits.2 c hc)⟩

theorem Exponent.ordinary {exponent : Option Int} {s : Text} (h : Exponent exponent s) :
    ∀ c ∈ s, c ≠ '"' ∧ c ≠ ':' := by
  have hletter : ∀ {e : Char}, e = 'e' ∨ e = 'E' → e ≠ '"' ∧ e ≠ ':' := by
    rintro e (rfl | rfl) <;> decide
  cases h with
  | none => exact fun c hc => absurd hc List.not_mem_nil
  | positive he hmark hdigits =>
    rw [List.cons_append, List.forall_mem_cons, List.forall_mem_append]
    refine ⟨hletter he, ?_, fun c hc => not_mark_of_isDigit (hdigits.2 c hc)⟩
    rcases hmark with rfl | rfl
    · exact List.forall_mem_nil _
    · exact List.forall_mem_singleton.mpr (by decide)
  | negative he hdigits =>
    rw [List.forall_mem_cons, List.forall_mem_cons]
    exact ⟨hletter he, by decide, fun c hc => not_mark_of_isDigit (hdigits.2 c hc)⟩

theorem Numeral.enters {n : Number} {s : Text} (h : Numeral n s) : Enters s := by
  have hsign : ∀ negative, ∀ c ∈ sign negative, c ≠ '"' ∧ c ≠ ':' := by
    intro negative
    cases negative with
    | false => exact List.forall_mem_nil _
    | true => exact List.forall_mem_singleton.mpr (by decide)
  cases h with
  | @whole negative digits hdigits _ =>
    exact .behind (hsign negative)
      (.of_ordinary hdigits.nonempty fun c hc => not_mark_of_isDigit (hdigits.digit c hc))
  | @scaled negative digits _ _ _ _ hdigits hpoint htail _ _ =>
    rw [List.append_assoc]
    refine .behind (hsign negative) (.append ?_ ?_)
    · exact .of_ordinary hdigits.nonempty fun c hc => not_mark_of_isDigit (hdigits.digit c hc)
    · exact (Passes.of_ordinary hpoint.ordinary).append (.of_ordinary htail.ordinary)

/-! ### Strings -/

theorem not_mark_of_hexValue {c : Char} {n : Nat} (h : hexValue c = some n) :
    c ≠ '\\' ∧ c ≠ '"' := by
  constructor <;> rintro rfl <;> cases h

theorem passes_quoted {s t : Text} (ht : ∀ c ∈ t, c ≠ '\\' ∧ c ≠ '"')
    (h : Passes .quoted s .quoted) : Passes .quoted (t ++ s) .quoted := by
  induction t with
  | nil => exact h
  | cons c t ih =>
    rw [List.forall_mem_cons] at ht
    exact .cons (by rw [Place.next?, if_neg ht.1.1, if_neg ht.1.2]) (ih ht.2)

theorem passes_escaped {s : Text} (c : Char) (h : Passes .quoted s .quoted) :
    Passes .quoted ('\\' :: c :: s) .quoted :=
  .cons rfl (.cons rfl h)

theorem passes_unit {a b c d : Char} {unit : Nat} {s : Text}
    (hunit : unitValue a b c d = some unit) (h : Passes .quoted s .quoted) :
    Passes .quoted ('\\' :: 'u' :: a :: b :: c :: d :: s) .quoted := by
  obtain ⟨_, ha, hunit⟩ := Option.bind_eq_some_iff.mp hunit
  obtain ⟨_, hb, hunit⟩ := Option.bind_eq_some_iff.mp hunit
  obtain ⟨_, hc, hunit⟩ := Option.bind_eq_some_iff.mp hunit
  obtain ⟨_, hd, -⟩ := Option.bind_eq_some_iff.mp hunit
  have hdigits : ∀ x ∈ [a, b, c, d], x ≠ '\\' ∧ x ≠ '"' := by
    rw [List.forall_mem_cons, List.forall_mem_cons, List.forall_mem_cons, List.forall_mem_singleton]
    exact ⟨not_mark_of_hexValue ha, not_mark_of_hexValue hb, not_mark_of_hexValue hc,
      not_mark_of_hexValue hd⟩
  exact passes_escaped 'u' (passes_quoted hdigits h)

theorem Quoted.passes {text body : Text} (h : Quoted text body) :
    Passes .quoted body .quoted := by
  induction h with
  | nil => exact .nil _
  | plain hquote hslash _ _ ih =>
    exact .cons (by rw [Place.next?, if_neg hslash, if_neg hquote]) ih
  | escape _ _ ih => exact passes_escaped _ ih
  | unit hunit _ _ ih => exact passes_unit hunit ih
  | pair hhigh _ hlow _ _ ih => exact passes_unit hhigh (passes_unit hlow ih)

theorem Quoted.enters {text body : Text} (h : Quoted text body) : Enters ('"' :: body ++ ['"']) := by
  have hbody : Passes .quoted (body ++ ['"']) .plain := h.passes.append (.cons rfl (.nil _))
  rintro p (rfl | rfl) <;> exact .cons rfl hbody

theorem Key.passes {name key : Text} (h : Key name key) : Passes .plain key .plain := by
  cases h with
  | @key body front back hfront hbody hback =>
    have htext : front ++ '"' :: body ++ '"' :: back = front ++ ('"' :: body ++ ['"']) ++ back := by
      simp
    rw [htext]
    exact ((Passes.of_ordinary hfront.ordinary).append hbody.enters.plain).append
      (.of_ordinary hback.ordinary)

/-! ### Values -/

theorem passes_separated {parts : List Text} (h : ∀ part ∈ parts, Passes .plain part .plain) :
    Passes .plain (Text.separated "," parts) .plain := by
  induction parts with
  | nil => exact .nil _
  | cons part parts ih =>
    rw [List.forall_mem_cons] at h
    by_cases hne : parts = []
    · rw [hne, Text.separated, List.intercalate_singleton]
      exact h.1
    · rw [Text.separated, List.intercalate_cons_of_ne_nil hne]
      exact (h.1.append (.plain_cons (by decide) (by decide) (.nil _))).append (ih h.2)

theorem enters_bracketed {opening closing : Char} (hopening : opening ≠ '"' ∧ opening ≠ ':')
    (hclosing : closing ≠ '"' ∧ closing ≠ ':') {gap : Text} (hgap : Gap gap) {parts : List Text}
    (h : ∀ part ∈ parts, Passes .plain part .plain) :
    Enters (opening :: gap ++ (Text.separated "," parts ++ [closing])) :=
  .cons hopening.1 hopening.2 ((Passes.of_ordinary hgap.ordinary).append
    ((passes_separated h).append (.plain_cons hclosing.1 hclosing.2 (.nil _))))

theorem Spelled.enters {j : Json} {s : Text} (h : Spelled j s) : Enters s := by
  induction h with
  | null | true | false => rintro p (rfl | rfl) <;> rfl
  | number hn => exact hn.enters
  | string hbody => exact hbody.enters
  | array hgap _ ih =>
    exact enters_bracketed (by decide) (by decide) hgap
      (List.forall_mem_map.mpr fun part hpart => (ih part hpart).plain)
  | object hgap hkeys _ _ ih =>
    refine enters_bracketed (by decide) (by decide) hgap (List.forall_mem_map.mpr fun m hm => ?_)
    exact (hkeys m hm).passes.append (.cons rfl (ih m hm).colon)
  | padded hfront _ hback ih =>
    exact .append (.behind hfront.ordinary ih) (.of_ordinary hback.ordinary)

theorem Spelled.wellFormed {j : Json} {s : Text} (h : Spelled j s) : j.WellFormed := by
  induction h with
  | null | true | false | number | string => exact trivial
  | array _ _ ih => exact wellFormedItems_iff.mpr (List.forall_mem_map.mpr ih)
  | object _ _ _ hfields ih =>
    refine ⟨hfields.nodup, wellFormedFields_iff.mpr fun field hfield => ?_⟩
    obtain ⟨m, hm, rfl⟩ := List.mem_map.mp (hfields.mem_of_mem hfield)
    exact ih m hm
  | padded _ _ _ ih => exact ih

/-- A JSON text comes out as it is, and no object of its value names a field twice. -/
theorem plainText_of_read {depth : Nat} {s : Text} {j : Json} (h : Json.read depth s = some j) :
    plainText s = s ∧ j.WellFormed :=
  have hspelled := spelled_of_read h
  ⟨plainText_of_places hspelled.enters.plain, hspelled.wellFormed⟩

end Json

end TwinGraph
