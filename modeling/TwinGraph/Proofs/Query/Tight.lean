import Mathlib.Data.List.Chain
import TwinGraph.Proofs.Query.Patterns

/-! No keyword stands alone in the text of a pattern: its words begin behind a parenthesis that
opens, a bracket or a mark between them. -/
namespace TwinGraph

open Query Scan

/-- No word starts at the front, behind a space or behind a closing parenthesis. -/
structure Tight (s : Text) : Prop where
  head : ∀ c ∈ s.head?, isNameChar c = false
  chain : s.IsChain fun c d => endsWord c = true → isNameChar d = false
  quoteless : ∀ c ∈ s, isQuote c = false

theorem tight_nil : Tight [] := ⟨by simp, .nil, by simp⟩

theorem Tight.append {s t : Text} (hs : Tight s) (ht : Tight t) : Tight (s ++ t) := by
  refine ⟨fun c hc => ?_, hs.chain.append ht.chain fun _ _ d hd _ => ht.head d hd, ?_⟩
  · cases s with
    | nil => exact ht.head c hc
    | cons d s => exact hs.head c hc
  · exact List.forall_mem_append.mpr ⟨hs.quoteless, ht.quoteless⟩

theorem Tight.flatten {parts : List Text} (h : ∀ part ∈ parts, Tight part) :
    Tight parts.flatten := by
  induction parts with
  | nil => exact tight_nil
  | cons part parts ih =>
    rw [List.forall_mem_cons] at h
    rw [List.flatten_cons]
    exact h.1.append (ih h.2)

def IsPlain (s : Text) : Prop := ∀ c ∈ s, isQuote c = false ∧ endsWord c = false

instance (s : Text) : Decidable (IsPlain s) := inferInstanceAs (Decidable (∀ c ∈ s, _))

theorem IsPlain.append {s t : Text} (hs : IsPlain s) (ht : IsPlain t) : IsPlain (s ++ t) :=
  List.forall_mem_append.mpr ⟨hs, ht⟩

theorem tight_plain {s : Text} (hhead : ∀ c ∈ s.head?, isNameChar c = false) (hs : IsPlain s) :
    Tight s := by
  refine ⟨hhead, ?_, fun c hc => (hs c hc).1⟩
  rw [List.isChain_iff_forall_rel_of_append_cons_cons]
  rintro c d front back rfl hend
  have hplain := (hs c (by simp)).2
  rw [hend] at hplain
  cases hplain

theorem isPlain_of_nameChars {s : Text} (hs : ∀ c ∈ s, isNameChar c = true) : IsPlain s := by
  intro c hc
  have hchar := hs c hc
  refine ⟨not_quote_of_isNameChar hchar, Bool.eq_false_iff.mpr fun hend => ?_⟩
  simp only [endsWord, Bool.or_eq_true, beq_iff_eq] at hend
  rcases hend with ((((rfl | rfl) | rfl) | rfl) | rfl) | rfl <;> exact absurd hchar (by decide)

theorem isPlain_name {name : Text} (hname : isIdentifier name = true) : IsPlain name :=
  isPlain_of_nameChars (isNameChar_of_mem hname)

theorem isPlain_digits {digits : Text} (h : ∀ c ∈ digits, c.isDigit = true) : IsPlain digits :=
  isPlain_of_nameChars fun c hc => by simp [isNameChar, Char.isAlphanum, h c hc]

theorem isPlain_var {var : Option Text} (h : ∀ name ∈ var, isIdentifier name = true) :
    IsPlain (var.getD []) := by
  cases var with
  | none => exact fun _ hc => absurd hc List.not_mem_nil
  | some name => exact isPlain_name (h name rfl)

theorem NodePattern.tight_print {n : NodePattern} (hn : n.Legal) : Tight n.print := by
  obtain ⟨var, label⟩ := n
  have hlabel : IsPlain (labelPart label) := by
    cases label with
    | none => exact fun _ hc => absurd hc List.not_mem_nil
    | some label => exact List.forall_mem_cons.mpr ⟨by decide, isPlain_name (hn.label label rfl)⟩
  have hfront : Tight ('(' :: (var.getD [] ++ labelPart label)) :=
    tight_plain (by simp; decide)
      (List.forall_mem_cons.mpr ⟨by decide, (isPlain_var hn.var).append hlabel⟩)
  have hclose : Tight [')'] := ⟨by decide, .singleton _, by decide⟩
  have htext : print ⟨var, label⟩ = '(' :: (var.getD [] ++ labelPart label) ++ [')'] := by
    simp [print]
  rw [htext]
  exact hfront.append hclose

theorem EdgeDetail.isPlain_render {d : EdgeDetail} (hd : d.Legal) : IsPlain d.render := by
  obtain ⟨var, labels, hops⟩ := d
  have hlabels : IsPlain (labelsPart labels) := by
    cases labels with
    | nil => exact fun _ hc => absurd hc List.not_mem_nil
    | cons first more =>
      have hall := List.forall_mem_cons.mp hd.labels
      rw [labelsPart, if_neg (by simp), separated_eq]
      refine List.forall_mem_cons.mpr ⟨by decide, (isPlain_name hall.1).append ?_⟩
      intro c hc
      obtain ⟨part, hpart, hc⟩ := List.mem_flatten.mp hc
      obtain ⟨label, hlabel, rfl⟩ := List.mem_map.mp hpart
      exact IsPlain.append (s := ['|']) (by decide) (isPlain_name (hall.2 label hlabel)) c hc
  have hhops : IsPlain (hops.getD []) := by
    cases hops with
    | none => exact fun _ hc => absurd hc List.not_mem_nil
    | some hops =>
      obtain ⟨least, hleast, rfl | ⟨most, hmost, rfl⟩⟩ := hd.hops hops rfl
      · exact List.forall_mem_cons.mpr ⟨by decide, isPlain_digits hleast⟩
      · have hfront : IsPlain ('*' :: least) :=
          List.forall_mem_cons.mpr ⟨by decide, isPlain_digits hleast⟩
        have hback : IsPlain ('.' :: '.' :: most) :=
          List.forall_mem_cons.mpr
            ⟨by decide, List.forall_mem_cons.mpr ⟨by decide, isPlain_digits hmost⟩⟩
        exact hfront.append hback
  have htext : render ⟨var, labels, hops⟩ = var.getD [] ++ (labelsPart labels ++ hops.getD []) := by
    simp [render, labelsPart, Text.joined]
  rw [htext]
  exact (isPlain_var hd.var).append (hlabels.append hhops)

theorem EdgePattern.tight_render {e : EdgePattern} (he : e.Legal) : Tight e.render := by
  obtain ⟨direction, detail⟩ := e
  cases detail with
  | none => cases direction <;> exact tight_plain (by decide) (by decide)
  | some detail =>
    have hdetail := EdgeDetail.isPlain_render (he detail rfl)
    have hleft : IsPlain (direction.arrow.1 ++ ['[']) := by cases direction <;> decide
    have hright : IsPlain (']' :: direction.arrow.2) := by cases direction <;> decide
    have htext : render ⟨direction, some detail⟩ =
        direction.arrow.1 ++ ['['] ++ (detail.render ++ ']' :: direction.arrow.2) := by
      simp [render, Text.joined]
    rw [htext]
    refine tight_plain ?_ (hleft.append (hdetail.append hright))
    cases direction <;> exact fun c hc => by cases hc; decide

namespace PathPattern

theorem tight_print {p : PathPattern} (hp : p.Legal) : Tight p.print := by
  refine (NodePattern.tight_print hp.start).append (Tight.flatten fun part hpart => ?_)
  obtain ⟨step, hstep, rfl⟩ := List.mem_map.mp hpart
  obtain ⟨hedge, hnode⟩ := hp.chain step hstep
  exact (EdgePattern.tight_render hedge).append (NodePattern.tight_print hnode)

theorem tight_separated {comma : Text} (hcomma : comma = "," ∨ comma = ", ")
    {patterns : List PathPattern} (hpatterns : ∀ p ∈ patterns, p.Legal) :
    Tight (Text.separated comma (patterns.map print)) := by
  cases patterns with
  | nil => exact tight_nil
  | cons first more =>
    rw [List.forall_mem_cons] at hpatterns
    have hmark : Tight comma := by
      rcases hcomma with rfl | rfl
      · exact tight_plain (by decide) (by decide)
      · exact Tight.append (s := [',']) (t := [' ']) (tight_plain (by decide) (by decide))
          ⟨by decide, .singleton _, by decide⟩
    rw [List.map_cons, separated_eq]
    refine (tight_print hpatterns.1).append (Tight.flatten fun part hpart => ?_)
    obtain ⟨text, htext, rfl⟩ := List.mem_map.mp hpart
    obtain ⟨p, hp, rfl⟩ := List.mem_map.mp htext
    exact hmark.append (tight_print (hpatterns.2 p hp))

theorem getLast?_flatten {first : Text} {parts : List Text} {c : Char}
    (hfirst : first.getLast? = some c) (hparts : ∀ part ∈ parts, part.getLast? = some c) :
    (first ++ parts.flatten).getLast? = some c := by
  induction parts generalizing first with
  | nil => rwa [List.flatten_nil, List.append_nil]
  | cons part parts ih =>
    rw [List.forall_mem_cons] at hparts
    rw [List.flatten_cons, ← List.append_assoc]
    apply ih _ hparts.2
    rw [List.getLast?_append, hparts.1]
    rfl

theorem getLast?_append_node (s : Text) (n : NodePattern) :
    (s ++ n.print).getLast? = some ')' := by
  have htext : s ++ n.print =
      s ++ '(' :: (n.var.getD [] ++ NodePattern.labelPart n.label) ++ [')'] := by
    simp [NodePattern.print]
  rw [htext, List.getLast?_concat]

/-- A pattern ends with the parenthesis of its last node. -/
theorem getLast?_print (p : PathPattern) : p.print.getLast? = some ')' := by
  refine getLast?_flatten (getLast?_append_node [] p.start) fun part hpart => ?_
  obtain ⟨step, -, rfl⟩ := List.mem_map.mp hpart
  exact getLast?_append_node step.1.render step.2

theorem getLast?_separated (comma : Text) {patterns : List PathPattern} (hne : patterns ≠ []) :
    (Text.separated comma (patterns.map print)).getLast? = some ')' := by
  obtain ⟨first, more, rfl⟩ := List.exists_cons_of_ne_nil hne
  rw [List.map_cons, separated_eq]
  refine getLast?_flatten (getLast?_print first) fun part hpart => ?_
  obtain ⟨text, htext, rfl⟩ := List.mem_map.mp hpart
  obtain ⟨p, -, rfl⟩ := List.mem_map.mp htext
  rw [List.getLast?_append, getLast?_print]
  rfl

end PathPattern

theorem Tight.lacks {s keyword : Text} (hs : Tight s) (hkeyword : IsKeyword keyword) :
    Lacks keyword s := by
  rintro before rest rfl hstands
  obtain ⟨rest', hrest⟩ := Option.isSome_iff_exists.mp hstands.keyword
  obtain ⟨word, rfl, hsame, -⟩ := afterKeyword_eq_some hrest
  obtain ⟨c, word, rfl⟩ : ∃ c cs, word = c :: cs := by
    refine List.exists_cons_of_ne_nil ?_
    rintro rfl
    obtain ⟨k, ks, rfl⟩ := List.exists_cons_of_ne_nil hkeyword.1
    cases hsame
  have hc := isNameChar_of_sameLetters hkeyword hsame c List.mem_cons_self
  have hplain : isNameChar c = false := by
    rcases List.eq_nil_or_concat before with rfl | ⟨init, d, rfl⟩
    · exact hs.head c rfl
    · have hend : endsWord d = true := by
        have hfresh := hstands.fresh
        rwa [List.concat_eq_append, List.getLast?_concat] at hfresh
      have htext : init.concat d ++ (c :: word ++ rest') = init ++ d :: c :: (word ++ rest') := by
        simp
      exact List.isChain_iff_forall_rel_of_append_cons_cons.mp hs.chain htext hend
  rw [hc] at hplain
  cases hplain

end TwinGraph
