import TwinGraph.Proofs.Query.Printing

/-! Path patterns are read back from their texts, in front of whatever may follow them. -/
namespace TwinGraph

open Query Scan

namespace Scan

variable {α : Type} {p : Scanner α} {s rest : Text} {a : α}

theorem optional_of_some (h : p s = some (a, rest)) : optional p s = (some a, rest) := by
  rw [optional, h]

theorem optional_of_none (h : p s = none) : optional p s = (none, s) := by
  rw [optional, h]

/-- The texts of several things one after another are read one by one, if each of them can be
read in front of what may follow it. -/
theorem many_append (write : α → Text) (Follows : Text → Prop) {items : List α}
    (hread : ∀ a ∈ items, ∀ t, Follows t → p (write a ++ t) = some (a, t))
    (hwrite : ∀ a ∈ items, write a ≠ [] ∧ ∀ t, Follows (write a ++ t))
    (hrest : Follows rest) (hend : p rest = none) :
    many p ((items.map write).flatten ++ rest) = (items, rest) := by
  have hlength : items.length ≤ ((items.map write).flatten ++ rest).length := by
    clear hread
    induction items with
    | nil => exact Nat.zero_le _
    | cons a items ih =>
      rw [List.forall_mem_cons] at hwrite
      have hpos := List.length_pos_iff.mpr hwrite.1.1
      have hitems := ih hwrite.2
      rw [List.map_cons, List.flatten_cons, List.append_assoc, List.length_append, List.length_cons]
      omega
  have hall : ∀ bound, items.length ≤ bound →
      upTo p bound ((items.map write).flatten ++ rest) = (items, rest) := by
    clear hlength
    induction items with
    | nil => exact fun bound _ => upTo_of_none hend bound
    | cons a items ih =>
      intro bound hbound
      rw [List.forall_mem_cons] at hread hwrite
      obtain ⟨bound, rfl⟩ : ∃ b, bound = b + 1 := ⟨bound - 1, by simp at hbound; omega⟩
      have hfollows : Follows ((items.map write).flatten ++ rest) := by
        cases items with
        | nil => exact hrest
        | cons b items =>
          rw [List.map_cons, List.flatten_cons, List.append_assoc]
          exact (hwrite.2 b List.mem_cons_self).2 _
      have hmore := ih hread.2 hwrite.2 bound (Nat.le_of_succ_le_succ hbound)
      rw [List.map_cons, List.flatten_cons, List.append_assoc, upTo, hread.1 _ hfollows]
      dsimp only
      rw [hmore]
  exact hall _ hlength

theorem separated_eq (separator first : Text) (more : List Text) :
    Text.separated separator (first :: more) =
      first ++ (more.map (separator ++ ·)).flatten := by
  induction more generalizing first with
  | nil => simp [Text.separated]
  | cons next more ih =>
    rw [Text.separated, List.intercalate_cons_cons, ← Text.separated, ih, List.map_cons,
      List.flatten_cons, List.append_assoc, List.append_assoc]

theorem listOf_append {separator : Text → Option Text} (write : α → Text) (mark : Text)
    (Follows : Text → Prop) {items : List α} (hne : items ≠ [])
    (hread : ∀ a ∈ items, ∀ t, Follows t → p (write a ++ t) = some (a, t))
    (hmark : mark ≠ []) (hfollows : ∀ t, Follows (mark ++ t))
    (hseparator : ∀ a ∈ items, ∀ t, separator (mark ++ (write a ++ t)) = some (write a ++ t))
    (hrest : Follows rest) (hend : separator rest = none) :
    listOf separator p (Text.separated mark (items.map write) ++ rest) = some (items, rest) := by
  obtain ⟨first, more, rfl⟩ := List.exists_cons_of_ne_nil hne
  rw [List.forall_mem_cons] at hread hseparator
  have hmore : many (fun s => separator s >>= p)
      ((more.map fun a => mark ++ write a).flatten ++ rest) = (more, rest) := by
    refine many_append (fun a => mark ++ write a) Follows (fun a ha t ht => ?_)
      (fun a _ => ⟨?_, fun t => ?_⟩) hrest ?_
    · rw [List.append_assoc, hseparator.2 a ha t]
      exact hread.2 a ha t ht
    · exact List.append_ne_nil_of_left_ne_nil hmark _
    · rw [List.append_assoc]
      exact hfollows _
    · rw [hend]
      rfl
  have hnext : Follows ((more.map fun a => mark ++ write a).flatten ++ rest) := by
    cases more with
    | nil => exact hrest
    | cons b more =>
      rw [List.map_cons, List.flatten_cons, List.append_assoc, List.append_assoc]
      exact hfollows _
  have htext : Text.separated mark ((first :: more).map write) ++ rest =
      write first ++ ((more.map fun a => mark ++ write a).flatten ++ rest) := by
    rw [List.map_cons, separated_eq, List.map_map, List.append_assoc]
    rfl
  rw [htext, listOf, hread.1 _ hnext]
  dsimp only [Option.bind_some, bind]
  dsimp only [bind] at hmore
  rw [hmore]

theorem span_append {test : Char → Bool} {s : Text} (rest : Text) (hs : ∀ c ∈ s, test c = true)
    (hrest : rest.head?.any test = false) :
    (s ++ rest).takeWhile test = s ∧ (s ++ rest).dropWhile test = rest := by
  induction s with
  | nil =>
    cases rest with
    | nil => exact ⟨rfl, rfl⟩
    | cons c rest =>
      have hc : test c = false := hrest
      rw [List.nil_append, List.takeWhile_cons, List.dropWhile_cons, hc]
      exact ⟨rfl, rfl⟩
  | cons c s ih =>
    rw [List.forall_mem_cons] at hs
    obtain ⟨htake, hdrop⟩ := ih hs.2
    rw [List.cons_append, List.takeWhile_cons, List.dropWhile_cons, hs.1, htake, hdrop]
    exact ⟨rfl, rfl⟩

end Scan

namespace Query

theorem skipGaps_of_head {s : Text} (hs : s.head?.any isGap = false) : skipGaps s = s :=
  (span_append (s := []) s (by simp) hs).2

theorem skipGaps_space {s : Text} (hs : s.head?.any isGap = false) : skipGaps (' ' :: s) = s :=
  (span_append (s := [' ']) s (by decide) hs).2

theorem not_isGap_of_isNameChar {c : Char} (h : isNameChar c = true) : isGap c = false := by
  refine Bool.eq_false_iff.mpr fun hgap => ?_
  have hblank := isBlank_of_isGap hgap
  rw [not_isBlank_of_isNameChar h] at hblank
  cases hblank

theorem not_isNameChar_of_isGap {c : Char} (h : isGap c = true) : isNameChar c = false := by
  refine Bool.eq_false_iff.mpr fun hname => ?_
  rw [not_isGap_of_isNameChar hname] at h
  cases h

theorem isIdentifier_eq_true {name : Text} :
    isIdentifier name = true ↔ ∃ c cs, name = c :: cs ∧ isNameStart c = true ∧
      ∀ d ∈ cs, isNameChar d = true := by
  cases name with
  | nil => simp [isIdentifier]
  | cons c cs =>
    rw [isIdentifier, Bool.and_eq_true, List.all_eq_true]
    constructor
    · exact fun h => ⟨c, cs, rfl, h⟩
    · rintro ⟨_, _, heq, h⟩
      cases heq
      exact h

theorem isNameChar_of_mem {name : Text} (hname : isIdentifier name = true) :
    ∀ c ∈ name, isNameChar c = true := by
  obtain ⟨c, cs, rfl, hc, hcs⟩ := isIdentifier_eq_true.mp hname
  exact List.forall_mem_cons.mpr ⟨isNameChar_of_isNameStart hc, hcs⟩

theorem scanName_append {name rest : Text} (hname : isIdentifier name = true)
    (hrest : rest.head?.any isNameChar = false) : scanName (name ++ rest) = some (name, rest) := by
  obtain ⟨c, cs, rfl, hc, hcs⟩ := isIdentifier_eq_true.mp hname
  obtain ⟨htake, hdrop⟩ := span_append rest hcs hrest
  rw [List.cons_append, scanName, if_pos hc, htake, hdrop]

theorem scanDigits_append {digits rest : Text} (hne : digits ≠ [])
    (hdigits : ∀ c ∈ digits, c.isDigit = true) (hrest : rest.head?.any Char.isDigit = false) :
    scanDigits (digits ++ rest) = some (digits, rest) := by
  obtain ⟨c, cs, rfl⟩ := List.exists_cons_of_ne_nil hne
  rw [List.forall_mem_cons] at hdigits
  obtain ⟨htake, hdrop⟩ := span_append rest hdigits.2 hrest
  rw [List.cons_append, scanDigits, if_pos hdigits.1, htake, hdrop]

theorem scanName_of_head {s : Text} (hs : s.head?.any isNameChar = false) : scanName s = none := by
  cases s with
  | nil => rfl
  | cons c cs =>
    have hc : isNameChar c = false := hs
    have hstart : ¬isNameStart c = true := by
      intro h
      rw [isNameChar_of_isNameStart h] at hc
      cases hc
    rw [scanName, if_neg hstart]

/-- A name is no keyword unless it has its letters. -/
theorem afterKeyword_name {keyword name t : Text} (hkeyword : IsKeyword keyword)
    (hname : isIdentifier name = true) (hne : name.sameLetters keyword = false)
    (ht : t.head?.any isNameChar = false) : afterKeyword keyword (name ++ t) = none := by
  cases hword : afterKeyword keyword (name ++ t) with
  | none => rfl
  | some rest =>
    obtain ⟨word, heq, hsame, hhead⟩ := afterKeyword_eq_some hword
    have hfront := (span_append t (isNameChar_of_mem hname) ht).1
    rw [heq, (span_append rest (isNameChar_of_sameLetters hkeyword hsame) hhead).1] at hfront
    rw [hfront, hne] at hsame
    cases hsame

/-- Neither a name nor a gap goes on into the text. -/
structure Stops (s : Text) : Prop where
  name : s.head?.any isNameChar = false
  gap : s.head?.any isGap = false

theorem head?_gap {name : Text} (hname : isIdentifier name = true) (t : Text) :
    (name ++ t).head?.any isGap = false := by
  obtain ⟨c, cs, rfl, hc, -⟩ := isIdentifier_eq_true.mp hname
  exact not_isGap_of_isNameChar (isNameChar_of_isNameStart hc)

theorem optional_scanName {var : Option Text} (hvar : ∀ name ∈ var, isIdentifier name = true)
    {t : Text} (ht : Stops t) :
    Scan.optional scanName (skipGaps (var.getD [] ++ t)) = (var, t) := by
  cases var with
  | none =>
    rw [Option.getD_none, List.nil_append, skipGaps_of_head ht.gap]
    exact optional_of_none (scanName_of_head ht.name)
  | some name =>
    have hname := hvar name rfl
    rw [Option.getD_some, skipGaps_of_head (head?_gap hname t)]
    exact optional_of_some (scanName_append hname ht.name)

theorem afterSpaced_cons {c : Char} (hc : isGap c = false) {t : Text}
    (ht : t.head?.any isGap = false) : afterSpaced c (c :: t) = some t := by
  have hfront : skipGaps (c :: t) = c :: t := skipGaps_of_head hc
  have hmark : Text.after? [c] (c :: t) = some t := Text.after?_eq_some_iff.mpr rfl
  rw [afterSpaced, hfront, hmark, Option.map_some, skipGaps_of_head ht]

end Query

theorem NodePattern.scan_print {n : NodePattern} (hn : n.Legal) (rest : Text) :
    NodePattern.scan (n.print ++ rest) = some (n, rest) := by
  obtain ⟨var, label⟩ := n
  have htext : print ⟨var, label⟩ ++ rest =
      '(' :: (var.getD [] ++ (labelPart label ++ ')' :: rest)) := by
    simp [print]
  have hopen : ∀ t : Text, Text.after? ['('] ('(' :: t) = some t := fun _ => rfl
  have hstops : Stops (labelPart label ++ ')' :: rest) := by
    cases label <;> exact ⟨rfl, rfl⟩
  have hlabel : Scan.optional scanLabel (labelPart label ++ ')' :: rest) =
      (label, ')' :: rest) := by
    cases label with
    | none => exact optional_of_none rfl
    | some name =>
      have hname := hn.label name rfl
      apply optional_of_some
      rw [labelPart, List.cons_append, scanLabel, afterSpaced_cons rfl (head?_gap hname _)]
      exact scanName_append hname rfl
  have hclose : Text.after? [')'] (skipGaps (')' :: rest)) = some rest := rfl
  rw [htext, NodePattern.scan, hopen]
  simp only [Option.bind_eq_bind, Option.bind_some, optional_scanName hn.var hstops, hlabel, hclose]

namespace EdgeDetail

theorem scanHops_append {hops : Text} (hhops : IsHops hops) (rest : Text) :
    scanHops (hops ++ ']' :: rest) = some (hops, ']' :: rest) := by
  obtain ⟨least, hleast, rfl | ⟨most, hmost, rfl⟩⟩ := hhops
  · obtain ⟨htake, hdrop⟩ := span_append (']' :: rest) hleast rfl
    have hstar : Text.after? ['*'] ('*' :: least ++ ']' :: rest) =
        some (least ++ ']' :: rest) := rfl
    have hdots : Text.after? ['.', '.'] (']' :: rest) = none := rfl
    simp only [scanHops, Option.bind_eq_bind, hstar, Option.bind_some, htake, hdrop, hdots]
  · obtain ⟨htake, hdrop⟩ := span_append ('.' :: '.' :: (most ++ ']' :: rest)) hleast rfl
    obtain ⟨htake', hdrop'⟩ := span_append (']' :: rest) hmost rfl
    have hstar : Text.after? ['*'] ('*' :: least ++ '.' :: '.' :: most ++ ']' :: rest) =
        some (least ++ '.' :: '.' :: (most ++ ']' :: rest)) := by
      rw [Text.after?_eq_some_iff]
      simp
    have hdots : Text.after? ['.', '.'] ('.' :: '.' :: (most ++ ']' :: rest)) =
        some (most ++ ']' :: rest) := rfl
    simp only [scanHops, Option.bind_eq_bind, hstar, Option.bind_some, htake, hdrop, hdots, htake',
      hdrop']

def labelsPart (labels : List Text) : Text :=
  if labels.isEmpty then [] else ':' :: Text.separated "|" labels

theorem scanLabels_append {labels : List Text} (hne : labels ≠ [])
    (hlabels : ∀ label ∈ labels, isIdentifier label = true) {rest : Text} (hrest : Stops rest)
    (hend : afterSpaced '|' rest = none) :
    scanLabels (labelsPart labels ++ rest) = some (labels, rest) := by
  have hlist : listOf (afterSpaced '|') scanName (Text.separated "|" labels ++ rest) =
      some (labels, rest) := by
    have h : listOf (afterSpaced '|') scanName (Text.separated "|" (labels.map id) ++ rest) =
        some (labels, rest) := listOf_append id "|" (fun t => t.head?.any isNameChar = false) hne
      (fun a ha t ht => scanName_append (hlabels a ha) ht) (by decide) (fun _ => rfl)
      (fun a ha t => afterSpaced_cons rfl (head?_gap (hlabels a ha) t)) hrest.name hend
    rwa [List.map_id] at h
  have hhead : (Text.separated "|" labels ++ rest).head?.any isGap = false := by
    obtain ⟨first, more, rfl⟩ := List.exists_cons_of_ne_nil hne
    rw [separated_eq, List.append_assoc]
    exact head?_gap (hlabels first List.mem_cons_self) _
  rw [labelsPart, if_neg (by simpa using hne), List.cons_append, scanLabels,
    afterSpaced_cons rfl hhead]
  exact hlist

theorem scan_render {d : EdgeDetail} (hd : d.Legal) (rest : Text) :
    EdgeDetail.scan ('[' :: (d.render ++ ']' :: rest)) = some (d, rest) := by
  obtain ⟨var, labels, hops⟩ := d
  have htext : render ⟨var, labels, hops⟩ ++ ']' :: rest =
      var.getD [] ++ (labelsPart labels ++ (hops.getD [] ++ ']' :: rest)) := by
    simp [render, labelsPart, Text.joined]
  -- Behind the labels stands the star of the hops or the bracket.
  have hback : ∃ c t, hops.getD [] ++ ']' :: rest = c :: t ∧ (c = '*' ∨ c = ']') := by
    cases hops with
    | none => exact ⟨']', rest, rfl, Or.inr rfl⟩
    | some hops =>
      obtain ⟨least, -, rfl | ⟨most, -, rfl⟩⟩ := hd.hops hops rfl
      · exact ⟨'*', _, rfl, Or.inl rfl⟩
      · exact ⟨'*', _, rfl, Or.inl rfl⟩
  have hstops : Stops (hops.getD [] ++ ']' :: rest) := by
    obtain ⟨c, t, htext, rfl | rfl⟩ := hback
    all_goals
      rw [htext]
      exact ⟨rfl, rfl⟩
  have hlabels : Scan.optional scanLabels (labelsPart labels ++ (hops.getD [] ++ ']' :: rest)) =
      (if labels.isEmpty then none else some labels, hops.getD [] ++ ']' :: rest) := by
    cases labels with
    | nil =>
      obtain ⟨c, t, htext, rfl | rfl⟩ := hback
      all_goals
        rw [htext]
        exact optional_of_none rfl
    | cons first more =>
      refine optional_of_some (scanLabels_append (List.cons_ne_nil _ _) hd.labels hstops ?_)
      obtain ⟨c, t, htext, rfl | rfl⟩ := hback
      all_goals
        rw [htext]
        rfl
  have hstops' : Stops (labelsPart labels ++ (hops.getD [] ++ ']' :: rest)) := by
    cases labels with
    | nil => exact hstops
    | cons first more => exact ⟨rfl, rfl⟩
  have hhops : Scan.optional scanHops (hops.getD [] ++ ']' :: rest) = (hops, ']' :: rest) := by
    cases hops with
    | none => exact optional_of_none rfl
    | some hops => exact optional_of_some (scanHops_append (hd.hops hops rfl) rest)
  have hopen : ∀ t : Text, Text.after? ['['] ('[' :: t) = some t := fun _ => rfl
  have hclose : Text.after? [']'] (skipGaps (']' :: rest)) = some rest := rfl
  have hfound : (if labels.isEmpty then none else some labels : Option (List Text)).getD [] =
      labels := by
    cases labels <;> rfl
  rw [htext, EdgeDetail.scan, hopen]
  simp only [Option.bind_eq_bind, Option.bind_some, optional_scanName hd.var hstops', hlabels,
    hhops, hclose, hfound]

end EdgeDetail

theorem EdgePattern.scan_render {e : EdgePattern} (he : e.Legal) (rest : Text) :
    EdgePattern.scan (e.render ++ '(' :: rest) = some (e, '(' :: rest) := by
  obtain ⟨direction, detail⟩ := e
  cases detail with
  | none => cases direction <;> rfl
  | some detail =>
    have hdetail := fun t => EdgeDetail.scan_render (he detail rfl) t
    have hbracketed : scanBracketed (render ⟨direction, some detail⟩ ++ '(' :: rest) =
        some (⟨direction, some detail⟩, '(' :: rest) := by
      cases direction with
      | outgoing =>
        have htext : render ⟨.outgoing, some detail⟩ ++ '(' :: rest =
            '-' :: '[' :: (detail.render ++ ']' :: '-' :: '>' :: '(' :: rest) := by
          simp [render, Direction.arrow, Text.joined]
        have hdash : ∀ t, Text.after? ['-'] ('-' :: t) = some t := fun _ => rfl
        have hincoming : ∀ t, Text.after? ['<', '-'] ('-' :: t) = none := fun _ => rfl
        have hend : ∀ t, Text.after? ['-', '>'] ('-' :: '>' :: t) = some t := fun _ => rfl
        simp only [htext, scanBracketed, hincoming, Option.bind_eq_bind, hdash, Option.bind_some,
          hdetail, hend]
      | incoming =>
        have htext : render ⟨.incoming, some detail⟩ ++ '(' :: rest =
            '<' :: '-' :: '[' :: (detail.render ++ ']' :: '-' :: '(' :: rest) := by
          simp [render, Direction.arrow, Text.joined]
        have hdash : ∀ t, Text.after? ['-'] ('-' :: t) = some t := fun _ => rfl
        have hincoming : ∀ t, Text.after? ['<', '-'] ('<' :: '-' :: t) = some t := fun _ => rfl
        simp only [htext, scanBracketed, hincoming, Option.bind_eq_bind, hdash, Option.bind_some,
          hdetail]
      | either =>
        have htext : render ⟨.either, some detail⟩ ++ '(' :: rest =
            '-' :: '[' :: (detail.render ++ ']' :: '-' :: '(' :: rest) := by
          simp [render, Direction.arrow, Text.joined]
        have hdash : ∀ t, Text.after? ['-'] ('-' :: t) = some t := fun _ => rfl
        have hincoming : ∀ t, Text.after? ['<', '-'] ('-' :: t) = none := fun _ => rfl
        have hend : ∀ t, Text.after? ['-', '>'] ('-' :: '(' :: t) = none := fun _ => rfl
        simp only [htext, scanBracketed, hincoming, Option.bind_eq_bind, hdash, Option.bind_some,
          hdetail, hend]
    rw [EdgePattern.scan, hbracketed]
    rfl

namespace PathPattern

theorem scanStep_print {step : EdgePattern × NodePattern} (hedge : step.1.Legal)
    (hnode : step.2.Legal) (rest : Text) :
    scanStep (printStep step ++ rest) = some (step, rest) := by
  obtain ⟨edge, node⟩ := step
  obtain ⟨t, ht⟩ : ∃ t, node.print = '(' :: t := ⟨_, rfl⟩
  have htext : printStep (edge, node) ++ rest = edge.render ++ '(' :: (t ++ rest) := by
    rw [printStep, ht, List.append_assoc]
    rfl
  have hgap : (edge.render ++ '(' :: (t ++ rest)).head?.any isGap = false := by
    obtain ⟨direction, detail⟩ := edge
    cases detail <;> cases direction <;> rfl
  have hread : NodePattern.scan (skipGaps ('(' :: (t ++ rest))) = some (node, rest) := by
    have hprint : '(' :: (t ++ rest) = node.print ++ rest := by
      rw [ht]
      rfl
    have hfront : skipGaps ('(' :: (t ++ rest)) = '(' :: (t ++ rest) := rfl
    rw [hfront, hprint, NodePattern.scan_print hnode]
  simp only [scanStep, htext, skipGaps_of_head hgap, EdgePattern.scan_render hedge,
    Option.bind_eq_bind, Option.bind_some, hread]

theorem printStep_ne_nil (step : EdgePattern × NodePattern) : printStep step ≠ [] :=
  List.append_ne_nil_of_right_ne_nil _ (List.cons_ne_nil _ _)

theorem scan_print {p : PathPattern} (hp : p.Legal) {rest : Text} (hrest : scanStep rest = none) :
    PathPattern.scan (p.print ++ rest) = some (p, rest) := by
  obtain ⟨start, chain⟩ := p
  have hchain : many scanStep ((chain.map printStep).flatten ++ rest) = (chain, rest) :=
    many_append printStep (fun _ => True)
      (fun step hstep t _ => scanStep_print (hp.chain step hstep).1 (hp.chain step hstep).2 t)
      (fun step _ => ⟨printStep_ne_nil step, fun _ => trivial⟩) trivial hrest
  simp only [PathPattern.scan, print, List.append_assoc, NodePattern.scan_print hp.start,
    Option.bind_eq_bind, Option.bind_some, hchain]

end PathPattern

theorem scanPaths_print {comma : Text} (hcomma : comma = "," ∨ comma = ", ")
    {patterns : List PathPattern} (hne : patterns ≠ []) (hpatterns : ∀ p ∈ patterns, p.Legal) :
    scanPaths (Text.separated comma (patterns.map PathPattern.print)) = some (patterns, []) := by
  have h : listOf (afterSpaced ',') PathPattern.scan
      (Text.separated comma (patterns.map PathPattern.print) ++ []) = some (patterns, []) :=
    listOf_append PathPattern.print comma (fun t => PathPattern.scanStep t = none) hne
      (fun p hp t ht => PathPattern.scan_print (hpatterns p hp) ht)
      (by rcases hcomma with rfl | rfl <;> decide)
      (fun t => by rcases hcomma with rfl | rfl <;> rfl)
      (fun p _ t => by rcases hcomma with rfl | rfl <;> rfl) rfl rfl
  rwa [List.append_nil] at h

end TwinGraph
