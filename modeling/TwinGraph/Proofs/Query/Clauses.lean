import TwinGraph.Query.Reading
import TwinGraph.Proofs.Outcome
import TwinGraph.Proofs.Query.Keyword
import TwinGraph.Proofs.Query.Respacing

/-! The conditions of a query that is read stand at its end, and every quote in front of them is
closed: the words and the patterns of a query have no quotes, and the keyword behind the
projections is not looked for inside of a literal. -/
namespace TwinGraph

open Query Scan

namespace Query

theorem skips_after? {p s rest : Text} (hp : ∀ c ∈ p, isQuote c = false)
    (h : Text.after? p s = some rest) : Skips s rest :=
  ⟨p, Text.after?_eq_some_iff.mp h, hp⟩

theorem skips_skipGaps (s : Text) : Skips s (skipGaps s) :=
  .dropWhile (fun _ => not_quote_of_isGap) s

theorem skips_trimLeft (s : Text) : Skips s s.trimLeft :=
  .dropWhile (fun _ => not_quote_of_isBlank) s

theorem skips_afterGap {s rest : Text} (h : afterGap s = some rest) : Skips s rest := by
  cases s with
  | nil => cases h
  | cons c cs =>
    rw [afterGap] at h
    split at h
    · next hgap =>
      cases h
      exact (Skips.cons (not_quote_of_isGap hgap) cs).trans (skips_skipGaps cs)
    · cases h

theorem skips_afterSpaced {c : Char} (hc : isQuote c = false) {s rest : Text}
    (h : afterSpaced c s = some rest) : Skips s rest := by
  obtain ⟨s', hs', rfl⟩ := Option.map_eq_some_iff.mp h
  have hsymbol : Skips (skipGaps s) s' :=
    skips_after? (fun d hd => by rw [List.mem_singleton.mp hd]; exact hc) hs'
  exact ((skips_skipGaps s).trans hsymbol).trans (skips_skipGaps s')

theorem skips_afterLetters {keyword s rest : Text}
    (hkeyword : ∀ k ∈ keyword, isQuote k.toLower = false)
    (h : afterLetters keyword s = some rest) : Skips s rest := by
  induction keyword generalizing s with
  | nil =>
    cases h
    exact .refl _
  | cons k ks ih =>
    rw [List.forall_mem_cons] at hkeyword
    cases s with
    | nil => cases h
    | cons c cs =>
      rw [afterLetters] at h
      split at h
      · next hletter =>
        have hquote : isQuote c = false := by
          refine Bool.eq_false_iff.mpr fun hc => ?_
          have hlower := toLower_of_isQuote hc
          rw [← hletter, hkeyword.1] at hlower
          cases hlower
        exact (Skips.cons hquote cs).trans (ih hkeyword.2 h)
      · cases h

theorem skips_afterKeyword {keyword s rest : Text}
    (hkeyword : ∀ k ∈ keyword, isQuote k.toLower = false)
    (h : afterKeyword keyword s = some rest) : Skips s rest := by
  unfold afterKeyword at h
  split at h
  · cases h
  · next hletters =>
    split at h
    · cases h
    · cases h
      exact skips_afterLetters hkeyword hletters

theorem skips_scanName {s name rest : Text} (h : scanName s = some (name, rest)) : Skips s rest :=
  scanName_readsText.skips h

theorem skips_scanAlias {s name rest : Text} (h : scanAlias s = some (name, rest)) :
    Skips s rest := by
  unfold scanAlias at h
  split at h
  · cases h
  · next hname =>
    split at h
    · cases h
    · simp only [Option.some.injEq, Prod.mk.injEq] at h
      obtain ⟨rfl, rfl⟩ := h
      exact skips_scanName hname

end Query

theorem NodePattern.skips_scan {s rest : Text} {node : NodePattern}
    (h : NodePattern.scan s = some (node, rest)) : Skips s rest := by
  simp only [NodePattern.scan, Option.bind_eq_bind, Option.bind_eq_some_iff, Option.some.injEq,
    Prod.mk.injEq] at h
  obtain ⟨s₁, hopen, s₂, hclose, -, rfl⟩ := h
  have hvar := skips_optional (p := scanName) skips_scanName (skipGaps s₁)
  have hlabel := skips_optional (p := NodePattern.scanLabel)
    (fun {s a rest} h => by
      obtain ⟨s', hcolon, hname⟩ := Option.bind_eq_some_iff.mp h
      exact (skips_afterSpaced (by decide) hcolon).trans (skips_scanName hname))
    (Scan.optional scanName (skipGaps s₁)).2
  exact ((((skips_after? (by decide) hopen).trans (skips_skipGaps s₁)).trans hvar).trans
    hlabel).trans ((skips_skipGaps _).trans (skips_after? (by decide) hclose))

namespace EdgeDetail

theorem skips_scanHops {s hops rest : Text} (h : scanHops s = some (hops, rest)) :
    Skips s rest := by
  simp only [scanHops, Option.bind_eq_bind, Option.bind_eq_some_iff] at h
  obtain ⟨s₁, hstar, h⟩ := h
  have hleast : Skips s (s₁.dropWhile Char.isDigit) :=
    (skips_after? (by decide) hstar).trans (.dropWhile (fun _ => not_quote_of_isDigit) s₁)
  split at h
  · simp only [Option.some.injEq, Prod.mk.injEq] at h
    obtain ⟨-, rfl⟩ := h
    exact hleast
  · next s₂ hdots =>
    simp only [Option.some.injEq, Prod.mk.injEq] at h
    obtain ⟨-, rfl⟩ := h
    exact (hleast.trans (skips_after? (by decide) hdots)).trans
      (.dropWhile (fun _ => not_quote_of_isDigit) s₂)

theorem skips_scanLabels {s rest : Text} {labels : List Text}
    (h : scanLabels s = some (labels, rest)) : Skips s rest := by
  obtain ⟨s₁, hcolon, hlabels⟩ := Option.bind_eq_some_iff.mp h
  exact (skips_afterSpaced (by decide) hcolon).trans
    (skips_listOf (skips_afterSpaced (by decide)) skips_scanName hlabels)

theorem skips_scan {s rest : Text} {detail : EdgeDetail}
    (h : EdgeDetail.scan s = some (detail, rest)) : Skips s rest := by
  simp only [EdgeDetail.scan, Option.bind_eq_bind, Option.bind_eq_some_iff, Option.some.injEq,
    Prod.mk.injEq] at h
  obtain ⟨s₁, hopen, s₂, hclose, -, rfl⟩ := h
  have hvar := skips_optional (p := scanName) skips_scanName (skipGaps s₁)
  have hlabels := skips_optional (p := scanLabels) skips_scanLabels
    (Scan.optional scanName (skipGaps s₁)).2
  have hhops := skips_optional (p := scanHops) skips_scanHops
    (Scan.optional scanLabels (Scan.optional scanName (skipGaps s₁)).2).2
  exact (((((skips_after? (by decide) hopen).trans (skips_skipGaps s₁)).trans hvar).trans
    hlabels).trans hhops).trans ((skips_skipGaps _).trans (skips_after? (by decide) hclose))

end EdgeDetail

namespace EdgePattern

theorem skips_scanBracketed {s rest : Text} {edge : EdgePattern}
    (h : scanBracketed s = some (edge, rest)) : Skips s rest := by
  unfold scanBracketed at h
  split at h
  · next s₁ harrow =>
    simp only [Option.bind_eq_bind, Option.bind_eq_some_iff, Option.some.injEq,
      Prod.mk.injEq] at h
    obtain ⟨⟨detail, s₂⟩, hdetail, s₃, hend, -, rfl⟩ := h
    exact ((skips_after? (by decide) harrow).trans (EdgeDetail.skips_scan hdetail)).trans
      (skips_after? (by decide) hend)
  · simp only [Option.bind_eq_bind, Option.bind_eq_some_iff] at h
    obtain ⟨s₁, hdash, ⟨detail, s₂⟩, hdetail, h⟩ := h
    have hfront := (skips_after? (by decide) hdash).trans (EdgeDetail.skips_scan hdetail)
    dsimp only at h
    split at h
    · next hend =>
      simp only [Option.some.injEq, Prod.mk.injEq] at h
      obtain ⟨-, rfl⟩ := h
      exact hfront.trans (skips_after? (by decide) hend)
    · simp only [Option.bind_eq_some_iff, Option.some.injEq, Prod.mk.injEq] at h
      obtain ⟨s₃, hend, -, rfl⟩ := h
      exact hfront.trans (skips_after? (by decide) hend)

theorem skips_scanBare {s rest : Text} {edge : EdgePattern} (h : scanBare s = some (edge, rest)) :
    Skips s rest := by
  unfold scanBare at h
  split at h
  case h_4 => cases h
  all_goals
    simp only [Option.some.injEq, Prod.mk.injEq] at h
    obtain ⟨-, rfl⟩ := h
  · exact ⟨['-', '-', '>'], rfl, by decide⟩
  · exact ⟨['<', '-', '-'], rfl, by decide⟩
  · exact ⟨['-', '-'], rfl, by decide⟩

theorem skips_scan {s rest : Text} {edge : EdgePattern} (h : EdgePattern.scan s = some (edge, rest)) :
    Skips s rest := by
  rcases Option.or_eq_some_iff.mp h with h | ⟨-, h⟩
  · exact skips_scanBracketed h
  · exact skips_scanBare h

end EdgePattern

namespace PathPattern

theorem skips_scanStep {s rest : Text} {step : EdgePattern × NodePattern}
    (h : scanStep s = some (step, rest)) : Skips s rest := by
  simp only [scanStep, Option.bind_eq_bind, Option.bind_eq_some_iff, Option.some.injEq,
    Prod.mk.injEq] at h
  obtain ⟨⟨edge, s₁⟩, hedge, ⟨node, s₂⟩, hnode, -, rfl⟩ := h
  exact ((skips_skipGaps s).trans (EdgePattern.skips_scan hedge)).trans
    ((skips_skipGaps s₁).trans (NodePattern.skips_scan hnode))

theorem skips_scan {s rest : Text} {path : PathPattern} (h : PathPattern.scan s = some (path, rest)) :
    Skips s rest := by
  simp only [PathPattern.scan, Option.bind_eq_bind, Option.bind_eq_some_iff, Option.some.injEq,
    Prod.mk.injEq] at h
  obtain ⟨⟨start, s₁⟩, hstart, -, rfl⟩ := h
  exact (NodePattern.skips_scan hstart).trans (skips_many skips_scanStep s₁)

end PathPattern

theorem skips_scanPaths {s rest : Text} {paths : List PathPattern}
    (h : scanPaths s = some (paths, rest)) : Skips s rest :=
  skips_listOf (skips_afterSpaced (by decide)) PathPattern.skips_scan h

namespace Source

theorem skips_scanAliasAfterGap (s : Text) : Skips s (scanAliasAfterGap s).2 :=
  skips_optional (p := fun s => afterGap s >>= scanAlias) (fun {s a rest} h => by
    obtain ⟨s', hgap, halias⟩ := Option.bind_eq_some_iff.mp h
    exact (skips_afterGap hgap).trans (skips_scanAlias halias)) s

theorem skips_clauseEnd {s rest : Text} (h : clauseEnd s = some rest) : Skips s rest := by
  unfold clauseEnd at h
  dsimp only at h
  split at h
  · cases h
    exact skips_trimLeft s
  · cases h

theorem skips_scanCollection {kind : Collection} {s rest : Text} {source : Source}
    (h : scanCollection kind s = some (source, rest)) : Skips s rest := by
  simp only [scanCollection, Option.bind_eq_bind, Option.bind_eq_some_iff, Option.some.injEq,
    Prod.mk.injEq] at h
  obtain ⟨s', hend, -, rfl⟩ := h
  exact (skips_scanAliasAfterGap s).trans (skips_clauseEnd hend)

theorem skips_scanJoin {s rest : Text} {link : Join} (h : scanJoin s = some (link, rest)) :
    Skips s rest := by
  simp only [scanJoin, Option.bind_eq_bind, Option.bind_eq_some_iff, Option.some.injEq,
    Prod.mk.injEq] at h
  obtain ⟨s₁, hgap₁, s₂, hjoin, s₃, hgap₃, ⟨target, s₄⟩, htarget, s₅, hgap₅, s₆, hrelated, s₇,
    hgap₇, ⟨source, s₈⟩, hsource, s₉, hdot, ⟨relationship, s₁₀⟩, hrelationship, -, rfl⟩ := h
  have hfront : Skips s s₄ :=
    (((skips_afterGap hgap₁).trans (skips_afterKeyword (by decide) hjoin)).trans
      (skips_afterGap hgap₃)).trans (skips_scanAlias htarget)
  have hmiddle : Skips s₄ s₈ :=
    (((skips_afterGap hgap₅).trans (skips_afterKeyword (by decide) hrelated)).trans
      (skips_afterGap hgap₇)).trans (skips_scanAlias hsource)
  have hback : Skips s₈ s₁₀ :=
    (skips_after? (by decide) hdot).trans (skips_scanName hrelationship)
  exact ((hfront.trans hmiddle).trans hback).trans (skips_scanAliasAfterGap s₁₀)

theorem skips_scanJoins {s rest : Text} {source : Source} (h : scanJoins s = some (source, rest)) :
    Skips s rest := by
  simp only [scanJoins, Option.bind_eq_bind, Option.bind_eq_some_iff, Option.some.injEq,
    Prod.mk.injEq] at h
  obtain ⟨⟨first, s₁⟩, hfirst, s₂, hend, -, rfl⟩ := h
  exact (((skips_scanAliasAfterGap s).trans (skips_scanJoin hfirst)).trans
    (skips_many skips_scanJoin s₁)).trans (skips_clauseEnd hend)

theorem skips_scanMatch {s rest : Text} {source : Source} (h : scanMatch s = some (source, rest)) :
    Skips s rest := by
  simp only [scanMatch, Option.bind_eq_bind, Option.bind_eq_some_iff] at h
  obtain ⟨s₁, hgap, s₂, hmatch, ⟨patterns, left⟩, hpatterns, h⟩ := h
  dsimp only at h
  split at h
  case isFalse => cases h
  case isTrue hleft =>
    simp only [Option.some.injEq, Prod.mk.injEq] at h
    obtain ⟨-, rfl⟩ := h
    have hfront : Skips s s₂.trimLeft :=
      ((skips_afterGap hgap).trans (skips_afterKeyword (by decide) hmatch)).trans
        (skips_trimLeft s₂)
    refine hfront.trans ?_
    have hsplit : s₂.trimLeft = ((findKeyword "WHERE" s₂.trimLeft).getD (s₂.trimLeft, [])).1 ++
        ((findKeyword "WHERE" s₂.trimLeft).getD (s₂.trimLeft, [])).2 := by
      cases hfind : findKeyword "WHERE" s₂.trimLeft with
      | none => exact (List.append_nil _).symm
      | some found => exact (findKeyword_eq_some (by decide) hfind).1
    refine ⟨_, hsplit, fun c hc => ?_⟩
    obtain ⟨blanks, hblanks, hblank⟩ := Text.trimRight_append
      ((findKeyword "WHERE" s₂.trimLeft).getD (s₂.trimLeft, [])).1
    obtain ⟨front, hread, hquote⟩ := skips_scanPaths hpatterns
    rw [hblanks, hread, List.mem_append, List.mem_append] at hc
    rcases hc with (hc | hc) | hc
    · exact hquote c hc
    · exact not_quote_of_isBlank
        (Text.blank_of_trim_eq_nil (List.isEmpty_iff.mp hleft) c hc)
    · exact not_quote_of_isBlank (hblank c hc)

theorem skips_scan {s rest : Text} {source : Source} (h : Source.scan s = some (source, rest)) :
    Skips s rest := by
  unfold Source.scan at h
  split at h
  · next hword => exact (skips_afterKeyword (by decide) hword).trans (skips_scanCollection h)
  · obtain ⟨s', hword, h⟩ := Option.bind_eq_some_iff.mp h
    refine (skips_afterKeyword (by decide) hword).trans ?_
    rcases Option.or_eq_some_iff.mp h with h | ⟨-, h⟩
    · rcases Option.or_eq_some_iff.mp h with h | ⟨-, h⟩
      · exact skips_scanMatch h
      · exact skips_scanJoins h
    · exact skips_scanCollection h

theorem skips_read {s rest : Text} {source : Source} (h : Source.read s = .ok (source, rest)) :
    Skips s rest := by
  unfold Source.read at h
  split at h
  · cases h
  · next s' hfrom =>
    dsimp only at h
    split at h
    · next hscan =>
      cases h
      exact (((skips_trimLeft s).trans (skips_afterKeyword (by decide) hfrom)).trans
        (skips_trimLeft s')).trans (skips_scan hscan)
    · cases h

end Source

namespace Query

theorem skips_readTop {s rest : Text} {top : Option Nat} (h : readTop s = .ok (top, rest)) :
    Skips s rest := by
  unfold readTop at h
  split at h
  · cases h
    exact .refl s
  · next hscan =>
    split at h
    · cases h
      simp only [scanTop, Option.bind_eq_bind, Option.bind_eq_some_iff, Option.some.injEq,
        Prod.mk.injEq] at hscan
      obtain ⟨s₁, hword, s₂, hopen, ⟨digits, s₃⟩, hdigits, s₄, hclose, -, rfl⟩ := hscan
      exact ((skips_afterKeyword (by decide) hword).trans
        (skips_afterSpaced (by decide) hopen)).trans
        ((scanDigits_readsText.skips hdigits).trans (skips_afterSpaced (by decide) hclose))
    · cases h

theorem closed_of_skips {s rest t : Text} (h : Skips s (rest ++ t)) (hrest : Closed rest) :
    ∃ front, s = front ++ t ∧ Closed front := by
  obtain ⟨front, rfl, hquote⟩ := h
  exact ⟨front ++ rest, (List.append_assoc ..).symm, (closed_of_quoteless hquote).append hrest⟩

theorem readSelect_projections {s rest projections : Text} {top : Option Nat}
    (h : readSelect s = .ok (top, projections, rest)) :
    ∃ before, Skips s (before ++ rest) ∧ Closed before ∧ before.trim = projections := by
  unfold readSelect at h
  split at h
  · cases h
  · next s₁ hselect =>
    obtain ⟨⟨top', s₂⟩, htop, h⟩ := Outcome.bind_eq_ok.mp h
    dsimp only at h
    split at h
    · cases h
    · next before rest' hfind =>
      split at h
      · cases h
      · cases h
        obtain ⟨rfl, hclosed⟩ := findKeyword_eq_some (by decide) hfind
        exact ⟨before, (((skips_skipGaps s).trans (skips_afterKeyword (by decide) hselect)).trans
          (skips_skipGaps s₁)).trans (skips_readTop htop), hclosed, rfl⟩

/-- The quotes in front of the source are closed. -/
theorem readSelect_eq_ok {s rest projections : Text} {top : Option Nat}
    (h : readSelect s = .ok (top, projections, rest)) :
    ∃ front, s = front ++ rest ∧ Closed front := by
  obtain ⟨before, hskips, hclosed, -⟩ := readSelect_projections h
  exact closed_of_skips hskips hclosed

theorem readWhere_eq_some {s conditions : Text} (h : readWhere s = .ok (some conditions)) :
    ∃ rest blanks, Skips s (rest ++ blanks) ∧ rest.trim = conditions ∧ conditions ≠ [] ∧
      ∀ c ∈ blanks, isBlank c = true := by
  unfold readWhere at h
  split at h
  · cases h
  · split at h
    · cases h
    · next rest hword =>
      split at h
      · cases h
      · next hne =>
        cases h
        obtain ⟨left, right, heq, hleft, hright⟩ := Text.trim_append s
        obtain ⟨front, hfront, hquote⟩ := skips_afterKeyword (by decide) hword
        refine ⟨rest, right, ⟨left ++ front, ?_, fun c hc => ?_⟩, rfl,
          fun hnil => hne (by rw [hnil]; rfl), hright⟩
        · rw [List.append_assoc, ← List.append_assoc front, ← hfront]
          exact heq
        · rcases List.mem_append.mp hc with hc | hc
          · exact not_quote_of_isBlank (hleft c hc)
          · exact hquote c hc

/-- The conditions of a query that is read stand at its end, and the quotes in front of them are
closed. -/
theorem read_conditions {s conditions : Text} {q : Query} (h : Query.read s = .ok q)
    (hq : q.conditions = some conditions) :
    ∃ front blanks, s = front ++ conditions ++ blanks ∧ Closed front ∧
      (∀ c ∈ blanks, isBlank c = true) ∧ conditions ≠ [] ∧
      (∀ c ∈ conditions.head?, isBlank c = false) ∧ conditions.trimRight = conditions := by
  obtain ⟨⟨top, projections, s₁⟩, hselect, h⟩ := Outcome.bind_eq_ok.mp h
  obtain ⟨⟨source, s₂⟩, hsource, h⟩ := Outcome.bind_eq_ok.mp h
  obtain ⟨conditions', hwhere, h⟩ := Outcome.bind_eq_ok.mp h
  cases h
  obtain rfl : conditions' = some conditions := hq
  obtain ⟨front, rfl, hclosed⟩ := readSelect_eq_ok hselect
  obtain ⟨rest, blanks, hskips, rfl, hne, hblanks⟩ := readWhere_eq_some hwhere
  obtain ⟨left, right, hrest, hleft, hright⟩ := Text.trim_append rest
  obtain ⟨middle, hmiddle, hquote⟩ := (Source.skips_read hsource).trans hskips
  refine ⟨front ++ middle ++ left, right ++ blanks, ?_, ?_, ?_, hne, Text.head?_trim rest,
    Text.trimRight_trim rest⟩
  · have hback : rest ++ blanks = left ++ (rest.trim ++ right) ++ blanks :=
      congrArg (· ++ blanks) hrest
    rw [hmiddle, hback]
    simp only [List.append_assoc]
  · exact (hclosed.append (closed_of_quoteless hquote)).append
      (closed_of_quoteless fun c hc => not_quote_of_isBlank (hleft c hc))
  · intro c hc
    exact (List.mem_append.mp hc).elim (hright c) (hblanks c)

end Query
end TwinGraph
