import TwinGraph.Proofs.Query.Patterns

/-! What is read as path patterns can be written: all their words are names, and a hop suffix is
a star with its bounds. -/
namespace TwinGraph

open Query Scan

namespace Scan

variable {α : Type} {P : α → Prop} {p : Scanner α}

/-- All that the scanner reads is of the kind. -/
def Finds (P : α → Prop) (p : Scanner α) : Prop := ∀ s a rest, p s = some (a, rest) → P a

theorem Finds.optional (h : Finds P p) (s : Text) : ∀ a ∈ (optional p s).1, P a := by
  unfold Scan.optional
  split
  · next a rest hread =>
    rintro _ ⟨⟩
    exact h s a rest hread
  · exact fun a ha => nomatch ha

theorem Finds.upTo (h : Finds P p) (bound : Nat) (s : Text) : ∀ a ∈ (upTo p bound s).1, P a := by
  induction bound generalizing s with
  | zero => exact fun a ha => absurd ha List.not_mem_nil
  | succ bound ih =>
    rw [Scan.upTo]
    split
    · exact fun a ha => absurd ha List.not_mem_nil
    · next a rest hread => exact List.forall_mem_cons.mpr ⟨h s a rest hread, ih rest⟩

theorem Finds.many (h : Finds P p) (s : Text) : ∀ a ∈ (many p s).1, P a := h.upTo s.length s

theorem Finds.behind (h : Finds P p) (before : Text → Option Text) :
    Finds P fun s => before s >>= p := by
  intro s a rest hread
  obtain ⟨s', -, hread⟩ := Option.bind_eq_some_iff.mp hread
  exact h s' a rest hread

theorem Finds.listOf (h : Finds P p) (separator : Text → Option Text) :
    Finds (fun as => as ≠ [] ∧ ∀ a ∈ as, P a) (listOf separator p) := by
  intro s as rest hread
  obtain ⟨⟨first, s'⟩, hfirst, hread⟩ := Option.bind_eq_some_iff.mp hread
  cases hread
  exact ⟨List.cons_ne_nil _ _,
    List.forall_mem_cons.mpr ⟨h s first s' hfirst, (h.behind separator).many s'⟩⟩

end Scan

theorem Query.finds_scanName : Finds (fun name => isIdentifier name = true) scanName := by
  intro s name rest h
  cases s with
  | nil => cases h
  | cons c cs =>
    rw [scanName] at h
    split at h
    · next hstart =>
      cases h
      exact isIdentifier_eq_true.mpr
        ⟨c, _, rfl, hstart, fun d hd => List.all_eq_true.mp List.all_takeWhile d hd⟩
    · cases h

theorem NodePattern.finds_scan : Finds NodePattern.Legal NodePattern.scan := by
  intro s node rest h
  simp only [NodePattern.scan, Option.bind_eq_bind, Option.bind_eq_some_iff, Option.some.injEq,
    Prod.mk.injEq] at h
  obtain ⟨s₁, -, s₂, -, rfl, -⟩ := h
  exact ⟨finds_scanName.optional _, (finds_scanName.behind (afterSpaced ':')).optional _⟩

namespace EdgeDetail

theorem finds_scanHops : Finds IsHops scanHops := by
  intro s hops rest h
  simp only [scanHops, Option.bind_eq_bind, Option.bind_eq_some_iff] at h
  obtain ⟨s₁, -, h⟩ := h
  have hdigits : ∀ t : Text, ∀ c ∈ t.takeWhile Char.isDigit, c.isDigit = true := fun t c hc =>
    List.all_eq_true.mp List.all_takeWhile c hc
  split at h
  · cases h
    exact ⟨_, hdigits s₁, Or.inl rfl⟩
  · next s₂ hdots =>
    cases h
    exact ⟨_, hdigits s₁, Or.inr ⟨_, hdigits s₂, rfl⟩⟩

theorem finds_scanLabels :
    Finds (fun labels => ∀ label ∈ labels, isIdentifier label = true) scanLabels := by
  intro s labels rest h
  exact ((finds_scanName.listOf (afterSpaced '|')).behind (afterSpaced ':') s labels rest h).2

theorem finds_scan : Finds EdgeDetail.Legal EdgeDetail.scan := by
  intro s detail rest h
  simp only [EdgeDetail.scan, Option.bind_eq_bind, Option.bind_eq_some_iff, Option.some.injEq,
    Prod.mk.injEq] at h
  obtain ⟨s₁, -, s₂, -, rfl, -⟩ := h
  refine ⟨finds_scanName.optional _, ?_, finds_scanHops.optional _⟩
  have hlabels := finds_scanLabels.optional (Scan.optional scanName (skipGaps s₁)).2
  dsimp only
  cases hread : (Scan.optional scanLabels (Scan.optional scanName (skipGaps s₁)).2).1 with
  | none => exact fun label hlabel => absurd hlabel List.not_mem_nil
  | some labels => exact hlabels labels hread

end EdgeDetail

namespace EdgePattern

theorem finds_scanBracketed : Finds EdgePattern.Legal scanBracketed := by
  intro s edge rest h
  have hlegal : ∀ {s₁ detail s₂}, EdgeDetail.scan s₁ = some (detail, s₂) →
      ∀ direction, EdgePattern.Legal ⟨direction, some detail⟩ := by
    rintro s₁ detail s₂ hdetail direction _ ⟨⟩
    exact EdgeDetail.finds_scan s₁ detail s₂ hdetail
  unfold scanBracketed at h
  split at h
  · simp only [Option.bind_eq_bind, Option.bind_eq_some_iff, Option.some.injEq,
      Prod.mk.injEq] at h
    obtain ⟨⟨detail, s₂⟩, hdetail, s₃, -, rfl, -⟩ := h
    exact hlegal hdetail _
  · simp only [Option.bind_eq_bind, Option.bind_eq_some_iff] at h
    obtain ⟨s₁, -, ⟨detail, s₂⟩, hdetail, h⟩ := h
    dsimp only at h
    split at h
    · cases h
      exact hlegal hdetail _
    · simp only [Option.bind_eq_some_iff, Option.some.injEq, Prod.mk.injEq] at h
      obtain ⟨s₃, -, rfl, -⟩ := h
      exact hlegal hdetail _

theorem finds_scanBare : Finds EdgePattern.Legal scanBare := by
  intro s edge rest h
  unfold scanBare at h
  split at h
  case h_4 => cases h
  all_goals
    cases h
    exact fun detail hdetail => nomatch hdetail

theorem finds_scan : Finds EdgePattern.Legal EdgePattern.scan := by
  intro s edge rest h
  rcases Option.or_eq_some_iff.mp h with h | ⟨-, h⟩
  · exact finds_scanBracketed s edge rest h
  · exact finds_scanBare s edge rest h

end EdgePattern

namespace PathPattern

theorem finds_scanStep :
    Finds (fun step : EdgePattern × NodePattern => step.1.Legal ∧ step.2.Legal) scanStep := by
  intro s step rest h
  simp only [scanStep, Option.bind_eq_bind, Option.bind_eq_some_iff, Option.some.injEq,
    Prod.mk.injEq] at h
  obtain ⟨⟨edge, s₁⟩, hedge, ⟨node, s₂⟩, hnode, rfl, -⟩ := h
  exact ⟨EdgePattern.finds_scan _ edge s₁ hedge, NodePattern.finds_scan _ node s₂ hnode⟩

theorem finds_scan : Finds PathPattern.Legal PathPattern.scan := by
  intro s path rest h
  simp only [PathPattern.scan, Option.bind_eq_bind, Option.bind_eq_some_iff, Option.some.injEq,
    Prod.mk.injEq] at h
  obtain ⟨⟨start, s₁⟩, hstart, rfl, -⟩ := h
  exact ⟨NodePattern.finds_scan s start s₁ hstart, finds_scanStep.many s₁⟩

end PathPattern

theorem finds_scanPaths :
    Finds (fun paths => paths ≠ [] ∧ ∀ p ∈ paths, PathPattern.Legal p) scanPaths :=
  PathPattern.finds_scan.listOf (afterSpaced ',')

end TwinGraph
