import TwinGraph.Proofs.Query.Quoting

/-! The tokens of a text: what each of them takes from it, and which of them are string literals. -/
namespace TwinGraph

open Query Scan

/-- The literal begins with a quote, so it is no number. -/
def isString (literal : Text) : Bool := literal.head?.any isQuote

theorem isString_of_quoteless {t : Text} (h : ∀ c ∈ t, isQuote c = false) : isString t = false := by
  cases t with
  | nil => rfl
  | cons c t => exact h c List.mem_cons_self

namespace Token

def literal? : Token → Option Text
  | literal s => some s
  | _ => none

theorem scanFraction_readsText : ReadsText scanFraction := by
  intro s t rest h
  simp only [scanFraction, Option.bind_eq_bind, Option.bind_eq_some_iff, Option.some.injEq,
    Prod.mk.injEq, Text.after?_eq_some_iff] at h
  obtain ⟨s', rfl, ⟨digits, s''⟩, hdigits, rfl, rfl⟩ := h
  obtain ⟨rfl, -, hquote⟩ := scanDigits_readsText hdigits
  exact ⟨rfl, List.cons_ne_nil _ _, List.forall_mem_cons.mpr ⟨by decide, hquote⟩⟩

theorem scanSign_eq_some {s rest : Text} {c : Char} (h : scanSign s = some (c, rest)) :
    s = c :: rest ∧ isQuote c = false := by
  unfold scanSign at h
  split at h
  · simp only [Option.some.injEq, Prod.mk.injEq] at h
    obtain ⟨rfl, rfl⟩ := h
    exact ⟨rfl, by decide⟩
  · simp only [Option.some.injEq, Prod.mk.injEq] at h
    obtain ⟨rfl, rfl⟩ := h
    exact ⟨rfl, by decide⟩
  · cases h

theorem optional_scanSign (s : Text) :
    s = (optional scanSign s).1.toList ++ (optional scanSign s).2 ∧
    ∀ c ∈ (optional scanSign s).1.toList, isQuote c = false := by
  unfold Scan.optional
  split
  · next h =>
    obtain ⟨heq, hquote⟩ := scanSign_eq_some h
    exact ⟨heq, by simpa using hquote⟩
  · exact ⟨rfl, fun _ h => absurd h List.not_mem_nil⟩

theorem scanExponent_readsText : ReadsText scanExponent := by
  intro s t rest h
  cases s with
  | nil => cases h
  | cons c cs =>
    rw [scanExponent] at h
    split at h
    · next hc =>
      obtain ⟨hsign, hsignQuote⟩ := optional_scanSign cs
      simp only [Option.bind_eq_bind, Option.bind_eq_some_iff, Option.some.injEq,
        Prod.mk.injEq] at h
      obtain ⟨⟨digits, s'⟩, hdigits, rfl, rfl⟩ := h
      obtain ⟨heq, -, hquote⟩ := scanDigits_readsText hdigits
      rw [heq] at hsign
      refine ⟨by rw [List.cons_append, List.cons_append, List.append_assoc, ← hsign],
        List.cons_ne_nil _ _, ?_⟩
      rw [List.cons_append, List.forall_mem_cons, List.forall_mem_append]
      exact ⟨by rcases hc with rfl | rfl <;> decide, hsignQuote, hquote⟩
    · cases h

theorem scanNumber_readsText : ReadsText scanNumber := by
  intro s t rest h
  simp only [scanNumber, Option.bind_eq_bind, Option.bind_eq_some_iff, Option.some.injEq,
    Prod.mk.injEq] at h
  obtain ⟨⟨digits, s'⟩, hdigits, rfl, rfl⟩ := h
  obtain ⟨heq, hne, hquote⟩ := scanDigits_readsText hdigits
  obtain ⟨hfraction, hfractionQuote⟩ := optional_readsText scanFraction_readsText s'
  obtain ⟨hexponent, hexponentQuote⟩ :=
    optional_readsText scanExponent_readsText (optional scanFraction s').2
  refine ⟨?_, ?_, ?_⟩
  · rw [List.append_assoc, List.append_assoc, ← hexponent, ← hfraction]
    exact heq
  · rw [List.append_assoc]
    exact List.append_ne_nil_of_left_ne_nil hne _
  · rw [List.forall_mem_append, List.forall_mem_append]
    exact ⟨⟨hquote, hfractionQuote⟩, hexponentQuote⟩

theorem scanSegment_readsText : ReadsText scanSegment := by
  intro s t rest h
  simp only [scanSegment, Option.bind_eq_bind, Option.bind_eq_some_iff, Option.some.injEq,
    Prod.mk.injEq] at h
  obtain ⟨⟨name, s'⟩, hname, rfl, rfl⟩ := h
  obtain ⟨heq, hne, hquote⟩ := scanName_readsText hname
  refine ⟨?_, List.append_ne_nil_of_right_ne_nil _ hne, ?_⟩
  · rw [List.append_assoc, ← heq, List.takeWhile_append_dropWhile]
  · rw [List.forall_mem_append]
    refine ⟨fun c hc => ?_, hquote⟩
    have hdollar := List.all_eq_true.mp List.all_takeWhile c hc
    rw [beq_iff_eq] at hdollar
    rw [hdollar]
    decide

def scanStep : Scanner Text := fun s => do
  let s ← Text.after? ['.'] s
  let (segment, s) ← scanSegment s
  some ('.' :: segment, s)

theorem scanStep_readsText : ReadsText scanStep := by
  intro s t rest h
  simp only [scanStep, Option.bind_eq_bind, Option.bind_eq_some_iff, Option.some.injEq,
    Prod.mk.injEq, Text.after?_eq_some_iff] at h
  obtain ⟨s', rfl, ⟨segment, s''⟩, hsegment, rfl, rfl⟩ := h
  obtain ⟨rfl, -, hquote⟩ := scanSegment_readsText hsegment
  exact ⟨rfl, List.cons_ne_nil _ _, List.forall_mem_cons.mpr ⟨by decide, hquote⟩⟩

theorem scanPath_eq (s : Text) : scanPath s = (do
    let (first, s) ← scanSegment s
    let (more, s) := many scanStep s
    some (first ++ more.flatten, s)) := rfl

theorem scanPath_readsText : ReadsText scanPath := by
  intro s t rest h
  rw [scanPath_eq] at h
  simp only [Option.bind_eq_bind, Option.bind_eq_some_iff, Option.some.injEq,
    Prod.mk.injEq] at h
  obtain ⟨⟨first, s'⟩, hfirst, rfl, rfl⟩ := h
  obtain ⟨heq, hne, hquote⟩ := scanSegment_readsText hfirst
  obtain ⟨hmore, hmoreQuote⟩ := upTo_readsText scanStep_readsText s'.length s'
  refine ⟨?_, List.append_ne_nil_of_left_ne_nil hne _, ?_⟩
  · rw [List.append_assoc]
    exact heq.trans (congrArg _ hmore)
  · rw [List.forall_mem_append]
    exact ⟨hquote, hmoreQuote⟩

theorem scanSpace_readsText : ReadsText scanSpace := by
  intro s t rest h
  cases s with
  | nil => cases h
  | cons c cs =>
    rw [scanSpace] at h
    split at h
    · next hgap =>
      simp only [Option.some.injEq, Prod.mk.injEq] at h
      obtain ⟨rfl, rfl⟩ := h
      refine ⟨by rw [List.cons_append, List.takeWhile_append_dropWhile], List.cons_ne_nil _ _, ?_⟩
      rw [List.forall_mem_cons]
      exact ⟨not_quote_of_isGap hgap, fun d hd =>
        not_quote_of_isGap (List.all_eq_true.mp List.all_takeWhile d hd)⟩
    · cases h

theorem scanString_eq_some {s l rest : Text} (h : scanString s = some (l, rest)) :
    ∃ q s' body, isQuote q = true ∧ s = q :: s' ∧ l = q :: body ∧
      closeQuote q s' = some (body, rest) := by
  cases s with
  | nil => cases h
  | cons q s =>
    rw [scanString] at h
    split at h
    · next hq =>
      obtain ⟨⟨body, rest'⟩, hclose, heq⟩ := Option.map_eq_some_iff.mp h
      cases heq
      exact ⟨q, s, body, hq, rfl, rfl, hclose⟩
    · cases h

/-- The scanner that reads the next token. -/
inductive ScannedBy (s : Text) : Token → Text → Prop where
  | string {l rest} : scanString s = some (l, rest) → ScannedBy s (literal l) rest
  | number {l rest} : scanNumber s = some (l, rest) → ScannedBy s (literal l) rest
  | path {w rest} : scanPath s = some (w, rest) → ScannedBy s (word w) rest
  | space {gaps rest} : scanSpace s = some (gaps, rest) → ScannedBy s (space gaps) rest
  | operator {t rest} : scanString s = none → scanOperator s = some (t, rest) → ScannedBy s t rest

theorem scannedBy_of_scan {s rest : Text} {t : Token} (h : scan s = some (t, rest)) :
    ScannedBy s t rest := by
  unfold scan at h
  split at h
  · next hstring =>
    cases h
    exact .string hstring
  · next hstring =>
    split at h
    · next hnumber =>
      cases h
      exact .number hnumber
    · split at h
      · next hpath =>
        cases h
        exact .path hpath
      · split at h
        · next hspace =>
          cases h
          exact .space hspace
        · exact .operator hstring h

theorem scanOperator_eq_some {s rest : Text} {t : Token} (h : scanOperator s = some (t, rest)) :
    t = opening ∨ t = closing ∨ ∃ x, t = symbol x := by
  unfold scanOperator at h
  split at h <;> cases h <;> simp

theorem scanPath_of_scan {s w rest : Text} (h : scan s = some (word w, rest)) :
    scanPath s = some (w, rest) := by
  cases scannedBy_of_scan h with
  | path hpath => exact hpath
  | operator _ hoperator => simpa using scanOperator_eq_some hoperator

/-- A literal is a string up to its closing quote, or a number. -/
theorem literal_of_scan {s l rest : Text} (h : scan s = some (literal l, rest)) :
    scanString s = some (l, rest) ∨ scanNumber s = some (l, rest) := by
  cases scannedBy_of_scan h with
  | string hstring => exact Or.inl hstring
  | number hnumber => exact Or.inr hnumber
  | operator _ hoperator => simpa using scanOperator_eq_some hoperator

theorem space_of_scan {s gaps rest : Text} (h : scan s = some (space gaps, rest)) :
    scanSpace s = some (gaps, rest) := by
  cases scannedBy_of_scan h with
  | space hspace => exact hspace
  | operator _ hoperator => simpa using scanOperator_eq_some hoperator

theorem symbol_of_scan {s x rest : Text} (h : scan s = some (symbol x, rest)) :
    scanOperator s = some (symbol x, rest) := by
  cases scannedBy_of_scan h with
  | operator _ hoperator => exact hoperator

/-- What the next token is: a string literal, a quote that is never closed, or a text without
quotes. -/
inductive Scanned : Text → Token → Text → Prop where
  | string {c s body rest} : isQuote c = true → closeQuote c s = some (body, rest) →
      Scanned (c :: s) (literal (c :: body)) rest
  | lone {c s} : isQuote c = true → closeQuote c s = none → Scanned (c :: s) (symbol [c]) s
  | plain {s t rest} : s = t.text ++ rest → t.text ≠ [] → (∀ c ∈ t.text, isQuote c = false) →
      Scanned s t rest

theorem scanned_of_readsText {p : Scanner Text} (hp : ReadsText p) {f : Text → Token}
    (hf : ∀ t, (f t).text = t) {s t rest : Text} (h : p s = some (t, rest)) :
    Scanned s (f t) rest := by
  obtain ⟨heq, hne, hquote⟩ := hp h
  refine .plain ?_ ?_ ?_ <;> rw [hf]
  · exact heq
  · exact hne
  · exact hquote

theorem scanned_of_operator {s rest : Text} {t : Token}
    (hstring : scanString s = none) (h : scanOperator s = some (t, rest)) : Scanned s t rest := by
  unfold scanOperator at h
  split at h
  case h_7 c cs _ _ _ _ _ _ =>
    simp only [Option.some.injEq, Prod.mk.injEq] at h
    obtain ⟨rfl, rfl⟩ := h
    by_cases hc : isQuote c = true
    · rw [scanString, if_pos hc, Option.map_eq_none_iff] at hstring
      exact .lone hc hstring
    · rw [Bool.not_eq_true] at hc
      exact .plain rfl (List.cons_ne_nil _ _) fun d hd => by
        rw [List.mem_singleton.mp hd]
        exact hc
  case h_8 => cases h
  all_goals
    simp only [Option.some.injEq, Prod.mk.injEq] at h
    obtain ⟨rfl, rfl⟩ := h
    exact .plain rfl (List.cons_ne_nil _ _) (by decide)

theorem scanned_of_scan {s rest : Text} {t : Token} (h : scan s = some (t, rest)) :
    Scanned s t rest := by
  cases scannedBy_of_scan h with
  | string hstring =>
    obtain ⟨q, s', body, hq, rfl, rfl, hclose⟩ := scanString_eq_some hstring
    exact .string hq hclose
  | number hnumber => exact scanned_of_readsText scanNumber_readsText (fun _ => rfl) hnumber
  | path hpath => exact scanned_of_readsText scanPath_readsText (fun _ => rfl) hpath
  | space hspace => exact scanned_of_readsText scanSpace_readsText (fun _ => rfl) hspace
  | operator hstring hoperator => exact scanned_of_operator hstring hoperator

theorem Scanned.append {s rest : Text} {t : Token} (h : Scanned s t rest) :
    s = t.text ++ rest ∧ t.text ≠ [] := by
  cases h with
  | string _ hclose =>
    rw [(closeQuote_eq_some hclose).1]
    exact ⟨rfl, List.cons_ne_nil _ _⟩
  | lone => exact ⟨rfl, List.cons_ne_nil _ _⟩
  | plain heq hne _ => exact ⟨heq, hne⟩

theorem scan_shortens : Shortens scan := by
  intro s t rest h
  obtain ⟨rfl, hne⟩ := (scanned_of_scan h).append
  have hpos := List.length_pos_iff.mpr hne
  rw [List.length_append]
  omega

theorem scan_isSome {s : Text} (hs : s ≠ []) : ∃ t rest, scan s = some (t, rest) := by
  unfold scan
  iterate 4 (split; · exact ⟨_, _, rfl⟩)
  unfold scanOperator
  split
  case h_8 => exact absurd rfl hs
  all_goals exact ⟨_, _, rfl⟩

theorem ofText_of_scan {s rest : Text} {t : Token} (h : scan s = some (t, rest)) :
    ofText s = t :: ofText rest := by
  unfold ofText
  rw [many_of_some scan_shortens h]

theorem tokens_induction {P : Text → Prop} (nil : P [])
    (cons : ∀ s t rest, scan s = some (t, rest) → P rest → P s) (s : Text) : P s := by
  induction hlength : s.length using Nat.strongRecOn generalizing s with
  | _ n ih =>
    by_cases hs : s = []
    · rw [hs]
      exact nil
    · obtain ⟨t, rest, hscan⟩ := scan_isSome hs
      have hlt := scan_shortens hscan
      exact cons s t rest hscan (ih _ (by omega) rest rfl)

theorem exists_scan_of_mem {s : Text} {t : Token} (h : t ∈ ofText s) :
    ∃ front rest, scan front = some (t, rest) := by
  induction s using tokens_induction with
  | nil => cases h
  | cons s t' rest hscan ih =>
    rw [ofText_of_scan hscan] at h
    rcases List.mem_cons.mp h with rfl | h
    · exact ⟨s, rest, hscan⟩
    · exact ih h

theorem flatten_ofText (s : Text) : ((ofText s).map text).flatten = s := by
  induction s using tokens_induction with
  | nil => rfl
  | cons s t rest hscan ih =>
    rw [ofText_of_scan hscan, List.map_cons, List.flatten_cons, ih]
    exact (scanned_of_scan hscan).append.1.symm

theorem isString_cons {q : Char} (hq : isQuote q = true) (s : Text) : isString (q :: s) = true := hq

theorem filterMap_literal (s : Text) (tokens : List Token) :
    (literal s :: tokens).filterMap literal? = s :: tokens.filterMap literal? := rfl

/-- The string literals among the tokens are those of the text. -/
theorem literals_ofText (s : Text) :
    ((ofText s).filterMap literal?).filter isString = Query.literals s := by
  induction s using tokens_induction with
  | nil => rfl
  | cons s t rest hscan ih =>
    rw [ofText_of_scan hscan]
    cases scanned_of_scan hscan with
    | @string c s body _ hc hclose =>
      have hlong : 1 < (c :: body).length := by
        have hpos := List.length_pos_iff.mpr (closeQuote_eq_some hclose).2
        rw [List.length_cons]
        omega
      have hliterals : Query.literals (c :: s) = (c :: body) :: Query.literals rest := by
        unfold Query.literals
        rw [marks_literal hc hclose, List.filter_cons_of_pos (by simpa using hlong)]
      rw [filterMap_literal, List.filter_cons_of_pos (isString_cons hc body), hliterals, ih]
    | @lone c _ hc hclose =>
      have hliterals : Query.literals (c :: rest) = Query.literals rest := by
        unfold Query.literals
        rw [marks_lone hc hclose, List.filter_cons_of_neg (by simp)]
      rw [hliterals, List.filterMap_cons_none rfl, ih]
    | plain heq _ hquote =>
      have hliterals : Query.literals s = Query.literals rest := by
        unfold Query.literals
        rw [heq, marks_append_left hquote]
      rw [hliterals, ← ih]
      cases t with
      | literal text =>
        have hnumber : isString text = false := isString_of_quoteless hquote
        rw [filterMap_literal, List.filter_cons_of_neg (by simp [hnumber])]
      | _ => rw [List.filterMap_cons_none rfl]

end Token
end TwinGraph
