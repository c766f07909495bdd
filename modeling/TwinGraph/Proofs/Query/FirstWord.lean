import TwinGraph.Query.Cypher
import TwinGraph.Proofs.Outcome
import TwinGraph.Proofs.Query.Keyword
import TwinGraph.Proofs.Query.Respacing

/-! What a query is taken for goes by its first word, which is the same before and after the query
is respaced: a text that is not told for a twin query has no translation. -/
namespace TwinGraph

namespace Text

def frontWord (s : Text) : Text := s.takeWhile fun c => !isBlank c

variable {c : Char}

theorem frontWord_blank (hc : isBlank c = true) (s : Text) : frontWord (c :: s) = [] :=
  List.takeWhile_cons_of_neg (by simp [hc])

theorem frontWord_other (hc : isBlank c = false) (s : Text) :
    frontWord (c :: s) = c :: frontWord s :=
  List.takeWhile_cons_of_pos (by simp [hc])

theorem trimLeft_other (hc : isBlank c = false) (s : Text) : trimLeft (c :: s) = c :: s :=
  List.dropWhile_cons_of_neg (by simp [hc])

theorem frontWord_respaced (s : Text) : s.respaced.frontWord = s.trimLeft.frontWord := by
  induction s with
  | nil => rfl
  | cons c s ih =>
    by_cases hc : isBlank c = true
    · rw [respaced_blank hc, ih]
      exact congrArg frontWord (List.dropWhile_cons_of_pos hc).symm
    · rw [Bool.not_eq_true] at hc
      rw [trimLeft_other hc]
      cases s with
      | nil => rw [respaced_of_blankless (List.forall_mem_singleton.mpr hc)]
      | cons d s =>
        by_cases hd : isBlank d = true
        · rw [respaced_last hc hd, frontWord_other hc, frontWord_other hc, frontWord_blank hd]
          split
          · rfl
          · rw [frontWord_blank (by decide)]
        · rw [Bool.not_eq_true] at hd
          rw [respaced_longer hc hd, frontWord_other hc, ih, trimLeft_other hd, frontWord_other hc]

theorem head?_respaced (s : Text) : ∀ c ∈ s.respaced.head?, isBlank c = false := by
  induction s with
  | nil => exact fun c hc => nomatch hc
  | cons c s ih =>
    by_cases hc : isBlank c = true
    · rwa [respaced_blank hc]
    · rw [Bool.not_eq_true] at hc
      have hhead : (respaced (c :: s)).head? = some c := by
        cases s with
        | nil => rw [respaced_of_blankless (List.forall_mem_singleton.mpr hc)]; rfl
        | cons d s =>
          by_cases hd : isBlank d = true
          · rw [respaced_last hc hd]; rfl
          · rw [respaced_longer hc (by simpa using hd)]; rfl
      rw [hhead]
      rintro d ⟨⟩
      exact hc

end Text

namespace Query

variable {keyword s : Text}

theorem afterLetters_of_sameLetters {word : Text} (h : word.sameLetters keyword = true)
    (rest : Text) : afterLetters keyword (word ++ rest) = some rest := by
  induction word generalizing keyword with
  | nil =>
    cases keyword with
    | nil => rfl
    | cons k ks => cases h
  | cons c word ih =>
    cases keyword with
    | nil => cases h
    | cons k ks =>
      rw [Text.sameLetters, beq_iff_eq, Text.foldCase, Text.foldCase, List.map_cons, List.map_cons,
        List.cons.injEq] at h
      rw [List.cons_append, afterLetters, if_pos h.1.symm]
      exact ih (beq_iff_eq.mpr h.2)

/-- The text begins with the keyword, in capitals or not, and no longer name goes on from it. -/
def Leads (keyword s : Text) : Prop :=
  ∃ word rest : Text, s = word ++ rest ∧ word.sameLetters keyword = true ∧
    rest.head?.any isNameChar = false

theorem afterKeyword_append {word rest : Text} (h : word.sameLetters keyword = true)
    (hrest : rest.head?.any isNameChar = false) :
    afterKeyword keyword (word ++ rest) = some rest := by
  rw [afterKeyword, afterLetters_of_sameLetters h]
  dsimp only
  rw [hrest, if_neg Bool.false_ne_true]

theorem isSome_afterKeyword : (afterKeyword keyword s).isSome = true ↔ Leads keyword s := by
  constructor
  · intro h
    obtain ⟨rest, hrest⟩ := Option.isSome_iff_exists.mp h
    obtain ⟨word, hword⟩ := afterKeyword_eq_some hrest
    exact ⟨word, rest, hword⟩
  · rintro ⟨word, rest, rfl, hword, hrest⟩
    rw [afterKeyword_append hword hrest]
    rfl

/-- Whether a keyword stands at the front is seen from the first word. -/
theorem isSome_afterKeyword_frontWord (hkeyword : IsKeyword keyword) (s : Text) :
    (afterKeyword keyword s.frontWord).isSome = (afterKeyword keyword s).isSome := by
  have hsplit : s.frontWord ++ s.dropWhile (fun c => !isBlank c) = s :=
    List.takeWhile_append_dropWhile
  rw [Bool.eq_iff_iff, isSome_afterKeyword, isSome_afterKeyword]
  constructor
  · rintro ⟨word, rest, hfront, hword, hrest⟩
    refine ⟨word, rest ++ s.dropWhile fun c => !isBlank c, ?_, hword, ?_⟩
    · rw [← List.append_assoc, ← hfront, hsplit]
    · cases rest with
      | cons c rest => exact hrest
      | nil =>
        have hblank := List.head?_dropWhile_not (fun c => !isBlank c) s
        cases hback : s.dropWhile fun c => !isBlank c with
        | nil => rfl
        | cons c back =>
          rw [hback] at hblank
          have hc : isBlank c = true := by simpa using hblank
          refine Bool.eq_false_iff.mpr fun hname => ?_
          rw [not_isBlank_of_isNameChar hname] at hc
          cases hc
  · rintro ⟨word, rest, rfl, hword, hrest⟩
    refine ⟨word, rest.frontWord, ?_, hword, ?_⟩
    · refine List.takeWhile_append_of_pos fun c hc => ?_
      rw [not_isBlank_of_isNameChar (isNameChar_of_sameLetters hkeyword hword c hc)]
      rfl
    · cases rest with
      | nil => rfl
      | cons c rest =>
        by_cases hc : isBlank c = true
        · rw [Text.frontWord_blank hc]
          rfl
        · rw [Text.frontWord_other (by simpa using hc)]
          exact hrest

theorem skipGaps_respaced (s : Text) : skipGaps s.respaced = s.respaced := by
  have hhead := s.head?_respaced
  cases hs : s.respaced with
  | nil => rfl
  | cons c t =>
    rw [hs] at hhead
    refine List.dropWhile_cons_of_neg fun hgap => ?_
    have hblank := isBlank_of_isGap hgap
    rw [hhead c rfl] at hblank
    cases hblank

/-- A text is told for a twin query before it is respaced as it is read after that. -/
theorem isTwinQuery_eq (s : Text) :
    isTwinQuery s = (afterKeyword "SELECT" (skipGaps s.respaced)).isSome := by
  have hkeyword : IsKeyword "SELECT" := by decide
  rw [isTwinQuery, skipGaps_respaced, ← isSome_afterKeyword_frontWord hkeyword s.respaced,
    Text.frontWord_respaced, isSome_afterKeyword_frontWord hkeyword]

theorem toCypher_of_not_isTwinQuery {s : Text} (h : isTwinQuery s = false) (graph : Text) :
    toCypher graph s = .error .missingSelect := by
  rw [isTwinQuery_eq] at h
  have hselect : readSelect s.respaced = .error .missingSelect := by
    unfold readSelect
    rw [Option.isSome_eq_false_iff.mp h |> Option.isNone_iff_eq_none.mp]
  unfold toCypher read
  rw [hselect]
  rfl

theorem toCypher_not_isTwinQuery {graph s text : Text} (h : toCypher graph s = .ok text) :
    isTwinQuery text = false := by
  obtain ⟨q, -, h⟩ := Outcome.bind_eq_ok.mp h
  obtain ⟨projections, -, h⟩ := Outcome.bind_eq_ok.mp h
  obtain ⟨scope, -, h⟩ := Outcome.bind_eq_ok.mp h
  obtain ⟨conditions, -, h⟩ := Outcome.bind_eq_ok.mp h
  cases h
  rfl

end Query
end TwinGraph
