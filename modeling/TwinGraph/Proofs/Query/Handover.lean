import TwinGraph.Proofs.Query.FirstWord
import TwinGraph.Proofs.Query.RoundTrip

/-! Where one clause of a query ends and the next one begins. What a source leaves behind is nothing
or the clause WHERE, so no text between the clauses goes unread: the only input that is unexpected
is a limit that is too large, and an empty clause is reported only behind clauses that can be read.
-/
namespace TwinGraph

open Query Scan

namespace Source

def Ends (rest : Text) : Prop := rest = [] ∨ Leads "WHERE" rest

theorem ends_of_clauseEnd {s rest : Text} (h : clauseEnd s = some rest) : Ends rest := by
  unfold clauseEnd at h
  dsimp only at h
  split at h
  · next hend =>
    cases h
    rw [Bool.or_eq_true, List.isEmpty_iff] at hend
    exact hend.imp_right isSome_afterKeyword.mp
  · cases h

theorem ends_of_scanCollection {kind : Collection} {s rest : Text} {source : Source}
    (h : scanCollection kind s = some (source, rest)) : Ends rest := by
  simp only [scanCollection, Option.bind_eq_bind, Option.bind_eq_some_iff, Option.some.injEq,
    Prod.mk.injEq] at h
  obtain ⟨s', hend, -, rfl⟩ := h
  exact ends_of_clauseEnd hend

theorem ends_of_scanJoins {s rest : Text} {source : Source}
    (h : scanJoins s = some (source, rest)) : Ends rest := by
  simp only [scanJoins, Option.bind_eq_bind, Option.bind_eq_some_iff, Option.some.injEq,
    Prod.mk.injEq] at h
  obtain ⟨⟨first, s₁⟩, -, s₂, hend, -, rfl⟩ := h
  exact ends_of_clauseEnd hend

/-- The pattern is cut off in front of the word, or there is none. -/
theorem ends_of_findKeyword (s : Text) : Ends ((findKeyword "WHERE" s).getD (s, [])).2 := by
  cases hfind : findKeyword "WHERE" s with
  | none => exact Or.inl rfl
  | some found =>
    have hword : IsKeyword "WHERE" := by decide
    have hcut := findKeyword_firstCut hword s
    rw [hfind] at hcut
    exact Or.inr (isSome_afterKeyword.mp hcut.2.1.keyword)

theorem ends_of_scanMatch {s rest : Text} {source : Source}
    (h : scanMatch s = some (source, rest)) : Ends rest := by
  simp only [scanMatch, Option.bind_eq_bind, Option.bind_eq_some_iff] at h
  obtain ⟨s₁, -, s₂, -, ⟨patterns, left⟩, -, h⟩ := h
  dsimp only at h
  split at h
  · simp only [Option.some.injEq, Prod.mk.injEq] at h
    obtain ⟨-, rfl⟩ := h
    exact ends_of_findKeyword s₂.trimLeft
  · cases h

theorem ends_of_scan {s rest : Text} {source : Source} (h : Source.scan s = some (source, rest)) :
    Ends rest := by
  unfold Source.scan at h
  split at h
  · exact ends_of_scanCollection h
  · obtain ⟨s', -, h⟩ := Option.bind_eq_some_iff.mp h
    rcases Option.or_eq_some_iff.mp h with h | ⟨-, h⟩
    · rcases Option.or_eq_some_iff.mp h with h | ⟨-, h⟩
      · exact ends_of_scanMatch h
      · exact ends_of_scanJoins h
    · exact ends_of_scanCollection h

theorem ends_of_read {s rest : Text} {source : Source} (h : Source.read s = .ok (source, rest)) :
    Ends rest := by
  unfold Source.read at h
  split at h
  · cases h
  · dsimp only at h
    split at h
    · next hscan =>
      cases h
      exact ends_of_scan hscan
    · cases h

end Source

/-- The faults of one clause are those of no other. -/
inductive QueryError.OfSource : QueryError → Prop where
  | missing : OfSource .missingSelect
  | unsupported (source : Text) : OfSource (.unsupportedSource source)
  | join : OfSource .malformedJoin
  | pattern (pattern : Text) : OfSource (.malformedPattern pattern)

theorem Source.ofSource_of_read {s : Text} {e : QueryError} (h : Source.read s = .error e) :
    e.OfSource := by
  unfold Source.read at h
  split at h
  · cases h
    exact .missing
  · dsimp only at h
    split at h
    · cases h
    · cases h
      unfold fault
      dsimp only
      split
      · exact .pattern _
      · split
        · exact .join
        · exact .unsupported _

namespace Query

theorem head?_gaps {gap rest : Text} {test : Char → Bool}
    (htest : ∀ c, isGap c = true → test c = false) (hgap : ∀ c ∈ gap, isGap c = true)
    (hrest : rest.head?.any test = false) : (gap ++ rest).head?.any test = false := by
  cases gap with
  | nil => exact hrest
  | cons c gap => exact htest c (hgap c List.mem_cons_self)

theorem not_isDigit_of_isGap {c : Char} (h : isGap c = true) : c.isDigit = false := by
  refine Bool.eq_false_iff.mpr fun hdigit => ?_
  rw [not_isGap_of_isNameChar (by simp [isNameChar, Char.isAlphanum, hdigit])] at h
  cases h

theorem afterSpaced_append {gap₁ gap₂ rest : Text} {c : Char} (hc : isGap c = false)
    (hgap₁ : ∀ d ∈ gap₁, isGap d = true) (hgap₂ : ∀ d ∈ gap₂, isGap d = true)
    (hrest : rest.head?.any isGap = false) :
    afterSpaced c (gap₁ ++ c :: (gap₂ ++ rest)) = some rest := by
  have hfront : skipGaps (gap₁ ++ c :: (gap₂ ++ rest)) = c :: (gap₂ ++ rest) :=
    (span_append (c :: (gap₂ ++ rest)) hgap₁ hc).2
  have hmark : Text.after? [c] (c :: (gap₂ ++ rest)) = some (gap₂ ++ rest) :=
    Text.after?_eq_some_iff.mpr rfl
  have hback : skipGaps (gap₂ ++ rest) = rest := (span_append _ hgap₂ hrest).2
  rw [afterSpaced, hfront, hmark, Option.map_some, hback]

theorem scanTop_of_limits {digits s : Text} (h : Limits digits s) :
    ∃ rest, scanTop s = some (digits, rest) := by
  obtain ⟨word, rest, gap₁, gap₂, gap₃, rfl, hsame, hne, hdigits, hgaps⟩ := h
  simp only [List.forall_mem_append] at hgaps
  obtain ⟨hgap₁, hgap₂, hgap₃⟩ := hgaps
  have hword : afterKeyword "TOP"
      (word ++ (gap₁ ++ '(' :: (gap₂ ++ (digits ++ (gap₃ ++ ')' :: rest))))) =
      some (gap₁ ++ '(' :: (gap₂ ++ (digits ++ (gap₃ ++ ')' :: rest)))) :=
    afterKeyword_append hsame (head?_gaps (fun _ => not_isNameChar_of_isGap) hgap₁ rfl)
  have hopen : afterSpaced '(' (gap₁ ++ '(' :: (gap₂ ++ (digits ++ (gap₃ ++ ')' :: rest)))) =
      some (digits ++ (gap₃ ++ ')' :: rest)) := by
    refine afterSpaced_append (by decide) hgap₁ hgap₂ ?_
    obtain ⟨c, cs, rfl⟩ := List.exists_cons_of_ne_nil hne
    exact Bool.eq_false_iff.mpr fun hgap => by
      have hdigit := not_isDigit_of_isGap (c := c) hgap
      rw [hdigits c List.mem_cons_self] at hdigit
      cases hdigit
  have hdigit : scanDigits (digits ++ (gap₃ ++ ')' :: rest)) = some (digits, gap₃ ++ ')' :: rest) :=
    scanDigits_append hne hdigits (head?_gaps (fun _ => not_isDigit_of_isGap) hgap₃ rfl)
  have hclose : afterSpaced ')' (gap₃ ++ ')' :: rest) = some (skipGaps rest) := by
    have hfront : skipGaps (gap₃ ++ ')' :: rest) = ')' :: rest := (span_append _ hgap₃ rfl).2
    have hmark : Text.after? [')'] (')' :: rest) = some rest := Text.after?_eq_some_iff.mpr rfl
    rw [afterSpaced, hfront, hmark, Option.map_some]
  refine ⟨skipGaps rest, ?_⟩
  simp only [scanTop, hword, hopen, hdigit, hclose, Option.bind_eq_bind, Option.bind_some]

theorem readTop_eq_error {s : Text} {e : QueryError} : readTop s = .error e ↔
    ∃ digits, Limits digits s ∧ maxTop < Text.natValue digits ∧ e = .unexpectedInput digits := by
  constructor
  · intro h
    unfold readTop at h
    split at h
    · cases h
    · next digits rest hscan =>
      split at h
      · cases h
      · next hlarge =>
        cases h
        exact ⟨digits, limits_of_scanTop hscan, Nat.lt_of_not_le hlarge, rfl⟩
  · rintro ⟨digits, hlimits, hlarge, rfl⟩
    obtain ⟨rest, hscan⟩ := scanTop_of_limits hlimits
    rw [readTop, hscan]
    dsimp only
    rw [if_neg (Nat.not_le_of_lt hlarge)]

/-- The word SELECT and a gap stand in front of a limit with the digits, which is too large. -/
def Overasks (digits s : Text) : Prop :=
  ∃ lead word gap limit : Text, s = lead ++ (word ++ (gap ++ limit)) ∧
    (∀ c ∈ lead ++ gap, isGap c = true) ∧ word.sameLetters "SELECT" = true ∧ gap ≠ [] ∧
    Limits digits limit ∧ maxTop < Text.natValue digits

theorem head?_limits {digits s : Text} (h : Limits digits s) : s.head?.any isNameChar = true := by
  obtain ⟨word, rest, gap₁, gap₂, gap₃, rfl, hsame, -⟩ := h
  cases word with
  | nil => cases hsame
  | cons c word => exact isNameChar_of_sameLetters (by decide) hsame c List.mem_cons_self

theorem overasks_of_readSelect {s : Text} {e : QueryError} (h : readSelect s = .error e) :
    e = .missingSelect ∨ ∃ digits, e = .unexpectedInput digits ∧ Overasks digits s := by
  unfold readSelect at h
  split at h
  · cases h
    exact Or.inl rfl
  · next s₁ hselect =>
    rcases Outcome.bind_eq_error.mp h with htop | ⟨⟨top, s₂⟩, -, h⟩
    · obtain ⟨digits, hlimits, hlarge, rfl⟩ := readTop_eq_error.mp htop
      obtain ⟨word, hword, hsame, hhead⟩ := afterKeyword_eq_some hselect
      have hlead : s.takeWhile isGap ++ skipGaps s = s := List.takeWhile_append_dropWhile
      have hgap : s₁.takeWhile isGap ++ skipGaps s₁ = s₁ := List.takeWhile_append_dropWhile
      refine Or.inr ⟨digits, rfl, s.takeWhile isGap, word, s₁.takeWhile isGap, skipGaps s₁, ?_, ?_,
        hsame, fun hnil => ?_, hlimits, hlarge⟩
      · rw [hgap, ← hword, hlead]
      · exact List.forall_mem_append.mpr ⟨fun c => List.all_eq_true.mp List.all_takeWhile c,
          fun c => List.all_eq_true.mp List.all_takeWhile c⟩
      · -- Without a gap the word SELECT would go on.
        rw [hnil, List.nil_append] at hgap
        rw [← hgap, head?_limits hlimits] at hhead
        cases hhead
    · dsimp only at h
      split at h
      · cases h
        exact Or.inl rfl
      · split at h
        · cases h
          exact Or.inl rfl
        · cases h

theorem readSelect_of_overasks {digits s : Text} (h : Overasks digits s) :
    readSelect s = .error (.unexpectedInput digits) := by
  obtain ⟨lead, word, gap, limit, rfl, hgaps, hsame, hne, hlimits, hlarge⟩ := h
  obtain ⟨hlead, hgap⟩ := List.forall_mem_append.mp hgaps
  have hword : (word ++ (gap ++ limit)).head?.any isGap = false := by
    cases word with
    | nil => cases hsame
    | cons c word =>
      exact not_isGap_of_isNameChar
        (isNameChar_of_sameLetters (by decide) hsame c List.mem_cons_self)
  have hfront : skipGaps (lead ++ (word ++ (gap ++ limit))) = word ++ (gap ++ limit) :=
    (span_append _ hlead hword).2
  have hselect : afterKeyword "SELECT" (word ++ (gap ++ limit)) = some (gap ++ limit) := by
    refine afterKeyword_append hsame ?_
    obtain ⟨c, gap, rfl⟩ := List.exists_cons_of_ne_nil hne
    exact not_isNameChar_of_isGap (hgap c List.mem_cons_self)
  have hlimit : limit.head?.any isGap = false := by
    have hhead := head?_limits hlimits
    cases limit with
    | nil => rfl
    | cons c limit => exact not_isGap_of_isNameChar hhead
  have hback : skipGaps (gap ++ limit) = limit := (span_append _ hgap hlimit).2
  have htop : readTop limit = .error (.unexpectedInput digits) :=
    readTop_eq_error.mpr ⟨digits, hlimits, hlarge, rfl⟩
  rw [readSelect, hfront, hselect]
  dsimp only
  rw [hback, htop]
  rfl

def EmptyConditions (s : Text) : Prop :=
  ∃ word blanks, s = word ++ blanks ∧ Text.sameLetters word "WHERE" = true ∧
    ∀ c ∈ blanks, isBlank c = true

theorem trimRight_append_word {word : Text} (hword : ∀ c ∈ word, isBlank c = false) (rest : Text) :
    Text.trimRight (word ++ rest) = word ++ Text.trimRight rest := by
  induction word with
  | nil => rfl
  | cons c word ih =>
    rw [List.forall_mem_cons] at hword
    rw [List.cons_append, Text.trimRight_cons hword.1, ih hword.2, List.cons_append]

theorem trim_eq_nil_iff {s : Text} : s.trim = [] ↔ ∀ c ∈ s, isBlank c = true := by
  refine ⟨Text.blank_of_trim_eq_nil, fun h => ?_⟩
  have htrim := Text.trimRight_append_blanks [] (t := s.trimLeft) fun c hc =>
    h c ((List.dropWhile_sublist isBlank).subset hc)
  exact htrim

theorem blank_trimRight_iff {s : Text} :
    (∀ c ∈ s.trimRight, isBlank c = true) ↔ ∀ c ∈ s, isBlank c = true := by
  obtain ⟨blanks, hs, hblanks⟩ := Text.trimRight_append s
  conv_rhs => rw [hs, List.forall_mem_append]
  exact (and_iff_left hblanks).symm

theorem emptyConditions_append {word rest : Text} (hsame : word.sameLetters "WHERE" = true) :
    EmptyConditions (word ++ rest) ↔ ∀ c ∈ rest, isBlank c = true := by
  refine ⟨?_, fun h => ⟨word, rest, rfl, hsame, h⟩⟩
  rintro ⟨word', blanks, heq, hsame', hblanks⟩
  have hlength := (length_of_sameLetters hsame).trans (length_of_sameLetters hsame').symm
  obtain ⟨rfl, rfl⟩ := List.append_inj heq hlength
  exact hblanks

theorem not_emptyConditions_nil : ¬EmptyConditions [] := by
  rintro ⟨word, blanks, heq, hsame, -⟩
  obtain ⟨rfl, -⟩ := List.append_eq_nil_iff.mp heq.symm
  cases hsame

theorem readWhere_append {word rest : Text} (hsame : word.sameLetters "WHERE" = true)
    (hhead : rest.head?.any isNameChar = false) :
    readWhere (word ++ rest) = if rest.trimRight.trim.isEmpty then .error .emptyWhere
      else .ok (some rest.trimRight.trim) := by
  obtain ⟨c, cs, rfl⟩ : ∃ c cs, word = c :: cs := by
    refine List.exists_cons_of_ne_nil ?_
    rintro rfl
    cases hsame
  have hplain : ∀ d ∈ c :: cs, isBlank d = false := fun d hd =>
    not_isBlank_of_isNameChar (isNameChar_of_sameLetters (by decide) hsame d hd)
  have hleft : Text.trimLeft (c :: cs ++ rest) = c :: cs ++ rest :=
    Text.trimLeft_other (hplain c List.mem_cons_self) (cs ++ rest)
  have htrim : Text.trim (c :: cs ++ rest) = c :: cs ++ rest.trimRight := by
    rw [Text.trim, hleft, trimRight_append_word hplain]
  have hfull : (c :: cs ++ rest.trimRight).isEmpty = false := rfl
  have hkeyword : afterKeyword "WHERE" (c :: cs ++ rest.trimRight) = some rest.trimRight := by
    refine afterKeyword_append hsame ?_
    obtain ⟨blanks, hrest, -⟩ := Text.trimRight_append rest
    cases hright : rest.trimRight with
    | nil => rfl
    | cons d ds =>
      rw [hrest, hright] at hhead
      exact hhead
  rw [readWhere, htrim, hfull, if_neg Bool.false_ne_true, hkeyword]

/-- Behind a source only an empty clause is a fault. -/
theorem readWhere_eq_error {s : Text} (hs : Source.Ends s) {e : QueryError} :
    readWhere s = .error e ↔ e = .emptyWhere ∧ EmptyConditions s := by
  rcases hs with rfl | ⟨word, rest, rfl, hsame, hhead⟩
  · refine iff_of_false ?_ fun h => not_emptyConditions_nil h.2
    intro h
    cases h
  have hempty : rest.trimRight.trim.isEmpty = true ↔ EmptyConditions (word ++ rest) := by
    rw [emptyConditions_append hsame, List.isEmpty_iff, trim_eq_nil_iff, blank_trimRight_iff]
  rw [readWhere_append hsame hhead, ← hempty]
  split
  · next hnil =>
    rw [Except.error.injEq, eq_comm]
    exact (and_iff_left hnil).symm
  · next hnil =>
    refine iff_of_false ?_ fun h => hnil h.2
    intro h
    cases h

theorem read_eq_error {s : Text} {e : QueryError} : Query.read s = .error e ↔
    readSelect s = .error e ∨ ∃ top projections s₁, readSelect s = .ok (top, projections, s₁) ∧
      (Source.read s₁ = .error e ∨ ∃ source s₂, Source.read s₁ = .ok (source, s₂) ∧
        readWhere s₂ = .error e) := by
  rw [Query.read, Outcome.bind_eq_error]
  refine or_congr_right ⟨?_, ?_⟩
  · rintro ⟨⟨top, projections, s₁⟩, hselect, h⟩
    refine ⟨top, projections, s₁, hselect, ?_⟩
    rcases Outcome.bind_eq_error.mp h with h | ⟨⟨source, s₂⟩, hsource, h⟩
    · exact Or.inl h
    · rcases Outcome.bind_eq_error.mp h with h | ⟨conditions, -, h⟩
      · exact Or.inr ⟨source, s₂, hsource, h⟩
      · cases h
  · rintro ⟨top, projections, s₁, hselect, h⟩
    refine ⟨_, hselect, Outcome.bind_eq_error.mpr ?_⟩
    rcases h with h | ⟨source, s₂, hsource, h⟩
    · exact Or.inl h
    · exact Or.inr ⟨_, hsource, Outcome.bind_eq_error.mpr (Or.inl h)⟩

/-- A source leaves nothing or the clause WHERE behind it. So the only input of a query that is not
expected is a limit above the largest one, and the clause is reported as empty just where the
clauses in front of it are read and only blanks follow its keyword. -/
theorem clauses_hand_over (s : Text) :
    (∀ source rest, Source.read s = .ok (source, rest) → rest = [] ∨ Leads "WHERE" rest) ∧
    (∀ digits, Query.read s = .error (.unexpectedInput digits) ↔ Overasks digits s) ∧
    (Query.read s = .error .emptyWhere ↔
      ∃ top projections s₁ source s₂, readSelect s = .ok (top, projections, s₁) ∧
        Source.read s₁ = .ok (source, s₂) ∧ EmptyConditions s₂) := by
  refine ⟨fun source rest => Source.ends_of_read, fun digits => ?_, ?_⟩
  · rw [read_eq_error]
    constructor
    · rintro (hselect | ⟨top, projections, s₁, -, hsource | ⟨source, s₂, hsource, hwhere⟩⟩)
      · obtain h | ⟨digits', h, hoverasks⟩ := overasks_of_readSelect hselect
        · cases h
        · cases h
          exact hoverasks
      · cases Source.ofSource_of_read hsource
      · cases ((readWhere_eq_error (Source.ends_of_read hsource)).mp hwhere).1
    · exact fun h => Or.inl (readSelect_of_overasks h)
  · rw [read_eq_error]
    constructor
    · rintro (hselect | ⟨top, projections, s₁, hselect, hsource | ⟨source, s₂, hsource, hwhere⟩⟩)
      · obtain h | ⟨digits, h, -⟩ := overasks_of_readSelect hselect
        · cases h
        · cases h
      · cases Source.ofSource_of_read hsource
      · exact ⟨top, projections, s₁, source, s₂, hselect, hsource,
          ((readWhere_eq_error (Source.ends_of_read hsource)).mp hwhere).2⟩
    · rintro ⟨top, projections, s₁, source, s₂, hselect, hsource, hempty⟩
      exact Or.inr ⟨top, projections, s₁, hselect, Or.inr ⟨source, s₂, hsource,
        (readWhere_eq_error (Source.ends_of_read hsource)).mpr ⟨rfl, hempty⟩⟩⟩

def nodeNamedWhere : Text := "FROM DIGITALTWINS MATCH (where)-[r]->(b) where b.x = 1"

def limitPastWord : Text := "select\ttop ( 18446744073709551616 )* FROM DIGITALTWINS WHERE"

def blankConditions : Text := "SELECT TOP(18446744073709551615) T FROM DIGITALTWINS T WHERE \x0c"

/-- A node with the keyword's name does not end the pattern, and the first limit that does not fit
into a word of 64 bits is reported, but not the one before it. -/
theorem awkward_clauses_hand_over :
    (Source.read nodeNamedWhere = .ok (.paths [⟨⟨some "where", none⟩,
      [(⟨.outgoing, some ⟨some "r", [], none⟩⟩, ⟨some "b", none⟩)]⟩], "where b.x = 1") ∧
      Leads "WHERE" "where b.x = 1") ∧
    (Query.read limitPastWord = .error (.unexpectedInput "18446744073709551616") ∧
      Overasks "18446744073709551616" limitPastWord) ∧
    Query.read blankConditions = .error .emptyWhere ∧
      ∃ top projections s₁ source s₂, readSelect blankConditions = .ok (top, projections, s₁) ∧
        Source.read s₁ = .ok (source, s₂) ∧ EmptyConditions s₂ := by
  have hsource : Source.read nodeNamedWhere = .ok (.paths [⟨⟨some "where", none⟩,
      [(⟨.outgoing, some ⟨some "r", [], none⟩⟩, ⟨some "b", none⟩)]⟩], "where b.x = 1") := by
    decide +kernel
  have hlimit : Query.read limitPastWord = .error (.unexpectedInput "18446744073709551616") := by
    decide +kernel
  have hblank : Query.read blankConditions = .error .emptyWhere := by decide +kernel
  have hleads := ((clauses_hand_over nodeNamedWhere).1 _ _ hsource).resolve_left (by decide)
  exact ⟨⟨hsource, hleads⟩, ⟨hlimit, ((clauses_hand_over limitPastWord).2.1 _).mp hlimit⟩, hblank,
    (clauses_hand_over blankConditions).2.2.mp hblank⟩

end Query
end TwinGraph
