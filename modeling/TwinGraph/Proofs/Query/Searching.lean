import TwinGraph.Proofs.Query.FirstWord
import TwinGraph.Proofs.Query.Severing

/-! The search for a keyword and the tokens of a text tell the same literals. The search stops at
the first place outside of the string tokens where the keyword stands alone, and each place where it
stops is one between two tokens. -/
namespace TwinGraph

open Query Scan

namespace Token

def width (ts : List Token) : Nat := (ts.map text).flatten.length

theorem width_cons (t : Token) (ts : List Token) : width (t :: ts) = t.text.length + width ts := by
  rw [width, List.map_cons, List.flatten_cons, List.length_append, width]

theorem width_append (ts us : List Token) : width (ts ++ us) = width ts + width us := by
  rw [width, List.map_append, List.flatten_append, List.length_append, width, width]

theorem width_ofText (s : Text) : width (ofText s) = s.length := by
  rw [width, flatten_ofText]

/-- The token is one of the text, and it has the character at the place. -/
def Covers (s : Text) (place : Nat) (t : Token) : Prop :=
  ∃ before after, ofText s = before ++ t :: after ∧ width before ≤ place ∧
    place < width before + t.text.length

theorem Covers.behind {s rest : Text} {t u : Token} {place : Nat} (h : scan s = some (u, rest))
    (hcovers : Covers rest place t) : Covers s (u.text.length + place) t := by
  obtain ⟨before, after, htokens, hle, hlt⟩ := hcovers
  refine ⟨u :: before, after, by rw [ofText_of_scan h, htokens, List.cons_append], ?_, ?_⟩
  · rw [width_cons]
    omega
  · rw [width_cons]
    omega

end Token

/-- All string literals end: no quote is left over as a symbol. -/
def Terminated (s : Text) : Prop := ∀ q, isQuote q = true → Token.symbol [q] ∉ Token.ofText s

theorem terminated_iff {s : Text} : Terminated s ↔ Closed s := by
  induction s using Token.tokens_induction with
  | nil => simp [Terminated, Closed, marks_nil, Token.ofText, many, upTo]
  | cons s t rest hscan ih =>
    rw [Terminated, Token.ofText_of_scan hscan]
    cases Token.scanned_of_scan hscan with
    | @string q s body _ hq hclose =>
      have hclosed : Closed (q :: s) ↔ Closed rest := by
        rw [closed_quote hq, hclose]
        simp
      rw [hclosed, ← ih, Terminated]
      simp
    | @lone q s hq hclose =>
      have hopen : ¬Closed (q :: rest) := by
        rw [closed_quote hq, hclose]
        simp
      refine iff_of_false (fun h => h q hq List.mem_cons_self) hopen
    | plain heq hne hquote =>
      have hclosed : Closed s ↔ Closed rest := by rw [Closed, Closed, heq, marks_append_left hquote]
      rw [hclosed, ← ih, Terminated]
      refine forall₂_congr fun q hq => not_congr ⟨fun h => ?_, List.mem_cons_of_mem _⟩
      rcases List.mem_cons.mp h with rfl | h
      · have hplain := hquote q List.mem_cons_self
        rw [hq] at hplain
        cases hplain
      · exact h

namespace Token

/-! ### The place behind a word -/

theorem not_endsWord_of {test : Char → Bool} {c : Char} (h : test c = true)
    (hnone : ∀ d ∈ [' ', '\t', '\n', '\x0c', '\r', ')'], test d = false) : endsWord c = false := by
  refine Bool.eq_false_iff.mpr fun hends => ?_
  have hmem : c ∈ [' ', '\t', '\n', '\x0c', '\r', ')'] := by
    simpa [endsWord, or_assoc] using hends
  rw [hnone c hmem] at h
  cases h

theorem not_endsWord_of_scan {s rest : Text} {t : Token} {c d : Char} (h : scan s = some (t, rest))
    (hquote : Quoteless t.text) (hd : d ∈ t.text) (hname : isNameChar d = true) (hc : c ∈ t.text) :
    endsWord c = false := by
  cases scannedBy_of_scan h with
  | string hstring =>
    obtain ⟨q, s', body, hq, -, rfl, -⟩ := scanString_eq_some hstring
    have hplain := hquote q List.mem_cons_self
    rw [hq] at hplain
    cases hplain
  | number hnumber => exact not_endsWord_of (scanNumber_chars hnumber c hc) (by decide)
  | path hpath => exact not_endsWord_of (scanPath_isPath hpath c hc) (by decide)
  | space hspace =>
    have hgap := (scanSpace_eq_some hspace).2.1 d hd
    rw [not_isGap_of_isNameChar hname] at hgap
    cases hgap
  | operator _ hoperator =>
    have hmarks : ∀ marks : Text, (∀ m ∈ marks, isNameChar m = false) → d ∉ marks :=
      fun marks hmarks hd => by
        rw [hmarks d hd] at hname
        cases hname
    unfold scanOperator at hoperator
    split at hoperator
    case h_7 =>
      cases hoperator
      obtain rfl := List.mem_singleton.mp hd
      obtain rfl := List.mem_singleton.mp hc
      exact not_endsWord_of hname (by decide)
    case h_8 => cases hoperator
    all_goals
      cases hoperator
      exact absurd hd (hmarks _ (by decide))

section Front

variable {before rest : Text} (hrest : ∀ c ∈ rest.head?, isNameChar c = true)

include hrest

/-- In front of a place where a word may begin, the tokens are read from the text in front. -/
theorem scan_in_front (hne : before ≠ []) (hclosed : Closed before)
    (hfresh : before.getLast?.elim true endsWord = true) {t : Token} {behind : Text}
    (h : scan (before ++ rest) = some (t, behind)) :
    ∃ more, before = t.text ++ more ∧ behind = more ++ rest := by
  obtain ⟨q, front, rfl⟩ := List.exists_cons_of_ne_nil hne
  rw [List.cons_append] at h
  cases scanned_of_scan h with
  | string hq hclose =>
    obtain ⟨body, more, hinner, -⟩ := (closed_quote hq).mp hclosed
    rw [closeQuote_append hinner] at hclose
    cases hclose
    exact ⟨more, by rw [(closeQuote_eq_some hinner).1]; rfl, rfl⟩
  | lone hq hclose =>
    obtain ⟨body, more, hinner, -⟩ := (closed_quote hq).mp hclosed
    rw [closeQuote_append hinner] at hclose
    cases hclose
  | plain heq htext hquote =>
    rw [← List.cons_append] at heq
    rcases List.append_eq_append_iff.mp heq with ⟨more, htoken, hbehind⟩ | ⟨more, hmore, hbehind⟩
    · cases more with
      | nil => exact ⟨[], by rw [htoken, List.append_nil, List.append_nil], by rw [hbehind]; rfl⟩
      | cons d more =>
        -- The token would go on from the last character in front into the word.
        obtain ⟨c, hlast⟩ : ∃ c, (q :: front).getLast? = some c :=
          ⟨_, List.getLast?_eq_some_getLast hne⟩
        rw [hlast] at hfresh
        have hends : endsWord c = false := by
          refine not_endsWord_of_scan (d := d) h hquote ?_ (hrest d (by rw [hbehind]; rfl)) ?_
          · simp [htoken]
          · rw [htoken]
            exact List.mem_append_left _ (List.mem_of_getLast? hlast)
        rw [Option.elim_some, hends] at hfresh
        cases hfresh
    · exact ⟨more, hmore, hbehind⟩

theorem ofText_append (hclosed : Closed before)
    (hfresh : before.getLast?.elim true endsWord = true) :
    ofText (before ++ rest) = ofText before ++ ofText rest := by
  induction hlength : before.length using Nat.strongRecOn generalizing before with
  | _ n ih =>
    by_cases hne : before = []
    · rw [hne]
      rfl
    · obtain ⟨t, behind, hscan⟩ := scan_isSome (List.append_ne_nil_of_left_ne_nil hne rest)
      obtain ⟨more, hbefore, rfl⟩ := scan_in_front hrest hne hclosed hfresh hscan
      have hfront := scan_sever hscan
      have hlt := scan_shortens hfront
      have hlast : more.getLast?.elim true endsWord = true := by
        cases more with
        | nil => rfl
        | cons c more =>
          rw [hbefore, List.getLast?_append_of_ne_nil _ (List.cons_ne_nil c more)] at hfresh
          exact hfresh
      rw [ofText_of_scan hscan, ofText_of_scan hfront,
        ih _ (by omega) (closed_of_scan hclosed hfront) hlast rfl, List.cons_append]

end Front

theorem head?_of_covers {before rest : Text} {t : Token}
    (h : ofText (before ++ rest) = ofText before ++ ofText rest)
    (hcovers : Covers (before ++ rest) before.length t) : (ofText rest).head? = some t := by
  obtain ⟨front, after, htokens, hle, hlt⟩ := hcovers
  rw [h] at htokens
  rw [← width_ofText] at hle hlt
  rcases List.append_eq_append_iff.mp htokens with ⟨more, hfront, hrest⟩ | ⟨more, hbefore, hrest⟩
  · cases more with
    | nil =>
      rw [hrest]
      rfl
    | cons u more =>
      have hu : u ∈ ofText rest := by
        rw [hrest]
        exact List.mem_cons_self
      obtain ⟨s, rest', hscan⟩ := exists_scan_of_mem hu
      have hpos := List.length_pos_iff.mpr (scanned_of_scan hscan).append.2
      rw [hfront, width_append, width_cons] at hle
      omega
  · cases more with
    | nil =>
      rw [← List.nil_append (ofText rest), ← hrest]
      rfl
    | cons u more =>
      rw [List.cons_append, List.cons.injEq] at hrest
      rw [hbefore, width_append, width_cons, ← hrest.1] at hlt
      omega

theorem closed_text_of_scan {s rest : Text} {t : Token} (hs : Closed s)
    (h : scan s = some (t, rest)) :
    Closed t.text ∧ (Quoteless t.text ∨ ∃ l, t = literal l ∧ isString l = true) := by
  cases scanned_of_scan h with
  | string hq hclose =>
    exact ⟨(closed_string hq (closeQuote_body hclose)).1, Or.inr ⟨_, rfl, hq⟩⟩
  | lone hq hclose =>
    obtain ⟨body, more, hinner, -⟩ := (closed_quote hq).mp hs
    rw [hclose] at hinner
    cases hinner
  | plain _ _ hquote => exact ⟨closed_of_quoteless hquote, Or.inl hquote⟩

theorem closed_of_uncovered {before rest : Text} (hclosed : Closed (before ++ rest))
    (h : ∀ l, isString l = true → ¬Covers (before ++ rest) before.length (literal l)) :
    Closed before := by
  induction hlength : before.length using Nat.strongRecOn generalizing before with
  | _ n ih =>
    by_cases hne : before = []
    · rw [hne]
      exact closed_of_quoteless (by simp)
    obtain ⟨t, behind, hscan⟩ := scan_isSome (List.append_ne_nil_of_left_ne_nil hne rest)
    obtain ⟨heq, htext⟩ := (scanned_of_scan hscan).append
    obtain ⟨hfirst, hkind⟩ := closed_text_of_scan hclosed hscan
    rcases List.append_eq_append_iff.mp heq with ⟨more, htoken, -⟩ | ⟨more, rfl, rfl⟩
    · -- The place is in the first token or directly behind it.
      cases more with
      | nil => rwa [htoken, List.append_nil] at hfirst
      | cons d more =>
        rcases hkind with hquote | ⟨l, rfl, hl⟩
        · refine closed_of_quoteless fun c hc => hquote c ?_
          rw [htoken]
          exact List.mem_append_left _ hc
        · refine absurd ⟨[], ofText behind, ofText_of_scan hscan, Nat.zero_le _, ?_⟩ (h l hl)
          rw [htoken, List.length_append, List.length_cons]
          have hzero : width [] = 0 := rfl
          omega
    · have hpos := List.length_pos_iff.mpr htext
      rw [List.length_append] at hlength
      refine hfirst.append (ih more.length (by omega) (closed_of_scan hclosed hscan) ?_ rfl)
      intro l hl hcovers
      refine h l hl ?_
      rw [List.length_append]
      exact hcovers.behind hscan

end Token

namespace Query

/-- The keyword begins at the start of the text or behind what ends a word, and not in a string. -/
structure Occurs (keyword before rest : Text) : Prop where
  fresh : before = [] ∨ ∃ c ∈ before.getLast?, endsWord c = true
  leads : Leads keyword rest
  outside : ∀ l, isString l = true → ¬Token.Covers (before ++ rest) before.length (.literal l)

theorem fresh_iff {before : Text} : before.getLast?.elim true endsWord = true ↔
    before = [] ∨ ∃ c ∈ before.getLast?, endsWord c = true := by
  cases hlast : before.getLast? with
  | none => simpa using hlast
  | some c =>
    have hne : before ≠ [] := by
      rintro rfl
      cases hlast
    simp [hne]

theorem isNameStart_of_toLower {c : Char} (h : isNameStart c.toLower = true) :
    isNameStart c = true := by
  by_cases hupper : c.isUpper = true
  · show ((c.isUpper || c.isLower) || c == '_') = true
    rw [hupper]
    rfl
  · have hlower : c.toLower = c := dif_neg fun hletter => hupper (decide_eq_true hletter)
    rwa [hlower] at h

theorem head?_of_leads {keyword rest : Text} (hkeyword : keyword ∈ clauseWords)
    (h : Leads keyword rest) : ∃ c, rest.head? = some c ∧ isNameStart c = true := by
  have hletters : ∀ word ∈ clauseWords, word.foldCase.head?.any isNameStart = true := by decide
  obtain ⟨word, more, rfl, hsame, -⟩ := h
  have hletter := hletters keyword hkeyword
  rw [Text.sameLetters, beq_iff_eq] at hsame
  rw [← hsame] at hletter
  cases word with
  | nil => cases hletter
  | cons c word => exact ⟨c, rfl, isNameStart_of_toLower hletter⟩

section Stopping

variable {keyword before rest : Text} (hkeyword : keyword ∈ clauseWords)

include hkeyword

/-- Where the keyword stands, the text can be cut between two tokens, and no literal begins. -/
theorem Stands.boundary (h : Stands keyword none true before rest) :
    Token.ofText (before ++ rest) = Token.ofText before ++ Token.ofText rest ∧
    ∀ l, ¬Token.Covers (before ++ rest) before.length (.literal l) := by
  obtain ⟨c, hhead, hstart⟩ := head?_of_leads hkeyword (isSome_afterKeyword.mp h.keyword)
  have htokens : Token.ofText (before ++ rest) = Token.ofText before ++ Token.ofText rest := by
    refine Token.ofText_append (fun d hd => ?_) h.closed h.fresh
    rw [hhead] at hd
    cases hd
    exact isNameChar_of_isNameStart hstart
  refine ⟨htokens, fun l hcovers => ?_⟩
  have hfirst := Token.head?_of_covers htokens hcovers
  have htext := Token.head?_ofText (s := rest) hfirst
  obtain ⟨d, ds, rfl, hd⟩ := Token.literal_of_mem_ofText (List.mem_of_head? hfirst)
  rw [hhead] at htext
  cases htext
  rcases hd with hquote | hdigit
  · rw [not_quote_of_isNameChar (isNameChar_of_isNameStart hstart)] at hquote
    cases hquote
  · rw [Token.not_isDigit_of_isNameStart hstart] at hdigit
    cases hdigit

theorem stands_iff_occurs (hclosed : Closed (before ++ rest)) :
    Stands keyword none true before rest ↔ Occurs keyword before rest := by
  constructor
  · intro h
    exact ⟨fresh_iff.mp h.fresh, isSome_afterKeyword.mp h.keyword,
      fun l _ => (h.boundary hkeyword).2 l⟩
  · intro h
    exact ⟨Token.closed_of_uncovered hclosed h.outside, fresh_iff.mpr h.fresh,
      isSome_afterKeyword.mpr h.leads⟩

end Stopping

/-- If all literals of the text end, the search finds the first place where the keyword occurs
outside of the string tokens, or there is none. In any text, the place that is found is one between
two tokens: what stands in front of it and what stands behind it are cut into the tokens of the
whole text, and it is in no literal. -/
theorem search_agrees_with_tokens {keyword : Text} (hkeyword : keyword ∈ clauseWords) (s : Text) :
    (Terminated s → FirstCut (Occurs keyword) s (findKeyword keyword s)) ∧
    ∀ before rest, findKeyword keyword s = some (before, rest) →
      s = before ++ rest ∧ Token.ofText before ++ Token.ofText rest = Token.ofText s ∧
      ∀ l, ¬Token.Covers s before.length (.literal l) := by
  have hwords : ∀ word ∈ clauseWords, IsKeyword word := by decide
  have hcut := findKeyword_firstCut (hwords keyword hkeyword) s
  refine ⟨fun hs => hcut.congr fun before rest heq => ?_, fun before rest hfind => ?_⟩
  · exact stands_iff_occurs hkeyword (heq ▸ terminated_iff.mp hs)
  · rw [hfind] at hcut
    obtain ⟨rfl, hstands, -⟩ := hcut
    obtain ⟨htokens, hliteral⟩ := hstands.boundary hkeyword
    exact ⟨rfl, htokens.symm, hliteral⟩

def quotedFront : Text := "n = 'it\\'s WHERE' AND (b)"

def quotedBack : Text := "where c = \"WHERE\""

/-- The keyword is passed over in both literals, and found behind the parenthesis. -/
theorem quoted_keyword_is_passed_over :
    "WHERE".toList ∈ clauseWords ∧ Terminated (quotedFront ++ quotedBack) ∧
    findKeyword "WHERE".toList (quotedFront ++ quotedBack) = some (quotedFront, quotedBack) ∧
    FirstCut (Occurs "WHERE".toList) (quotedFront ++ quotedBack) (some (quotedFront, quotedBack)) ∧
    Token.ofText quotedFront ++ Token.ofText quotedBack = Token.ofText (quotedFront ++ quotedBack) ∧
    ∀ l, ¬Token.Covers (quotedFront ++ quotedBack) quotedFront.length (.literal l) := by
  have hword : "WHERE".toList ∈ clauseWords := by decide
  have hclosed : Closed (quotedFront ++ quotedBack) := by decide +kernel
  have hends : Terminated (quotedFront ++ quotedBack) := terminated_iff.mpr hclosed
  have hfind : findKeyword "WHERE".toList (quotedFront ++ quotedBack) =
      some (quotedFront, quotedBack) := by decide +kernel
  obtain ⟨hfirst, hfound⟩ := search_agrees_with_tokens hword (quotedFront ++ quotedBack)
  obtain ⟨-, htokens, hliteral⟩ := hfound _ _ hfind
  rw [hfind] at hfirst
  exact ⟨hword, hends, hfind, hfirst hends, htokens, hliteral⟩

end Query
end TwinGraph
