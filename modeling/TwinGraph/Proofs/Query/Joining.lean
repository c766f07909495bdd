import Mathlib.Data.List.Chain
import TwinGraph.Proofs.Query.Flattening
import TwinGraph.Proofs.Query.RoundTrip

/-! Tokens one behind another. Their common text is cut into the same tokens again wherever none of
them runs into the next. -/
namespace TwinGraph

open Query Scan

namespace Token

def continuesNumber (c : Char) : Bool := c.isDigit || c == '.' || c == 'e' || c == 'E'

def endsBefore : Token → Char → Bool
  | word _, c => !isNameChar c && c != '.'
  | literal s, c => isString s || !continuesNumber c
  | space _, c => !isGap c
  | symbol s, c => !(s == ['<'] || s == ['>'] || s == ['!']) || !(c == '=' || c == '>')
  | opening, _ | closing, _ => true

/-- The token does not run into what follows. -/
def Clear (t : Token) (rest : Text) : Prop := ∀ c ∈ rest.head?, t.endsBefore c = true

def Apart (t u : Token) : Prop := t.Clear u.text

/-- The token is read back in front of everything that it does not run into. -/
def Legal (t : Token) : Prop := ∀ rest, t.Clear rest → scan (t.text ++ rest) = some (t, rest)

theorem clear_nil (t : Token) : t.Clear [] := by simp [Clear]

theorem Legal.ne_nil {t : Token} (h : t.Legal) : t.text ≠ [] :=
  (scanned_of_scan (h [] t.clear_nil)).append.2

theorem ofText_flatten {ts : List Token} (hlegal : ∀ t ∈ ts, t.Legal) (hapart : ts.IsChain Apart) :
    ofText (ts.map text).flatten = ts := by
  induction ts with
  | nil => rfl
  | cons t ts ih =>
    rw [List.forall_mem_cons] at hlegal
    have hclear : t.Clear (ts.map text).flatten := by
      cases ts with
      | nil => exact t.clear_nil
      | cons u ts =>
        obtain ⟨c, cs, hu⟩ := List.exists_cons_of_ne_nil (hlegal.2 u List.mem_cons_self).ne_nil
        have happart := (List.isChain_cons_cons.mp hapart).1
        rw [Apart, hu] at happart
        rw [List.map_cons, List.flatten_cons, hu]
        exact happart
    rw [List.map_cons, List.flatten_cons, ofText_of_scan (hlegal.1 _ hclear),
      ih hlegal.2 hapart.of_cons]

/-- The tokens make up the text and are read back from it. -/
structure Writes (ts : List Token) (s : Text) : Prop where
  text : (ts.map Token.text).flatten = s
  legal : ∀ t ∈ ts, t.Legal
  apart : ts.IsChain Apart

theorem Writes.ofText {ts : List Token} {s : Text} (h : Writes ts s) : ofText s = ts := by
  rw [← h.text]
  exact ofText_flatten h.legal h.apart

theorem writes_nil : Writes [] [] := ⟨rfl, by simp, .nil⟩

theorem Legal.writes {t : Token} (h : t.Legal) : Writes [t] t.text :=
  ⟨by simp, List.forall_mem_singleton.mpr h, .singleton t⟩

theorem Writes.eq_nil_iff {ts : List Token} {s : Text} (h : Writes ts s) : ts = [] ↔ s = [] := by
  cases ts with
  | nil => simp [← h.text]
  | cons t ts =>
    obtain ⟨c, cs, htext⟩ := List.exists_cons_of_ne_nil (h.legal t List.mem_cons_self).ne_nil
    simp [← h.text, htext]

/-- The last token must not run into the text behind it. -/
theorem Writes.append {ts us : List Token} {s s' : Text} (h : Writes ts s) (h' : Writes us s')
    (hjoin : ∀ t ∈ ts.getLast?, t.Clear s') : Writes (ts ++ us) (s ++ s') := by
  refine ⟨by rw [List.map_append, List.flatten_append, h.text, h'.text],
    List.forall_mem_append.mpr ⟨h.legal, h'.legal⟩, ?_⟩
  refine h.apart.append h'.apart fun t ht u hu => ?_
  obtain ⟨us, rfl⟩ : ∃ rest, us = u :: rest := by
    cases us with
    | nil => cases hu
    | cons v us =>
      cases hu
      exact ⟨us, rfl⟩
  obtain ⟨c, cs, htext⟩ := List.exists_cons_of_ne_nil (h'.legal u List.mem_cons_self).ne_nil
  have hclear := hjoin t ht
  rw [← h'.text, List.map_cons, List.flatten_cons, htext] at hclear
  rw [Apart, htext]
  exact hclear

theorem Writes.cons {t : Token} {ts : List Token} {s : Text} (ht : t.Legal) (hclear : t.Clear s)
    (h : Writes ts s) : Writes (t :: ts) (t.text ++ s) :=
  ht.writes.append h (by simpa using hclear)

/-! ### Tokens that are read back -/

theorem scan_mark {c : Char} (hquote : isQuote c = false) (hname : isNameChar c = false)
    (hdollar : (c == '$') = false) (s : Text) :
    scan (c :: s) = match scanSpace (c :: s) with
      | some (t, rest) => some (space t, rest)
      | none => scanOperator (c :: s) := by
  have hdigit : c.isDigit = false := by
    refine Bool.eq_false_iff.mpr fun hdigit => ?_
    simp [isNameChar, Char.isAlphanum, hdigit] at hname
  have hstring : scanString (c :: s) = none := by rw [scanString, if_neg (by simp [hquote])]
  have hnumber : scanNumber (c :: s) = none := by
    rw [scanNumber, scanDigits, if_neg (by simp [hdigit])]
    rfl
  have hpath : scanPath (c :: s) = none := by
    have hsegment : scanSegment (c :: s) = none := by
      have hnone : scanName (c :: s) = none := scanName_of_head hname
      rw [scanSegment, List.dropWhile_cons_of_neg (by simp [hdollar]), hnone]
      rfl
    rw [scanPath_eq, hsegment]
    rfl
  cases hspace : scanSpace (c :: s) <;> simp only [scan, hstring, hnumber, hpath, hspace]

theorem scan_operator {c : Char} (hquote : isQuote c = false) (hname : isNameChar c = false)
    (hdollar : (c == '$') = false) (hgap : isGap c = false) (s : Text) :
    scan (c :: s) = scanOperator (c :: s) := by
  rw [scan_mark hquote hname hdollar, scanSpace, if_neg (by simp [hgap])]

theorem legal_opening : opening.Legal := fun _ _ =>
  scan_operator (by decide) (by decide) (by decide) (by decide) _

theorem legal_closing : closing.Legal := fun _ _ =>
  scan_operator (by decide) (by decide) (by decide) (by decide) _

theorem clear_iff {t : Token} (test : Char → Bool) (h : ∀ c, t.endsBefore c = !test c)
    {rest : Text} : t.Clear rest ↔ rest.head?.any test = false := by
  cases rest with
  | nil => simp [Clear]
  | cons c rest => simp [Clear, h]

theorem legal_space {s : Text} (hne : s ≠ []) (hs : ∀ c ∈ s, isGap c = true) :
    (space s).Legal := by
  intro rest hrest
  rw [clear_iff isGap fun _ => rfl] at hrest
  obtain ⟨c, cs, rfl⟩ := List.exists_cons_of_ne_nil hne
  rw [List.forall_mem_cons] at hs
  obtain ⟨htake, hdrop⟩ := span_append rest hs.2 hrest
  have hname : isNameChar c = false := by
    refine Bool.eq_false_iff.mpr fun hname => ?_
    rw [not_isGap_of_isNameChar hname] at hs
    cases hs.1
  have hdollar : (c == '$') = false := by
    refine Bool.eq_false_iff.mpr fun hdollar => ?_
    rw [beq_iff_eq.mp hdollar] at hs
    exact absurd hs.1 (by decide)
  rw [text, List.cons_append, scan_mark (not_quote_of_isGap hs.1) hname hdollar, scanSpace,
    if_pos hs.1, htake, hdrop]

theorem legal_string {q : Char} (hq : isQuote q = true) {body : Text}
    (h : closeQuote q body = some (body, [])) : (literal (q :: body)).Legal := by
  intro rest _
  have hstring : scanString (q :: (body ++ rest)) = some (q :: body, rest) := by
    rw [scanString, if_pos hq, closeQuote_append h]
    rfl
  rw [text, List.cons_append, scan, hstring]

theorem scanSegment_append {s rest : Text} (hs : IsSegment s)
    (hrest : rest.head?.any isNameChar = false) : scanSegment (s ++ rest) = some (s, rest) := by
  obtain ⟨dollars, name, rfl, hdollars, hname⟩ := hs
  obtain ⟨c, cs, rfl, hc, hcs⟩ := isIdentifier_eq_true.mp hname
  have hdollar : (c == '$') = false := by
    refine Bool.eq_false_iff.mpr fun hdollar => ?_
    rw [beq_iff_eq.mp hdollar] at hc
    exact absurd hc (by decide)
  have hspan : ∀ d ∈ dollars, (d == '$') = true := fun d hd => beq_iff_eq.mpr (hdollars d hd)
  obtain ⟨htake, hdrop⟩ := span_append (c :: cs ++ rest) hspan (by simpa using hdollar)
  rw [scanSegment, List.append_assoc, htake, hdrop, scanName_append hname hrest]
  rfl

theorem scanStep_append {s rest : Text} (hs : IsSegment s)
    (hrest : rest.head?.any isNameChar = false) :
    scanStep ('.' :: s ++ rest) = some ('.' :: s, rest) := by
  have hpoint : Text.after? ['.'] ('.' :: s ++ rest) = some (s ++ rest) :=
    Text.after?_eq_some_iff.mpr rfl
  simp only [scanStep, hpoint, scanSegment_append hs hrest, Option.bind_eq_bind, Option.bind_some]

theorem exists_segments {w : Text} (hw : ∀ piece ∈ w.pieces (· == '.'), IsSegment piece) :
    ∃ (first : Text) (more : List Text), w = first ++ (more.map ('.' :: ·)).flatten ∧
      IsSegment first ∧ ∀ segment ∈ more, IsSegment segment := by
  obtain ⟨first, more, hpieces⟩ := List.exists_cons_of_ne_nil (Text.pieces_ne_nil (· == '.') w)
  have hwhole := intercalate_pieces '.' w
  rw [hpieces] at hw hwhole
  rw [List.forall_mem_cons] at hw
  refine ⟨first, more, ?_, hw⟩
  rw [← hwhole]
  exact separated_eq ['.'] first more

theorem scanPath_append {w rest : Text} (hw : ∀ piece ∈ w.pieces (· == '.'), IsSegment piece)
    (hname : rest.head?.any isNameChar = false) (hend : scanStep rest = none) :
    scanPath (w ++ rest) = some (w, rest) := by
  obtain ⟨first, more, rfl, hfirst, hsegments⟩ := exists_segments hw
  have hmore : many scanStep ((more.map ('.' :: ·)).flatten ++ rest) =
      (more.map ('.' :: ·), rest) := by
    suffices hsteps : many scanStep (((more.map ('.' :: ·)).map id).flatten ++ rest) =
        (more.map ('.' :: ·), rest) by rwa [List.map_id] at hsteps
    refine many_append id (fun t => t.head?.any isNameChar = false) ?_ ?_ hname hend
    · rw [List.forall_mem_map]
      exact fun segment hsegment t ht => scanStep_append (hsegments segment hsegment) ht
    · rw [List.forall_mem_map]
      exact fun segment _ => ⟨List.cons_ne_nil _ _, fun t => rfl⟩
  have hfollows : ((more.map ('.' :: ·)).flatten ++ rest).head?.any isNameChar = false := by
    cases more with
    | nil => exact hname
    | cons segment more => rfl
  rw [scanPath_eq, List.append_assoc, scanSegment_append hfirst hfollows]
  dsimp only [Option.bind_eq_bind, Option.bind_some]
  rw [hmore]

theorem not_isDigit_of_isNameStart {c : Char} (h : isNameStart c = true) : c.isDigit = false := by
  refine Bool.eq_false_iff.mpr fun hdigit => ?_
  have hletter : c.isAlpha = (decide (c.val ≥ 65 ∧ c.val ≤ 90) ||
      (decide (c.val ≥ 97) && decide (c.val ≤ 122))) := rfl
  simp only [isNameStart, hletter, Char.isDigit, Bool.or_eq_true, Bool.and_eq_true,
    decide_eq_true_eq, UInt32.le_iff_toNat_le, ge_iff_le, beq_iff_eq] at h hdigit
  rcases h with (h | h) | rfl
  · have hlow : UInt32.toNat 65 = 65 := rfl
    have hhigh : '9'.val.toNat = 57 := rfl
    omega
  · have hlow : UInt32.toNat 97 = 97 := rfl
    have hhigh : '9'.val.toNat = 57 := rfl
    omega
  · exact absurd hdigit (by decide)

theorem exists_first_of_segment {s : Text} (h : IsSegment s) :
    ∃ c cs, s = c :: cs ∧ (c = '$' ∨ isNameStart c = true) := by
  obtain ⟨dollars, name, rfl, hdollars, hname⟩ := h
  obtain ⟨c, cs, rfl, hc, -⟩ := isIdentifier_eq_true.mp hname
  cases dollars with
  | nil => exact ⟨c, _, rfl, Or.inr hc⟩
  | cons d dollars => exact ⟨d, _, rfl, Or.inl (hdollars d List.mem_cons_self)⟩

theorem exists_first {w : Text} (hw : ∀ piece ∈ w.pieces (· == '.'), IsSegment piece) :
    ∃ c cs, w = c :: cs ∧ (c = '$' ∨ isNameStart c = true) := by
  obtain ⟨first, more, rfl, hfirst, -⟩ := exists_segments hw
  obtain ⟨c, cs, rfl, hc⟩ := exists_first_of_segment hfirst
  exact ⟨c, _, rfl, hc⟩

theorem scan_word_append {w rest : Text} (hw : ∀ piece ∈ w.pieces (· == '.'), IsSegment piece)
    (hname : rest.head?.any isNameChar = false) (hend : scanStep rest = none) :
    scan (w ++ rest) = some (word w, rest) := by
  have hpath := scanPath_append hw hname hend
  obtain ⟨-, -, hquote⟩ := scanPath_readsText hpath
  obtain ⟨c, cs, rfl, hc⟩ := exists_first hw
  have hdigit : c.isDigit = false := by
    rcases hc with rfl | hc
    · decide
    · exact not_isDigit_of_isNameStart hc
  have hstring : scanString (c :: cs ++ rest) = none := by
    rw [List.cons_append, scanString, if_neg (by simp [hquote c List.mem_cons_self])]
  have hnumber : scanNumber (c :: cs ++ rest) = none := by
    rw [List.cons_append, scanNumber, scanDigits, if_neg (by simp [hdigit])]
    rfl
  rw [scan, hstring, hnumber, hpath]

theorem scanStep_of_head {s : Text} (h : ∀ c ∈ s.head?, c ≠ '.') : scanStep s = none := by
  cases s with
  | nil => rfl
  | cons c s =>
    have hc : '.' ≠ c := Ne.symm (h c rfl)
    rw [scanStep, Text.after?, if_neg hc]
    rfl

theorem legal_word {w : Text} (hw : ∀ piece ∈ w.pieces (· == '.'), IsSegment piece) :
    (word w).Legal := by
  intro rest hrest
  rw [clear_iff (fun c => isNameChar c || c == '.') fun c => by simp [endsBefore, bne],
    Option.any_eq_false] at hrest
  refine scan_word_append hw ?_ (scanStep_of_head fun c hc => ?_)
  · rw [Option.any_eq_false]
    exact fun c hc => (Bool.or_eq_false_iff.mp (hrest c hc)).1
  · exact beq_eq_false_iff_ne.mp (Bool.or_eq_false_iff.mp (hrest c hc)).2

/-! ### Numbers -/

def IsDigits (s : Text) : Prop := s ≠ [] ∧ ∀ c ∈ s, c.isDigit = true

def IsFraction (s : Text) : Prop := ∃ digits, s = '.' :: digits ∧ IsDigits digits

def IsExponent (s : Text) : Prop :=
  ∃ (c : Char) (sign : Option Char) (digits : Text), s = c :: (sign.toList ++ digits) ∧
    (c = 'e' ∨ c = 'E') ∧ (∀ d ∈ sign, d = '+' ∨ d = '-') ∧ IsDigits digits

theorem finds_scanDigits : Finds IsDigits scanDigits := fun _ _ _ h => (scanDigits_eq_some h).2

theorem finds_scanFraction : Finds IsFraction scanFraction := by
  intro s fraction rest h
  simp only [scanFraction, Option.bind_eq_bind, Option.bind_eq_some_iff, Option.some.injEq,
    Prod.mk.injEq] at h
  obtain ⟨s₁, -, ⟨digits, s₂⟩, hdigits, rfl, -⟩ := h
  exact ⟨digits, rfl, finds_scanDigits _ _ _ hdigits⟩

theorem finds_scanSign : Finds (fun c => c = '+' ∨ c = '-') scanSign := by
  intro s c rest h
  unfold scanSign at h
  split at h <;> cases h
  · exact Or.inl rfl
  · exact Or.inr rfl

theorem finds_scanExponent : Finds IsExponent scanExponent := by
  intro s exponent rest h
  cases s with
  | nil => cases h
  | cons c cs =>
    rw [scanExponent] at h
    split at h
    · next hc =>
      simp only [Option.bind_eq_bind, Option.bind_eq_some_iff, Option.some.injEq,
        Prod.mk.injEq] at h
      obtain ⟨⟨digits, s'⟩, hdigits, rfl, -⟩ := h
      exact ⟨c, _, digits, rfl, hc, finds_scanSign.optional cs, finds_scanDigits _ _ _ hdigits⟩
    · cases h

def isNumberChar (c : Char) : Bool := continuesNumber c || c == '+' || c == '-'

theorem IsDigits.chars {s : Text} (h : IsDigits s) : ∀ c ∈ s, isNumberChar c = true := fun c hc => by
  simp [isNumberChar, continuesNumber, h.2 c hc]

theorem IsFraction.chars {s : Text} (h : IsFraction s) : ∀ c ∈ s, isNumberChar c = true := by
  obtain ⟨digits, rfl, hdigits⟩ := h
  exact List.forall_mem_cons.mpr ⟨by decide, IsDigits.chars hdigits⟩

theorem IsExponent.chars {s : Text} (h : IsExponent s) : ∀ c ∈ s, isNumberChar c = true := by
  obtain ⟨c, sign, digits, rfl, hc, hsign, hdigits⟩ := h
  rw [List.forall_mem_cons, List.forall_mem_append]
  refine ⟨by rcases hc with rfl | rfl <;> decide, fun d hd => ?_, IsDigits.chars hdigits⟩
  rcases hsign d (Option.mem_toList.mp hd) with rfl | rfl <;> decide

theorem scanNumber_chars {s number rest : Text} (h : scanNumber s = some (number, rest)) :
    ∀ c ∈ number, isNumberChar c = true := by
  simp only [scanNumber, Option.bind_eq_bind, Option.bind_eq_some_iff, Option.some.injEq,
    Prod.mk.injEq] at h
  obtain ⟨⟨digits, s'⟩, hdigits, rfl, -⟩ := h
  have hpart : ∀ part : Option Text, (∀ t ∈ part, ∀ c ∈ t, isNumberChar c = true) →
      ∀ c ∈ part.getD [], isNumberChar c = true := by
    rintro (_ | t) ht
    · exact fun c hc => absurd hc List.not_mem_nil
    · exact ht t rfl
  rw [List.forall_mem_append, List.forall_mem_append]
  refine ⟨⟨IsDigits.chars (finds_scanDigits _ _ _ hdigits), hpart _ fun t ht => ?_⟩,
    hpart _ fun t ht => ?_⟩
  · exact IsFraction.chars (finds_scanFraction.optional s' t ht)
  · exact IsExponent.chars (finds_scanExponent.optional _ t ht)

theorem scanFraction_append {fraction rest : Text} (h : IsFraction fraction)
    (hrest : rest.head?.any Char.isDigit = false) :
    scanFraction (fraction ++ rest) = some (fraction, rest) := by
  obtain ⟨digits, rfl, hne, hdigits⟩ := h
  have hpoint : Text.after? ['.'] ('.' :: digits ++ rest) = some (digits ++ rest) :=
    Text.after?_eq_some_iff.mpr rfl
  simp only [scanFraction, hpoint, scanDigits_append hne hdigits hrest, Option.bind_eq_bind,
    Option.bind_some]

theorem scanSign_of_digits {digits : Text} (h : IsDigits digits) (rest : Text) :
    scanSign (digits ++ rest) = none := by
  obtain ⟨c, cs, rfl⟩ := List.exists_cons_of_ne_nil h.1
  have hc := h.2 c List.mem_cons_self
  unfold scanSign
  split
  · next heq =>
    obtain ⟨rfl, -⟩ := List.cons_eq_cons.mp heq
    exact absurd hc (by decide)
  · next heq =>
    obtain ⟨rfl, -⟩ := List.cons_eq_cons.mp heq
    exact absurd hc (by decide)
  · rfl

theorem scanExponent_append {exponent rest : Text} (h : IsExponent exponent)
    (hrest : rest.head?.any Char.isDigit = false) :
    scanExponent (exponent ++ rest) = some (exponent, rest) := by
  obtain ⟨c, sign, digits, rfl, hc, hsign, hdigits⟩ := h
  have hoptional : optional scanSign (sign.toList ++ digits ++ rest) = (sign, digits ++ rest) := by
    cases sign with
    | none => exact optional_of_none (scanSign_of_digits hdigits rest)
    | some d =>
      rcases hsign d rfl with rfl | rfl
      · exact optional_of_some rfl
      · exact optional_of_some rfl
  rw [List.cons_append, scanExponent, if_pos hc, hoptional]
  simp [scanDigits_append hdigits.1 hdigits.2 hrest]

theorem scanFraction_of_head {s : Text} (h : ∀ c ∈ s.head?, c ≠ '.') : scanFraction s = none := by
  cases s with
  | nil => rfl
  | cons c s =>
    have hc : '.' ≠ c := Ne.symm (h c rfl)
    rw [scanFraction, Text.after?, if_neg hc]
    rfl

theorem scanExponent_of_head {s : Text} (h : ∀ c ∈ s.head?, ¬(c = 'e' ∨ c = 'E')) :
    scanExponent s = none := by
  cases s with
  | nil => rfl
  | cons c s => rw [scanExponent, if_neg (h c rfl)]

/-- The parts of a number are told apart by how they begin. -/
theorem scanNumber_append {digits : Text} {fraction exponent : Option Text}
    (hdigits : IsDigits digits) (hfraction : ∀ t ∈ fraction, IsFraction t)
    (hexponent : ∀ t ∈ exponent, IsExponent t) {rest : Text}
    (hrest : rest.head?.any continuesNumber = false) :
    scanNumber (digits ++ fraction.getD [] ++ exponent.getD [] ++ rest) =
      some (digits ++ fraction.getD [] ++ exponent.getD [], rest) := by
  have hends : ∀ c ∈ rest.head?, c.isDigit = false ∧ c ≠ '.' ∧ ¬(c = 'e' ∨ c = 'E') := by
    rw [Option.any_eq_false] at hrest
    intro c hc
    simpa [continuesNumber, and_assoc] using hrest c hc
  have hexponentRead : optional scanExponent (exponent.getD [] ++ rest) = (exponent, rest) ∧
      ∀ c ∈ (exponent.getD [] ++ rest).head?, c.isDigit = false ∧ c ≠ '.' := by
    cases exponent with
    | none =>
      exact ⟨optional_of_none (scanExponent_of_head fun c hc => (hends c hc).2.2),
        fun c hc => ⟨(hends c hc).1, (hends c hc).2.1⟩⟩
    | some t =>
      have ht := hexponent t rfl
      refine ⟨optional_of_some (scanExponent_append ht ?_), ?_⟩
      · rw [Option.any_eq_false]
        exact fun c hc => (hends c hc).1
      · obtain ⟨c, sign, digits, rfl, hc, -⟩ := ht
        rintro d ⟨⟩
        rcases hc with rfl | rfl <;> decide
  have hfractionRead : optional scanFraction (fraction.getD [] ++ (exponent.getD [] ++ rest)) =
      (fraction, exponent.getD [] ++ rest) ∧
      ∀ c ∈ (fraction.getD [] ++ (exponent.getD [] ++ rest)).head?, c.isDigit = false := by
    cases fraction with
    | none =>
      exact ⟨optional_of_none (scanFraction_of_head fun c hc => (hexponentRead.2 c hc).2),
        fun c hc => (hexponentRead.2 c hc).1⟩
    | some t =>
      have ht := hfraction t rfl
      refine ⟨optional_of_some (scanFraction_append ht ?_), ?_⟩
      · rw [Option.any_eq_false]
        exact fun c hc => (hexponentRead.2 c hc).1
      · obtain ⟨digits, rfl, -⟩ := ht
        rintro d ⟨⟩
        decide
  have hdigitsRead :
      scanDigits (digits ++ (fraction.getD [] ++ (exponent.getD [] ++ rest))) =
        some (digits, fraction.getD [] ++ (exponent.getD [] ++ rest)) := by
    refine scanDigits_append hdigits.1 hdigits.2 ?_
    rw [Option.any_eq_false]
    exact hfractionRead.2
  rw [List.append_assoc, List.append_assoc, scanNumber, hdigitsRead]
  simp [hfractionRead.1, hexponentRead.1]

theorem legal_number {s n rest : Text} (h : scanNumber s = some (n, rest)) : (literal n).Legal := by
  intro rest' hrest'
  obtain ⟨-, -, hquote⟩ := scanNumber_readsText h
  simp only [scanNumber, Option.bind_eq_bind, Option.bind_eq_some_iff, Option.some.injEq,
    Prod.mk.injEq] at h
  obtain ⟨⟨digits, s'⟩, hread, rfl, -⟩ := h
  have hdigits := finds_scanDigits _ _ _ hread
  rw [clear_iff continuesNumber fun c => by
    rw [endsBefore, isString_of_quoteless hquote, Bool.false_or]] at hrest'
  have hnumber := scanNumber_append hdigits (finds_scanFraction.optional s')
    (finds_scanExponent.optional (optional scanFraction s').2) hrest'
  obtain ⟨c, cs, rfl⟩ := List.exists_cons_of_ne_nil hdigits.1
  have hstring : ∀ t, scanString (c :: t) = none := by
    intro t
    rw [scanString, if_neg]
    rw [not_quote_of_isDigit (hdigits.2 c List.mem_cons_self)]
    exact Bool.false_ne_true
  rw [text, scan, hnumber]
  simp only [List.cons_append, hstring]

/-! ### Tokens of a text -/

theorem any_head?_dropWhile (test : Char → Bool) (s : Text) :
    (s.dropWhile test).head?.any test = false := by
  induction s with
  | nil => rfl
  | cons c s ih =>
    by_cases hc : test c = true
    · rwa [List.dropWhile_cons_of_pos hc]
    · rw [List.dropWhile_cons_of_neg hc]
      simpa using hc

theorem scanSpace_eq_some {s gaps rest : Text} (h : scanSpace s = some (gaps, rest)) :
    gaps ≠ [] ∧ (∀ c ∈ gaps, isGap c = true) ∧ rest.head?.any isGap = false := by
  cases s with
  | nil => cases h
  | cons c cs =>
    rw [scanSpace] at h
    split at h
    · next hc =>
      cases h
      refine ⟨List.cons_ne_nil _ _, List.forall_mem_cons.mpr ⟨hc, fun d hd => ?_⟩, ?_⟩
      · exact List.all_eq_true.mp List.all_takeWhile d hd
      · exact any_head?_dropWhile isGap cs
    · cases h

theorem legal_of_scan {s rest : Text} {t : Token} (h : scan s = some (t, rest))
    (hsymbol : ∀ x, t ≠ symbol x) : t.Legal := by
  cases t with
  | word w => exact legal_word (finds_scanPath _ _ _ (scanPath_of_scan h))
  | literal l =>
    rcases literal_of_scan h with hstring | hnumber
    · obtain ⟨q, s', body, hq, rfl, rfl, hclose⟩ := scanString_eq_some hstring
      exact legal_string hq (closeQuote_body hclose)
    · exact legal_number hnumber
  | space gaps =>
    obtain ⟨hne, hgaps, -⟩ := scanSpace_eq_some (space_of_scan h)
    exact legal_space hne hgaps
  | symbol x => exact absurd rfl (hsymbol x)
  | opening => exact legal_opening
  | closing => exact legal_closing

theorem scanSegment_ends {s segment rest : Text} (h : scanSegment s = some (segment, rest)) :
    rest.head?.any isNameChar = false := by
  simp only [scanSegment, Option.bind_eq_bind, Option.bind_eq_some_iff, Option.some.injEq,
    Prod.mk.injEq] at h
  obtain ⟨⟨name, s'⟩, hname, -, rfl⟩ := h
  cases hs : s.dropWhile (· == '$') with
  | nil =>
    rw [hs] at hname
    cases hname
  | cons c cs =>
    rw [hs, scanName] at hname
    split at hname
    · cases hname
      exact any_head?_dropWhile isNameChar cs
    · cases hname

theorem scanPath_ends {s w rest : Text} (h : scanPath s = some (w, rest)) :
    rest.head?.any isNameChar = false := by
  have hmany : ∀ (bound : Nat) (s : Text), s.head?.any isNameChar = false →
      (upTo scanStep bound s).2.head?.any isNameChar = false := by
    intro bound
    induction bound with
    | zero => exact fun s hs => hs
    | succ bound ih =>
      intro s hs
      rw [upTo]
      split
      · exact hs
      · next step rest hstep =>
        refine ih rest ?_
        simp only [scanStep, Option.bind_eq_bind, Option.bind_eq_some_iff, Option.some.injEq,
          Prod.mk.injEq] at hstep
        obtain ⟨s₁, -, ⟨segment, s₂⟩, hsegment, -, rfl⟩ := hstep
        exact scanSegment_ends hsegment
  rw [scanPath_eq] at h
  simp only [Option.bind_eq_bind, Option.bind_eq_some_iff, Option.some.injEq,
    Prod.mk.injEq] at h
  obtain ⟨⟨first, s'⟩, hfirst, -, rfl⟩ := h
  exact hmany _ s' (scanSegment_ends hfirst)

theorem scanPath_stops {s w rest : Text} (h : scanPath s = some (w, rest)) :
    scanStep rest = none := by
  rw [scanPath_eq] at h
  simp only [Option.bind_eq_bind, Option.bind_eq_some_iff, Option.some.injEq,
    Prod.mk.injEq] at h
  obtain ⟨⟨first, s'⟩, -, -, rfl⟩ := h
  exact many_stops (Scan.ReadsText.shortens scanStep_readsText) s'

/-- What stands directly behind a word is no part of it, and behind a space stands no space. -/
def Follows : Token → Token → Prop
  | word _, u => u.text.head?.any isNameChar = false
  | space _, u => u.text.head?.any isGap = false
  | _, _ => True

theorem head?_ofText {s : Text} {u : Token} (h : u ∈ (ofText s).head?) :
    u.text.head? = s.head? := by
  by_cases hs : s = []
  · rw [hs] at h
    cases h
  · obtain ⟨t, rest, hscan⟩ := scan_isSome hs
    rw [ofText_of_scan hscan] at h
    cases h
    obtain ⟨rfl, hne⟩ := (scanned_of_scan hscan).append
    rw [List.head?_append_of_ne_nil _ hne]

theorem isChain_ofText (s : Text) : (ofText s).IsChain Follows := by
  induction s using tokens_induction with
  | nil => exact .nil
  | cons s t rest hscan ih =>
    rw [ofText_of_scan hscan]
    refine ih.cons fun u hu => ?_
    have hhead := head?_ofText hu
    cases t with
    | word w =>
      rw [Follows, hhead]
      exact scanPath_ends (scanPath_of_scan hscan)
    | space gaps =>
      rw [Follows, hhead]
      exact (scanSpace_eq_some (space_of_scan hscan)).2.2
    | literal | symbol | opening | closing => trivial

theorem legal_of_mem_ofText {s : Text} {t : Token} (h : t ∈ ofText s)
    (hsymbol : ∀ x, t ≠ symbol x) : t.Legal := by
  obtain ⟨front, rest, hscan⟩ := exists_scan_of_mem h
  exact legal_of_scan hscan hsymbol

theorem space_of_mem_ofText {s gaps : Text} (h : space gaps ∈ ofText s) :
    gaps ≠ [] ∧ ∀ c ∈ gaps, isGap c = true := by
  obtain ⟨front, rest, hscan⟩ := exists_scan_of_mem h
  obtain ⟨hne, hgaps, -⟩ := scanSpace_eq_some (space_of_scan hscan)
  exact ⟨hne, hgaps⟩

theorem literal_of_mem_ofText {s l : Text} (h : literal l ∈ ofText s) :
    ∃ c cs, l = c :: cs ∧ (isQuote c = true ∨ c.isDigit = true) := by
  obtain ⟨front, rest, hscan⟩ := exists_scan_of_mem h
  rcases literal_of_scan hscan with hstring | hnumber
  · obtain ⟨q, s', body, hq, -, rfl, -⟩ := scanString_eq_some hstring
    exact ⟨q, body, rfl, Or.inl hq⟩
  · simp only [scanNumber, Option.bind_eq_bind, Option.bind_eq_some_iff, Option.some.injEq,
      Prod.mk.injEq] at hnumber
    obtain ⟨⟨digits, s'⟩, hread, rfl, -⟩ := hnumber
    obtain ⟨hne, hdigits⟩ := finds_scanDigits _ _ _ hread
    obtain ⟨c, cs, rfl⟩ := List.exists_cons_of_ne_nil hne
    exact ⟨c, _, rfl, Or.inr (hdigits c List.mem_cons_self)⟩

end Token
end TwinGraph
