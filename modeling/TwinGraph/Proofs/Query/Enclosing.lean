import TwinGraph.Proofs.Query.Nesting

/-! A text put between parentheses. If its quotes and its parentheses are closed, it is read there as
it is read alone, and stays together. -/
namespace TwinGraph

open Query Scan

/-- All quotes and, outside of the literals, all parentheses are closed. -/
structure Enclosed (s : Text) : Prop where
  closed : Closed s
  balanced : Balanced (outside s)

theorem enclosed_plain {s : Text} (hquote : Quoteless s) (hparen : Parenless s) : Enclosed s :=
  ⟨closed_of_quoteless hquote, by
    rw [outside_of_quoteless hquote]
    exact balanced_of_parenless hparen⟩

theorem IsPath.enclosed {s : Text} (h : IsPath s) : Enclosed s :=
  enclosed_plain h.quoteless h.parenless

theorem Enclosed.append {s t : Text} (hs : Enclosed s) (ht : Enclosed t) : Enclosed (s ++ t) :=
  ⟨hs.closed.append ht.closed, by
    rw [outside_append hs.closed]
    exact hs.balanced.append ht.balanced⟩

theorem Enclosed.group {s : Text} (h : Enclosed s) : Enclosed ('(' :: s ++ [')']) := by
  have hopen : Closed ['('] := closed_of_quoteless (by decide)
  have hclose : Closed [')'] := closed_of_quoteless (by decide)
  refine ⟨(hopen.append h.closed).append hclose, ?_⟩
  rw [List.cons_append, outside_plain (by decide), outside_append h.closed,
    outside_of_quoteless (s := [')']) (by decide)]
  exact h.balanced.group

theorem enclosed_string {q : Char} (hq : isQuote q = true) {body : Text}
    (h : Token.closeQuote q body = some (body, [])) : Enclosed (q :: body) :=
  ⟨(Token.closed_string hq h).1, by
    rw [outside_literal hq h, outside_nil]
    exact closes_nil.mpr rfl⟩

theorem enclosed_flatten {texts : List Text} (h : ∀ t ∈ texts, Enclosed t) :
    Enclosed texts.flatten := by
  induction texts with
  | nil => exact enclosed_plain (by decide) (by decide)
  | cons t texts ih =>
    rw [List.forall_mem_cons] at h
    rw [List.flatten_cons]
    exact h.1.append (ih h.2)

/-! ### Scanning in front of a parenthesis or bracket -/

/-- What follows does not change what is read, and is left behind it. -/
def Steady (stop : Text) {α : Type} (p : Scanner α) : Prop :=
  ∀ s, p (s ++ stop) = (p s).map fun (a, rest) => (a, rest ++ stop)

section Steady

variable {α : Type} {stop : Text} {p : Scanner α}

theorem Steady.optional (h : Steady stop p) (s : Text) :
    Scan.optional p (s ++ stop) = ((Scan.optional p s).1, (Scan.optional p s).2 ++ stop) := by
  unfold Scan.optional
  rw [h s]
  cases p s <;> rfl

theorem Steady.many (h : Steady stop p) (hshort : Shortens p) (s : Text) :
    Scan.many p (s ++ stop) = ((Scan.many p s).1, (Scan.many p s).2 ++ stop) := by
  induction hlength : s.length using Nat.strongRecOn generalizing s with
  | _ n ih =>
    cases hread : p s with
    | none =>
      have hnone : p (s ++ stop) = none := by rw [h s, hread]; rfl
      rw [Scan.many, Scan.many, upTo_of_none hread, upTo_of_none hnone]
    | some found =>
      obtain ⟨a, rest⟩ := found
      have hsome : p (s ++ stop) = some (a, rest ++ stop) := by rw [h s, hread]; rfl
      have hlt := hshort hread
      rw [many_of_some hshort hread, many_of_some hshort hsome, ih _ (by omega) rest rfl]

theorem span_stop {test : Char → Bool} (hstop : stop.head?.any test = false) (s : Text) :
    (s ++ stop).takeWhile test = s.takeWhile test ∧
      (s ++ stop).dropWhile test = s.dropWhile test ++ stop := by
  induction s with
  | nil =>
    have hnil : ∀ d ∈ ([] : Text), test d = true := by simp
    exact span_append stop hnil hstop
  | cons c s ih =>
    cases hc : test c with
    | true => simp [hc, ih]
    | false => simp [hc]

end Steady

namespace Token

theorem scanString_append {s : Text} (hs : Closed s) (hne : s ≠ []) (stop : Text) :
    scanString (s ++ stop) = (scanString s).map fun (t, rest) => (t, rest ++ stop) := by
  obtain ⟨q, s, rfl⟩ := List.exists_cons_of_ne_nil hne
  rw [List.cons_append, scanString, scanString]
  split
  · next hq =>
    obtain ⟨body, rest, hclose, -⟩ := (closed_quote hq).mp hs
    rw [closeQuote_append hclose, hclose]
    rfl
  · rfl

/-- No token that begins in front of one of these characters has it in it, unless it is a string. -/
def stops : List Char := ['(', ')', '[']

def isStop (c : Char) : Bool := stops.contains c

theorem eq_of_isStop {c : Char} (h : isStop c = true) : c = '(' ∨ c = ')' ∨ c = '[' := by
  simpa [isStop, stops] using h

section Stop

variable {c : Char} (hc : isStop c = true) (u : Text)

include hc

theorem any_head?_stop {test : Char → Bool} (htest : ∀ d ∈ stops, test d = false) :
    (c :: u).head?.any test = false :=
  htest c (List.contains_iff_mem.mp hc)

theorem after?_stop {d : Char} (hd : isStop d = false) (s : Text) :
    Text.after? [d] (s ++ c :: u) = (Text.after? [d] s).map (· ++ c :: u) := by
  cases s with
  | nil =>
    have hne : d ≠ c := by
      rintro rfl
      rw [hc] at hd
      cases hd
    have hnone : Text.after? [d] (c :: u) = none := by rw [Text.after?, if_neg hne]
    rw [List.nil_append, hnone]
    rfl
  | cons e s =>
    have hfirst : ∀ s, Text.after? [d] (e :: s) = if d = e then some s else none := fun _ => rfl
    rw [List.cons_append, hfirst, hfirst]
    split <;> rfl

theorem steady_run {start more : Char → Bool} (hstart : ∀ d ∈ stops, start d = false)
    (hmore : ∀ d ∈ stops, more d = false) {p : Scanner Text} (hnil : p [] = none)
    (hcons : ∀ d s, p (d :: s) =
      if start d then some (d :: s.takeWhile more, s.dropWhile more) else none) :
    Steady (c :: u) p := by
  intro s
  cases s with
  | nil =>
    have hfirst : start c = false := any_head?_stop hc u hstart
    rw [List.nil_append, hnil, hcons, if_neg (by simp [hfirst])]
    rfl
  | cons d s =>
    obtain ⟨htake, hdrop⟩ := span_stop (any_head?_stop hc u hmore) s
    rw [List.cons_append, hcons, hcons, htake, hdrop]
    split <;> rfl

theorem steady_scanDigits : Steady (c :: u) scanDigits :=
  steady_run hc u (by decide) (by decide) rfl fun _ _ => rfl

theorem steady_scanName : Steady (c :: u) scanName :=
  steady_run hc u (by decide) (by decide) rfl fun _ _ => rfl

theorem steady_scanSpace : Steady (c :: u) scanSpace :=
  steady_run hc u (by decide) (by decide) rfl fun _ _ => rfl

theorem steady_scanFraction : Steady (c :: u) scanFraction := by
  intro s
  simp only [scanFraction, after?_stop hc u (d := '.') (by decide)]
  cases Text.after? ['.'] s with
  | none => rfl
  | some s =>
    simp only [Option.map_some, Option.bind_eq_bind, Option.bind_some, steady_scanDigits hc u s]
    cases scanDigits s <;> rfl

theorem steady_scanSign : Steady (c :: u) scanSign := by
  intro s
  cases s with
  | nil => rcases eq_of_isStop hc with rfl | rfl | rfl <;> rfl
  | cons d s =>
    rw [List.cons_append]
    by_cases hplus : d = '+'
    · rw [hplus]
      rfl
    · by_cases hminus : d = '-'
      · rw [hminus]
        rfl
      · have hnone : ∀ s, scanSign (d :: s) = none := fun s => by simp [scanSign, hplus, hminus]
        rw [hnone, hnone]
        rfl

theorem steady_scanExponent : Steady (c :: u) scanExponent := by
  intro s
  cases s with
  | nil => rcases eq_of_isStop hc with rfl | rfl | rfl <;> rfl
  | cons d s =>
    rw [List.cons_append, scanExponent, scanExponent]
    split
    · simp only [(steady_scanSign hc u).optional s, Option.bind_eq_bind, steady_scanDigits hc u _]
      cases scanDigits (optional scanSign s).2 <;> rfl
    · rfl

theorem steady_scanNumber : Steady (c :: u) scanNumber := by
  intro s
  simp only [scanNumber, steady_scanDigits hc u s, Option.bind_eq_bind]
  cases scanDigits s with
  | none => rfl
  | some found =>
    simp only [Option.map_some, Option.bind_some, (steady_scanFraction hc u).optional,
      (steady_scanExponent hc u).optional]

theorem steady_scanSegment : Steady (c :: u) scanSegment := by
  intro s
  have hstop : (c :: u).head?.any (· == '$') = false :=
    any_head?_stop hc u (by decide)
  obtain ⟨htake, hdrop⟩ := span_stop hstop s
  simp only [scanSegment, htake, hdrop, steady_scanName hc u _, Option.bind_eq_bind]
  cases scanName (s.dropWhile (· == '$')) <;> rfl

theorem steady_scanStep : Steady (c :: u) scanStep := by
  intro s
  simp only [scanStep, after?_stop hc u (d := '.') (by decide)]
  cases Text.after? ['.'] s with
  | none => rfl
  | some s =>
    simp only [Option.map_some, Option.bind_eq_bind, Option.bind_some, steady_scanSegment hc u s]
    cases scanSegment s <;> rfl

theorem steady_scanPath : Steady (c :: u) scanPath := by
  have hshort : Shortens scanStep := Scan.ReadsText.shortens scanStep_readsText
  intro s
  simp only [scanPath_eq, steady_scanSegment hc u s, Option.bind_eq_bind]
  cases scanSegment s with
  | none => rfl
  | some found =>
    simp only [Option.map_some, Option.bind_some, (steady_scanStep hc u).many hshort]

theorem steady_scanOperator {s : Text} (hs : s ≠ []) : scanOperator (s ++ c :: u) =
    (scanOperator s).map fun (t, rest) => (t, rest ++ c :: u) := by
  have hjoin : ∀ {d e : Char} {s : Text}, isStop e = false → ∀ first,
      (∀ v, d = first → s = e :: v → False) → ∀ v, d = first → s ++ c :: u = e :: v → False := by
    intro d e s he first hother v hd heq
    cases s with
    | nil =>
      cases heq
      rw [hc] at he
      cases he
    | cons f s =>
      cases heq
      exact hother s hd rfl
  fun_cases scanOperator s with
  | case1 | case2 | case3 | case4 | case5 | case6 => rfl
  | case7 d s hle hge hne hlg hopening hclosing =>
    rw [List.cons_append, scanOperator]
    · rfl
    · exact hjoin (by decide) _ hle
    · exact hjoin (by decide) _ hge
    · exact hjoin (by decide) _ hne
    · exact hjoin (by decide) _ hlg
    · exact hopening
    · exact hclosing
  | case8 => exact absurd rfl hs

theorem scan_stop {s rest : Text} {t : Token} (hs : Closed s) (h : scan s = some (t, rest)) :
    scan (s ++ c :: u) = some (t, rest ++ c :: u) := by
  have hne : s ≠ [] := by
    rintro rfl
    cases h
  have hmap : scan (s ++ c :: u) = (scan s).map fun (t, rest) => (t, rest ++ c :: u) := by
    simp only [scan, scanString_append hs hne, steady_scanNumber hc u s,
      steady_scanPath hc u s, steady_scanSpace hc u s, steady_scanOperator hc u hne]
    cases scanString s with
    | some found => rfl
    | none =>
      cases scanNumber s with
      | some found => rfl
      | none =>
        cases scanPath s with
        | some found => rfl
        | none => cases scanSpace s <;> rfl
  rw [hmap, h]
  rfl

theorem ofText_append_stop {s : Text} (hs : Closed s) :
    ofText (s ++ c :: u) = ofText s ++ ofText (c :: u) := by
  induction s using tokens_induction with
  | nil => rfl
  | cons s t rest hscan ih =>
    rw [ofText_of_scan (scan_stop hc u hs hscan), ofText_of_scan hscan,
      ih (closed_of_scan hs hscan), List.cons_append]

end Stop

theorem ofText_opening (s : Text) : ofText ('(' :: s) = opening :: ofText s :=
  ofText_of_scan (legal_opening s (by simp [Clear, endsBefore]))

theorem ofText_closing (s : Text) : ofText (')' :: s) = closing :: ofText s :=
  ofText_of_scan (legal_closing s (by simp [Clear, endsBefore]))

theorem ofText_group {s : Text} (hs : Closed s) (t : Text) :
    ofText ('(' :: s ++ ')' :: t) = opening :: (ofText s ++ closing :: ofText t) := by
  rw [List.cons_append, ofText_opening, ofText_append_stop (by decide) t hs, ofText_closing]

theorem ofText_and (s : Text) : ofText (" AND ".toList ++ '(' :: s) =
    space " " :: word "AND" :: space " " :: ofText ('(' :: s) := by
  have hgap : (space " ").Legal := legal_space (by decide) (by decide)
  have hand : (word "AND").Legal := by
    have hpieces : Text.pieces (· == '.') "AND" = ["AND".toList] := pieces_plain (by decide)
    refine legal_word ?_
    rw [hpieces, List.forall_mem_singleton]
    exact ⟨[], "AND", rfl, by simp, by decide⟩
  have hlast : scan (" ".toList ++ '(' :: s) = some (space " ", '(' :: s) :=
    hgap _ (by rintro c ⟨⟩; decide)
  have hword : scan ("AND".toList ++ (" ".toList ++ '(' :: s)) =
      some (word "AND", " ".toList ++ '(' :: s) := hand _ (by rintro c ⟨⟩; decide)
  have hfirst : scan (" ".toList ++ ("AND".toList ++ (" ".toList ++ '(' :: s))) =
      some (space " ", "AND".toList ++ (" ".toList ++ '(' :: s)) :=
    hgap _ (by rintro c ⟨⟩; decide)
  have htext : " AND ".toList ++ '(' :: s =
      " ".toList ++ ("AND".toList ++ (" ".toList ++ '(' :: s)) := rfl
  rw [htext, ofText_of_scan hfirst, ofText_of_scan hword, ofText_of_scan hlast]

end Token

namespace Item

def conjunction (groups : List (List Item)) : List Item :=
  [space " ", word "AND", space " "].intercalate (groups.map fun items => [group items])

def grouped (s : Text) : Text := '(' :: s ++ [')']

theorem conjunction_cons_cons (items next : List Item) (groups : List (List Item)) :
    conjunction (items :: next :: groups) =
      group items :: space " " :: word "AND" :: space " " :: conjunction (next :: groups) := by
  rw [conjunction, List.map_cons, List.map_cons, List.intercalate_cons_cons]
  rfl

theorem arranged_group {items rest : List Item} (h : Arranged items) (hrest : Arranged rest) :
    Arranged (group items :: rest) :=
  ⟨h, fun _ _ => trivial, hrest⟩

theorem arranged_conjunction {groups : List (List Item)} (h : ∀ items ∈ groups, Arranged items) :
    Arranged (conjunction groups) := by
  induction groups with
  | nil => trivial
  | cons items groups ih =>
    rw [List.forall_mem_cons] at h
    cases groups with
    | nil => exact arranged_group h.1 trivial
    | cons next groups =>
      rw [conjunction_cons_cons]
      refine arranged_group h.1 ⟨trivial, fun _ _ => trivial, trivial, ?_, trivial, fun _ _ => trivial,
        ih h.2⟩
      rintro _ ⟨⟩
      trivial

theorem tokensAll_conjunction {texts : List Text} {groups : List (List Item)}
    (h : List.Forall₂ (fun s items => Closed s ∧ tokensAll items = Token.ofText s) texts groups) :
    tokensAll (conjunction groups) =
      Token.ofText (Text.separated " AND " (texts.map grouped)) := by
  induction h with
  | nil => rfl
  | @cons s items texts groups hfirst hrest ih =>
    obtain ⟨hclosed, htokens⟩ := hfirst
    have hgroup : ∀ t, Token.ofText (grouped s ++ t) =
        .opening :: (tokensAll items ++ .closing :: Token.ofText t) := by
      intro t
      have htext : grouped s ++ t = '(' :: s ++ ')' :: t := by simp [grouped]
      rw [htext, Token.ofText_group hclosed, htokens]
    cases hrest with
    | nil =>
      have hsingle := hgroup []
      rw [List.append_nil] at hsingle
      rw [List.map_singleton, Text.separated, List.intercalate_singleton, hsingle, conjunction,
        List.map_singleton, List.intercalate_singleton, tokensAll, tokensAll, List.append_nil, tokens]
      rfl
    | @cons next nextItems texts groups _ _ =>
      obtain ⟨v, hv⟩ : ∃ v, Text.separated " AND " ((next :: texts).map grouped) = '(' :: v := by
        cases texts with
        | nil => exact ⟨_, rfl⟩
        | cons t texts => exact ⟨_, List.intercalate_cons_cons⟩
      rw [hv] at ih
      rw [List.map_cons, List.map_cons, Text.separated, List.intercalate_cons_cons,
        List.append_assoc, ← Text.separated, ← List.map_cons, hv, hgroup,
        Token.ofText_and, ← ih, conjunction_cons_cons]
      simp [tokensAll, tokens]

/-- Texts between parentheses with `AND` between them are read as one group each. -/
theorem ofText?_conjunction {texts : List Text} {groups : List (List Item)}
    (h : List.Forall₂ (fun s items => Closed s ∧ ofText? s = some items) texts groups) :
    ofText? (Text.separated " AND " (texts.map grouped)) = some (conjunction groups) := by
  have harranged : ∀ items ∈ groups, Arranged items := by
    induction h with
    | nil => simp
    | cons hfirst _ ih =>
      exact List.forall_mem_cons.mpr ⟨(ofText?_eq_some_iff.mp hfirst.2).2, ih⟩
  exact ofText?_eq_some_iff.mpr ⟨tokensAll_conjunction (h.imp fun s items hs =>
    ⟨hs.1, (ofText?_eq_some_iff.mp hs.2).1⟩), arranged_conjunction harranged⟩

end Item

end TwinGraph
